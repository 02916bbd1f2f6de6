import Crosswalk.Fault
import Crosswalk.Language
import Crosswalk.Outcome
import Crosswalk.Rules.Reply
import Crosswalk.Text.Search
import Crosswalk.Work

namespace Crosswalk

structure Checker (σ : Type) where
  name : String
  check : (code shadow : String) → (target : Language) → Work σ (Except OracleFault Verdict)

namespace Checker

/-- Everything passes but the empty candidate. -/
def acceptAll {σ : Type} : Checker σ where
  name := "accept-all"
  check code _ _ :=
    .done (.ok (if Text.allBlank code.toList then .failed "empty candidate" else .passed))

end Checker

namespace Tolerance

def saidLines (diagnostic : List Char) : List (List Char) :=
  ((Text.lines diagnostic).map Text.trim).filter (!·.isEmpty)

def isErrorLine (line : List Char) : Bool :=
  Text.contains "error".toList (line.map Text.asciiLower)

def relevantLines (diagnostic : List Char) : List (List Char) :=
  let said := saidLines diagnostic
  let errors := said.filter isErrorLine
  if errors.isEmpty then said else errors

def moduleOnly (diagnostic : String) : Bool :=
  let relevant := relevantLines diagnostic.toList
  !relevant.isEmpty && relevant.all Rules.moduleNotFound.occursIn

end Tolerance

/-- A failure that is only about missing modules counts as passed. -/
def Verdict.tolerated (v : Verdict) : Verdict :=
  match v.diagnostic with
  | some diagnostic => if !v.success && Tolerance.moduleOnly diagnostic then .passed else v
  | none => v

end Crosswalk
