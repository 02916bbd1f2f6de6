import Crosswalk.Candidate
import Crosswalk.Checker.Basic
import Crosswalk.Conversion.Dialogue
import Crosswalk.Conversion.Stage
import Crosswalk.Placeholder

namespace Crosswalk

structure Terms where
  /-- In milliseconds, as all limits. -/
  oracleLimit : Nat := 120000
  checkLimit : Nat := 60000
  maxTokens : Option Nat := none
  modelHints : Table String := Table.empty
  streaming : Bool := false

/-- A conversion that goes on: the failed attempts and the course so far. -/
structure Draft where
  attempts : List Attempt
  course : Course

namespace Draft

def number (d : Draft) : Nat := d.attempts.length + 1

def request (terms : Terms) (j : Job) (d : Draft) : Request where
  messages := Dialogue.messages j d.attempts
  options := .ofResolved j.options terms.modelHints terms.maxTokens

def advance (d : Draft) (next : Stage) : Draft := { d with course := d.course.advance next }

end Draft

structure Outcome where
  result : Converted
  attempts : List Attempt
  course : Course
  recorded : Option Recorded

namespace Outcome

def finalStage (o : Outcome) : Stage := o.course.stage

def transitions (o : Outcome) : List (Stage × Stage) := o.course.transitions

def exhausted (o : Outcome) : Bool := o.finalStage == .exhausted

end Outcome

/-- A conversion waits for an answer, waits for a verdict, or has ended. -/
inductive Conversion where
  | asking (d : Draft)
  | checking (d : Draft) (answer candidate : String)
  | escaped (d : Draft) (fault : OracleFault)
  | ended (o : Outcome)

namespace Conversion

def start : Conversion := .asking ⟨[], Course.start.advance .attempting⟩

def result (j : Job) (content : String) (verified placeholder : Bool) (attempts : Nat) :
    Converted where
  path := j.source.path
  outputPath := j.source.outputPath j.options.direction
  content
  verified
  attempts
  placeholder
  digest := j.source.digest

def givenUp (j : Job) (d : Draft) (fault : OracleFault) : Conversion :=
  let content := Placeholder.render j.source j.options.direction fault.message
  .ended ⟨result j content false true d.number, d.attempts, d.course.advance .exhausted, none⟩

def bestCandidate (attempts : List Attempt) : String :=
  ((attempts.reverse.map (·.candidate)).find? (· != "")).getD ""

def failed (j : Job) (d : Draft) (a : Attempt) : Conversion :=
  let attempts := d.attempts ++ [a]
  if a.number < j.options.maxAttempts then
    .asking ⟨attempts, (d.course.advance .retrying).advance .attempting⟩
  else
    .ended ⟨result j (bestCandidate attempts) false false a.number, attempts,
      d.course.advance .exhausted, none⟩

def noCode (target : Language) : String :=
  "The response contained no " ++ target.name ++ " code. Answer with the code only."

def onAnswer (j : Job) (d : Draft) : Except OracleFault String → Conversion
  | .error fault => if fault.isTransport then givenUp j d fault else .escaped d fault
  | .ok answer =>
    let candidate := Candidate.ofAnswer j.options.direction answer
    let d := d.advance .sanitizing
    if Text.allBlank answer.toList then
      failed j d ⟨d.number, answer, candidate, .failed "The response was empty."⟩
    else if candidate = "" then
      failed j d ⟨d.number, answer, candidate, .failed (noCode j.options.direction.target)⟩
    else .checking (d.advance .validating) answer candidate

/-- An outage of the compiler fails the attempt; its other faults fail the conversion. -/
def judged : Except OracleFault Verdict → Except OracleFault Verdict
  | .ok verdict => .ok verdict.tolerated
  | .error fault =>
    if fault.isTransport then .ok (.failed ("Compiler oracle unavailable: " ++ fault.message))
    else .error fault

def verified (j : Job) (d : Draft) (a : Attempt) (m : Manifest) : Conversion × Manifest :=
  let result := result j a.candidate true false a.number
  let (m, recorded) := m.record j.source.content a.candidate result.outputPath
  (.ended ⟨result, d.attempts ++ [a], d.course.advance .verified, some recorded⟩, m)

def onVerdict (j : Job) (d : Draft) (answer candidate : String) (m : Manifest)
    (verdict : Except OracleFault Verdict) : Conversion × Manifest :=
  match judged verdict with
  | .error fault => (.escaped d fault, m)
  | .ok verdict =>
    let a : Attempt := ⟨d.number, answer, candidate, verdict⟩
    if verdict.success then verified j d a m else (failed j d a, m)

end Conversion

end Crosswalk
