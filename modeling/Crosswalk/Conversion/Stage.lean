namespace Crosswalk

inductive Stage where
  | pending
  | attempting
  | sanitizing
  | validating
  | retrying
  | verified
  | exhausted
deriving DecidableEq, Repr

namespace Stage

def name : Stage → String
  | .pending => "Pending"
  | .attempting => "Attempting"
  | .sanitizing => "Sanitizing"
  | .validating => "Validating"
  | .retrying => "Retrying"
  | .verified => "Verified"
  | .exhausted => "Exhausted"

def all : List Stage :=
  [pending, attempting, sanitizing, validating, retrying, verified, exhausted]

def tags : List (String × Stage) := all.map fun s => (s.name, s)

def isTerminal : Stage → Bool
  | .verified | .exhausted => true
  | _ => false

def next : Stage → List Stage
  | .pending => [attempting]
  | .attempting => [sanitizing, exhausted]
  | .sanitizing => [validating, retrying, exhausted]
  | .validating => [verified, retrying, exhausted]
  | .retrying => [attempting]
  | .verified => []
  | .exhausted => []

def leadsTo (s t : Stage) : Bool := s.next.contains t

end Stage

/-- Where a conversion stands, and the transitions that took it there. -/
structure Course where
  stage : Stage
  transitions : List (Stage × Stage)

namespace Course

def start : Course := ⟨.pending, []⟩

def advance (c : Course) (next : Stage) : Course := ⟨next, c.transitions ++ [(c.stage, next)]⟩

@[simp]
theorem advance_stage (c : Course) (next : Stage) : (c.advance next).stage = next := rfl

@[simp]
theorem advance_transitions (c : Course) (next : Stage) :
    (c.advance next).transitions = c.transitions ++ [(c.stage, next)] := rfl

end Course

end Crosswalk
