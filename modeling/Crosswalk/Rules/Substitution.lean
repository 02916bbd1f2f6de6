import Crosswalk.Pattern.Scan

namespace Crosswalk

inductive TemplatePart where
  | text (s : String)
  | group (index : Nat)

namespace TemplatePart

/-- A group that took no part is empty. -/
def expand (m : Match) : TemplatePart → List Char
  | .text s => s.toList
  | .group i => (m.group? i).getD []

end TemplatePart

inductive RuleAction where
  | remove
  | replace (template : List TemplatePart)

structure Rule where
  name : String
  pattern : Pattern
  action : RuleAction

namespace Rule

def replacement (r : Rule) (m : Match) : List Char :=
  match r.action with
  | .remove => []
  | .replace template => template.flatMap (·.expand m)

def apply (r : Rule) (s : List Char) : List Char := r.pattern.replaceAll r.replacement s

def applyAll (rules : List Rule) (s : List Char) : List Char := rules.foldl (fun s r => r.apply s) s

end Rule

structure Spelling where
  name : String
  foreign : String
  native : String

namespace Spelling

def wholeWord (p : Pattern) : Pattern := Pattern.sequence [.boundary, p, .boundary]

def rule (s : Spelling) : Rule where
  name := s.name
  pattern := wholeWord (Pattern.text s.foreign)
  action := .replace [.text s.native]

def mentions (s : Spelling) (name : String) : Bool :=
  s.rule.pattern.occursIn name.toList || s.native == name

end Spelling

end Crosswalk
