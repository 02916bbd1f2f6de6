import Crosswalk.Rules.Reply
import Crosswalk.Rules.RuleSet
import Crosswalk.Text.Search

namespace Crosswalk.Candidate

def dropFences (s : List Char) : List Char := Rules.codeFence.replaceAll (fun _ => []) s

def fromAnchor? (rules : RuleSet) (s : List Char) : Option (List Char) :=
  (rules.codeAnchor.find? s).map (·.start.after)

/-- The first line with something on it decides whether a tail is code. -/
def readsAsCode (tail : List Char) : Bool :=
  match ((Text.lines tail).map Text.trim).find? (!·.isEmpty) with
  | some line => Rules.codeLikeLine.occursIn line
  | none => false

def dropEpilogue (s : List Char) : List Char :=
  match Text.splitAfterLast? '\x7d' s with
  | none => s
  | some (code, tail) => if Text.allBlank tail || readsAsCode tail then s else code

def ofChars (rules : RuleSet) (answer : List Char) : List Char :=
  match fromAnchor? rules (dropFences answer) with
  | none => []
  | some body => Text.trim (Rule.applyAll rules.cleanup (dropEpilogue body))

/-- Code fences go, then everything before the first line that starts code, then prose after the
last closing brace; what is left is cleaned up and trimmed. -/
def ofAnswer (d : Direction) (answer : String) : String :=
  String.ofList (ofChars d.rules answer.toList)

end Crosswalk.Candidate
