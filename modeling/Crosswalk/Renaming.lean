import Crosswalk.Manifest
import Crosswalk.Outcome
import Crosswalk.Rules.RuleSet

namespace Crosswalk

/-- Whole words and their replacements, in ascending order of the words. A pattern library may
refuse a pattern of very many words, and files would go without renaming then; here every pattern is
accepted. -/
structure Renaming where
  entries : List (String × String)

namespace Renaming

/-- Names of basic types are not renamed. -/
def ofManifest (rules : RuleSet) (m : Manifest) : Renaming :=
  ⟨m.renames.filter fun e => !rules.isPrimitive e.1 && !rules.isPrimitive e.2⟩

def isEmpty (r : Renaming) : Bool := r.entries.isEmpty

def target? (r : Renaming) (word : String) : Option String := r.entries.lookup word

/-- Longer words come first, so that a word is preferred to its own beginning. -/
def precedes (a b : String) : Bool :=
  b.utf8ByteSize < a.utf8ByteSize || (a.utf8ByteSize == b.utf8ByteSize && a ≤ b)

def words (r : Renaming) : List String := (r.entries.map (·.1)).mergeSort precedes

def pattern (r : Renaming) : Pattern := Spelling.wholeWord (Pattern.texts r.words)

def replacement (r : Renaming) (m : Match) : List Char :=
  match r.target? (String.ofList m.text) with
  | some target => target.toList
  | none => m.text

def apply (r : Renaming) (s : List Char) : List Char :=
  if r.isEmpty then s else r.pattern.replaceAll r.replacement s

def count (r : Renaming) (s : List Char) : Nat :=
  if r.isEmpty then 0
  else ((r.pattern.findAll s).filter fun m => (r.target? (String.ofList m.text)).isSome).length

end Renaming

namespace Unified

structure Report where
  filesChanged : Nat
  renamesApplied : Nat
deriving DecidableEq, Repr

def chars (rules : RuleSet) (r : Renaming) (s : List Char) : List Char :=
  rules.spellPrimitives (r.apply s)

def content (d : Direction) (m : Manifest) (s : String) : String :=
  String.ofList (chars d.rules (Renaming.ofManifest d.rules m) s.toList)

def file (d : Direction) (m : Manifest) (f : Converted) : Converted :=
  if f.placeholder then f else { f with content := content d m f.content }

def files (d : Direction) (m : Manifest) (fs : List Converted) : List Converted :=
  fs.map (file d m)

def report (d : Direction) (m : Manifest) (fs : List Converted) : Report :=
  let open_ := fs.filter (!·.placeholder)
  ⟨(open_.filter fun f => content d m f.content != f.content).length,
    open_.foldr (fun f n => (Renaming.ofManifest d.rules m).count f.content.toList + n) 0⟩

end Unified

end Crosswalk
