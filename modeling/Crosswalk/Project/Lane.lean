import Crosswalk.Names.Table
import Crosswalk.Rules.Vocabulary
import Crosswalk.Source

namespace Crosswalk

inductive Lane where
  | sequential
  | parallel
deriving DecidableEq, Repr

namespace Lane

def builtinThreshold : Nat := 2

def hits (vocabulary : List String) (s : String) : List String :=
  let lowered := Text.keywordLower s.toList
  vocabulary.filter fun word => Text.contains word.toList lowered

/-- Two for each word in the path, one for each word in the content. -/
def score (s : Source) : Nat :=
  2 * (hits Rules.pathKeywords s.path).length + (hits Rules.contentKeywords s.content).length

def ofSource (threshold : Nat) (s : Source) : Lane :=
  if threshold ≤ score s then .sequential else .parallel

end Lane

structure Lanes where
  sequential : List Source
  parallel : List Source
  scores : Table Nat

namespace Lanes

def empty : Lanes := ⟨[], [], Table.empty⟩

def add (threshold : Nat) (l : Lanes) (file : Source) : Lanes :=
  let score := Lane.score file
  let scores := l.scores.put file.path score
  if threshold ≤ score then { l with sequential := l.sequential ++ [file], scores }
  else { l with parallel := l.parallel ++ [file], scores }

def ofSources (threshold : Nat) (files : List Source) : Lanes := files.foldl (add threshold) empty

def total (l : Lanes) : Nat := l.sequential.length + l.parallel.length

end Lanes

end Crosswalk
