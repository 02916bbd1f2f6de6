import Crosswalk.Proofs.Names.Recording
import Crosswalk.Proofs.Names.Scanner

namespace Crosswalk

/-- A file to be recorded: its source, the candidate, and where that goes. -/
structure Note where
  source : String
  candidate : String
  path : String

namespace Manifest

def ofNotes (notes : List Note) : Manifest :=
  notes.foldl (fun m n => (m.record n.source n.candidate n.path).1) empty

structure WellNamed (m : Manifest) : Prop where
  names : ∀ name target, m.symbols.get? name = some target →
    Rules.IsTypeName name ∧ Rules.IsTypeName target
  defined : ∀ name target, m.symbols.get? name = some target → m.isDefined target = true

theorem WellNamed.record {m : Manifest} (h : m.WellNamed) (source candidate path : String) :
    (m.record source candidate path).1.WellNamed := by
  have hsymbols {name target : String}
      (hmapped : (m.record source candidate path).1.symbols.get? name = some target) :
      m.symbols.get? name = some target ∨
        Rules.declaredType? source = some name ∧ Rules.declaredType? candidate = some target := by
    rw [record_symbols, Option.or_eq_some_iff] at hmapped
    rcases hmapped with hold | ⟨-, hnew⟩
    · exact .inl hold
    · split at hnew
      · next hsource => exact .inr ⟨hsource, hnew⟩
      · cases hnew
  refine ⟨fun name target hmapped => ?_, fun name target hmapped => ?_⟩
  · rcases hsymbols hmapped with hold | ⟨hsource, hcandidate⟩
    · exact h.names name target hold
    · exact ⟨Rules.declaredType?_isTypeName hsource, Rules.declaredType?_isTypeName hcandidate⟩
  · rw [isDefined_record]
    exact (hsymbols hmapped).imp (h.defined name target) And.right

theorem empty_wellNamed : empty.WellNamed :=
  ⟨fun _ _ h => (by cases h), fun _ _ h => (by cases h)⟩

theorem ofNotes_wellNamed (notes : List Note) : (ofNotes notes).WellNamed := by
  have hfold {m : Manifest} (hm : m.WellNamed) :
      (notes.foldl (fun m n => (m.record n.source n.candidate n.path).1) m).WellNamed := by
    induction notes generalizing m with
    | nil => exact hm
    | cons n notes ih => exact ih (hm.record n.source n.candidate n.path)
  exact hfold empty_wellNamed

end Manifest

end Crosswalk
