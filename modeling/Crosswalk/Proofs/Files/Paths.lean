import Crosswalk.Proofs.Files.Places
import Crosswalk.Proofs.Text.Lines

namespace Crosswalk.Tree

theorem segments_injective : Function.Injective segments := by
  intro p q h
  have hlists := List.map_injective_iff.2 (fun _ _ => String.ofList_injective) h
  exact String.toList_injective (Text.splitAtChar_injective '/' hlists)

theorem segments_name {name : String} (h : '/' ∉ name.toList) : segments name = [name] := by
  rw [segments, Text.splitAtChar_free h, List.map_singleton, String.ofList_toList]

theorem segments_slash (p q : String) : segments (p ++ "/" ++ q) = segments p ++ segments q := by
  have hlist : (p ++ "/" ++ q).toList = p.toList ++ '/' :: q.toList := by simp
  rw [segments, hlist, Text.splitAtChar_append, List.map_append]
  rfl

theorem segments_joinPath (directory : String) :
    ∃ start, ∀ path, segments (joinPath directory path) = start ++ segments path := by
  by_cases hempty : directory = ""
  · exact ⟨[], fun path => by simp [joinPath, hempty]⟩
  · by_cases hslash : directory.endsWith "/" = true
    · have hsuffix : "/".toList <:+ directory.toList := by
        rw [String.endsWith_eq_endsWith_toSlice, String.Slice.endsWith_string_iff] at hslash
        simpa using hslash
      obtain ⟨parent, hparent⟩ := hsuffix
      have hdirectory : directory = String.ofList parent ++ "/" :=
        String.toList_injective (by simp [← hparent])
      refine ⟨segments (String.ofList parent), fun path => ?_⟩
      rw [joinPath, if_pos (by simp [hslash]), hdirectory, segments_slash]
    · refine ⟨segments directory, fun path => ?_⟩
      rw [joinPath, if_neg (by simp [hempty, hslash]), segments_slash]

def IsNamed (path : String) : Prop := ∀ s ∈ segments path, isName s = true

theorem apart_joinPath {p q : String} (hp : IsNamed p) (hq : IsNamed q) (hne : p ≠ q)
    (directory : String) : Apart (joinPath directory p) (joinPath directory q) := by
  obtain ⟨start, hstart⟩ := segments_joinPath directory
  have hsome (path : String) : segments path ≠ [] := by
    simpa [segments] using Text.splitAtChar_ne_nil '/' path.toList
  intro t way hplaces hplaces'
  rw [hstart] at hplaces hplaces'
  obtain ⟨base, hbase, rfl⟩ := hplaces.names_after (hsome p) hp
  obtain ⟨base', hbase', hway⟩ := hplaces'.names_after (hsome q) hq
  obtain rfl : base = base' := Except.ok.inj (hbase.symm.trans hbase')
  exact hne (segments_injective (List.append_cancel_left hway))

end Crosswalk.Tree
