import Crosswalk.Manifest
import Crosswalk.Project.Summary
import Crosswalk.Proofs.Text.Bounded

namespace Crosswalk

namespace Text

variable {n : Nat} {p s : List Char}

theorem byteLength_eq (s : String) : byteLength s.toList = s.utf8ByteSize := by
  have hlist (l : List Char) : byteLength l = (String.ofList l).utf8ByteSize := by
    induction l with
    | nil => rfl
    | cons c l ih =>
      have happend : String.ofList (c :: l) = String.singleton c ++ String.ofList l := by
        rw [String.singleton_eq_ofList, ← String.ofList_append]
        rfl
      rw [happend, String.utf8ByteSize_append, String.utf8ByteSize_singleton, byteLength, ih]
  rw [hlist, String.ofList_toList]

theorem byteLength_le_takeBytes (h : p <+: s) (hp : byteLength p ≤ n) :
    byteLength p ≤ byteLength (takeBytes n s) := by
  obtain ⟨t, rfl⟩ := h
  rw [takeBytes_append hp, byteLength_append]
  exact Nat.le_add_right _ _

theorem byteLength_takeBytes (h : isBoundaryAt (utf8 s) n = true) :
    byteLength (takeBytes n s) = n := by
  induction s generalizing n with
  | nil =>
    cases n with
    | zero => rfl
    | succ n => cases h
  | cons c s ih =>
    rw [takeBytes]
    obtain rfl | ⟨hsize, hrest⟩ := isBoundaryAt_cons h
    · rw [if_neg (Nat.not_le_of_lt c.utf8Size_pos)]
      rfl
    · rw [if_pos hsize, byteLength, ih hrest]
      omega

/-- A text can be cut where a text that it begins with ends. -/
theorem isBoundaryAt_iff : isBoundaryAt (utf8 s) n = true ↔ ∃ p, p <+: s ∧ byteLength p = n := by
  constructor
  · intro h
    exact ⟨takeBytes n s, takeBytes_isPrefix n s, byteLength_takeBytes h⟩
  · rintro ⟨p, ⟨t, rfl⟩, rfl⟩
    induction p with
    | nil => rfl
    | cons c p ih =>
      rw [List.cons_append, byteLength, isBoundaryAt_behind (Nat.le_add_right _ _),
        Nat.add_sub_cancel_left]
      exact ih

theorem stepBack?_eq (s : List Char) (n : Nat) :
    stepBack? (utf8 s) n = some (byteLength (takeBytes n s)) := by
  obtain ⟨cut, hcut, -, hends, htakes⟩ := stepBack?_utf8 s n
  rw [hcut, ← htakes, byteLength_takeBytes hends]

structure Longest (limit : Nat) (full kept : String) : Prop where
  begins : ∃ rest, full = kept ++ rest
  fits : kept.utf8ByteSize ≤ limit
  longest : ∀ other rest, full = other ++ rest → other.utf8ByteSize ≤ limit →
    other.utf8ByteSize ≤ kept.utf8ByteSize
  boundary : ∀ cut ≤ limit, isBoundaryAt (utf8 full.toList) cut = true → cut ≤ kept.utf8ByteSize

/-- What is shown of a text: all of it, or what is kept of it and dots. A place to cut is found
without a step below the first byte, and no character is cut in two there. -/
structure Excerpt (limit : Nat) (full shown : String) : Prop where
  found : bounded? limit full.toList = some shown.toList
  size : shown.utf8ByteSize ≤ limit + 4
  whole : full.utf8ByteSize ≤ limit → shown = full
  cut : limit < full.utf8ByteSize → ∃ kept, shown = kept ++ "\n..." ∧ Longest limit full kept ∧
    stepBack? (utf8 full.toList) limit = some kept.utf8ByteSize

theorem takeBytes_isLongest (limit : Nat) (full : String) :
    Longest limit full (String.ofList (takeBytes limit full.toList)) := by
  have hsize := byteLength_eq (String.ofList (takeBytes limit full.toList))
  rw [String.toList_ofList] at hsize
  refine ⟨?_, ?_, ?_, ?_⟩
  · obtain ⟨rest, hrest⟩ := takeBytes_isPrefix limit full.toList
    refine ⟨String.ofList rest, ?_⟩
    rw [← String.ofList_append, hrest, String.ofList_toList]
  · rw [← hsize]
    exact byteLength_takeBytes_le limit full.toList
  · rintro other rest rfl hfits
    rw [← hsize, ← byteLength_eq]
    rw [← byteLength_eq] at hfits
    refine byteLength_le_takeBytes ?_ hfits
    rw [String.toList_append]
    exact List.prefix_append _ _
  · intro cut hcut hends
    obtain ⟨p, hp, rfl⟩ := isBoundaryAt_iff.1 hends
    rw [← hsize]
    exact byteLength_le_takeBytes hp hcut

theorem bounded_excerpt (limit : Nat) (full : String) :
    Excerpt limit full (String.ofList (bounded limit full.toList)) := by
  have hdots : byteLength ['\n', '.', '.', '.'] = 4 := rfl
  refine ⟨?_, ?_, ?_, ?_⟩
  · rw [String.toList_ofList, bounded, Option.some_get]
  · rw [← byteLength_eq, String.toList_ofList, bounded_eq]
    split
    · omega
    · have hle := byteLength_takeBytes_le limit full.toList
      rw [byteLength_append, hdots]
      omega
  · intro hfits
    rw [bounded_eq, byteLength_eq, if_pos hfits, String.ofList_toList]
  · intro hover
    refine ⟨String.ofList (takeBytes limit full.toList), ?_, takeBytes_isLongest limit full, ?_⟩
    · rw [bounded_eq, byteLength_eq, if_neg (Nat.not_le_of_lt hover), String.ofList_append]
    · rw [stepBack?_eq, ← byteLength_eq, String.toList_ofList]

example : bounded 2 "aéé".toList = "a\n...".toList := by decide

end Text

namespace Manifest

def unabridged (m : Manifest) : String :=
  if m.isEmpty then "No symbols mapped yet." else m.renderFull

theorem render_eq (m : Manifest) :
    m.render = String.ofList (Text.bounded renderLimit m.unabridged.toList) := by
  rw [render, unabridged]
  split
  · decide
  · rfl

end Manifest

/-- Of the project and of the names an excerpt is shown, whatever there is to say of them. -/
theorem renders_excerpts (s : Summary) (m : Manifest) :
    Text.Excerpt 6000 s.renderFull s.render ∧ Text.Excerpt 4000 m.unabridged m.render := by
  constructor
  · exact Text.bounded_excerpt Summary.renderLimit s.renderFull
  · rw [Manifest.render_eq]
    exact Text.bounded_excerpt Manifest.renderLimit m.unabridged

end Crosswalk
