import Crosswalk.Text.Boundary

namespace Crosswalk.Text

/-- The last boundary up to here, looked for byte by byte. `none` is a step below the first byte. -/
def stepBack? (bytes : Bytes) : (cut : Nat) → Option Nat
  | 0 => if isBoundaryAt bytes 0 then some 0 else none
  | cut + 1 => if isBoundaryAt bytes (cut + 1) then some (cut + 1) else stepBack? bytes cut

/-- The characters of the first bytes. `none` if the last of them is cut in two. -/
def truncate? : (size : Nat) → List Char → Option (List Char)
  | 0, _ => some []
  | _, [] => some []
  | size, c :: s =>
    if c.utf8Size ≤ size then (truncate? (size - c.utf8Size) s).map (c :: ·) else none

def bounded? (limit : Nat) (s : List Char) : Option (List Char) :=
  if byteLength s ≤ limit then some s
  else do
    let cut ← stepBack? (utf8 s) limit
    let kept ← truncate? cut s
    some (kept ++ ['\n', '.', '.', '.'])

theorem truncate?_boundary {s : List Char} {n : Nat} (h : isBoundaryAt (utf8 s) n = true) :
    truncate? n s = some (takeBytes n s) := by
  induction s generalizing n with
  | nil => cases n <;> rfl
  | cons c s ih =>
    obtain rfl | ⟨hsize, hrest⟩ := isBoundaryAt_cons h
    · have hover : ¬c.utf8Size ≤ 0 := Nat.not_le_of_lt c.utf8Size_pos
      rw [truncate?, takeBytes, if_neg hover]
    · have hpos : n ≠ 0 := Nat.ne_of_gt (Nat.lt_of_lt_of_le c.utf8Size_pos hsize)
      rw [truncate?, if_pos hsize, ih hrest, takeBytes, if_pos hsize, Option.map_some]
      exact hpos

theorem takeBytes_succ {s : List Char} {n : Nat} (h : isBoundaryAt (utf8 s) (n + 1) = false) :
    takeBytes (n + 1) s = takeBytes n s := by
  induction s generalizing n with
  | nil => rfl
  | cons c s ih =>
    rw [takeBytes, takeBytes]
    by_cases hsize : c.utf8Size ≤ n
    · have hrest : n + 1 - c.utf8Size = n - c.utf8Size + 1 := by omega
      rw [isBoundaryAt_behind (Nat.le_succ_of_le hsize), hrest] at h
      rw [if_pos (Nat.le_succ_of_le hsize), if_pos hsize, hrest, ih h]
    · by_cases hend : c.utf8Size = n + 1
      · rw [isBoundaryAt_behind (Nat.le_of_eq hend), hend, Nat.sub_self] at h
        cases h
      · rw [if_neg (by omega), if_neg hsize]

/-- Stepping back ends at the last boundary, and no character is lost on the way. -/
theorem stepBack?_utf8 (s : List Char) (n : Nat) : ∃ cut, stepBack? (utf8 s) n = some cut ∧
    cut ≤ n ∧ isBoundaryAt (utf8 s) cut = true ∧ takeBytes cut s = takeBytes n s := by
  induction n with
  | zero => exact ⟨0, rfl, Nat.le_refl 0, rfl, rfl⟩
  | succ n ih =>
    rw [stepBack?]
    cases hboundary : isBoundaryAt (utf8 s) (n + 1) with
    | true => exact ⟨n + 1, rfl, Nat.le_refl _, hboundary, rfl⟩
    | false =>
      obtain ⟨cut, hcut, hle, hends, htakes⟩ := ih
      exact ⟨cut, hcut, Nat.le_succ_of_le hle, hends, by rw [htakes, takeBytes_succ hboundary]⟩

theorem bounded?_eq (limit : Nat) (s : List Char) : bounded? limit s =
    some (if byteLength s ≤ limit then s else takeBytes limit s ++ ['\n', '.', '.', '.']) := by
  rw [bounded?]
  split
  · rfl
  · obtain ⟨cut, hcut, -, hends, htakes⟩ := stepBack?_utf8 s limit
    rw [hcut, ← htakes]
    exact congrArg (Option.bind · _) (truncate?_boundary hends)

/-- The cut is always found, so there is a text to show. -/
def bounded (limit : Nat) (s : List Char) : List Char :=
  (bounded? limit s).get (by rw [bounded?_eq]; rfl)

theorem bounded_eq (limit : Nat) (s : List Char) : bounded limit s =
    if byteLength s ≤ limit then s else takeBytes limit s ++ ['\n', '.', '.', '.'] := by
  simp only [bounded, bounded?_eq, Option.get_some]

end Crosswalk.Text
