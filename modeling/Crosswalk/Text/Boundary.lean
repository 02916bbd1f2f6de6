import Crosswalk.Text.Utf8

namespace Crosswalk.Text

def utf8 (s : List Char) : Bytes := s.flatMap String.utf8EncodeChar

def isContinuation (b : UInt8) : Bool := 0x80 ≤ b.toNat && b.toNat < 0xC0

def beginsAt (bytes : Bytes) (i : Nat) : Bool :=
  match bytes[i]? with
  | some b => !isContinuation b
  | none => i == bytes.length

def isBoundaryAt (bytes : Bytes) (i : Nat) : Bool := i == 0 || beginsAt bytes i

theorem isContinuation_ofNat {n : Nat} (h : n < 256) :
    isContinuation (UInt8.ofNat n) = (decide (0x80 ≤ n) && decide (n < 0xC0)) := by
  rw [isContinuation, UInt8.toNat_ofNat', Nat.mod_eq_of_lt h]

/-- The first byte of a character begins it, and all others go on with it. -/
theorem utf8EncodeChar_bytes (c : Char) : ∃ b rest, String.utf8EncodeChar c = b :: rest ∧
    isContinuation b = false ∧ rest.all isContinuation = true := by
  have hvalid : c.toNat < 0x110000 := by
    rcases c.valid with h | h
    · exact Nat.lt_trans h (by decide)
    · exact h.2
  have htail (n : Nat) : isContinuation (UInt8.ofNat (n % 64 + 128)) = true := by
    rw [isContinuation_ofNat (by omega), Bool.and_eq_true, decide_eq_true_eq, decide_eq_true_eq]
    omega
  have hhead {n : Nat} (hn : n < 256) (h : n < 0x80 ∨ 0xC0 ≤ n) :
      isContinuation (UInt8.ofNat n) = false := by
    rw [isContinuation_ofNat hn, Bool.and_eq_false_iff, decide_eq_false_iff_not,
      decide_eq_false_iff_not]
    omega
  rw [utf8EncodeChar_eq]
  split
  · exact ⟨_, [], rfl, hhead (by omega) (by omega), rfl⟩
  · split
    · refine ⟨_, _, rfl, hhead (by omega) (by omega), ?_⟩
      simp only [List.all_cons, htail, List.all_nil, Bool.and_true]
    · split
      · refine ⟨_, _, rfl, hhead (by omega) (by omega), ?_⟩
        simp only [List.all_cons, htail, List.all_nil, Bool.and_true]
      · refine ⟨_, _, rfl, hhead (by omega) (by omega), ?_⟩
        simp only [List.all_cons, htail, List.all_nil, Bool.and_true]

theorem utf8_cons (c : Char) (s : List Char) :
    utf8 (c :: s) = String.utf8EncodeChar c ++ utf8 s := List.flatMap_cons

theorem length_utf8_cons (c : Char) (s : List Char) :
    (utf8 (c :: s)).length = c.utf8Size + (utf8 s).length := by
  rw [utf8_cons, List.length_append, String.length_utf8EncodeChar]

theorem beginsAt_zero (s : List Char) : beginsAt (utf8 s) 0 = true := by
  cases s with
  | nil => rfl
  | cons c s =>
    obtain ⟨b, rest, hbytes, hb, -⟩ := utf8EncodeChar_bytes c
    rw [beginsAt, utf8_cons, hbytes]
    simp [hb]

theorem isBoundaryAt_utf8 (s : List Char) (i : Nat) :
    isBoundaryAt (utf8 s) i = beginsAt (utf8 s) i := by
  cases i with
  | zero => exact (beginsAt_zero s).symm
  | succ i => rfl

section Cons

variable {c : Char} {i : Nat}

theorem isBoundaryAt_inside (hpos : 0 < i) (h : i < c.utf8Size) (s : List Char) :
    isBoundaryAt (utf8 (c :: s)) i = false := by
  obtain ⟨b, rest, hbytes, -, hrest⟩ := utf8EncodeChar_bytes c
  obtain ⟨i, rfl⟩ := Nat.exists_eq_succ_of_ne_zero (Nat.ne_of_gt hpos)
  have hi : i < rest.length := by
    have hlength := String.length_utf8EncodeChar c
    rw [hbytes, List.length_cons] at hlength
    omega
  have hget : (utf8 (c :: s))[i + 1]? = some rest[i] := by
    rw [utf8_cons, hbytes, List.cons_append, List.getElem?_cons_succ,
      List.getElem?_append_left hi, List.getElem?_eq_getElem hi]
  rw [isBoundaryAt_utf8, beginsAt, hget]
  simp [List.all_eq_true.1 hrest rest[i] (List.getElem_mem hi)]

theorem isBoundaryAt_behind (h : c.utf8Size ≤ i) (s : List Char) :
    isBoundaryAt (utf8 (c :: s)) i = isBoundaryAt (utf8 s) (i - c.utf8Size) := by
  have hget : (utf8 (c :: s))[i]? = (utf8 s)[i - c.utf8Size]? := by
    have hlength := String.length_utf8EncodeChar c
    rw [utf8_cons, List.getElem?_append_right (by omega), hlength]
  have hend : (i == (utf8 (c :: s)).length) = (i - c.utf8Size == (utf8 s).length) := by
    rw [length_utf8_cons, Bool.eq_iff_iff, beq_iff_eq, beq_iff_eq]
    omega
  rw [isBoundaryAt_utf8, isBoundaryAt_utf8, beginsAt, beginsAt, hget, hend]

theorem isBoundaryAt_cons {s : List Char} (h : isBoundaryAt (utf8 (c :: s)) i = true) :
    i = 0 ∨ c.utf8Size ≤ i ∧ isBoundaryAt (utf8 s) (i - c.utf8Size) = true := by
  by_cases hsize : c.utf8Size ≤ i
  · rw [isBoundaryAt_behind hsize] at h
    exact .inr ⟨hsize, h⟩
  · rcases Nat.eq_zero_or_pos i with hzero | hpos
    · exact .inl hzero
    · rw [isBoundaryAt_inside hpos (Nat.lt_of_not_le hsize)] at h
      cases h

end Cons

end Crosswalk.Text
