import Mathlib
import Crosswalk.Text.Utf8

namespace Crosswalk.Text

theorem byteArray_toList (bytes : ByteArray) : bytes.toList = bytes.data.toList := by
  have hloop (i : Nat) (front : List UInt8) : ByteArray.toList.loop bytes i front
      = front.reverse ++ bytes.data.toList.drop i := by
    induction h : bytes.size - i generalizing i front with
    | zero =>
      have hsize : bytes.data.toList.length ≤ i := by
        rw [Array.length_toList]
        exact Nat.sub_eq_zero_iff_le.1 h
      rw [ByteArray.toList.loop, if_neg (by omega), List.drop_eq_nil_of_le hsize, List.append_nil]
    | succ n ih =>
      have hlt : i < bytes.data.toList.length := by
        rw [Array.length_toList]
        exact (show i < bytes.size by omega)
      have hget : bytes.get! i = bytes.data.toList[i] := by
        change bytes.data[i]! = _
        rw [getElem!_pos bytes.data i (by simpa using hlt), Array.getElem_toList]
      rw [ByteArray.toList.loop, if_pos (by omega), ih (i + 1) _ (by omega),
        List.drop_eq_getElem_cons hlt, hget, List.reverse_cons, List.append_assoc]
      rfl
  exact hloop 0 []

theorem toBytes_eq (s : String) : toBytes s = s.toList.flatMap String.utf8EncodeChar := by
  rw [toBytes, String.toUTF8, ← String.utf8Encode_toList, byteArray_toList, List.utf8Encode,
    List.toList_data_toByteArray]

section Decode

variable {b owed low high bits : Nat}

theorem decodeFrom_more (howed : 1 < owed) (hb : b < 256) (hlow : low ≤ b) (hhigh : b ≤ high)
    (rest : Bytes) : decodeFrom (some ⟨owed, low, high, bits⟩) (UInt8.ofNat b :: rest)
      = decodeFrom (some ⟨owed - 1, 0x80, 0xBF, bits * 64 + (b - 0x80)⟩) rest := by
  have hnat : (UInt8.ofNat b).toNat = b := by simpa using hb
  rw [decodeFrom, hnat, if_pos ⟨hlow, hhigh⟩]
  exact if_neg (by simpa using howed)

theorem decodeFrom_last (hb : b < 256) (hlow : low ≤ b) (hhigh : b ≤ high) (rest : Bytes) :
    decodeFrom (some ⟨1, low, high, bits⟩) (UInt8.ofNat b :: rest)
      = some (Char.ofNat (bits * 64 + (b - 0x80))) :: decodeFrom none rest := by
  have hnat : (UInt8.ofNat b).toNat = b := by simpa using hb
  rw [decodeFrom, hnat, if_pos ⟨hlow, hhigh⟩]
  rfl

theorem decodeFrom_lead (howed : 0 < owed) (hb : b < 256)
    (hlead : leadByte? b = some (owed, low, high, bits)) (rest : Bytes) :
    decodeFrom none (UInt8.ofNat b :: rest) = decodeFrom (some ⟨owed, low, high, bits⟩) rest := by
  have hnat : (UInt8.ofNat b).toNat = b := by simpa using hb
  obtain ⟨owed, rfl⟩ := Nat.exists_eq_add_of_lt howed
  rw [decodeFrom, decodeFrom.start, hnat, hlead]
  rfl

end Decode

theorem leadByte?_three {v : Nat} (hlow : 0x7FF < v) (hhigh : v ≤ 0xFFFF)
    (hvalid : v < 0xD800 ∨ 0xDFFF < v) : ∃ low high,
      leadByte? (v / 4096 % 16 + 224) = some (2, low, high, v / 4096) ∧
        low ≤ v / 64 % 64 + 128 ∧ v / 64 % 64 + 128 ≤ high := by
  unfold leadByte?
  rw [if_neg (by omega), if_neg (by omega)]
  split
  · exact ⟨0xA0, 0xBF, by rw [show v / 4096 = 0 by omega], by omega, by omega⟩
  · split
    · exact ⟨0x80, 0x9F, by rw [show v / 4096 = 0xD by omega], by omega, by omega⟩
    · rw [if_pos (by omega)]
      exact ⟨0x80, 0xBF, by rw [show v / 4096 % 16 + 224 - 0xE0 = v / 4096 by omega], by omega,
        by omega⟩

theorem leadByte?_four {v : Nat} (hlow : 0xFFFF < v) (hhigh : v < 0x110000) : ∃ low high,
    leadByte? (v / 262144 % 8 + 240) = some (3, low, high, v / 262144) ∧
      low ≤ v / 4096 % 64 + 128 ∧ v / 4096 % 64 + 128 ≤ high := by
  unfold leadByte?
  rw [if_neg (by omega), if_neg (by omega), if_neg (by omega), if_neg (by omega),
    if_neg (by omega)]
  split
  · exact ⟨0x90, 0xBF, by rw [show v / 262144 = 0 by omega], by omega, by omega⟩
  · split
    · exact ⟨0x80, 0xBF, by rw [show v / 262144 % 8 + 240 - 0xF0 = v / 262144 by omega], by omega,
        by omega⟩
    · rw [if_pos (by omega)]
      exact ⟨0x80, 0x8F, by rw [show v / 262144 = 4 by omega], by omega, by omega⟩

theorem decodeFrom_utf8EncodeChar (c : Char) (rest : Bytes) :
    decodeFrom none (String.utf8EncodeChar c ++ rest) = some c :: decodeFrom none rest := by
  have hvalid : c.toNat < 0xD800 ∨ (0xDFFF < c.toNat ∧ c.toNat < 0x110000) := c.valid
  have hchar {bits : Nat} (h : bits = c.toNat) :
      some (Char.ofNat bits) :: decodeFrom none rest = some c :: decodeFrom none rest := by
    rw [h, Char.ofNat_toNat]
  rw [utf8EncodeChar_eq]
  split
  · next h =>
    have hnat : (UInt8.ofNat c.toNat).toNat = c.toNat := by
      rw [UInt8.toNat_ofNat']
      omega
    have hlead : leadByte? c.toNat = some (0, 0x80, 0xBF, c.toNat) := if_pos (by omega)
    rw [List.singleton_append, decodeFrom, decodeFrom.start, hnat, hlead]
    exact hchar rfl
  · split
    · next h =>
      have hlead : leadByte? (c.toNat / 64 % 32 + 192) = some (1, 0x80, 0xBF, c.toNat / 64) := by
        rw [leadByte?, if_neg (by omega), if_pos (by omega),
          show c.toNat / 64 % 32 + 192 - 0xC0 = c.toNat / 64 by omega]
      rw [List.cons_append, decodeFrom_lead (by decide) (by omega) hlead, List.singleton_append,
        decodeFrom_last (by omega) (by omega) (by omega)]
      exact hchar (by omega)
    · split
      · next h =>
        obtain ⟨low, high, hlead, hlow, hhigh⟩ :=
          leadByte?_three (v := c.toNat) (by omega) h (by omega)
        rw [List.cons_append, decodeFrom_lead (by decide) (by omega) hlead, List.cons_append,
          decodeFrom_more (by decide) (by omega) hlow hhigh, List.singleton_append,
          decodeFrom_last (by omega) (by omega) (by omega)]
        exact hchar (by omega)
      · next h =>
        obtain ⟨low, high, hlead, hlow, hhigh⟩ :=
          leadByte?_four (v := c.toNat) (by omega) (by omega)
        rw [List.cons_append, decodeFrom_lead (by decide) (by omega) hlead, List.cons_append,
          decodeFrom_more (by decide) (by omega) hlow hhigh, List.cons_append,
          decodeFrom_more (by decide) (by omega) (by omega) (by omega), List.singleton_append,
          decodeFrom_last (by omega) (by omega) (by omega)]
        exact hchar (by omega)

theorem decode_flatMap (s : List Char) : decode (s.flatMap String.utf8EncodeChar) = s.map some := by
  induction s with
  | nil => simp [decode, decodeFrom]
  | cons c s ih =>
    rw [List.flatMap_cons, decode, decodeFrom_utf8EncodeChar, List.map_cons, ← ih]
    rfl

theorem ofBytes?_toBytes (s : String) : ofBytes? (toBytes s) = some s := by
  simp [ofBytes?, toBytes_eq, decode_flatMap]

/-- What a first byte promises, by the number of bytes that follow. -/
theorem leadByte?_some {b owed low high bits : Nat}
    (h : leadByte? b = some (owed, low, high, bits)) :
    (owed = 0 ∧ b < 0x80 ∧ bits = b) ∨
    (owed = 1 ∧ 0xC2 ≤ b ∧ b ≤ 0xDF ∧ 0x80 ≤ low ∧ high ≤ 0xBF ∧ bits = b - 0xC0) ∨
    (owed = 2 ∧ 0xE0 ≤ b ∧ b ≤ 0xEF ∧ 0x80 ≤ low ∧ high ≤ 0xBF ∧ bits = b - 0xE0 ∧
      (b = 0xE0 → 0xA0 ≤ low) ∧ (b = 0xED → high ≤ 0x9F)) ∨
    (owed = 3 ∧ 0xF0 ≤ b ∧ b ≤ 0xF4 ∧ 0x80 ≤ low ∧ high ≤ 0xBF ∧ bits = b - 0xF0 ∧
      (b = 0xF0 → 0x90 ≤ low) ∧ (b = 0xF4 → high ≤ 0x8F)) := by
  unfold leadByte? at h
  repeat' split at h
  all_goals
    simp only [Option.some.injEq, Prod.mk.injEq, reduceCtorEq] at h
    try omega

theorem ofNat_eq {n : Nat} {b : UInt8} (h : n = b.toNat) : UInt8.ofNat n = b := by
  rw [h, UInt8.ofNat_toNat]

theorem encode_one {a : UInt8} (ha : a.toNat < 0x80) :
    String.utf8EncodeChar (Char.ofNat a.toNat) = [a] := by
  have hv : (Char.ofNat a.toNat).toNat = a.toNat := by
    rw [Char.toNat_ofNat, if_pos (Or.inl (by omega))]
  rw [utf8EncodeChar_eq, hv, if_pos (by omega), UInt8.ofNat_toNat]

theorem encode_two {a b : UInt8} (ha : 0xC2 ≤ a.toNat) (ha' : a.toNat ≤ 0xDF)
    (hb : 0x80 ≤ b.toNat) (hb' : b.toNat ≤ 0xBF) :
    String.utf8EncodeChar (Char.ofNat ((a.toNat - 0xC0) * 64 + (b.toNat - 0x80))) = [a, b] := by
  generalize hbits : (a.toNat - 0xC0) * 64 + (b.toNat - 0x80) = v
  have hv : (Char.ofNat v).toNat = v := by
    rw [Char.toNat_ofNat, if_pos (Or.inl (by omega))]
  rw [utf8EncodeChar_eq, hv, if_neg (by omega), if_pos (by omega), ofNat_eq (b := a) (by omega),
    ofNat_eq (b := b) (by omega)]

theorem encode_three {a b c : UInt8} (ha : 0xE0 ≤ a.toNat) (ha' : a.toNat ≤ 0xEF)
    (hb : 0x80 ≤ b.toNat) (hb' : b.toNat ≤ 0xBF) (hlow : a.toNat = 0xE0 → 0xA0 ≤ b.toNat)
    (hhigh : a.toNat = 0xED → b.toNat ≤ 0x9F) (hc : 0x80 ≤ c.toNat) (hc' : c.toNat ≤ 0xBF) :
    String.utf8EncodeChar (Char.ofNat
      (((a.toNat - 0xE0) * 64 + (b.toNat - 0x80)) * 64 + (c.toNat - 0x80))) = [a, b, c] := by
  generalize hbits : ((a.toNat - 0xE0) * 64 + (b.toNat - 0x80)) * 64 + (c.toNat - 0x80) = v
  have hv : (Char.ofNat v).toNat = v := by
    rw [Char.toNat_ofNat, if_pos (show v < 0xD800 ∨ _ by omega)]
  rw [utf8EncodeChar_eq, hv, if_neg (by omega), if_neg (by omega), if_pos (by omega),
    ofNat_eq (b := a) (by omega), ofNat_eq (b := b) (by omega), ofNat_eq (b := c) (by omega)]

theorem encode_four {a b c d : UInt8} (ha : 0xF0 ≤ a.toNat) (ha' : a.toNat ≤ 0xF4)
    (hb : 0x80 ≤ b.toNat) (hb' : b.toNat ≤ 0xBF) (hlow : a.toNat = 0xF0 → 0x90 ≤ b.toNat)
    (hhigh : a.toNat = 0xF4 → b.toNat ≤ 0x8F) (hc : 0x80 ≤ c.toNat) (hc' : c.toNat ≤ 0xBF)
    (hd : 0x80 ≤ d.toNat) (hd' : d.toNat ≤ 0xBF) :
    String.utf8EncodeChar (Char.ofNat
      ((((a.toNat - 0xF0) * 64 + (b.toNat - 0x80)) * 64 + (c.toNat - 0x80)) * 64
        + (d.toNat - 0x80))) = [a, b, c, d] := by
  generalize hbits : (((a.toNat - 0xF0) * 64 + (b.toNat - 0x80)) * 64 + (c.toNat - 0x80)) * 64
    + (d.toNat - 0x80) = v
  have hv : (Char.ofNat v).toNat = v := by
    rw [Char.toNat_ofNat, if_pos (show v < 0xD800 ∨ _ by omega)]
  rw [utf8EncodeChar_eq, hv, if_neg (by omega), if_neg (by omega), if_neg (by omega),
    ofNat_eq (b := a) (by omega), ofNat_eq (b := b) (by omega), ofNat_eq (b := c) (by omega),
    ofNat_eq (b := d) (by omega)]

theorem decodeFrom_owed {owed low high bits : Nat} {bytes : Bytes} {ch : Char}
    {chars : List (Option Char)}
    (h : decodeFrom (some ⟨owed, low, high, bits⟩) bytes = some ch :: chars) :
    ∃ b rest, bytes = b :: rest ∧ low ≤ b.toNat ∧ b.toNat ≤ high ∧
      (owed ≤ 1 → ch = Char.ofNat (bits * 64 + (b.toNat - 0x80)) ∧ decodeFrom none rest = chars) ∧
      (1 < owed → decodeFrom (some ⟨owed - 1, 0x80, 0xBF, bits * 64 + (b.toNat - 0x80)⟩) rest
        = some ch :: chars) := by
  cases bytes with
  | nil => simp [decodeFrom] at h
  | cons b rest =>
    rw [decodeFrom] at h
    split at h
    · next hbounds =>
      refine ⟨b, rest, rfl, hbounds.1, hbounds.2, fun howed => ?_, fun howed => ?_⟩
      · simp only [if_pos howed, List.cons.injEq, Option.some.injEq] at h
        exact ⟨h.1.symm, h.2⟩
      · simpa only [if_neg (Nat.not_le_of_lt howed)] using h
    · simp at h

theorem decodeFrom_char {bytes : Bytes} {ch : Char} {chars : List (Option Char)}
    (h : decodeFrom none bytes = some ch :: chars) :
    ∃ rest, bytes = String.utf8EncodeChar ch ++ rest ∧ decodeFrom none rest = chars := by
  cases bytes with
  | nil => simp [decodeFrom] at h
  | cons a rest =>
    rw [decodeFrom, decodeFrom.start] at h
    split at h
    · simp at h
    · next low high bits hlead =>
      obtain ⟨ha, rfl⟩ : a.toNat < 0x80 ∧ bits = a.toNat := by
        have hfirst := leadByte?_some hlead
        omega
      obtain ⟨rfl, hrest⟩ : Char.ofNat a.toNat = ch ∧ decodeFrom none rest = chars := by
        simpa using h
      exact ⟨rest, by rw [encode_one ha]; rfl, hrest⟩
    · next owed low high bits hzero hlead =>
      obtain ⟨b, rest, rfl, hb, hb', hlast, hmore⟩ := decodeFrom_owed h
      rcases leadByte?_some hlead with ⟨rfl, -⟩ | ⟨rfl, ha, ha', hlow, hhigh, hbits⟩ |
        ⟨rfl, ha, ha', hlow, hhigh, hbits, hfirst, hlastRow⟩ |
        ⟨rfl, ha, ha', hlow, hhigh, hbits, hfirst, hlastRow⟩
      · exact absurd rfl hzero
      · obtain ⟨hch, hrest⟩ := hlast (by decide)
        refine ⟨rest, ?_, hrest⟩
        rw [hch, hbits, encode_two ha ha' (by omega) (by omega)]
        rfl
      · obtain ⟨c, rest, rfl, hc, hc', hlast, -⟩ := decodeFrom_owed (hmore (by decide))
        obtain ⟨hch, hrest⟩ := hlast (by decide)
        refine ⟨rest, ?_, hrest⟩
        rw [hch, hbits, encode_three ha ha' (by omega) (by omega) (by omega) (by omega) hc hc']
        rfl
      · obtain ⟨c, rest, rfl, hc, hc', -, hmore⟩ := decodeFrom_owed (hmore (by decide))
        obtain ⟨d, rest, rfl, hd, hd', hlast, -⟩ := decodeFrom_owed (hmore (by decide))
        obtain ⟨hch, hrest⟩ := hlast (by decide)
        refine ⟨rest, ?_, hrest⟩
        rw [hch, hbits, encode_four ha ha' (by omega) (by omega) (by omega) (by omega) hc hc' hd hd']
        rfl

theorem decodeFrom_owed_ne_nil (p : Partial) (bytes : Bytes) : decodeFrom (some p) bytes ≠ [] := by
  induction bytes generalizing p with
  | nil => simp [decodeFrom]
  | cons b rest ih =>
    rw [decodeFrom]
    split
    · dsimp only
      split
      · exact List.cons_ne_nil _ _
      · exact ih _
    · exact List.cons_ne_nil _ _

theorem decode_eq_nil {bytes : Bytes} (h : decodeFrom none bytes = []) : bytes = [] := by
  cases bytes with
  | nil => rfl
  | cons b rest =>
    rw [decodeFrom, decodeFrom.start] at h
    split at h
    · cases h
    · cases h
    · exact absurd h (decodeFrom_owed_ne_nil _ _)

theorem decode_eq_map {bytes : Bytes} {s : List Char} (h : decode bytes = s.map some) :
    bytes = s.flatMap String.utf8EncodeChar := by
  induction s generalizing bytes with
  | nil => exact decode_eq_nil h
  | cons c s ih =>
    obtain ⟨rest, rfl, hrest⟩ := decodeFrom_char h
    rw [List.flatMap_cons, ih hrest]

/-- Bytes that are read as a text are those that it is written as. -/
theorem ofBytes?_eq_some {bytes : Bytes} {s : String} :
    ofBytes? bytes = some s ↔ bytes = toBytes s := by
  refine ⟨fun h => ?_, fun h => h ▸ ofBytes?_toBytes s⟩
  rw [ofBytes?] at h
  split at h
  · next hall =>
    obtain rfl := Option.some.inj h
    rw [toBytes_eq, String.toList_ofList]
    refine decode_eq_map ?_
    rw [List.map_filterMap_some_eq_filter_map_isSome, List.map_id,
      List.filter_eq_self.2 (List.all_eq_true.1 hall)]
  · cases h

end Crosswalk.Text
