namespace Crosswalk

abbrev Bytes := List UInt8

namespace Text

def byteLength : List Char → Nat
  | [] => 0
  | c :: s => c.utf8Size + byteLength s

def takeBytes : (budget : Nat) → List Char → List Char
  | _, [] => []
  | budget, c :: s =>
    if c.utf8Size ≤ budget then c :: takeBytes (budget - c.utf8Size) s else []

/-- What the first byte of a character promises: how many bytes follow, the bounds for the next
one, and the bits it brings itself. -/
def leadByte? (b : Nat) : Option (Nat × Nat × Nat × Nat) :=
  if b < 0x80 then some (0, 0x80, 0xBF, b)
  else if 0xC2 ≤ b ∧ b ≤ 0xDF then some (1, 0x80, 0xBF, b - 0xC0)
  else if b = 0xE0 then some (2, 0xA0, 0xBF, 0)
  else if b = 0xED then some (2, 0x80, 0x9F, 0xD)
  else if 0xE1 ≤ b ∧ b ≤ 0xEF then some (2, 0x80, 0xBF, b - 0xE0)
  else if b = 0xF0 then some (3, 0x90, 0xBF, 0)
  else if 0xF1 ≤ b ∧ b ≤ 0xF3 then some (3, 0x80, 0xBF, b - 0xF0)
  else if b = 0xF4 then some (3, 0x80, 0x8F, 4)
  else none

/-- Where the decoder stands: `owed` continuation bytes are missing, the next must lie within the
bounds, and `bits` were read so far. -/
structure Partial where
  owed : Nat
  low : Nat
  high : Nat
  bits : Nat

/-- The characters of a byte string. `none` stands for a piece that is no character: the longest
beginning of one, or a byte that cannot begin one. -/
def decodeFrom : Option Partial → Bytes → List (Option Char)
  | none, [] => []
  | some _, [] => [none]
  | none, b :: rest => start b rest
  | some p, b :: rest =>
    if p.low ≤ b.toNat ∧ b.toNat ≤ p.high then
      let bits := p.bits * 64 + (b.toNat - 0x80)
      if p.owed ≤ 1 then some (Char.ofNat bits) :: decodeFrom none rest
      else decodeFrom (some ⟨p.owed - 1, 0x80, 0xBF, bits⟩) rest
    else none :: start b rest
where
  start (b : UInt8) (rest : Bytes) : List (Option Char) :=
    match leadByte? b.toNat with
    | none => none :: decodeFrom none rest
    | some (0, _, _, bits) => some (Char.ofNat bits) :: decodeFrom none rest
    | some (owed, low, high, bits) => decodeFrom (some ⟨owed, low, high, bits⟩) rest

def decode (bytes : Bytes) : List (Option Char) := decodeFrom none bytes

def ofBytes? (bytes : Bytes) : Option String :=
  let chars := decode bytes
  if chars.all Option.isSome then some (String.ofList (chars.filterMap id)) else none

def ofBytesLossy (bytes : Bytes) : String :=
  String.ofList ((decode bytes).map (·.getD '\ufffd'))

def toBytes (s : String) : Bytes := s.toUTF8.toList

theorem utf8EncodeChar_eq (c : Char) : String.utf8EncodeChar c =
    if c.toNat ≤ 127 then [UInt8.ofNat c.toNat] else
    if c.toNat ≤ 2047 then [UInt8.ofNat (c.toNat / 64 % 32 + 192), UInt8.ofNat (c.toNat % 64 + 128)]
    else if c.toNat ≤ 65535 then [UInt8.ofNat (c.toNat / 4096 % 16 + 224),
      UInt8.ofNat (c.toNat / 64 % 64 + 128), UInt8.ofNat (c.toNat % 64 + 128)]
    else [UInt8.ofNat (c.toNat / 262144 % 8 + 240), UInt8.ofNat (c.toNat / 4096 % 64 + 128),
      UInt8.ofNat (c.toNat / 64 % 64 + 128), UInt8.ofNat (c.toNat % 64 + 128)] := rfl

end Text

end Crosswalk
