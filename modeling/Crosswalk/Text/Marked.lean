import Crosswalk.Text.Utf8

namespace Crosswalk.Text

def isHighHalf (n : Nat) : Bool := 0xD800 ≤ n && n ≤ 0xDBFF

def isLowHalf (n : Nat) : Bool := 0xDC00 ≤ n && n ≤ 0xDFFF

def isHalf (n : Nat) : Bool := isHighHalf n || isLowHalf n

def joinHalves (high low : Nat) : Char :=
  Char.ofNat (0x10000 + (high - 0xD800) * 0x400 + (low - 0xDC00))

/-- Two bytes each, the high one first. A single byte at the end makes no unit. -/
def units : Bytes → List (Option Nat)
  | a :: b :: rest => some (256 * a.toNat + b.toNat) :: units rest
  | [_] => [none]
  | [] => []

def ofUnit (n : Nat) : Char := if isHalf n then '\ufffd' else Char.ofNat n

/-- The characters of units, with a replacement character for what is none. -/
def ofUnits : List (Option Nat) → List Char
  | [] => []
  | none :: rest => '\ufffd' :: ofUnits rest
  | some a :: some b :: rest =>
    if isHighHalf a && isLowHalf b then joinHalves a b :: ofUnits rest
    else ofUnit a :: ofUnits (some b :: rest)
  | some a :: none :: rest =>
    if isHighHalf a then '\ufffd' :: ofUnits rest else ofUnit a :: ofUnits (none :: rest)
  | [some a] => [ofUnit a]

def swapPairs : Bytes → Bytes
  | a :: b :: rest => b :: a :: swapPairs rest
  | rest => rest

/-- A mark of well-formed UTF-8 stays in the text; every other mark is dropped. -/
def ofMarkedBytes (bytes : Bytes) : String :=
  match bytes with
  | 0xEF :: 0xBB :: 0xBF :: rest => (ofBytes? bytes).getD (ofBytesLossy rest)
  | 0xFF :: 0xFE :: rest => String.ofList (ofUnits (units (swapPairs rest)))
  | 0xFE :: 0xFF :: rest => String.ofList (ofUnits (units rest))
  | _ => ofBytesLossy bytes

end Crosswalk.Text
