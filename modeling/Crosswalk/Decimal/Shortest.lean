namespace Crosswalk.Decimal

/-- A finite value without its sign, `mantissa * 2 ^ exponent`. -/
structure Binary where
  mantissa : Nat
  exponent : Int
  /-- The gap to the value below is half the gap to the value above. -/
  narrowBelow : Bool

def Binary.ofBits (bits : UInt64) : Binary :=
  let e := ((bits >>> 52) &&& 0x7FF).toNat
  let f := (bits &&& 0xFFFFFFFFFFFFF).toNat
  if e = 0 then ⟨f, -1074, false⟩ else ⟨0x10000000000000 + f, (e : Int) - 1075, f == 0 && e > 1⟩

/-- A decimal without its sign, `digits * 10 ^ exponent`. -/
structure Digits where
  digits : Nat
  exponent : Int
deriving DecidableEq, Repr

inductive Tie where
  | toEven
  | up
deriving DecidableEq, Repr

def compareScaled (a : Nat) (i : Int) (n : Nat) (j : Int) : Ordering :=
  compare (a * Nat.pow 10 i.toNat * Nat.pow 2 (-j).toNat)
    (n * Nat.pow 2 j.toNat * Nat.pow 10 (-i).toNat)

/-- The decimal lies among the reals that round to the value. The ends of that interval belong to
it exactly when the mantissa is even. -/
def Binary.readsBack (x : Binary) (d : Digits) : Bool :=
  let low := if x.narrowBelow then 4 * x.mantissa - 1 else 4 * x.mantissa - 2
  let high := 4 * x.mantissa + 2
  let ends := x.mantissa % 2 == 0
  let l := compareScaled d.digits d.exponent low (x.exponent - 2)
  let h := compareScaled d.digits d.exponent high (x.exponent - 2)
  (l == .gt || (ends && l == .eq)) && (h == .lt || (ends && h == .eq))

def Binary.scaledFloor (x : Binary) (k : Int) : Nat :=
  (x.mantissa * Nat.pow 2 x.exponent.toNat * Nat.pow 10 (-k).toNat)
    / (Nat.pow 2 (-x.exponent).toNat * Nat.pow 10 k.toNat)

def Binary.onGrid? (x : Binary) (tie : Tie) (k : Int) : Option Digits :=
  let n := x.scaledFloor k
  let below : Digits := ⟨n, k⟩
  let above : Digits := ⟨n + 1, k⟩
  match x.readsBack below && n != 0, x.readsBack above with
  | false, false => none
  | true, false => some below
  | false, true => some above
  | true, true =>
    match compareScaled (2 * n + 1) k (2 * x.mantissa) x.exponent with
    | .gt => some below
    | .lt => some above
    | .eq => if tie == .up || n % 2 == 1 then some above else some below

def Binary.magnitude (x : Binary) : Int :=
  ((x.mantissa.log2 : Int) + 1 + x.exponent) * 30103 / 100000 + 2

def Binary.search (x : Binary) (tie : Tie) : Nat → Int → Digits
  | 0, _ =>
    ⟨x.mantissa * Nat.pow 2 x.exponent.toNat * Nat.pow 5 (-x.exponent).toNat, min x.exponent 0⟩
  | n + 1, k => (x.onGrid? tie k).getD (x.search tie n (k - 1))

/-- Seventeen digits suffice, and the search starts at most four places above the first digit. -/
def Binary.shortest (x : Binary) (tie : Tie) : Digits := x.search tie 24 x.magnitude

def Digits.strip (d : Digits) : Nat → Digits
  | 0 => d
  | n + 1 =>
    if d.digits ≠ 0 ∧ d.digits % 10 = 0 then Digits.strip ⟨d.digits / 10, d.exponent + 1⟩ n else d

end Crosswalk.Decimal
