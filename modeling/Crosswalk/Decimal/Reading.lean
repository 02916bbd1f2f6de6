import Crosswalk.Text.Digits

namespace Crosswalk.Decimal

open Text (isDigit natOfDigits)

/-- `digits * 10 ^ exponent` as the nearest double. Exponents far outside the range of doubles are
answered at once. -/
def toFloat (digits : Nat) (exponent : Int) : Float :=
  if digits = 0 then 0.0
  else
    let point : Int := (toString digits).length + exponent
    if 400 < point then 1.0 / 0.0
    else if point < -400 then 0.0
    else if 0 ≤ exponent then Float.ofScientific digits false exponent.toNat
    else Float.ofScientific digits true (-exponent).toNat

def splitSign : List Char → Bool × List Char
  | '-' :: r => (true, r)
  | '+' :: r => (false, r)
  | r => (false, r)

def exponent? (s : List Char) : Option Int :=
  let (negative, ds) := splitSign s
  if ds.isEmpty || !ds.all isDigit then none
  else some (if negative then -(natOfDigits ds : Int) else natOfDigits ds)

def unsigned? (s : List Char) : Option Float :=
  let whole := s.takeWhile isDigit
  let rest := s.dropWhile isDigit
  let (fraction, rest) :=
    match rest with
    | '.' :: r => (r.takeWhile isDigit, r.dropWhile isDigit)
    | r => ([], r)
  if whole.isEmpty && fraction.isEmpty then none
  else
    let value (e : Int) := toFloat (natOfDigits (whole ++ fraction)) (e - fraction.length)
    match rest with
    | [] => some (value 0)
    | c :: r => if c = 'e' || c = 'E' then (exponent? r).map value else none

def float? (s : String) : Option Float :=
  let (negative, r) := splitSign s.toList
  let lower := String.ofList (r.map Char.toLower)
  let magnitude? :=
    if lower = "inf" || lower = "infinity" then some (1.0 / 0.0)
    else if lower = "nan" then some (0.0 / 0.0)
    else unsigned? r
  magnitude?.map fun x => if negative then -x else x

def natUpTo? (bound : Nat) (s : List Char) : Option Nat :=
  let ds := match s with
    | '+' :: r => r
    | r => r
  if ds.isEmpty || !ds.all isDigit then none
  else
    let n := natOfDigits ds
    if n ≤ bound then some n else none

end Crosswalk.Decimal
