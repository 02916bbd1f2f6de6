import Crosswalk.Decimal.Shortest

namespace Crosswalk.Decimal

def zeros (n : Nat) : String := String.ofList (List.replicate n '0')

def withPoint (digits : String) (places : Nat) : String :=
  let missing := places + 1 - digits.length
  let padded := zeros missing ++ digits
  let whole := padded.toList.take (padded.length - places)
  let fraction := padded.toList.drop (padded.length - places)
  String.ofList whole ++ "." ++ String.ofList fraction

def Digits.plain (d : Digits) : String :=
  if 0 ≤ d.exponent then toString d.digits ++ zeros d.exponent.toNat
  else withPoint (toString d.digits) (-d.exponent).toNat

/-- Between `1e-5` and `1e16` the number is written out, beyond that as one digit, a point, the
other digits and an exponent with its sign. -/
def Digits.data (d : Digits) : String :=
  let digits := toString d.digits
  let point : Int := digits.length + d.exponent
  if 0 ≤ d.exponent ∧ point ≤ 16 then digits ++ zeros d.exponent.toNat ++ ".0"
  else if -5 < point ∧ point ≤ 16 then withPoint digits (-d.exponent).toNat
  else
    let tail := String.ofList (digits.toList.drop 1)
    String.ofList (digits.toList.take 1) ++ (if tail.isEmpty then "" else "." ++ tail)
      ++ (if 0 < point then "e+" else "e") ++ toString (point - 1)

def isNegative (x : Float) : Bool := x.toBits >>> 63 == 1

def sign (x : Float) : String := if isNegative x then "-" else ""

def digitsOf (tie : Tie) (x : Float) : Digits := ((Binary.ofBits x.toBits).shortest tie).strip 400

def plain (x : Float) : String :=
  if x.isNaN then "NaN"
  else if x.isInf then sign x ++ "inf"
  else if x == 0.0 then sign x ++ "0"
  else sign x ++ (digitsOf .up x).plain

def data (x : Float) : String :=
  if x == 0.0 then sign x ++ "0.0" else sign x ++ (digitsOf .toEven x).data

end Crosswalk.Decimal
