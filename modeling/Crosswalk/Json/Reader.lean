import Crosswalk.Data.Value
import Crosswalk.Text.Digits
import Crosswalk.Text.Marked
import Crosswalk.Text.Utf8

namespace Crosswalk.Json

open Text (isDigit digit natOfDigits hexRun? isHighHalf isLowHalf joinHalves)

def isSpace (c : Char) : Bool := c == ' ' || c == '\t' || c == '\n' || c == '\r'

def skipSpace (s : List Char) : List Char := s.dropWhile isSpace

def simpleEscape? : Char → Option Char
  | '"' => some '"'
  | '\\' => some '\\'
  | '/' => some '/'
  | 'b' => some '\x08'
  | 'f' => some '\x0c'
  | 'n' => some '\n'
  | 'r' => some '\r'
  | 't' => some '\t'
  | _ => none

/-- The text of a string, or a sign that it holds half a surrogate pair. -/
inductive Quoted where
  | text (reversed : List Char)
  | broken

def Quoted.push (c : Char) : Quoted → Quoted
  | .text r => .text (c :: r)
  | .broken => .broken

def Quoted.value : Quoted → Value
  | .text r => .string (String.ofList r.reverse)
  | .broken => .unreadable

def quoted? : Nat → Quoted → List Char → Option (Quoted × List Char)
  | 0, _, _ => none
  | _, _, [] => none
  | _, acc, '"' :: rest => some (acc, rest)
  | n + 1, acc, '\\' :: 'u' :: rest =>
    match hexRun? 4 0 rest with
    | none => none
    | some (u, rest) =>
      if isHighHalf u then
        match rest with
        | '\\' :: 'u' :: more =>
          match hexRun? 4 0 more with
          | none => none
          | some (v, more) =>
            if isLowHalf v then quoted? n (acc.push (joinHalves u v)) more
            else quoted? n .broken rest
        | _ => quoted? n .broken rest
      else if isLowHalf u then quoted? n .broken rest
      else quoted? n (acc.push (Char.ofNat u)) rest
  | n + 1, acc, '\\' :: c :: rest =>
    match simpleEscape? c with
    | none => none
    | some c => quoted? n (acc.push c) rest
  | n + 1, acc, c :: rest => if c.toNat < 0x20 then none else quoted? n (acc.push c) rest

def wordLimit : Nat := 0x10000000000000000

/-- A run of digits added to what was read, as far as it fits into 64 bits, with the number of
digits that were used and the number that were not. -/
def accumulate (n : Nat) : List Char → Nat × Nat × Nat
  | [] => (n, 0, 0)
  | c :: rest =>
    if n * 10 + digit c < wordLimit then
      let (m, used, unused) := accumulate (n * 10 + digit c) rest
      (m, used + 1, unused)
    else (n, 0, rest.length + 1)

def tenTo (e : Nat) : Float := Float.ofScientific 1 false e

/-- `f * 10 ^ e`, scaled in steps when the power is beyond the doubles. `none` is overflow. -/
def scale (f : Float) : Nat → Int → Option Float
  | 0, _ => some f
  | steps + 1, e =>
    if e.natAbs ≤ 308 then
      if 0 ≤ e then
        let g := f * tenTo e.natAbs
        if g.isInf then none else some g
      else some (f / tenTo e.natAbs)
    else if f == 0.0 then some f
    else if 0 ≤ e then none
    else scale (f / tenTo 308) steps (e + 308)

/-- Nothing is left of a 64-bit number after three steps down. -/
def real (negative : Bool) (significand : Nat) (e : Int) : Value :=
  match scale (Float.ofNat significand) 4 e with
  | none => .unreadable
  | some f => .real (if negative then -f else f)

def withExponent (negative : Bool) (significand : Nat) (e : Int) (down : Bool) (n : Nat) : Value :=
  if n ≥ 0x80000000 then
    if significand ≠ 0 ∧ !down then .unreadable else .real (if negative then -0.0 else 0.0)
  else real negative significand (if down then e - n else e + n)

def exponentPart? (negative : Bool) (significand : Nat) (e : Int) (s : List Char) :
    Option (Value × List Char) :=
  let (down, s) := match s with
    | '+' :: r => (false, r)
    | '-' :: r => (true, r)
    | r => (false, r)
  let ds := s.takeWhile isDigit
  if ds.isEmpty then none
  else
    let n := natOfDigits ds
    some (withExponent negative significand e down n, s.dropWhile isDigit)

def isExponentMark (c : Char) : Bool := c == 'e' || c == 'E'

def numberTail? (negative : Bool) (significand : Nat) (unused : Nat) (s : List Char) :
    Option (Value × List Char) :=
  match s with
  | '.' :: r =>
    let ds := r.takeWhile isDigit
    let rest := r.dropWhile isDigit
    if ds.isEmpty then none
    else
      let (m, used, _) := accumulate significand ds
      let e : Int := unused - used
      match rest with
      | c :: more => if isExponentMark c then exponentPart? negative m e more
          else some (real negative m e, rest)
      | [] => some (real negative m e, rest)
  | c :: r =>
    if isExponentMark c then exponentPart? negative significand unused r
    else some (whole, s)
  | [] => some (whole, s)
where
  whole : Value :=
    if unused ≠ 0 then real negative significand unused
    else if !negative then .nat significand
    else if significand = 0 ∨ 0x8000000000000000 < significand then
      .real (-(Float.ofNat significand))
    else .number (.negative significand)

def number? (s : List Char) : Option (Value × List Char) :=
  let (negative, s) := match s with
    | '-' :: r => (true, r)
    | r => (false, r)
  match s with
  | '0' :: rest => if rest.head?.any isDigit then none else numberTail? negative 0 0 rest
  | _ =>
    let ds := s.takeWhile isDigit
    if ds.isEmpty then none
    else
      let (m, _, unused) := accumulate 0 ds
      numberTail? negative m unused (s.dropWhile isDigit)

def objectOf (members : List (Quoted × Value)) : Value :=
  match members.mapM fun (k, v) => match k.value with
    | .string s => some (s, v)
    | _ => none with
  | some members => .object members
  | none => .unreadable

def literal? (word : String) (v : Value) (s : List Char) : Option (Value × List Char) :=
  if word.toList.isPrefixOf s then some (v, s.drop word.length) else none

mutual

/-- A value at the front of the text. Fuel bounds the number of values and commas. -/
def value? : Nat → List Char → Option (Value × List Char)
  | 0, _ => none
  | n + 1, s =>
    match skipSpace s with
    | [] => none
    | '"' :: rest => (quoted? (rest.length + 1) (.text []) rest).map fun (q, r) => (q.value, r)
    | '[' :: rest =>
      match skipSpace rest with
      | ']' :: r => some (.array [], r)
      | r => (items? n [] r).map fun (vs, r) => (.array vs, r)
    | '{' :: rest =>
      match skipSpace rest with
      | '}' :: r => some (.object [], r)
      | r => (members? n [] r).map fun (ms, r) => (objectOf ms, r)
    | 'n' :: rest => literal? "null" .null ('n' :: rest)
    | 't' :: rest => literal? "true" (.bool true) ('t' :: rest)
    | 'f' :: rest => literal? "false" (.bool false) ('f' :: rest)
    | r => number? r

def items? : Nat → List Value → List Char → Option (List Value × List Char)
  | 0, _, _ => none
  | n + 1, acc, s =>
    match value? n s with
    | none => none
    | some (v, r) =>
      match skipSpace r with
      | ',' :: r => items? n (v :: acc) r
      | ']' :: r => some ((v :: acc).reverse, r)
      | _ => none

def members? : Nat → List (Quoted × Value) → List Char → Option (List (Quoted × Value) × List Char)
  | 0, _, _ => none
  | n + 1, acc, s =>
    match skipSpace s with
    | '"' :: rest =>
      match quoted? (rest.length + 1) (.text []) rest with
      | none => none
      | some (k, r) =>
        match skipSpace r with
        | ':' :: r =>
          match value? n r with
          | none => none
          | some (v, r) =>
            match skipSpace r with
            | ',' :: r => members? n ((k, v) :: acc) r
            | '}' :: r => some (((k, v) :: acc).reverse, r)
            | _ => none
        | _ => none
    | _ => none

end

def parseChars? (s : List Char) : Option Value :=
  match value? (2 * s.length + 2) s with
  | some (v, rest) => if (skipSpace rest).isEmpty then some v else none
  | none => none

def parse? (s : String) : Option Value := parseChars? s.toList

end Crosswalk.Json
