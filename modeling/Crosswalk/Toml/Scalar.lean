import Crosswalk.Data.Value
import Crosswalk.Decimal.Reading
import Crosswalk.Text.Digits

namespace Crosswalk.Toml

open Text (isDigit natOfDigits hexDigit? hexRun?)

def isSpace (c : Char) : Bool := c == ' ' || c == '\t'

def skipSpace (s : List Char) : List Char := s.dropWhile isSpace

def isPlain (c : Char) : Bool := c == '\t' || (0x20 ≤ c.toNat && c.toNat != 0x7F)

def newline? : List Char → Option (List Char)
  | '\n' :: rest => some rest
  | '\r' :: '\n' :: rest => some rest
  | _ => none

def skipComment : List Char → List Char
  | '#' :: rest => rest.dropWhile isPlain
  | s => s

def lineEnd? (s : List Char) : Option (List Char) :=
  let rest := skipComment (skipSpace s)
  if rest.isEmpty then some [] else newline? rest

def skipGapsFor : Nat → List Char → List Char
  | 0, s => s
  | n + 1, s =>
    let rest := skipComment (skipSpace s)
    match newline? rest with
    | some rest => skipGapsFor n rest
    | none => rest

def skipGaps (s : List Char) : List Char := skipGapsFor (s.length + 1) s

def scalarValue? (n : Nat) : Option Char := if n.isValidChar then some (Char.ofNat n) else none

def escape? : List Char → Option (Char × List Char)
  | 'b' :: rest => some ('\x08', rest)
  | 't' :: rest => some ('\t', rest)
  | 'n' :: rest => some ('\n', rest)
  | 'f' :: rest => some ('\x0c', rest)
  | 'r' :: rest => some ('\r', rest)
  | '"' :: rest => some ('"', rest)
  | '\\' :: rest => some ('\\', rest)
  | 'u' :: rest => (hexRun? 4 0 rest).bind fun (n, rest) => (scalarValue? n).map fun c => (c, rest)
  | 'U' :: rest => (hexRun? 8 0 rest).bind fun (n, rest) => (scalarValue? n).map fun c => (c, rest)
  | _ => none

def basic? : Nat → List Char → List Char → Option (List Char × List Char)
  | 0, _, _ => none
  | _, _, [] => none
  | _, acc, '"' :: rest => some (acc.reverse, rest)
  | n + 1, acc, '\\' :: rest => (escape? rest).bind fun (c, rest) => basic? n (c :: acc) rest
  | n + 1, acc, c :: rest => if isPlain c then basic? n (c :: acc) rest else none

def literal? (s : List Char) : Option (List Char × List Char) :=
  let body := s.takeWhile fun c => isPlain c && c != '\''
  match s.drop body.length with
  | '\'' :: rest => some (body, rest)
  | _ => none

/-- A run of quotes inside a string of several lines: three of them close it, and up to two before
those belong to the text. -/
def closing? (quote : Char) (s : List Char) : Option (Nat × List Char) :=
  let run := (s.takeWhile (· == quote)).length
  if run < 3 then none else some (min (run - 3) 2, s.drop (min run 5))

def skipLinesFor : Nat → List Char → List Char
  | 0, s => s
  | n + 1, s =>
    match newline? (skipSpace s) with
    | some rest => skipLinesFor n rest
    | none => skipSpace s

def foldedLine? (s : List Char) : Option (List Char) :=
  (newline? (skipSpace s)).map fun rest => skipLinesFor (rest.length + 1) rest

def multiline? (quote : Char) (escapes : Bool) : Nat → List Char → List Char →
    Option (List Char × List Char)
  | 0, _, _ => none
  | _, _, [] => none
  | n + 1, acc, c :: rest =>
    match closing? quote (c :: rest) with
    | some (quotes, rest) => some (acc.reverse ++ List.replicate quotes quote, rest)
    | none =>
      if escapes && c == '\\' then
        match foldedLine? rest with
        | some rest => multiline? quote escapes n acc rest
        | none => (escape? rest).bind fun (c, rest) => multiline? quote escapes n (c :: acc) rest
      else
        match newline? (c :: rest) with
        | some rest => multiline? quote escapes n ('\n' :: acc) rest
        | none => if isPlain c then multiline? quote escapes n (c :: acc) rest else none

def multilineBody? (quote : Char) (escapes : Bool) (s : List Char) :
    Option (List Char × List Char) :=
  let s := (newline? s).getD s
  multiline? quote escapes (s.length + 1) [] s

def string? : List Char → Option (List Char × List Char)
  | '"' :: '"' :: '"' :: rest => multilineBody? '"' true rest
  | '\'' :: '\'' :: '\'' :: rest => multilineBody? '\'' false rest
  | '"' :: rest => basic? (rest.length + 1) [] rest
  | '\'' :: rest => literal? rest
  | _ => none

def isBare (c : Char) : Bool := c.isAlphanum || c == '_' || c == '-'

def key? (s : List Char) : Option (String × List Char) :=
  match s with
  | '"' :: rest =>
    (basic? (rest.length + 1) [] rest).map fun (k, rest) => (String.ofList k, rest)
  | '\'' :: rest => (literal? rest).map fun (k, rest) => (String.ofList k, rest)
  | s =>
    let k := s.takeWhile isBare
    if k.isEmpty then none else some (String.ofList k, s.drop k.length)

def keyPath? : Nat → List Char → Option (List String × List Char)
  | 0, _ => none
  | n + 1, s =>
    match key? (skipSpace s) with
    | none => none
    | some (k, rest) =>
      match skipSpace rest with
      | '.' :: rest => (keyPath? n rest).map fun (ks, rest) => (k :: ks, rest)
      | rest => some ([k], rest)

def digitsAfter (isDigit : Char → Bool) : List Char → List Char × List Char
  | '_' :: c :: rest =>
    if isDigit c then
      let (ds, rest) := digitsAfter isDigit rest
      (c :: ds, rest)
    else ([], '_' :: c :: rest)
  | c :: rest =>
    if isDigit c then
      let (ds, rest) := digitsAfter isDigit rest
      (c :: ds, rest)
    else ([], c :: rest)
  | [] => ([], [])

def digits? (isDigit : Char → Bool) : List Char → Option (List Char × List Char)
  | c :: rest =>
    if isDigit c then
      let (ds, rest) := digitsAfter isDigit rest
      some (c :: ds, rest)
    else none
  | [] => none

def integer? (negative : Bool) (n : Nat) : Option Value :=
  if negative then
    if n = 0 then some (.nat 0)
    else if n ≤ 0x8000000000000000 then some (.number (.negative n)) else none
  else if n < 0x8000000000000000 then some (.nat n) else none

def ofBase? (base : Nat) (isDigit : Char → Bool) (s : List Char) : Option (Value × List Char) :=
  (digits? isDigit s).bind fun (ds, rest) =>
    let n := ds.foldl (fun n c => base * n + (hexDigit? c).getD 0) 0
    (integer? false n).map fun v => (v, rest)

def whole? : List Char → Option (List Char × List Char)
  | '0' :: rest => some (['0'], rest)
  | s => digits? isDigit s

def fraction? : List Char → Option (Option (List Char) × List Char)
  | '.' :: rest => (digits? isDigit rest).map fun (ds, rest) => (some ds, rest)
  | s => some (none, s)

def exponent? : List Char → Option (Option Int × List Char)
  | [] => some (none, [])
  | c :: rest =>
    if c = 'e' || c = 'E' then
      let (negative, rest) := Decimal.splitSign rest
      (digits? isDigit rest).map fun (ds, rest) =>
        let n : Int := natOfDigits ds
        (some (if negative then -n else n), rest)
    else some (none, c :: rest)

/-- A float that is too great has no value, one that is too small by its sign is infinite. -/
def float? (negative : Bool) (digits : List Char) (e : Int) : Option Value :=
  let x := Decimal.toFloat (natOfDigits digits) e
  if negative then some (.real (-x)) else if x.isInf then none else some (.real x)

def unsigned? (negative : Bool) (s : List Char) : Option (Value × List Char) :=
  match s with
  | 'i' :: 'n' :: 'f' :: rest =>
    some (.real (if negative then -(1.0 / 0.0) else 1.0 / 0.0), rest)
  | 'n' :: 'a' :: 'n' :: rest => some (.real (0.0 / 0.0), rest)
  | s => do
    let (whole, rest) ← whole? s
    let (fraction, rest) ← fraction? rest
    let (e, rest) ← exponent? rest
    match fraction, e with
    | none, none => (integer? negative (natOfDigits whole)).map fun v => (v, rest)
    | fraction, e =>
      let places := fraction.getD []
      (float? negative (whole ++ places) (e.getD 0 - places.length)).map fun v => (v, rest)

def number? : List Char → Option (Value × List Char)
  | '+' :: rest => unsigned? false rest
  | '-' :: rest => unsigned? true rest
  | '0' :: 'x' :: rest => ofBase? 16 (fun c => (hexDigit? c).isSome) rest
  | '0' :: 'o' :: rest => ofBase? 8 (fun c => isDigit c && c < '8') rest
  | '0' :: 'b' :: rest => ofBase? 2 (fun c => c == '0' || c == '1') rest
  | s => unsigned? false s

def field? (count low high : Nat) (s : List Char) : Option (Nat × List Char) :=
  let ds := s.take count
  if ds.length = count && ds.all isDigit then
    let n := natOfDigits ds
    if low ≤ n && n ≤ high then some (n, s.drop count) else none
  else none

def after? (c : Char) : List Char → Option (List Char)
  | d :: rest => if d = c then some rest else none
  | [] => none

def isLeap (year : Nat) : Bool := year % 4 == 0 && (year % 100 != 0 || year % 400 == 0)

def daysOf (year month : Nat) : Nat :=
  if month = 2 then (if isLeap year then 29 else 28)
  else if month = 4 || month = 6 || month = 9 || month = 11 then 30
  else 31

def day? (s : List Char) : Option (List Char × List Char) := do
  let (year, rest) ← field? 4 0 9999 s
  let (month, rest) ← field? 2 1 12 (← after? '-' rest)
  let (_, rest) ← field? 2 1 (daysOf year month) (← after? '-' rest)
  some (s.take 10, rest)

def shortSecond (digits : List Char) : List Char :=
  match ((digits.take 9).reverse.dropWhile (· == '0')).reverse with
  | [] => []
  | ds => '.' :: ds

/-- A time in a short form. A minute may have a leap second. -/
def timeOfDay? (s : List Char) : Option (List Char × List Char) := do
  let (_, rest) ← field? 2 0 23 s
  let (_, rest) ← field? 2 0 59 (← after? ':' rest)
  let (_, rest) ← field? 2 0 60 (← after? ':' rest)
  let digits := (rest.drop 1).takeWhile isDigit
  match rest with
  | '.' :: _ :: _ =>
    if digits.isEmpty then some (s.take 8, rest)
    else some (s.take 8 ++ shortSecond digits, rest.drop (1 + digits.length))
  | _ => some (s.take 8, rest)

def offset? : List Char → Option (List Char × List Char)
  | [] => none
  | c :: s =>
    if c = 'Z' || c = 'z' then some (['Z'], s)
    else if c = '+' || c = '-' then do
      let (hours, rest) ← field? 2 0 23 s
      let (minutes, rest) ← field? 2 0 59 (← after? ':' rest)
      let sign := if hours = 0 && minutes = 0 then '+' else c
      some (sign :: s.take 5, rest)
    else none

def date? (s : List Char) : Option (List Char × List Char) :=
  match day? s with
  | none => timeOfDay? s
  | some (day, rest) =>
    match rest with
    | c :: time =>
      if c = 'T' || c = 't' || c = ' ' then
        match timeOfDay? time with
        | some (time, rest) =>
          let (offset, rest) := (offset? rest).getD ([], rest)
          some (day ++ 'T' :: time ++ offset, rest)
        | none => some (day, c :: time)
      else some (day, c :: time)
    | [] => some (day, [])

/-- A date is an object of one member, with a name that no other object has. -/
def dateValue (text : List Char) : Value :=
  .object [("$__toml_private_datetime", .string (String.ofList text))]

end Crosswalk.Toml
