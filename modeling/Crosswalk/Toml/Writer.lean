import Crosswalk.Data.Value
import Crosswalk.Decimal.Text
import Crosswalk.Text.Digits
import Crosswalk.Text.Search

namespace Crosswalk.Toml

open Text (upperHexDigit)

def isControl (c : Char) : Bool := c.toNat ≤ 0x1F || c.toNat == 0x7F

def escapeChar (c : Char) : List Char :=
  match c with
  | '\x08' => ['\\', 'b']
  | '\t' => ['\\', 't']
  | '\n' => ['\\', 'n']
  | '\x0c' => ['\\', 'f']
  | '\r' => ['\\', 'r']
  | '"' => ['\\', '"']
  | '\\' => ['\\', '\\']
  | c =>
    if isControl c then
      ['\\', 'u', '0', '0', upperHexDigit (c.toNat / 16), upperHexDigit (c.toNat % 16)]
    else [c]

/-- Inside three quotes, line ends and up to two quotes in a row stand for themselves. -/
def escapeLines : (quotes : Nat) → List Char → List Char
  | _, [] => []
  | quotes, c :: rest =>
    if c = '"' then
      if quotes < 2 then '"' :: escapeLines (quotes + 1) rest
      else '\\' :: '"' :: escapeLines 0 rest
    else if c = '\n' then '\n' :: escapeLines 0 rest
    else escapeChar c ++ escapeLines 0 rest

def longestRun (q : Char) : (run : Nat) → List Char → Nat
  | run, [] => run
  | run, c :: rest => if c = q then longestRun q (run + 1) rest else max run (longestRun q 0 rest)

def needsEscape (s : List Char) : Bool := s.any fun c => isControl c && c != '\t' && c != '\n'

def between (mark : String) (body : List Char) : String := mark ++ String.ofList body ++ mark

/-- The plainest form that holds the text: double quotes where nothing but tabs has to be escaped,
else single quotes, on several lines if the text has several. -/
def quote (text : String) : String :=
  let s := text.toList
  let backslash := s.contains '\\'
  let lines := s.contains '\n'
  let doubles := longestRun '"' 0 s
  let singles := longestRun '\'' 0 s
  let onLines (mark : String) (body : List Char) :=
    between mark (if lines then '\n' :: body else body)
  if needsEscape s then
    if lines then onLines "\"\"\"" (escapeLines 0 s) else between "\"" (s.flatMap escapeChar)
  else if !backslash && doubles = 0 && !lines then between "\"" (s.flatMap escapeChar)
  else if singles = 0 && !lines then between "'" s
  else if !backslash && doubles ≤ 2 then onLines "\"\"\"" (escapeLines 0 s)
  else if singles ≤ 2 then onLines "'''" s
  else if lines then onLines "\"\"\"" (escapeLines 0 s)
  else between "\"" (s.flatMap escapeChar)

def isBareKey (k : List Char) : Bool :=
  !k.isEmpty && k.all fun c => c.isAlphanum || c == '_' || c == '-'

def key (k : String) : String :=
  let s := k.toList
  if isBareKey s then k
  else if needsEscape s || s.contains '\n' then between "\"" (s.flatMap escapeChar)
  else if !s.contains '\\' && !s.contains '"' then between "\"" (s.flatMap escapeChar)
  else if !s.contains '\'' then between "'" s
  else between "\"" (s.flatMap escapeChar)

def real (x : Float) : String :=
  if x.isNaN then "nan"
  else if x.isInf || x.floor != x then Decimal.plain x
  else Decimal.plain x ++ ".0"

def number : Number → String
  | .natural n => toString n
  | .negative n => "-" ++ toString n
  | .real x => real x

mutual

def inline : Value → String
  | .bool true => "true"
  | .bool false => "false"
  | .number n => number n
  | .string s => quote s
  | .array [] => "[]"
  | .array [v] => "[" ++ inline v ++ "]"
  | .array items => "[" ++ inlineItems items ++ "\n]"
  | .object members => "\x7b " ++ ", ".intercalate (inlineMembers members) ++ " \x7d"
  | .null | .unreadable => "\"\""

def inlineItems : List Value → String
  | [] => ""
  | v :: rest => "\n    " ++ inline v ++ "," ++ inlineItems rest

def inlineMembers : List (String × Value) → List String
  | [] => []
  | (k, v) :: rest => (key k ++ " = " ++ inline v) :: inlineMembers rest

end

def isTable : Value → Bool
  | .object _ => true
  | _ => false

def isTableList : Value → Bool
  | .array items => !items.isEmpty && items.all isTable
  | _ => false

def isUnset : Value → Bool
  | .null => true
  | _ => false

def keyLine (e : String × Value) : String := key e.1 ++ " = " ++ inline e.2 ++ "\n"

def plainLines (members : List (String × Value)) : String :=
  let plain := members.filter fun e => !isUnset e.2 && !isTable e.2 && !isTableList e.2
  String.join (plain.map keyLine)

def header (path : List String) : String := ".".intercalate (path.map key)

mutual

/-- A table and the tables inside it, a text for each that is shown. Plain members come first, and
members without a value are left out. A table that only holds other tables has no header. -/
def table (path : List String) : Value → List String
  | .object members =>
    let lines := plainLines members
    let own :=
      if path.isEmpty then (if lines = "" then [] else [lines])
      else if lines = "" && !members.isEmpty then []
      else ["[" ++ header path ++ "]\n" ++ lines]
    own ++ innerTables path members
  | _ => []

def innerTables (path : List String) : List (String × Value) → List String
  | [] => []
  | (k, .object members) :: rest => table (path ++ [k]) (.object members) ++ innerTables path rest
  | (k, .array items) :: rest =>
    (if items.all isTable then itemTables (path ++ [k]) items else []) ++ innerTables path rest
  | _ :: rest => innerTables path rest

def itemTables (path : List String) : List Value → List String
  | [] => []
  | .object members :: rest =>
    (("[[" ++ header path ++ "]]\n" ++ plainLines members) :: innerTables path members)
      ++ itemTables path rest
  | _ :: rest => itemTables path rest

end

mutual

def fits : Value → Bool
  | .number (.natural n) => n < 0x8000000000000000
  | .array items => fitsAll items
  | .object members => fitsMembers members
  | _ => true

def fitsAll : List Value → Bool
  | [] => true
  | v :: rest => fits v && fitsAll rest

def fitsMembers : List (String × Value) → Bool
  | [] => true
  | (_, v) :: rest => fits v && fitsMembers rest

end

def write? (v : Value) : Option String :=
  if fits v then some ("\n".intercalate (table [] v)) else none

end Crosswalk.Toml
