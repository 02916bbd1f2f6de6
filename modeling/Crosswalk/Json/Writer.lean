import Crosswalk.Data.Value
import Crosswalk.Decimal.Text
import Crosswalk.Text.Digits

namespace Crosswalk.Json

open Text (hexDigit)

def escapeChar (c : Char) : List Char :=
  match c with
  | '"' => ['\\', '"']
  | '\\' => ['\\', '\\']
  | '\n' => ['\\', 'n']
  | '\r' => ['\\', 'r']
  | '\t' => ['\\', 't']
  | '\x08' => ['\\', 'b']
  | '\x0c' => ['\\', 'f']
  | c =>
    if c.toNat < 0x20 then ['\\', 'u', '0', '0', hexDigit (c.toNat / 16), hexDigit (c.toNat % 16)]
    else [c]

def quote (s : String) : String :=
  String.ofList ('"' :: (s.toList.flatMap escapeChar ++ ['"']))

/-- Infinities and not-a-number have no JSON text and become `null`. -/
def number : Number → String
  | .natural n => toString n
  | .negative n => "-" ++ toString n
  | .real x => if x.isFinite then Decimal.data x else "null"

def separated (sep : String) : List String → String
  | [] => ""
  | [s] => s
  | s :: rest => s ++ sep ++ separated sep rest

def scalar : Value → String
  | .bool true => "true"
  | .bool false => "false"
  | .number n => number n
  | .string s => quote s
  | _ => "null"

mutual

def compact : Value → String
  | .array items => "[" ++ compactItems items ++ "]"
  | .object members => "\x7b" ++ compactMembers members ++ "\x7d"
  | v => scalar v

def compactItems : List Value → String
  | [] => ""
  | [v] => compact v
  | v :: rest => compact v ++ "," ++ compactItems rest

def compactMembers : List (String × Value) → String
  | [] => ""
  | [(k, v)] => quote k ++ ":" ++ compact v
  | (k, v) :: rest => quote k ++ ":" ++ compact v ++ "," ++ compactMembers rest

end

def indent (depth : Nat) : String := String.ofList ('\n' :: List.replicate (2 * depth) ' ')

mutual

def prettyAt (depth : Nat) : Value → String
  | .array [] => "[]"
  | .array items => "[" ++ prettyItems (depth + 1) items ++ indent depth ++ "]"
  | .object [] => "\x7b\x7d"
  | .object members => "\x7b" ++ prettyMembers (depth + 1) members ++ indent depth ++ "\x7d"
  | v => scalar v

def prettyItems (depth : Nat) : List Value → String
  | [] => ""
  | [v] => indent depth ++ prettyAt depth v
  | v :: rest => indent depth ++ prettyAt depth v ++ "," ++ prettyItems depth rest

def prettyMembers (depth : Nat) : List (String × Value) → String
  | [] => ""
  | [(k, v)] => indent depth ++ quote k ++ ": " ++ prettyAt depth v
  | (k, v) :: rest =>
    indent depth ++ quote k ++ ": " ++ prettyAt depth v ++ "," ++ prettyMembers depth rest

end

/-- One member or item a line, indented by two spaces. -/
def pretty (v : Value) : String := prettyAt 0 v

end Crosswalk.Json
