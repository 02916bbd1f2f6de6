import Crosswalk.Toml.Document
import Crosswalk.Toml.Scalar

namespace Crosswalk.Toml

def splitPath (keys : List String) : List String × String :=
  (keys.dropLast, keys.getLast?.getD "")

def depthLimit : Nat := 80

def keys? (s : List Char) : Option (List String × List Char) :=
  (keyPath? (s.length + 1) s).filter fun found => found.1.length < depthLimit

mutual

/-- A value at the front of the text, inside so many others. Fuel bounds the number of values and
commas. -/
def value? : Nat → (depth : Nat) → List Char → Option (Value × List Char)
  | 0, _, _ => none
  | n + 1, depth, s =>
    match s with
    | '[' :: rest =>
      if depth + 1 < depthLimit then
        (items? n (depth + 1) [] rest).map fun (vs, rest) => (.array vs, rest)
      else none
    | '{' :: rest =>
      if depth + 1 < depthLimit then
        match skipSpace rest with
        | '}' :: rest => some (.object [], rest)
        | rest =>
          (pairs? n (depth + 1) [] rest).map fun (ms, rest) => (.object (membersToValues ms), rest)
      else none
    | 't' :: 'r' :: 'u' :: 'e' :: rest => some (.bool true, rest)
    | 'f' :: 'a' :: 'l' :: 's' :: 'e' :: rest => some (.bool false, rest)
    | s =>
      match string? s with
      | some (text, rest) => some (.string (String.ofList text), rest)
      | none =>
        match date? s with
        | some (text, rest) => some (dateValue text, rest)
        | none => number? s

def items? : Nat → (depth : Nat) → List Value → List Char → Option (List Value × List Char)
  | 0, _, _, _ => none
  | n + 1, depth, acc, s =>
    match skipGaps s with
    | ']' :: rest => some (acc.reverse, rest)
    | s =>
      match value? n depth s with
      | none => none
      | some (v, rest) =>
        match skipGaps rest with
        | ',' :: rest => items? n depth (v :: acc) rest
        | ']' :: rest => some ((v :: acc).reverse, rest)
        | _ => none

def pairs? : Nat → (depth : Nat) → Members → List Char → Option (Members × List Char)
  | 0, _, _, _ => none
  | n + 1, depth, acc, s =>
    match keys? s with
    | none => none
    | some (keys, rest) =>
      match rest with
      | '=' :: rest =>
        match value? n depth (skipSpace rest) with
        | none => none
        | some (v, rest) =>
          match acc.define (splitPath keys).1 (splitPath keys).2 v with
          | none => none
          | some acc =>
            match skipSpace rest with
            | ',' :: rest => pairs? n depth acc rest
            | '}' :: rest => some (acc, rest)
            | _ => none
      | _ => none

end

def keyLine? (d : Document) (s : List Char) : Option (Document × List Char) := do
  let (keys, rest) ← keys? s
  let rest ← after? '=' rest
  let (v, rest) ← value? (2 * rest.length + 2) 0 (skipSpace rest)
  let rest ← lineEnd? rest
  let d ← d.define (splitPath keys).1 (splitPath keys).2 v
  some (d, rest)

def tableLine? (d : Document) (s : List Char) : Option (Document × List Char) := do
  let (keys, rest) ← keys? s
  let rest ← lineEnd? (← after? ']' rest)
  let d ← d.openTable (splitPath keys).1 (splitPath keys).2
  some (d, rest)

def itemLine? (d : Document) (s : List Char) : Option (Document × List Char) := do
  let (keys, rest) ← keys? s
  let rest ← lineEnd? (← after? ']' (← after? ']' rest))
  let d ← d.openItem (splitPath keys).1 (splitPath keys).2
  some (d, rest)

def line? (d : Document) (s : List Char) : Option (Document × List Char) :=
  match skipSpace s with
  | '[' :: '[' :: rest => itemLine? d rest
  | '[' :: rest => tableLine? d rest
  | rest =>
    match lineEnd? rest with
    | some rest => some (d, rest)
    | none => keyLine? d rest

def lines? : Nat → Document → List Char → Option Document
  | _, d, [] => some d
  | 0, _, _ => none
  | n + 1, d, s =>
    match line? d s with
    | none => none
    | some (d, rest) => lines? n d rest

/-- A byte order mark in front is skipped. -/
def parse? (s : String) : Option Value :=
  let chars := match s.toList with
    | '\ufeff' :: rest => rest
    | rest => rest
  (lines? chars.length {} chars).bind Document.toValue?

end Crosswalk.Toml
