namespace Crosswalk

/-- Numbers keep the distinction that typed fields depend on: natural numbers of 64 bits, negative
integers of 64 bits, and everything else. -/
inductive Number where
  | natural (n : Nat)
  /-- The integer `-n`, for a positive `n`. -/
  | negative (n : Nat)
  | real (x : Float)
deriving DecidableEq

inductive Value where
  | null
  | bool (b : Bool)
  | number (n : Number)
  | string (s : String)
  | array (items : List Value)
  /-- Members in the order they were written, repeated names included. -/
  | object (members : List (String × Value))
  /-- Text of the right form that stands for no value, such as a number beyond the doubles or half
  a surrogate pair. It can be skipped but not read. -/
  | unreadable

namespace Value

def nat (n : Nat) : Value := .number (.natural n)

def real (x : Float) : Value := .number (.real x)

def ofOption {α : Type} (f : α → Value) : Option α → Value
  | none => .null
  | some a => f a

def strings (items : List String) : Value := .array (items.map .string)

mutual

def mapTexts (f : String → String) : Value → Value
  | .string s => .string (f s)
  | .array items => .array (mapItems f items)
  | .object members => .object (mapMembers f members)
  | v => v

def mapItems (f : String → String) : List Value → List Value
  | [] => []
  | v :: rest => mapTexts f v :: mapItems f rest

def mapMembers (f : String → String) : List (String × Value) → List (String × Value)
  | [] => []
  | (name, v) :: rest => (f name, mapTexts f v) :: mapMembers f rest

end

end Value

end Crosswalk
