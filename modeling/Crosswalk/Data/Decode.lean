import Crosswalk.Data.Value
import Crosswalk.Names.Table

namespace Crosswalk.Decode

abbrev Fields := List (String × Value)

/-- A record is written as an object or as an array of its fields in order; an object may hold
further members, but no field twice. -/
def fields? (names : List String) : Value → Option Fields
  | .object members =>
    if names.any fun n => 1 < (members.filter (·.1 == n)).length then none else some members
  | .array items => if items.length ≤ names.length then some (names.zip items) else none
  | _ => none

variable {α : Type}

def required (fs : Fields) (name : String) (f : Value → Option α) : Option α :=
  (fs.lookup name).bind f

def defaulted (fs : Fields) (name : String) (default : α) (f : Value → Option α) : Option α :=
  match fs.lookup name with
  | none => some default
  | some v => f v

def string? : Value → Option String
  | .string s => some s
  | _ => none

def bool? : Value → Option Bool
  | .bool b => some b
  | _ => none

def natUpTo? (bound : Nat) : Value → Option Nat
  | .number (.natural n) => if n ≤ bound then some n else none
  | _ => none

def word32? : Value → Option Nat := natUpTo? 0xFFFFFFFF

def word64? : Value → Option Nat := natUpTo? 0xFFFFFFFFFFFFFFFF

/-- Integers are accepted where a real number is expected. -/
def real? : Value → Option Float
  | .number (.real x) => some x
  | .number (.natural n) => some (Float.ofNat n)
  | .number (.negative n) => some (-(Float.ofNat n))
  | _ => none

def optional? (f : Value → Option α) : Value → Option (Option α)
  | .null => some none
  | v => (f v).map some

def list? (f : Value → Option α) : Value → Option (List α)
  | .array items => items.mapM f
  | _ => none

/-- The last member of a name wins. -/
def table? (f : Value → Option α) : Value → Option (Table α)
  | .object members =>
    (members.mapM fun (e : String × Value) => (f e.2).map fun v => (e.1, v)).map Table.ofList
  | _ => none

def nameSet? (v : Value) : Option NameSet := (list? string? v).map NameSet.ofList

/-- One of a fixed list of names, as a string or as the only member of an object without content. -/
def choice? (choices : List (String × α)) : Value → Option α
  | .string s => choices.lookup s
  | .object [(s, .null)] => choices.lookup s
  | _ => none

end Crosswalk.Decode
