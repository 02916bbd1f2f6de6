import Crosswalk.Data.Shape

namespace Crosswalk.Toml

def isEmpty : Value → Bool
  | .object members => members.isEmpty
  | .array items => items.isEmpty
  | _ => false

def choice? : List (String × Value) → Option String
  | [(name, content)] => if isEmpty content then some name else none
  | _ => none

mutual

/-- The usual spelling of what has more than one: an array for a record may have items beyond the
fields, which count for nothing, and a choice may be a table whose only key is its name, with
nothing in it. -/
def plain (shape : Shape) : Value → Value
  | .array items => .array (plainItems shape 0 items)
  | .object members =>
    match if shape.isChoice then choice? members else none with
    | some name => .string name
    | none => .object (plainMembers shape members)
  | v => v

def plainItems (shape : Shape) (i : Nat) : List Value → List Value
  | [] => []
  | v :: rest =>
    match shape.item? i with
    | some itemShape => plain itemShape v :: plainItems shape (i + 1) rest
    | none => []

def plainMembers (shape : Shape) : List (String × Value) → List (String × Value)
  | [] => []
  | (name, v) :: rest => (name, plain (shape.member name) v) :: plainMembers shape rest

end

end Crosswalk.Toml
