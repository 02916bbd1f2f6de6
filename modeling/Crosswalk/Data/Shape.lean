import Crosswalk.Data.Value

namespace Crosswalk

inductive Shape where
  | any
  | choice
  | list (items : Shape)
  | record (fields : List (String × Shape))

namespace Shape

instance : Inhabited Shape := ⟨any⟩

def isChoice : Shape → Bool
  | choice => true
  | _ => false

def names : Shape → List String
  | record fields => fields.map (·.1)
  | _ => []

def member (s : Shape) (name : String) : Shape :=
  match s with
  | record fields => (fields.lookup name).getD any
  | _ => any

def item? (s : Shape) (i : Nat) : Option Shape :=
  match s with
  | record fields => fields[i]?.map (·.2)
  | list items => some items
  | _ => some any

end Shape

end Crosswalk
