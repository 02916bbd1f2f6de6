import Crosswalk.Data.Value

namespace Crosswalk.Toml

/-- Tables remember how they came about, since that decides who may add to them: a table that a
header has opened takes no further header and no dotted key, one that only stands on the way to
another may still be opened, and one made by dotted keys takes more of those. -/
inductive Node where
  | value (v : Value)
  /-- `implicit`: no header of its own has been seen. `dotted`: made by a dotted key. -/
  | table (implicit dotted : Bool) (members : List (String × Node))
  | tables (items : List Node)

abbrev Members := List (String × Node)

mutual

def Node.toValue : Node → Value
  | .value v => v
  | .table _ _ members => .object (membersToValues members)
  | .tables items => .array (nodesToValues items)

def membersToValues : List (String × Node) → List (String × Value)
  | [] => []
  | (k, n) :: rest => (k, n.toValue) :: membersToValues rest

def nodesToValues : List Node → List Value
  | [] => []
  | n :: rest => n.toValue :: nodesToValues rest

end

namespace Members

def put (key : String) (n : Node) : Members → Members
  | [] => [(key, n)]
  | (k, old) :: rest => if k = key then (k, n) :: rest else (k, old) :: put key n rest

/-- Act on the table that a path leads to, making the tables on the way. `byDots` tells a path of
dotted keys from one of headers. The action is told whether its table is a dotted one. -/
def descend {α : Type} (byDots : Bool) (act : Bool → Members → Option (α × Members)) :
    List String → Bool → Members → Option (α × Members)
  | [], dotted, ms => act dotted ms
  | k :: path, _, ms =>
    match ms.lookup k with
    | none => (descend byDots act path byDots []).map fun (a, inner) =>
      (a, put k (.table true byDots inner) ms)
    | some (.value _) => none
    | some (.tables items) =>
      match items.getLast? with
      | some (.table implicit dotted inner) =>
        (descend byDots act path dotted inner).map fun (a, inner) =>
          (a, put k (.tables (items.dropLast ++ [.table implicit dotted inner])) ms)
      | _ => none
    | some (.table implicit dotted inner) =>
      if byDots && !implicit then none
      else (descend byDots act path dotted inner).map fun (a, inner) =>
        (a, put k (.table implicit dotted inner) ms)

/-- Define a key. Dotted keys define in dotted tables only, plain keys in others. -/
def define (path : List String) (key : String) (v : Value) (ms : Members) : Option Members :=
  let act (dotted : Bool) (ms : Members) : Option (Unit × Members) :=
    if dotted == path.isEmpty || (ms.lookup key).isSome then none
    else some ((), put key (.value v) ms)
  (descend true act path false ms).map (·.2)

def takeOpen (path : List String) (key : String) (ms : Members) : Option (Members × Members) :=
  let act (_ : Bool) (ms : Members) : Option (Members × Members) :=
    match ms.lookup key with
    | none => some ([], ms)
    | some (.table true false inner) => some (inner, ms.filter (·.1 != key))
    | some _ => none
  descend false act path false ms

def openList (path : List String) (key : String) (ms : Members) : Option Members :=
  let act (_ : Bool) (ms : Members) : Option (Unit × Members) :=
    match ms.lookup key with
    | none => some ((), put key (.tables []) ms)
    | some (.tables _) => some ((), ms)
    | some _ => none
  (descend false act path false ms).map (·.2)

def addTable (ms : Members) (path : List String) (key : String) (table : Members) :
    Option Members :=
  let act (_ : Bool) (ms : Members) : Option (Unit × Members) :=
    match ms.lookup key with
    | none | some (.table true _ _) => some ((), put key (.table false false table) ms)
    | some _ => none
  (descend false act path false ms).map (·.2)

def addItem (ms : Members) (path : List String) (key : String) (table : Members) :
    Option Members :=
  let act (_ : Bool) (ms : Members) : Option (Unit × Members) :=
    match ms.lookup key with
    | none => some ((), put key (.tables [.table false false table]) ms)
    | some (.tables items) =>
      some ((), put key (.tables (items ++ [.table false false table])) ms)
    | some _ => none
  (descend false act path false ms).map (·.2)

end Members

inductive Target where
  | root
  | table (path : List String) (key : String)
  | item (path : List String) (key : String)

structure Document where
  closed : Members := []
  target : Target := .root
  current : Members := []

namespace Document

def define (d : Document) (path : List String) (key : String) (v : Value) : Option Document :=
  (d.current.define path key v).map fun current => { d with current }

def close (d : Document) : Option Members :=
  match d.target with
  | .root => some d.current
  | .table path key => d.closed.addTable path key d.current
  | .item path key => d.closed.addItem path key d.current

def openTable (d : Document) (path : List String) (key : String) : Option Document := do
  let (current, closed) ← (← d.close).takeOpen path key
  some ⟨closed, .table path key, current⟩

def openItem (d : Document) (path : List String) (key : String) : Option Document := do
  let closed ← (← d.close).openList path key
  some ⟨closed, .item path key, []⟩

def toValue? (d : Document) : Option Value :=
  d.close.map fun ms => .object (membersToValues ms)

end Document

end Crosswalk.Toml
