import Crosswalk.Names.Table
import Crosswalk.Rules.Declarations
import Crosswalk.Text.Bounded
import Crosswalk.Data.Decode

namespace Crosswalk

/-- Entries are only ever added, and the first one wins. -/
structure Manifest where
  symbols : Table String
  definitions : NameSet
  exports : Table String
deriving DecidableEq

inductive Recorded where
  | mapped (source target : String)
  | alreadyMapped (source existing proposed : String)
  | definitionOnly (target : String)
  | unchanged
deriving DecidableEq, Repr

namespace Manifest

def empty : Manifest := ⟨Table.empty, Table.empty, Table.empty⟩

instance : Inhabited Manifest := ⟨empty⟩

/-- The first type of the candidate is defined by the file; if the source declares a type that has
no name yet, it gets this one. -/
def record (m : Manifest) (source candidate path : String) : Manifest × Recorded :=
  match Rules.declaredType? candidate with
  | none => (m, .unchanged)
  | some target =>
    let defined : Manifest :=
      ⟨m.symbols, m.definitions.insert target, m.exports.insertNew target path⟩
    match Rules.declaredType? source with
    | none => (defined, .definitionOnly target)
    | some name =>
      match m.symbols.get? name with
      | some existing => (defined, .alreadyMapped name existing target)
      | none => ({ defined with symbols := m.symbols.put name target }, .mapped name target)

def targetFor? (m : Manifest) (source : String) : Option String := m.symbols.get? source

def isDefined (m : Manifest) (name : String) : Bool := m.definitions.contains name

def size (m : Manifest) : Nat := m.symbols.size

def isEmpty (m : Manifest) : Bool := m.symbols.isEmpty && m.definitions.isEmpty

/-- Mappings that rename something and whose source name is free to be replaced. -/
def renames (m : Manifest) : List (String × String) :=
  m.symbols.entries.filter fun e => e.1 != e.2 && !m.isDefined e.1

/-- Mappings whose source name is itself the name of a defined target type. -/
def conflicts (m : Manifest) : List (String × String) :=
  m.symbols.entries.filter fun e => e.1 != e.2 && m.isDefined e.1

def renderLimit : Nat := 4000

def renderMapping (e : String × String) : String := "- " ++ e.1 ++ " -> " ++ e.2 ++ "\n"

def unmapped (m : Manifest) : List String :=
  m.definitions.toList.filter fun name => !m.symbols.entries.any (·.2 == name)

def renderFull (m : Manifest) : String :=
  let mappings :=
    if m.symbols.isEmpty then ""
    else "Established names (reuse these exactly):\n"
      ++ String.join (m.symbols.entries.map renderMapping)
  let others :=
    if m.unmapped.isEmpty then ""
    else "Other defined types: " ++ ", ".intercalate m.unmapped ++ "\n"
  mappings ++ others

def render (m : Manifest) : String :=
  if m.isEmpty then "No symbols mapped yet."
  else String.ofList (Text.bounded renderLimit m.renderFull.toList)

def encodeNames (t : Table String) : Value :=
  .object (t.entries.map fun e => (e.1, .string e.2))

def encode (m : Manifest) : Value :=
  .object [
    ("symbol_map", encodeNames m.symbols),
    ("definitions", Value.strings m.definitions.toList),
    ("file_exports", encodeNames m.exports)]

open Decode in
def decode? (v : Value) : Option Manifest := do
  let fs ← fields? ["symbol_map", "definitions", "file_exports"] v
  some {
    symbols := ← required fs "symbol_map" (table? string?)
    definitions := ← required fs "definitions" nameSet?
    exports := ← required fs "file_exports" (table? string?) }

end Manifest

end Crosswalk
