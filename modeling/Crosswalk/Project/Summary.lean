import Crosswalk.Data.Value
import Crosswalk.Names.Table
import Crosswalk.Project.Lane
import Crosswalk.Rules.Declarations
import Crosswalk.Rules.Vocabulary
import Crosswalk.Source
import Crosswalk.Text.Bounded

namespace Crosswalk

structure Signals where
  path : String
  types : List String
  functions : List String
  stateNames : List String
  navigation : List String
  stateFrameworks : List String
  services : List String
  deepLinks : List String
  persistedKeys : List String
  payloadKeys : List String
deriving DecidableEq

namespace Signals

def distinct : List String → List String
  | [] => []
  | a :: rest => a :: (distinct rest).filter (· != a)

def captured (p : Pattern) (content : List Char) : List String :=
  distinct ((p.findAll content).filterMap fun m => m.firstGroup?.map String.ofList)

def ofSource (s : Source) : Signals :=
  let chars := s.content.toList
  { path := s.path
    types := captured Rules.typeDeclaration chars
    functions := captured Rules.functionDeclaration chars
    stateNames := captured Rules.stateDeclaration chars
    navigation := Lane.hits Rules.navigationVocabulary s.content
    stateFrameworks := Lane.hits Rules.stateVocabulary s.content
    services := Lane.hits Rules.serviceVocabulary s.content
    deepLinks := Lane.hits Rules.deepLinkVocabulary s.content
    persistedKeys := captured Rules.persistedKey chars
    payloadKeys := captured Rules.payloadKey chars }

def encode (s : Signals) : Value :=
  .object [
    ("path", .string s.path),
    ("types", .strings s.types),
    ("functions", .strings s.functions),
    ("state_identifiers", .strings s.stateNames),
    ("navigation", .strings s.navigation),
    ("state_management", .strings s.stateFrameworks),
    ("service_bindings", .strings s.services),
    ("deep_links", .strings s.deepLinks),
    ("persisted_keys", .strings s.persistedKeys),
    ("external_payload_keys", .strings s.payloadKeys)]

end Signals

structure Summary where
  fileCount : Nat
  perFile : List Signals
  /-- The file that declares a type; the first one wins. -/
  classIndex : Table String
  navigation : NameSet
  stateFrameworks : NameSet
  services : NameSet
  deepLinks : NameSet
  persistedKeys : NameSet
  payloadKeys : NameSet
deriving DecidableEq

namespace Summary

def empty : Summary :=
  ⟨0, [], Table.empty, Table.empty, Table.empty, Table.empty, Table.empty, Table.empty, Table.empty⟩

def add (s : Summary) (f : Signals) : Summary where
  fileCount := s.fileCount + 1
  perFile := s.perFile ++ [f]
  classIndex := f.types.foldl (fun t name => t.insertNew name f.path) s.classIndex
  navigation := s.navigation.insertAll f.navigation
  stateFrameworks := s.stateFrameworks.insertAll f.stateFrameworks
  services := s.services.insertAll f.services
  deepLinks := s.deepLinks.insertAll f.deepLinks
  persistedKeys := s.persistedKeys.insertAll f.persistedKeys
  payloadKeys := s.payloadKeys.insertAll f.payloadKeys

def ofSources (files : List Source) : Summary :=
  (files.map Signals.ofSource).foldl add empty

def signals? (s : Summary) (path : String) : Option Signals := s.perFile.find? (·.path == path)

def renderLimit : Nat := 6000

def renderLine (label : String) (names : NameSet) : String :=
  if names.isEmpty then "" else label ++ ": " ++ ", ".intercalate names.toList ++ "\n"

def renderFull (s : Summary) : String :=
  let types :=
    if s.classIndex.isEmpty then ""
    else "Declared types:\n"
      ++ String.join (s.classIndex.entries.map fun e => "- " ++ e.1 ++ " (" ++ e.2 ++ ")\n")
  "Project files: " ++ toString s.fileCount ++ "\n" ++ types
    ++ renderLine "Navigation" s.navigation
    ++ renderLine "State management" s.stateFrameworks
    ++ renderLine "Services" s.services
    ++ renderLine "Deep links" s.deepLinks
    ++ renderLine "Persisted keys" s.persistedKeys
    ++ renderLine "External payload keys" s.payloadKeys

def render (s : Summary) : String :=
  String.ofList (Text.bounded renderLimit s.renderFull.toList)

def encode (s : Summary) : Value :=
  .object [
    ("file_count", .nat s.fileCount),
    ("per_file", .array (s.perFile.map Signals.encode)),
    ("class_index", .object (s.classIndex.entries.map fun e => (e.1, .string e.2))),
    ("navigation_signals", .strings s.navigation.toList),
    ("state_usage_signals", .strings s.stateFrameworks.toList),
    ("service_signals", .strings s.services.toList),
    ("deep_link_signals", .strings s.deepLinks.toList),
    ("persisted_key_signals", .strings s.persistedKeys.toList),
    ("external_payload_keys", .strings s.payloadKeys.toList)]

end Summary

end Crosswalk
