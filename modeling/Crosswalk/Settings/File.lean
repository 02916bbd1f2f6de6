import Crosswalk.Files.Tree
import Crosswalk.Json.Reader
import Crosswalk.Json.Writer
import Crosswalk.Settings.Environment
import Crosswalk.Toml.Plain
import Crosswalk.Toml.Reader
import Crosswalk.Toml.Writer

namespace Crosswalk.Settings

inductive Format where
  | json
  | toml
deriving DecidableEq, Repr

def ending? (path : String) : Option String :=
  let name := (path.toList.reverse.takeWhile (· != '/')).reverse
  match Text.splitAfterLast? '.' name with
  | some (upToDot, ending) => if upToDot.length ≤ 1 then none else some (String.ofList ending)
  | none => none

def Format.ofPath (path : String) : Format :=
  match ending? path with
  | some e => if Text.asciiLowerText e = "toml" then .toml else .json
  | none => .json

def parse (path text : String) : Except RunFault Settings :=
  match Format.ofPath path with
  | .json =>
    match (Json.parse? text).bind decode? with
    | some s => .ok s
    | none => .error .undecodable
  | .toml =>
    match (Toml.parse? text).bind fun v => decode? (Toml.plain shape v) with
    | some s => .ok s
    | none => .error (.unusableFile path)

def render (path : String) (s : Settings) : Except RunFault String :=
  match Format.ofPath path with
  | .json => .ok (Json.pretty s.encode)
  | .toml =>
    match Toml.write? s.encode with
    | some text => .ok text
    | none => .error .unwritable

def ofFile (path : String) (files : Tree) : Except RunFault Settings :=
  match files.readText path with
  | .error fault => .error (.during ("reading " ++ path) (.system fault))
  | .ok text => do
    let s ← parse path text
    s.validate
    .ok s

def toFile (path : String) (s : Settings) (files : Tree) : Except RunFault Tree := do
  let text ← render path s
  match files.writeText path text with
  | .error fault => .error (.during ("writing " ++ path) (.system fault))
  | .ok files => .ok files

/-- The settings in a file, if there is one, with the environment on top. -/
def load (path : Option String) (files : Tree) (env : Environment) : Except RunFault Settings := do
  let base ← match path with
    | some path => ofFile path files
    | none => .ok {}
  base.applyEnvironment env

end Crosswalk.Settings
