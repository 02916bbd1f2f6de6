import Crosswalk.Files.Tree
import Crosswalk.Source

namespace Crosswalk.Project

def passedOver : List String :=
  ["build", "out", "target", "node_modules", "Pods", "DerivedData", ".build", ".gradle", ".idea"]

def isPassedOver (directory : String) : Bool :=
  directory.startsWith "." || passedOver.contains directory

/-- A file is not passed over for its name. -/
def isSkipped (name : String) : Tree → Bool
  | .dir _ => isPassedOver name
  | _ => false

def source? (languages : List Language) (path : String) (content : Bytes) : Option Source :=
  if languages.contains (Language.ofPath path) then
    (Text.ofBytes? content).map (Source.ofPath path)
  else none

mutual

def sourcesAt (languages : List Language) (path : String) : Tree → List Source
  | .file content => (source? languages path content).toList
  | .dir entries => sourcesIn languages (if path = "" then "" else path ++ "/") entries
  | .other => []

def sourcesIn (languages : List Language) (start : String) : List (String × Tree) → List Source
  | [] => []
  | (name, t) :: rest =>
    (if isSkipped name t then [] else sourcesAt languages (start ++ name) t)
      ++ sourcesIn languages start rest

end

def byPath (a b : Source) : Bool := !(b.path < a.path)

def sources (languages : List Language) (root : Tree) : List Source :=
  (sourcesAt languages "" root).mergeSort byPath

end Crosswalk.Project
