import Crosswalk.Fault
import Crosswalk.Text.Blank
import Crosswalk.Text.Utf8

namespace Crosswalk

/-- A directory tree without symbolic links. A walk through a project passes links over, and no path
here leads through one. -/
inductive Tree where
  | file (content : Bytes)
  /-- No two entries have the same name. Their order means nothing. -/
  | dir (entries : List (String × Tree))
  /-- Neither a directory nor a file that can be read. It cannot be written, either. -/
  | other

namespace Tree

def empty : Tree := .dir []

instance : Inhabited Tree := ⟨empty⟩

def at? : List String → Tree → Option Tree
  | [], t => some t
  | _ :: _, .file _ => none
  | _ :: _, .other => none
  | s :: rest, .dir entries => (entries.lookup s).bind (at? rest)

def putEntry (name : String) (t : Tree) : List (String × Tree) → List (String × Tree)
  | [] => [(name, t)]
  | (n, old) :: rest => if n = name then (n, t) :: rest else (n, old) :: putEntry name t rest

/-- Put something at the end of a way, whose directories must be there. -/
def put : (t : Tree) → (way : List String) → (new : Tree) → Tree
  | _, [], new => new
  | .file content, _ :: _, _ => .file content
  | .other, _ :: _, _ => .other
  | .dir entries, s :: rest, new =>
    match entries.lookup s with
    | some t => .dir (putEntry s (put t rest new) entries)
    | none => if rest.isEmpty then .dir (putEntry s new entries) else .dir entries

def segments (path : String) : List String :=
  (Text.splitAtChar '/' path.toList).map String.ofList

def staysHere (segment : String) : Bool := segment == "" || segment == "."

def goesUp (segment : String) : Bool := segment == ".."

def goTo (t : Tree) : (here segments : List String) → Except SystemFault (List String)
  | here, [] => .ok here
  | here, s :: rest =>
    match t.at? here with
    | some (.dir entries) =>
      if staysHere s then goTo t here rest
      else if goesUp s then goTo t here.dropLast rest
      else if (entries.lookup s).isSome then goTo t (here ++ [s]) rest
      else .error .notFound
    | _ => .error .notDirectory

def get (path : String) (t : Tree) : Except SystemFault Tree :=
  if path = "" then .error .notFound
  else do
    let way ← goTo t [] (segments path)
    match t.at? way with
    | some found => .ok found
    | none => .error .notFound

def isDir (path : String) (t : Tree) : Bool :=
  match t.get path with
  | .ok (.dir _) => true
  | _ => false

def read (path : String) (t : Tree) : Except SystemFault Bytes :=
  match t.get path with
  | .ok (.file content) => .ok content
  | .ok (.dir _) => .error .isDirectory
  | .ok .other => .error .permissionDenied
  | .error fault => .error fault

def readText (path : String) (t : Tree) : Except SystemFault String := do
  match Text.ofBytes? (← t.read path) with
  | some text => .ok text
  | none => .error .invalidText

def place (t : Tree) : (here segments : List String) → Except SystemFault (List String)
  | _, [] => .error .isDirectory
  | here, s :: rest =>
    match t.at? here with
    | some (.dir entries) =>
      if staysHere s then place t here rest
      else if goesUp s then place t here.dropLast rest
      else
        match entries.lookup s with
        | some (.dir _) => place t (here ++ [s]) rest
        | some (.file _) => if rest.isEmpty then .ok (here ++ [s]) else .error .notDirectory
        | some .other => .error (if rest.isEmpty then .permissionDenied else .notDirectory)
        | none =>
          if rest.isEmpty then .ok (here ++ [s])
          else if rest.all staysHere then .error .isDirectory
          else .error .notFound
    | _ => .error .notDirectory

/-- A file is written into a directory that exists, over a file of the same name. -/
def write (path : String) (content : Bytes) (t : Tree) : Except SystemFault Tree :=
  if path = "" then .error .notFound
  else (place t [] (segments path)).map fun way => t.put way (.file content)

def writeText (path text : String) (t : Tree) : Except SystemFault Tree :=
  t.write path (Text.toBytes text)

def makeWay (t : Tree) : (here segments : List String) → Except SystemFault Tree
  | here, [] =>
    match t.at? here with
    | some (.dir _) => .ok t
    | _ => .error .exists
  | here, s :: rest =>
    match t.at? here with
    | some (.dir entries) =>
      if staysHere s then makeWay t here rest
      else if goesUp s then makeWay t here.dropLast rest
      else if (entries.lookup s).isSome then makeWay t (here ++ [s]) rest
      else makeWay (t.put (here ++ [s]) empty) (here ++ [s]) rest
    | _ => .error .notDirectory

def makeDirs (path : String) (t : Tree) : Except SystemFault Tree :=
  if path = "" then .ok t else makeWay t [] (segments path)

/-- Drop segments that stay where they are from the end of a path, whose segments come last
first. A dot that the path begins with is kept. -/
def dropStays : List String → List String
  | [] => []
  | ["."] => ["."]
  | s :: rest => if staysHere s then dropStays rest else s :: rest

def parentPath (path : String) : String :=
  let parent := "/".intercalate (dropStays ((dropStays (segments path).reverse).drop 1)).reverse
  if parent = "" && path.startsWith "/" then "/" else parent

def joinPath (directory path : String) : String :=
  if directory = "" || directory.endsWith "/" then directory ++ path else directory ++ "/" ++ path

def writeDeep (here : List String) (path text : String) (t : Tree) :
    Except SystemFault Tree := do
  let t ← makeWay t here (segments (parentPath path))
  let way ← place t here (segments path)
  return t.put way (.file (Text.toBytes text))

mutual

def files (path : String) : Tree → List (String × Bytes)
  | .file content => [(path, content)]
  | .dir entries => entryFiles (if path = "" then "" else path ++ "/") entries
  | .other => []

def entryFiles (start : String) : List (String × Tree) → List (String × Bytes)
  | [] => []
  | (name, t) :: rest => files (start ++ name) t ++ entryFiles start rest

end

/-- The files of `new` that `old` does not have, or has with another content. -/
def changes (old new : Tree) : List (String × Bytes) :=
  let before := old.files ""
  (new.files "").filter fun f => !before.contains f

end Tree

end Crosswalk
