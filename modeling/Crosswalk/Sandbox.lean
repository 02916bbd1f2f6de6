import Crosswalk.Environment
import Crosswalk.Files.Tree
import Crosswalk.Text.Search
import Crosswalk.Work

namespace Crosswalk

structure Finish where
  /-- `none` for a command that was killed. -/
  code : Option Nat
  stdout : Bytes
  stderr : Bytes

structure Machine (σ : Type) where
  /-- A new directory can be made in the directory with this path. -/
  hasRoom : (path : String) → Bool
  run : (directory : Tree) → (command : String) → (args : List String) →
    Work σ (Except SystemFault Finish)

def Machine.bare {σ : Type} : Machine σ := ⟨fun _ => true, fun _ _ _ => .done (.error .notFound)⟩

structure Execution where
  success : Bool
  stdout : String
  stderr : String
  exitCode : Int
  timedOut : Bool
deriving DecidableEq, Repr

namespace Execution

def ofFinish (f : Finish) : Execution where
  success := f.code == some 0
  stdout := Text.ofBytesLossy f.stdout
  stderr := Text.ofBytesLossy f.stderr
  exitCode := f.code.elim (-1) Int.ofNat
  timedOut := false

def late (command : String) (limit : Nat) : Execution where
  success := false
  stdout := ""
  stderr := "'" ++ command ++ "' timed out after " ++ toString (limit / 1000) ++ "s"
  exitCode := -1
  timedOut := true

/-- What was written to both outputs, the one for errors first, without blanks at the ends. -/
def combined (e : Execution) : String :=
  let said := [e.stderr, e.stdout].map fun s => Text.trimEnd s.toList
  String.ofList (Text.join ['\n'] (said.filter fun s => !Text.allBlank s))

end Execution

namespace Sandbox

variable {σ : Type}

def home (env : Environment) : String := (env.get? "TMPDIR").getD "/tmp"

def noRoom : String := "creating sandbox directory"

/-- The name of a new directory in its home. No segment of a path has a slash in it, so no path
leads back into the directory once it has led out of it. -/
def secluded : String := "/"

def start (path : String) : List String := if path.startsWith "/" then [] else [secluded]

/-- A new directory with files in it, or what is in the way. What is written outside of it is
lost. -/
def prepare (machine : Machine σ) (env : Environment) (files : List (String × String)) :
    Except String Tree :=
  if machine.hasRoom (home env) then
    let room := Tree.dir [(secluded, Tree.empty)]
    match files.foldlM (fun t f => t.writeDeep (start f.1) ("./" ++ f.1) f.2) room with
    | .ok t => .ok ((t.at? [secluded]).getD Tree.empty)
    | .error fault => .error fault.message
  else .error noRoom

def run (machine : Machine σ) (directory : Tree) (command : String) (args : List String) :
    Work σ (Except SystemFault Execution) :=
  (machine.run directory command args).bind fun
    | .ok finish => .done (.ok (.ofFinish finish))
    | .error fault => .done (.error fault)

def runWithin (machine : Machine σ) (limit : Nat) (directory : Tree) (command : String)
    (args : List String) : Work σ (Except SystemFault Execution) :=
  (run machine directory command args).within limit (.ok (.late command limit))

end Sandbox

end Crosswalk
