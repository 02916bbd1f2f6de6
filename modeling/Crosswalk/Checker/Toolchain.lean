import Crosswalk.Checker.Basic
import Crosswalk.Sandbox

namespace Crosswalk

structure Toolchain where
  /-- Unset, the usual compiler of the target language is run with its usual arguments. -/
  command : Option String := none
  args : List String := []
  sourceName : Option String := none
  shadowName : Option String := none
  limit : Nat := 60

namespace Toolchain

structure Plan where
  command : String
  args : List String
  sourceName : String
  shadowName : String

def sourceMark : String := "\x7bsource\x7d"

def shadowMark : String := "\x7bshadow\x7d"

def usual : Language → String × List String
  | .swift => ("swiftc", ["-parse", shadowMark, sourceMark])
  | _ => ("kotlinc", [shadowMark, sourceMark, "-d", "out"])

def fill (sourceName shadowName arg : String) : String :=
  let withSource := Text.replaceAll sourceMark.toList sourceName.toList arg.toList
  String.ofList (Text.replaceAll shadowMark.toList shadowName.toList withSource)

def plan (t : Toolchain) (target : Language) : Plan :=
  let sourceName := t.sourceName.getD ("Candidate." ++ target.fileSuffix)
  let shadowName := t.shadowName.getD ("Shadow." ++ target.fileSuffix)
  let (command, args) := t.command.elim (usual target) fun c => (c, t.args)
  { command, args := args.map (fill sourceName shadowName), sourceName, shadowName }

def readExecution (t : Toolchain) (command : String) (e : Execution) :
    Except OracleFault Verdict :=
  if e.timedOut then .error (.timeout t.limit)
  else if e.success then .ok .passed
  else
    let said := e.combined
    .ok (.failed
      (if said = "" then "'" ++ command ++ "' exited with code " ++ toString e.exitCode else said))

def checker {σ : Type} (t : Toolchain) (machine : Machine σ) (env : Environment) : Checker σ where
  name := t.command.getD "toolchain"
  check code shadow target :=
    let p := t.plan target
    match Sandbox.prepare machine env [(p.sourceName, code), (p.shadowName, shadow)] with
    | .error reason => .done (.error (.unreachable ("sandbox unavailable: " ++ reason)))
    | .ok directory =>
      (Sandbox.runWithin machine (1000 * t.limit) directory p.command p.args).bind fun
        | .error fault =>
          .done (.error (.unreachable ("failed to run '" ++ p.command ++ "': " ++ fault.message)))
        | .ok e => .done (t.readExecution p.command e)

end Toolchain

end Crosswalk
