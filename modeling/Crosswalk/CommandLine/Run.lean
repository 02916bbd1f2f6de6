import Crosswalk.Batch.Report
import Crosswalk.Batch.Setup
import Crosswalk.CommandLine.Arguments
import Crosswalk.Environment
import Crosswalk.Project.Sources
import Crosswalk.Settings.File

namespace Crosswalk.CommandLine

variable {σ : Type}

structure Exit where
  code : Nat
  stdout : String := ""
  stderr : String := ""
deriving DecidableEq, Repr

structure Failure where
  headline : String
  cause : Option String := none

def Failure.ofFault (fault : RunFault) : Failure :=
  match fault with
  | .during activity cause => ⟨activity, some cause.message⟩
  | fault => ⟨fault.message, none⟩

def Failure.ofRefusal (r : Output.Refusal) : Failure :=
  match r.activity with
  | some activity => ⟨activity, some r.fault.message⟩
  | none => ⟨r.fault.message, none⟩

def Failure.exit (f : Failure) : Exit where
  code := 1
  stderr := "Error: " ++ f.headline ++ "\n"
    ++ f.cause.elim "" fun c => "\nCaused by:\n    " ++ c ++ "\n"

def lines (ls : List String) : String := String.join (ls.map (· ++ "\n"))

/-- The program itself breaks down. -/
def breakdown (reason : String) : Exit where
  code := 101
  stderr := lines [reason]

def padLeft (width : Nat) (s : String) : String :=
  String.ofList (List.replicate (width - s.length) ' ') ++ s

def padRight (width : Nat) (s : String) : String :=
  s ++ String.ofList (List.replicate (width - s.length) ' ')

def collectSources (languages : List Language) (input : String) (files : Tree) :
    Except Failure (List Source) :=
  match files.get input with
  | .ok root => .ok (Project.sources languages root)
  | .error fault => .error ⟨"walking " ++ input, some fault.message⟩

def allLanguages : List Language := [.kotlin, .java, .swift]

def laneLine (scores : Table Nat) (file : Source) : String :=
  "  " ++ padLeft 3 (toString ((scores.get? file.path).getD 0)) ++ "  " ++ file.path

def showLanes (json : Bool) (l : Lanes) : String :=
  if json then
    lines [Json.pretty (.object (l.scores.entries.map fun e => (e.1, .nat e.2)))]
  else
    lines (["Sequential lane"] ++ l.sequential.map (laneLine l.scores)
      ++ ["Parallel lane"] ++ l.parallel.map (laneLine l.scores))

def showSummary (json : Bool) (s : Summary) : String :=
  lines [if json then Json.pretty s.encode else s.render]

def resultLine (c : Converted) : String :=
  let status :=
    if c.verified then "verified" else if c.placeholder then "placeholder" else "unverified"
  "  " ++ padRight 12 status ++ " " ++ c.path ++ " -> " ++ c.outputPath ++ " ("
    ++ toString c.attempts ++ " attempts)"

def errorLine (f : Failed) : String :=
  "  " ++ padRight 12 "error" ++ " " ++ f.path ++ ": " ++ f.error

def showBatch (b : Batch) (stamps : Stamps) : List String :=
  let t := b.tally
  [""] ++ b.results.map resultLine ++ b.errors.map errorLine ++
    ["",
      toString t.totalFiles ++ " files (" ++ toString t.sequentialFiles ++ " sequential, "
        ++ toString t.parallelFiles ++ " parallel) in " ++ stamps.elapsed ++ " ms",
      toString t.verified ++ " verified, " ++ toString t.exhausted ++ " exhausted, "
        ++ toString t.placeholders ++ " placeholders, " ++ toString t.errors ++ " errors, "
        ++ toString t.totalAttempts ++ " oracle attempts"]

def ConvertArguments.settings (a : ConvertArguments) (s : Settings) : Settings :=
  let s := if a.offline then s.setOracle ({ · with mode := .fallback }) else s
  if a.noValidate then s.setChecker ({ · with mode := .disabled }) else s

def ConvertArguments.direction (a : ConvertArguments) (s : Settings) : Direction :=
  ((a.options.orElse s.effectiveDefaults).direction).getD default

def nothingFound (d : Direction) (input : String) : String :=
  lines ["warning: no " ++ d.name ++ " sources found under " ++ input]

def finish (a : ConvertArguments) (stamps : Stamps) (b : Batch) (files : Tree) : Exit × Tree :=
  match Output.write b stamps a.out files with
  | (.error refusal, files) => ((Failure.ofRefusal refusal).exit, files)
  | (.ok (), files) =>
    let shown :=
      if a.json then [b.report stamps]
      else showBatch b stamps ++ ["Report: " ++ Output.reportPath a.out]
    ({ code := if b.success then 0 else 1, stdout := lines shown }, files)

def convert (around : Surroundings σ) (stamps : Stamps) (a : ConvertArguments) (s : Settings)
    (files : Tree) (world : σ) : Exit × Tree × σ :=
  let s := a.settings s
  let d := a.direction s
  match collectSources d.sources a.input files with
  | .error failure => (failure.exit, files, world)
  | .ok [] => ({ code := 0, stdout := nothingFound d a.input }, files, world)
  | .ok sources =>
    match Engine.ofSettings around s with
    | .error fault => ((Failure.ofFault fault).exit, files, world)
    | .ok engine =>
      match Batch.run engine sources a.options world with
      | (.broken reason, world) => (breakdown reason, files, world)
      | (.finished (.error fault), world) => ((Failure.ofFault fault).exit, files, world)
      | (.finished (.ok b), world) =>
        let (exit, files) := finish a stamps b files
        (exit, files, world)

def look (input : String) (shown : List Source → String) (files : Tree) : Exit :=
  match collectSources allLanguages input files with
  | .error failure => failure.exit
  | .ok sources => { code := 0, stdout := shown sources }

def programName : String := "reforge"

def engineVersion : String := "0.1.0"

def usage : String :=
  lines ["Usage: " ++ programName ++ " [OPTIONS] <convert|classify|context> <INPUT>"]

def Stop.exit : Stop → Exit
  | .help => { code := 0, stdout := usage }
  | .version => { code := 0, stdout := lines [programName ++ "-cli " ++ engineVersion] }
  | .misuse => { code := 2, stderr := usage }

/-- The directory tree is the one that the program is started in. -/
def run (around : Surroundings σ) (stamps : Stamps) (args : List String) (files : Tree)
    (world : σ) : Exit × Tree × σ :=
  match parse args with
  | .error stop => (stop.exit, files, world)
  | .ok a =>
    let around := { around with env := around.env.withFile files }
    match Settings.load a.config files around.env with
    | .error fault =>
      ((⟨"loading configuration", some fault.message⟩ : Failure).exit, files, world)
    | .ok s =>
      match a.command with
      | .convert c => convert around stamps c s files world
      | .classify input threshold json =>
        let threshold := threshold.getD s.pipeline.sequentialThreshold
        (look input (fun fs => showLanes json (.ofSources threshold fs)) files, files, world)
      | .context input json =>
        (look input (fun fs => showSummary json (.ofSources fs)) files, files, world)

end Crosswalk.CommandLine
