import Crosswalk.Batch.Clock
import Crosswalk.Project.Lane
import Crosswalk.Renaming

namespace Crosswalk

structure Engine (σ : Type) where
  client : Client σ
  checker : Checker σ
  terms : Terms := {}
  defaults : CallOptions := {}
  threshold : Nat := Lane.builtinThreshold
  permits : Nat := 4

namespace Engine

variable {σ : Type}

/-- The services of an engine, each call held to its limit. -/
def services (e : Engine σ) : Services σ where
  ask _ request :=
    (e.client.answer e.terms.streaming request).call e.terms.oracleLimit
      (.error (.timeout (e.terms.oracleLimit / 1000)))
  check code shadow target :=
    (e.checker.check code shadow target).call e.terms.checkLimit
      (.error (.timeout (e.terms.checkLimit / 1000)))

end Engine

structure Batch where
  direction : Direction
  results : List Converted
  errors : List Failed
  manifest : Manifest
  tally : Tally

namespace Batch

variable {σ : Type}

def success (b : Batch) : Bool := b.errors.isEmpty

def accountsFor (b : Batch) (inputs : Nat) : Bool := b.results.length + b.errors.length == inputs

def resultFor? (b : Batch) (path : String) : Option Converted := b.results.find? (·.path == path)

def errorFor? (b : Batch) (path : String) : Option Failed := b.errors.find? (·.path == path)

/-- The files of a lane with their numbers among the inputs. -/
def lane (threshold : Nat) (files : List Source) (l : Lane) : List (Source × Nat) :=
  files.zipIdx.filter fun f => Lane.ofSource threshold f.1 = l

/-- One file after the other, each told what is in the manifest when its turn comes. -/
def runSequential (services : Services σ) (terms : Terms) (options : ResolvedOptions)
    (summary : Summary) : List (Source × Nat) → Shared σ → List Desk × Shared σ
  | [], s => ([], s)
  | (file, index) :: rest, s =>
    let j : Job := ⟨file, options, summary, s.manifest⟩
    let (report, s) := j.run services terms s
    let (desks, s) := runSequential services terms options summary rest s
    (⟨index, j, .settled report⟩ :: desks, s)

def sequentialRun (e : Engine σ) (options : ResolvedOptions) (files : List Source) (world : σ) :
    List Desk × Shared σ :=
  runSequential e.services e.terms options (Summary.ofSources files)
    (lane e.threshold files .sequential) ⟨Manifest.empty, world⟩

def openedBook (e : Engine σ) (options : ResolvedOptions) (files : List Source) (world : σ) : Book :=
  (sequentialRun e options files world).1.foldl Book.enter
    (.blank files.length (lane e.threshold files .sequential).length
      (lane e.threshold files .parallel).length)

/-- The parallel files in input order. All are told the same names. -/
def parallelJobs (e : Engine σ) (options : ResolvedOptions) (files : List Source) (m : Manifest) :
    List (Nat × Job) :=
  (lane e.threshold files .parallel).map fun f =>
    (f.2, ⟨f.1, options, Summary.ofSources files, m⟩)

/-- A semaphore holds no more permits than this. -/
def mostPermits : Nat := 0x1FFFFFFFFFFFFFFF

def tooManyPermits : String :=
  "a semaphore may not have more than MAX_PERMITS permits (" ++ toString mostPermits ++ ")"

/-- Parallel files need a hall, and a hall with more permits than there can be does not open. -/
def opens (e : Engine σ) (files : List Source) : Bool :=
  e.permits ≤ mostPermits || (lane e.threshold files .parallel).isEmpty

def granted (e : Engine σ) (files : List Source) : Nat :=
  if opens e files then max 1 e.permits else 0

def opened (e : Engine σ) (options : ResolvedOptions) (files : List Source) (world : σ) : Hall σ :=
  let s := (sequentialRun e options files world).2
  .opened (parallelJobs e options files s.manifest) (granted e files) s
    (openedBook e options files world)

/-- The batch that a book amounts to. Names are unified with the final manifest. -/
def ofBook (d : Direction) (files : List Source) (m : Manifest) (b : Book) : Batch :=
  let entries := b.entries files
  let results := entries.filterMap Entry.result?
  let errors := entries.filterMap Entry.failure?
  { direction := d
    results := Unified.files d m results
    errors
    manifest := m
    tally := { b.tally with errors := errors.length } }

def convertBy (drive : Hall σ → Hall σ) (e : Engine σ) (options : ResolvedOptions)
    (files : List Source) (world : σ) : Batch × σ :=
  let h := drive (opened e options files world)
  (ofBook options.direction files h.shared.manifest h.close, h.shared.world)

/-- Nothing but options that do not resolve makes the whole call fail. If the hall does not open, the
call breaks down, and what the sequential files have come to is lost. -/
def runBy (drive : Hall σ → Hall σ) (e : Engine σ) (files : List Source) (call : CallOptions)
    (world : σ) : Ending (Except RunFault Batch) × σ :=
  match (call.orElse e.defaults).resolve with
  | .error fault => (.finished (.error fault), world)
  | .ok options =>
    if opens e files then
      let (b, world) := convertBy drive e options files world
      (.finished (.ok b), world)
    else (.broken tooManyPermits, (sequentialRun e options files world).2.world)

/-- Convert files, the parallel ones by the clock. -/
def run (e : Engine σ) (files : List Source) (call : CallOptions) (world : σ) :
    Ending (Except RunFault Batch) × σ :=
  runBy (Hall.run e.services e.terms) e files call world

end Batch

end Crosswalk
