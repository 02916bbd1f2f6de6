import Crosswalk.Conversion.Basic

namespace Crosswalk

/-- The services that conversions use. A call names the file it is made for. -/
structure Services (σ : Type) where
  ask : (path : String) → Request → σ → Call (Except OracleFault String) × σ
  check : (code shadow : String) → (target : Language) → σ → Call (Except OracleFault Verdict) × σ

structure Shared (σ : Type) where
  manifest : Manifest
  world : σ

inductive Report where
  | converted (o : Outcome)
  | escaped (fault : OracleFault)
  | broken (reason : String)

/-- A file at work. Between two steps it waits for the ending of one call to a service. -/
inductive Seat where
  | queued
  | asking (d : Draft) (call : Call (Except OracleFault String))
  | checking (d : Draft) (answer candidate : String) (call : Call (Except OracleFault Verdict))
  | settled (r : Report)

namespace Seat

variable {σ : Type}

def await (services : Services σ) (terms : Terms) (j : Job) (s : Shared σ) :
    Conversion → Seat × Shared σ
  | .asking d =>
    let (call, world) := services.ask j.source.path (d.request terms j) s.world
    (.asking d call, { s with world })
  | .checking d answer candidate =>
    let rules := j.options.direction.rules
    let (call, world) := services.check candidate rules.shadow j.options.direction.target s.world
    (.checking d answer candidate call, { s with world })
  | .escaped _ fault => (.settled (.escaped fault), s)
  | .ended o => (.settled (.converted o), s)

/-- Where the conversion stands when the file takes its next step, with the manifest after that, or
the report of a file that is over. -/
def resume (j : Job) (m : Manifest) : Seat → Except Report (Conversion × Manifest)
  | .queued => .ok (Conversion.start, m)
  | .asking d call =>
    match call.ending with
    | .broken reason => .error (.broken reason)
    | .finished answer => .ok (Conversion.onAnswer j d answer, m)
  | .checking d answer candidate call =>
    match call.ending with
    | .broken reason => .error (.broken reason)
    | .finished verdict => .ok (Conversion.onVerdict j d answer candidate m verdict)
  | .settled r => .error r

def step (services : Services σ) (terms : Terms) (j : Job) (s : Shared σ) (seat : Seat) :
    Seat × Shared σ :=
  match seat.resume j s.manifest with
  | .error r => (.settled r, s)
  | .ok (c, manifest) => await services terms j { s with manifest } c

def waits : Seat → List Nat
  | .asking _ call => call.waits
  | .checking _ _ _ call => call.waits
  | _ => []

def report? : Seat → Option Report
  | .settled r => some r
  | _ => none

/-- No file takes more steps: one to start, and two for each attempt. -/
def stepBound (j : Job) : Nat := 2 * j.options.maxAttempts + 1

def steps (services : Services σ) (terms : Terms) (j : Job) :
    Nat → Seat → Shared σ → Seat × Shared σ
  | 0, seat, s => (seat, s)
  | n + 1, seat, s =>
    match seat with
    | .settled r => (.settled r, s)
    | seat =>
      let (seat, s) := step services terms j s seat
      steps services terms j n seat s

end Seat

def Job.run {σ : Type} (services : Services σ) (terms : Terms) (j : Job) (s : Shared σ) :
    Report × Shared σ :=
  let (seat, s) := Seat.steps services terms j (Seat.stepBound j) .queued s
  (seat.report?.getD (.broken "no outcome recorded"), s)

end Crosswalk
