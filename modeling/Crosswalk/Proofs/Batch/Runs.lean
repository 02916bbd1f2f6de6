import Crosswalk.Batch.Basic
import Crosswalk.Proofs.Batch.ClockMoves

namespace Crosswalk.Batch

variable {σ : Type}

def hallAfter (moves : List Move) (e : Engine σ) (options : ResolvedOptions) (files : List Source)
    (world : σ) : Hall σ :=
  (opened e options files world).follow e.services e.terms moves

/-- A batch whose hall makes the given moves, and closes after them. -/
def convertIn (moves : List Move) (e : Engine σ) (options : ResolvedOptions) (files : List Source)
    (world : σ) : Batch × σ :=
  convertBy (Hall.follow e.services e.terms · moves) e options files world

def runIn (moves : List Move) (e : Engine σ) (files : List Source) (call : CallOptions) (world : σ) :
    Ending (Except RunFault Batch) × σ :=
  runBy (Hall.follow e.services e.terms · moves) e files call world

/-- After these moves every report of the hall is collected. -/
def Completes (moves : List Move) (e : Engine σ) (options : ResolvedOptions) (files : List Source)
    (world : σ) : Prop :=
  (hallAfter moves e options files world).isDone = true

theorem granted_pos {e : Engine σ} {files : List Source} (h : opens e files = true) :
    0 < granted e files := by
  rw [granted, if_pos h]
  exact Nat.lt_of_lt_of_le Nat.one_pos (Nat.le_max_left 1 e.permits)

theorem convertBy_clock {e : Engine σ} {files : List Source} (h : opens e files = true)
    (options : ResolvedOptions) (world : σ) :
    ∃ moves, Completes moves e options files world ∧
      convertBy (Hall.run e.services e.terms) e options files world
        = convertIn moves e options files world := by
  obtain ⟨moves, hmoves, hdone⟩ := Hall.run_follows e.services e.terms
    (parallelJobs e options files (sequentialRun e options files world).2.manifest)
    (granted_pos h) (sequentialRun e options files world).2 (openedBook e options files world)
  refine ⟨moves, ?_, ?_⟩
  · unfold Completes hallAfter opened
    rw [← hmoves]
    exact hdone
  · simp only [convertIn, convertBy, opened, hmoves]

theorem runIn_error (moves : List Move) {e : Engine σ} {call : CallOptions} {fault : RunFault}
    (h : (call.orElse e.defaults).resolve = .error fault) (files : List Source) (world : σ) :
    runIn moves e files call world = (.finished (.error fault), world) := by
  simp only [runIn, runBy, h]

theorem runIn_ok (moves : List Move) {e : Engine σ} {call : CallOptions} {options : ResolvedOptions}
    (h : (call.orElse e.defaults).resolve = .ok options) {files : List Source}
    (hopens : opens e files = true) (world : σ) :
    runIn moves e files call world = (.finished (.ok (convertIn moves e options files world).1),
      (convertIn moves e options files world).2) := by
  simp only [runIn, runBy, h, hopens, if_true, convertIn]

theorem runIn_shut (moves : List Move) {e : Engine σ} {call : CallOptions}
    {options : ResolvedOptions} (h : (call.orElse e.defaults).resolve = .ok options)
    {files : List Source} (hshut : opens e files = false) (world : σ) :
    runIn moves e files call world
      = (.broken tooManyPermits, (sequentialRun e options files world).2.world) := by
  simp only [runIn, runBy, h, hshut, Bool.false_eq_true, if_false]

/-- A call either ends before a hall is opened, or its parallel files make moves until all of them
are done. -/
theorem run_moves (e : Engine σ) (files : List Source) (call : CallOptions) (world : σ) :
    ∃ moves, run e files call world = runIn moves e files call world ∧
      (opens e files = true → ∀ options, (call.orElse e.defaults).resolve = .ok options →
        Completes moves e options files world) := by
  cases hresolve : (call.orElse e.defaults).resolve with
  | error fault =>
    refine ⟨[], ?_, fun _ options h => by cases h⟩
    rw [runIn_error [] hresolve]
    simp only [run, runBy, hresolve]
  | ok options =>
    cases hopens : opens e files with
    | false =>
      refine ⟨[], ?_, fun h => by cases h⟩
      rw [runIn_shut [] hresolve hopens]
      simp only [run, runBy, hresolve, hopens, Bool.false_eq_true, if_false]
    | true =>
      obtain ⟨moves, hdone, hmoves⟩ := convertBy_clock hopens options world
      refine ⟨moves, ?_, fun _ options' h => ?_⟩
      · rw [runIn_ok moves hresolve hopens, ← hmoves]
        simp only [run, runBy, hresolve, hopens, if_true]
      · cases h
        exact hdone

end Crosswalk.Batch
