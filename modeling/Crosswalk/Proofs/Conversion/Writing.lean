import Crosswalk.Proofs.Conversion.Progress

namespace Crosswalk

variable {σ : Type}

def Manifest.recordResult (m : Manifest) (j : Job) : Option Converted → Manifest
  | some c => (m.record j.source.content c.content c.outputPath).1
  | none => m

def Outcome.verified? (o : Outcome) : Option Converted :=
  if o.result.verified then some o.result else none

def Report.verified? : Report → Option Converted
  | .converted o => o.verified?
  | .escaped _ | .broken _ => none

namespace Conversion

def verified? : Conversion → Option Converted
  | .ended o => o.verified?
  | .asking _ | .checking _ _ _ | .escaped _ _ => none

theorem failed_verified? (j : Job) (d : Draft) (a : Attempt) : (failed j d a).verified? = none := by
  unfold failed
  split <;> rfl

theorem onAnswer_verified? (j : Job) (d : Draft) (answer : Except OracleFault String) :
    (onAnswer j d answer).verified? = none := by
  cases answer with
  | error fault =>
    simp only [onAnswer]
    split <;> rfl
  | ok answer =>
    simp only [onAnswer]
    split
    · exact failed_verified? j _ _
    · split
      · exact failed_verified? j _ _
      · rfl

theorem onVerdict_manifest (j : Job) (d : Draft) (answer candidate : String) (m : Manifest)
    (verdict : Except OracleFault Verdict) :
    (onVerdict j d answer candidate m verdict).2
      = m.recordResult j (onVerdict j d answer candidate m verdict).1.verified? := by
  unfold onVerdict
  split
  · rfl
  · simp only
    split
    · rfl
    · rw [failed_verified?]
      rfl

end Conversion

namespace Seat

def verified? : Seat → Option Converted
  | .settled r => r.verified?
  | .queued | .asking _ _ | .checking _ _ _ _ => none

theorem await_verified? (services : Services σ) (terms : Terms) (j : Job) (s : Shared σ)
    (c : Conversion) : (await services terms j s c).1.verified? = c.verified? := by
  cases c <;> rfl

theorem verified?_open {seat : Seat} (h : seat.report? = none) : seat.verified? = none := by
  cases seat with
  | settled r => cases h
  | _ => rfl

theorem step_manifest (services : Services σ) (terms : Terms) (j : Job) (s : Shared σ) {seat : Seat}
    (hopen : seat.report? = none) :
    (seat.step services terms j s).2.manifest
      = s.manifest.recordResult j (seat.step services terms j s).1.verified? := by
  cases seat with
  | queued => rfl
  | asking d call =>
    cases hc : call.ending with
    | broken reason =>
      simp only [step, resume, hc]
      rfl
    | finished answer =>
      simp only [step, resume, hc, await_manifest, await_verified?, Conversion.onAnswer_verified?]
      rfl
  | checking d answer candidate call =>
    cases hc : call.ending with
    | broken reason =>
      simp only [step, resume, hc]
      rfl
    | finished verdict =>
      simp only [step, resume, hc, await_manifest, await_verified?]
      exact Conversion.onVerdict_manifest j d answer candidate s.manifest verdict
  | settled r => cases hopen

/-- Of all steps of a file only the last one can write. -/
theorem steps_manifest (services : Services σ) (terms : Terms) (j : Job) (n : Nat) {seat : Seat}
    (hopen : seat.report? = none) (s : Shared σ) :
    (steps services terms j n seat s).2.manifest
      = s.manifest.recordResult j (steps services terms j n seat s).1.verified? := by
  induction n generalizing seat s with
  | zero =>
    simp only [steps, verified?_open hopen]
    rfl
  | succ n ih =>
    have hmanifest := step_manifest services terms j s hopen
    rw [steps_open services terms j n hopen]
    cases hnext : (seat.step services terms j s).1.report? with
    | none =>
      rw [verified?_open hnext] at hmanifest
      rw [ih hnext, hmanifest]
      rfl
    | some r =>
      rw [report?_eq_some.1 hnext] at hmanifest ⊢
      rw [steps_over]
      exact hmanifest

end Seat

theorem Job.run_manifest (services : Services σ) (terms : Terms) (j : Job) (s : Shared σ) :
    (j.run services terms s).2.manifest
      = s.manifest.recordResult j (j.run services terms s).1.verified? := by
  have h := Seat.steps_manifest services terms j (Seat.stepBound j)
    (show Seat.queued.report? = none from rfl) s
  simp only [Job.run]
  cases hseat : (Seat.steps services terms j (Seat.stepBound j) .queued s).1 with
  | settled r =>
    rw [hseat] at h
    exact h
  | _ =>
    rw [hseat] at h
    exact h

end Crosswalk
