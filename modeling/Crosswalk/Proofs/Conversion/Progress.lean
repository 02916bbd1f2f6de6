import Mathlib
import Crosswalk.Conversion.Seat

namespace Crosswalk

variable {σ : Type}

/-- The outcome is about the file of the job, and is verified, a placeholder or exhausted. -/
structure Outcome.Fits (j : Job) (o : Outcome) : Prop where
  path : o.result.path = j.source.path
  outputPath : o.result.outputPath = j.source.outputPath j.options.direction
  digest : o.result.digest = j.source.digest
  one_way : (if o.result.verified then 1 else 0)
    + (if !o.result.placeholder && o.exhausted then 1 else 0)
    + (if o.result.placeholder then 1 else 0) = 1

def Report.Fits (j : Job) : Report → Prop
  | .converted o => o.Fits j
  | .escaped _ | .broken _ => True

namespace Conversion

def Fits (j : Job) : Conversion → Prop
  | .asking d | .checking d _ _ => d.attempts.length < j.options.maxAttempts
  | .escaped _ _ => True
  | .ended o => o.Fits j

def left (j : Job) : Conversion → Nat
  | .asking d => 2 * (j.options.maxAttempts - d.attempts.length)
  | .checking d _ _ => 2 * (j.options.maxAttempts - d.attempts.length) - 1
  | .escaped _ _ | .ended _ => 0

theorem start_fits (j : Job) : start.Fits j := j.options.maxAttempts_pos

theorem givenUp_fits (j : Job) (d : Draft) (fault : OracleFault) : (givenUp j d fault).Fits j :=
  ⟨rfl, rfl, rfl, by simp [result]⟩

theorem failed_fits (j : Job) (d : Draft) (a : Attempt) (h : a.number = d.number) :
    (failed j d a).Fits j := by
  unfold failed
  split
  · next hlt => simpa [Fits, h, Draft.number] using hlt
  · exact ⟨rfl, rfl, rfl, by simp [result, Outcome.exhausted, Outcome.finalStage]⟩

theorem failed_left (j : Job) (d : Draft) (a : Attempt) :
    (failed j d a).left j ≤ 2 * (j.options.maxAttempts - d.attempts.length) - 2 := by
  unfold failed
  split
  · simp only [left, List.length_append, List.length_singleton]
    omega
  · exact Nat.zero_le _

theorem verified_fits (j : Job) (d : Draft) (a : Attempt) (m : Manifest) :
    (verified j d a m).1.Fits j :=
  ⟨rfl, rfl, rfl, by simp [result, Outcome.exhausted, Outcome.finalStage]⟩

theorem onAnswer_fits {j : Job} {d : Draft} (h : d.attempts.length < j.options.maxAttempts)
    (answer : Except OracleFault String) : (onAnswer j d answer).Fits j := by
  cases answer with
  | error fault =>
    simp only [onAnswer]
    split
    · exact givenUp_fits j d fault
    · trivial
  | ok answer =>
    simp only [onAnswer]
    split
    · exact failed_fits j _ _ rfl
    · split
      · exact failed_fits j _ _ rfl
      · exact h

theorem onAnswer_left {j : Job} {d : Draft} (h : d.attempts.length < j.options.maxAttempts)
    (answer : Except OracleFault String) : (onAnswer j d answer).left j < (asking d).left j := by
  have hpos : 0 < (asking d).left j := by simp only [left]; omega
  cases answer with
  | error fault =>
    simp only [onAnswer]
    split <;> exact hpos
  | ok answer =>
    have hfailed (a : Attempt) : (failed j (d.advance .sanitizing) a).left j < (asking d).left j := by
      have hle := failed_left j (d.advance .sanitizing) a
      simp only [left, Draft.advance] at hle hpos ⊢
      omega
    simp only [onAnswer]
    split
    · exact hfailed _
    · split
      · exact hfailed _
      · simp only [left, Draft.advance] at hpos ⊢
        omega

theorem onVerdict_fits (j : Job) (d : Draft) (answer candidate : String) (m : Manifest)
    (verdict : Except OracleFault Verdict) : (onVerdict j d answer candidate m verdict).1.Fits j := by
  unfold onVerdict
  split
  · trivial
  · simp only
    split
    · exact verified_fits j d _ m
    · exact failed_fits j d _ rfl

theorem onVerdict_left {j : Job} {d : Draft} (h : d.attempts.length < j.options.maxAttempts)
    (answer candidate : String) (m : Manifest) (verdict : Except OracleFault Verdict) :
    (onVerdict j d answer candidate m verdict).1.left j < (checking d answer candidate).left j := by
  have hpos : 0 < (checking d answer candidate).left j := by simp only [left]; omega
  unfold onVerdict
  split
  · exact hpos
  · simp only
    split
    · exact hpos
    · next v _ _ =>
      have hle := failed_left j d ⟨d.number, answer, candidate, v⟩
      simp only [left] at hle hpos ⊢
      omega

end Conversion

namespace Seat

def Fits (j : Job) : Seat → Prop
  | .queued => True
  | .asking d _ => (Conversion.asking d).Fits j
  | .checking d answer candidate _ => (Conversion.checking d answer candidate).Fits j
  | .settled r => r.Fits j

def left (j : Job) : Seat → Nat
  | .queued => stepBound j
  | .asking d _ => (Conversion.asking d).left j
  | .checking d answer candidate _ => (Conversion.checking d answer candidate).left j
  | .settled _ => 0

theorem report?_eq_some {seat : Seat} {r : Report} : seat.report? = some r ↔ seat = .settled r := by
  cases seat <;> simp [report?]

theorem left_pos {j : Job} {seat : Seat} (h : seat.Fits j) (hopen : seat.report? = none) :
    0 < seat.left j := by
  cases seat with
  | queued => exact Nat.succ_pos _
  | asking d call | checking d answer candidate call =>
    simp only [Fits, Conversion.Fits] at h
    simp only [left, Conversion.left]
    omega
  | settled r => cases hopen

theorem await_fits (services : Services σ) (terms : Terms) (j : Job) (s : Shared σ) {c : Conversion}
    (h : c.Fits j) : (await services terms j s c).1.Fits j := by
  cases c <;> exact h

theorem await_left (services : Services σ) (terms : Terms) (j : Job) (s : Shared σ)
    (c : Conversion) : (await services terms j s c).1.left j = c.left j := by
  cases c <;> rfl

theorem await_manifest (services : Services σ) (terms : Terms) (j : Job) (s : Shared σ)
    (c : Conversion) : (await services terms j s c).2.manifest = s.manifest := by
  cases c <;> rfl

theorem resume_cases (j : Job) (m : Manifest) {seat : Seat} (h : seat.Fits j)
    (hopen : seat.report? = none) :
    (∃ reason, seat.resume j m = .error (.broken reason)) ∨
      ∃ c m', seat.resume j m = .ok (c, m') ∧ c.Fits j ∧ c.left j < seat.left j := by
  cases seat with
  | queued =>
    exact .inr ⟨_, _, rfl, Conversion.start_fits j, Nat.lt_succ_self _⟩
  | asking d call =>
    cases hc : call.ending with
    | broken reason => exact .inl ⟨reason, by simp only [resume, hc]⟩
    | finished answer =>
      exact .inr ⟨_, _, by simp only [resume, hc]; rfl, Conversion.onAnswer_fits h answer,
        Conversion.onAnswer_left h answer⟩
  | checking d answer candidate call =>
    cases hc : call.ending with
    | broken reason => exact .inl ⟨reason, by simp only [resume, hc]⟩
    | finished verdict =>
      exact .inr ⟨_, _, by simp only [resume, hc]; rfl,
        Conversion.onVerdict_fits j d answer candidate m verdict,
        Conversion.onVerdict_left h answer candidate m verdict⟩
  | settled r => cases hopen

theorem step_ne_queued (services : Services σ) (terms : Terms) (j : Job) (s : Shared σ)
    (seat : Seat) : (seat.step services terms j s).1 ≠ .queued := by
  unfold step
  split
  · exact Seat.noConfusion
  · next c _ _ => cases c <;> exact Seat.noConfusion

theorem step_fits_left (services : Services σ) (terms : Terms) (j : Job) (s : Shared σ) {seat : Seat}
    (h : seat.Fits j) (hopen : seat.report? = none) :
    (seat.step services terms j s).1.Fits j
      ∧ (seat.step services terms j s).1.left j < seat.left j := by
  obtain ⟨reason, hr⟩ | ⟨c, m', hc, hfits, hleft⟩ := resume_cases j s.manifest h hopen
  · simp only [step, hr]
    exact ⟨trivial, left_pos h hopen⟩
  · simp only [step, hc]
    exact ⟨await_fits services terms j _ hfits, by rw [await_left]; exact hleft⟩

theorem step_fits (services : Services σ) (terms : Terms) (j : Job) (s : Shared σ) {seat : Seat}
    (h : seat.Fits j) : (seat.step services terms j s).1.Fits j := by
  cases hopen : seat.report? with
  | none => exact (step_fits_left services terms j s h hopen).1
  | some r =>
    obtain rfl := report?_eq_some.1 hopen
    exact h

theorem steps_over (services : Services σ) (terms : Terms) (j : Job) (n : Nat) (r : Report)
    (s : Shared σ) : steps services terms j n (.settled r) s = (.settled r, s) := by
  cases n <;> rfl

theorem steps_open (services : Services σ) (terms : Terms) (j : Job) (n : Nat) {seat : Seat}
    (hopen : seat.report? = none) (s : Shared σ) :
    steps services terms j (n + 1) seat s
      = steps services terms j n (seat.step services terms j s).1
        (seat.step services terms j s).2 := by
  cases seat with
  | settled r => cases hopen
  | _ => rfl

theorem steps_fits (services : Services σ) (terms : Terms) (j : Job) (n : Nat) {seat : Seat}
    (h : seat.Fits j) (s : Shared σ) : (steps services terms j n seat s).1.Fits j := by
  induction n generalizing seat s with
  | zero => exact h
  | succ n ih =>
    cases hopen : seat.report? with
    | none =>
      rw [steps_open services terms j n hopen]
      exact ih (step_fits services terms j s h) _
    | some r =>
      obtain rfl := report?_eq_some.1 hopen
      exact h

/-- As many steps as are left at most bring a file to its report. -/
theorem steps_settled (services : Services σ) (terms : Terms) (j : Job) {n : Nat} {seat : Seat}
    (h : seat.Fits j) (hn : seat.left j ≤ n) (s : Shared σ) :
    ∃ r, (steps services terms j n seat s).1 = .settled r := by
  induction n generalizing seat s with
  | zero =>
    cases hopen : seat.report? with
    | none => exact absurd (left_pos h hopen) (by omega)
    | some r => exact ⟨r, report?_eq_some.1 hopen⟩
  | succ n ih =>
    cases hopen : seat.report? with
    | none =>
      obtain ⟨hfits, hleft⟩ := step_fits_left services terms j s h hopen
      rw [steps_open services terms j n hopen]
      exact ih hfits (by omega) _
    | some r =>
      obtain rfl := report?_eq_some.1 hopen
      exact ⟨r, rfl⟩

end Seat

theorem Job.run_fits (services : Services σ) (terms : Terms) (j : Job) (s : Shared σ) :
    (j.run services terms s).1.Fits j := by
  have h :=
    Seat.steps_fits services terms j (Seat.stepBound j) (show Seat.queued.Fits j from trivial) s
  simp only [Job.run]
  cases hs : (Seat.steps services terms j (Seat.stepBound j) .queued s).1 with
  | settled r =>
    rw [hs] at h
    exact h
  | _ => trivial

end Crosswalk
