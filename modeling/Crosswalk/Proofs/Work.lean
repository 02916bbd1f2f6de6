import Mathlib
import Crosswalk.Work

namespace Crosswalk

namespace Work

variable {σ α β : Type}

def endingAfter (f : α → Work σ β) : Option (Ending α) × σ → Option (Ending β) × σ
  | (some (.finished a), s) => (f a).ending? s
  | (some (.broken reason), s) => (some (.broken reason), s)
  | (none, s) => (none, s)

theorem ending?_bind (w : Work σ α) (f : α → Work σ β) (s : σ) :
    (w.bind f).ending? s = endingAfter f (w.ending? s) := by
  induction w generalizing s with
  | done a => rfl
  | broken reason => rfl
  | never => rfl
  | wait ms rest ih => exact ih s
  | look next ih => exact ih s s
  | change world rest ih => exact ih world

/-- The time that work takes, or that passes before it hangs, in milliseconds. -/
def elapsed : Work σ α → σ → Nat
  | done _, _ => 0
  | broken _, _ => 0
  | never, _ => 0
  | wait ms rest, s => ms + rest.elapsed s
  | look next, s => (next s).elapsed s
  | change s rest, _ => rest.elapsed s

def elapsedAfter (f : α → Work σ β) : Option (Ending α) × σ → Nat
  | (some (.finished a), s) => (f a).elapsed s
  | _ => 0

theorem elapsed_bind (w : Work σ α) (f : α → Work σ β) (s : σ) :
    (w.bind f).elapsed s = w.elapsed s + elapsedAfter f (w.ending? s) := by
  induction w generalizing s with
  | done a => exact (Nat.zero_add _).symm
  | broken reason => rfl
  | never => rfl
  | wait ms rest ih =>
    calc ms + (rest.bind f).elapsed s
      _ = ms + (rest.elapsed s + elapsedAfter f (rest.ending? s)) := by rw [ih]
      _ = ms + rest.elapsed s + elapsedAfter f (rest.ending? s) := (Nat.add_assoc ..).symm
  | look next ih => exact ih s s
  | change world rest ih => exact ih world

section Limits

variable {w : Work σ α} {limit : Nat} {late : α} {s : σ}

theorem call_wait {ms : Nat} (h : ms ≤ limit) :
    (wait ms w).call limit late s
      = (⟨ms :: (w.call (limit - ms) late s).1.waits, (w.call (limit - ms) late s).1.ending⟩,
        (w.call (limit - ms) late s).2) := by
  rw [call, if_pos h]

theorem call_wait_late {ms : Nat} (h : limit < ms) :
    (wait ms w).call limit late s = (⟨[limit], .finished late⟩, s) := by
  rw [call, if_neg h.not_ge]

theorem call_in_time (limit : Nat) (late : α) {e : Ending α} {s' : σ}
    (h : w.ending? s = (some e, s')) (ht : w.elapsed s ≤ limit) :
    ∃ waits, w.call limit late s = (⟨waits, e⟩, s') ∧ waits.sum = w.elapsed s := by
  induction w generalizing s limit with
  | done a =>
    cases h
    exact ⟨[], rfl, rfl⟩
  | broken reason =>
    cases h
    exact ⟨[], rfl, rfl⟩
  | never => cases h
  | wait ms rest ih =>
    rw [elapsed] at ht
    obtain ⟨waits, hcall, hsum⟩ := ih (limit - ms) h (by omega)
    exact ⟨ms :: waits, by rw [call_wait (by omega), hcall], by rw [List.sum_cons, hsum, elapsed]⟩
  | look next ih => exact ih s limit h ht
  | change world rest ih => exact ih limit h ht

theorem call_late (h : (w.ending? s).1 = none ∨ limit < w.elapsed s) :
    (w.call limit late s).1.ending = .finished late := by
  induction w generalizing s limit with
  | done a => simp [ending?, elapsed] at h
  | broken reason => simp [ending?, elapsed] at h
  | never => rfl
  | wait ms rest ih =>
    by_cases hms : ms ≤ limit
    · rw [call_wait hms]
      refine ih (h.imp id fun ht => ?_)
      rw [elapsed] at ht
      omega
    · rw [call_wait_late (by omega)]
  | look next ih => exact ih s h
  | change world rest ih => exact ih h

theorem call_waits_le (w : Work σ α) (limit : Nat) (late : α) (s : σ) :
    (w.call limit late s).1.waits.sum ≤ limit := by
  induction w generalizing s limit with
  | done a => exact Nat.zero_le _
  | broken reason => exact Nat.zero_le _
  | never => exact Nat.le_refl _
  | wait ms rest ih =>
    by_cases hms : ms ≤ limit
    · have := ih (limit - ms) s
      rw [call_wait hms, List.sum_cons]
      omega
    · rw [call_wait_late (by omega)]
      exact Nat.le_refl _
  | look next ih => exact ih s limit s
  | change world rest ih => exact ih limit world

/-- Work under a limit ends like a call that is held to the limit. -/
theorem ending?_within (w : Work σ α) (limit : Nat) (late : α) (s : σ) :
    (w.within limit late).ending? s
      = (some (w.call limit late s).1.ending, (w.call limit late s).2) := by
  induction w generalizing s limit with
  | done a => rfl
  | broken reason => rfl
  | never => rfl
  | wait ms rest ih =>
    by_cases hms : ms ≤ limit
    · rw [within, if_pos hms, call_wait hms]
      exact ih (limit - ms) s
    · rw [within, if_neg hms, call_wait_late (by omega)]
      rfl
  | look next ih => exact ih s limit s
  | change world rest ih => exact ih limit world

theorem elapsed_within (w : Work σ α) (limit : Nat) (late : α) (s : σ) :
    (w.within limit late).elapsed s = (w.call limit late s).1.waits.sum := by
  induction w generalizing s limit with
  | done a => rfl
  | broken reason => rfl
  | never => rfl
  | wait ms rest ih =>
    by_cases hms : ms ≤ limit
    · rw [within, if_pos hms, call_wait hms, List.sum_cons, ← ih]
      rfl
    · rw [within, if_neg hms, call_wait_late (by omega)]
      rfl
  | look next ih => exact ih s limit s
  | change world rest ih => exact ih limit world

theorem elapsed_within_le (w : Work σ α) (limit : Nat) (late : α) (s : σ) :
    (w.within limit late).elapsed s ≤ limit := by
  rw [elapsed_within]
  exact call_waits_le w limit late s

end Limits

end Work

end Crosswalk
