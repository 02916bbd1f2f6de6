import Crosswalk.Proofs.Candidate
import Crosswalk.Proofs.Conversion.Trail

namespace Crosswalk

variable {σ : Type}

theorem forall_getElem?_concat {α : Type} {P : Nat → α → Prop} {l : List α} {a : α}
    (h : ∀ i b, l[i]? = some b → P i b) (ha : P l.length a) (i : Nat) (b : α)
    (hb : (l ++ [a])[i]? = some b) : P i b := by
  rcases Nat.lt_trichotomy i l.length with hi | rfl | hi
  · rw [List.getElem?_append_left hi] at hb
    exact h i b hb
  · rw [List.getElem?_concat_length, Option.some.injEq] at hb
    exact hb ▸ ha
  · rw [List.getElem?_eq_none (by simpa using hi)] at hb
    cases hb

/-- A candidate passes with this verdict: it is good, or all that is wrong are missing modules. -/
def Verdict.Lenient (v : Verdict) : Prop :=
  v.success = true ∨ ∃ diagnostic, v.diagnostic = some diagnostic ∧
    Tolerance.moduleOnly diagnostic = true

theorem Verdict.tolerated_success (v : Verdict) : v.tolerated.success = true ↔ v.Lenient := by
  obtain ⟨success, diagnostic⟩ := v
  cases diagnostic with
  | none => simp [tolerated, Lenient]
  | some diagnostic =>
    cases success <;> cases hmodule : Tolerance.moduleOnly diagnostic <;>
      simp [tolerated, Lenient, hmodule, passed]

/-- What a file is told in each of its attempts, counted from one. -/
structure Replies where
  answer : Nat → Except OracleFault String
  verdict : Nat → Except OracleFault Verdict

namespace Replies

variable (r : Replies) (d : Direction)

def candidate (n : Nat) : String :=
  match r.answer n with
  | .ok answer => Candidate.ofAnswer d answer
  | .error _ => ""

def Outage (n : Nat) (fault : OracleFault) : Prop :=
  r.answer n = .error fault ∧ fault.isTransport = true

/-- The attempt ends the conversion with a fault. An outage of the compiler does not. -/
def Escapes (n : Nat) (fault : OracleFault) : Prop :=
  (r.answer n = .error fault ∨ r.candidate d n ≠ "" ∧ r.verdict n = .error fault) ∧
    fault.isTransport = false

def Passes (n : Nat) : Prop :=
  r.candidate d n ≠ "" ∧ ∃ v, r.verdict n = .ok v ∧ v.Lenient

def Fails (n : Nat) : Prop :=
  ¬ r.Passes d n ∧ ∀ fault, ¬ r.Outage n fault ∧ ¬ r.Escapes d n fault

def FailsBefore (n : Nat) : Prop := ∀ k, 1 ≤ k → k < n → r.Fails d k

/-- The code of the latest of the first attempts that has any. -/
def latest : Nat → String
  | 0 => ""
  | n + 1 => if r.candidate d (n + 1) = "" then latest n else r.candidate d (n + 1)

def checks (n : Nat) : List (Nat × String) :=
  (List.range' 1 n).filterMap fun k =>
    if r.candidate d k = "" then none else some (k, r.candidate d k)

/-- One record for each of the first attempts, and which of them succeeded. -/
structure Records (successes : List Bool) (attempts : List Attempt) : Prop where
  successes : attempts.map (·.verdict.success) = successes
  each : ∀ (i : Nat) (a : Attempt), attempts[i]? = some a →
    a.number = i + 1 ∧ r.answer (i + 1) = .ok a.answer ∧ a.candidate = r.candidate d (i + 1)

/-- What the replies to a file come to, at the attempt that decides. -/
inductive Yields (j : Job) : Nat → Report → Prop
  | outage {n : Nat} {fault : OracleFault} {o : Outcome}
      (first : r.FailsBefore j.options.direction n) (outage : r.Outage n fault)
      (result : o.result = Conversion.result j
        (Placeholder.render j.source j.options.direction fault.message) false true n)
      (records : r.Records j.options.direction (List.replicate (n - 1) false) o.attempts) :
      Yields j n (.converted o)
  | escaped {n : Nat} {fault : OracleFault} (first : r.FailsBefore j.options.direction n)
      (escapes : r.Escapes j.options.direction n fault) : Yields j n (.escaped fault)
  | passed {n : Nat} {o : Outcome} (first : r.FailsBefore j.options.direction n)
      (passes : r.Passes j.options.direction n)
      (result : o.result = Conversion.result j (r.candidate j.options.direction n) true false n)
      (records : r.Records j.options.direction (List.replicate (n - 1) false ++ [true]) o.attempts) :
      Yields j n (.converted o)
  | exhausted {o : Outcome}
      (all : r.FailsBefore j.options.direction (j.options.maxAttempts + 1))
      (result : o.result = Conversion.result j
        (r.latest j.options.direction j.options.maxAttempts) false false j.options.maxAttempts)
      (records : r.Records j.options.direction (List.replicate j.options.maxAttempts false)
        o.attempts) : Yields j j.options.maxAttempts (.converted o)

section Attempts

variable {r d}

theorem FailsBefore.succ {n : Nat} (h : r.FailsBefore d n) (hn : r.Fails d n) :
    r.FailsBefore d (n + 1) := by
  intro k hpos hk
  rcases Nat.lt_or_eq_of_le (Nat.le_of_lt_succ hk) with hlt | rfl
  · exact h k hpos hlt
  · exact hn

theorem candidate_ok {n : Nat} {answer : String} (h : r.answer n = .ok answer) :
    r.candidate d n = Candidate.ofAnswer d answer := by
  simp only [candidate, h]

theorem candidate_error {n : Nat} {fault : OracleFault} (h : r.answer n = .error fault) :
    r.candidate d n = "" := by
  simp only [candidate, h]

theorem fails_empty {n : Nat} {answer : String} (h : r.answer n = .ok answer)
    (hempty : r.candidate d n = "") : r.Fails d n := by
  refine ⟨fun hpasses => hpasses.1 hempty, fun fault => ⟨fun hout => ?_, fun hescapes => ?_⟩⟩
  · rw [hout.1] at h
    cases h
  · rcases hescapes.1 with herror | ⟨hne, -⟩
    · rw [herror] at h
      cases h
    · exact hne hempty

theorem escapes_judged {n : Nat} {fault : OracleFault} (hcandidate : r.candidate d n ≠ "")
    (h : Conversion.judged (r.verdict n) = .error fault) : r.Escapes d n fault := by
  unfold Conversion.judged at h
  split at h
  · cases h
  · next fault' hverdict =>
    split at h
    · cases h
    · next htransport =>
      cases h
      exact ⟨.inr ⟨hcandidate, hverdict⟩, by simpa using htransport⟩

theorem judged_success {n : Nat} {v : Verdict} (hcandidate : r.candidate d n ≠ "")
    (h : Conversion.judged (r.verdict n) = .ok v) : v.success = true ↔ r.Passes d n := by
  unfold Conversion.judged at h
  split at h
  · next v' hverdict =>
    cases h
    rw [Verdict.tolerated_success]
    refine ⟨fun hv => ⟨hcandidate, v', hverdict, hv⟩, fun ⟨_, v, hv, hlenient⟩ => ?_⟩
    rw [hverdict] at hv
    cases hv
    exact hlenient
  · next fault hverdict =>
    split at h
    · cases h
      refine ⟨fun hv => (by cases hv), fun ⟨_, v, hv, _⟩ => ?_⟩
      rw [hverdict] at hv
      cases hv
    · cases h

theorem fails_judged {n : Nat} {answer : String} {v : Verdict} (hanswer : r.answer n = .ok answer)
    (hcandidate : r.candidate d n ≠ "") (h : Conversion.judged (r.verdict n) = .ok v)
    (hv : v.success = false) : r.Fails d n := by
  refine ⟨fun hpasses => ?_, fun fault => ⟨fun hout => ?_, fun hescapes => ?_⟩⟩
  · rw [(judged_success hcandidate h).2 hpasses] at hv
    cases hv
  · rw [hout.1] at hanswer
    cases hanswer
  · obtain ⟨herror | ⟨-, herror⟩, htransport⟩ := hescapes
    · rw [herror] at hanswer
      cases hanswer
    · simp [Conversion.judged, herror, htransport] at h

theorem checks_succ (n : Nat) : r.checks d (n + 1) = r.checks d n ++
    if r.candidate d (n + 1) = "" then [] else [(n + 1, r.candidate d (n + 1))] := by
  rw [checks, List.range'_concat, List.filterMap_append, ← checks]
  congr 1
  by_cases h : r.candidate d (n + 1) = "" <;> simp [h, Nat.add_comm 1 n]

theorem records_nil : r.Records d [] [] := ⟨rfl, by simp⟩

theorem Records.snoc {successes : List Bool} {attempts : List Attempt}
    (h : r.Records d successes attempts) {a : Attempt} (hnumber : a.number = attempts.length + 1)
    (hanswer : r.answer (attempts.length + 1) = .ok a.answer)
    (hcandidate : a.candidate = r.candidate d (attempts.length + 1)) :
    r.Records d (successes ++ [a.verdict.success]) (attempts ++ [a]) :=
  ⟨by simp [h.successes], forall_getElem?_concat h.each ⟨hnumber, hanswer, hcandidate⟩⟩

end Attempts

end Replies

end Crosswalk
