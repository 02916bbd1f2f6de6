import Crosswalk.Batch.Setup
import Crosswalk.Proofs.Batch.Runs
import Crosswalk.Proofs.Fault

namespace Crosswalk

namespace CallOptions

def InRange (o : CallOptions) : Prop :=
  (∀ t, o.temperature = some t → temperatureInRange t = true) ∧ o.maxAttempts ≠ some 0

theorem builtinTemperature_inRange : temperatureInRange builtinTemperature = true := by decide

theorem inRange_iff (o : CallOptions) :
    o.InRange ↔ temperatureInRange (o.temperature.getD builtinTemperature) = true ∧
      o.maxAttempts.getD builtinMaxAttempts ≠ 0 := by
  refine and_congr ?_ ?_
  · cases o.temperature with
    | none => simp [builtinTemperature_inRange]
    | some t => simp
  · cases o.maxAttempts with
    | none => simp [builtinMaxAttempts]
    | some n => simp

theorem resolve_inRange {o : CallOptions} (h : o.InRange) : ∃ r, o.resolve = .ok r := by
  obtain ⟨htemperature, hbound⟩ := o.inRange_iff.1 h
  simp [resolve, htemperature, hbound]

theorem resolve_outOfRange {o : CallOptions} (h : ¬o.InRange) :
    ∃ detail, o.resolve = .error (.invalidOptions detail) := by
  rw [inRange_iff, not_and_or, Bool.not_eq_true, not_not] at h
  by_cases htemperature : temperatureInRange (o.temperature.getD builtinTemperature) = true
  · have hbound := h.resolve_left (by simp [htemperature])
    simp [resolve, htemperature, hbound]
  · simp [resolve, htemperature]

theorem inRange_orElse_open (defaults : CallOptions) :
    (({} : CallOptions).orElse defaults).InRange ↔ defaults.InRange := Iff.rfl

end CallOptions

namespace Settings

theorem validate_ok {s : Settings} (h : s.validate = .ok ()) :
    0 < s.pipeline.maxAttempts ∧ 0 < s.pipeline.maxConcurrency := by
  unfold validate at h
  split at h
  · cases h
  · next hattempts =>
    split at h
    · cases h
    · next hconcurrency => exact ⟨Nat.pos_of_ne_zero hattempts, Nat.pos_of_ne_zero hconcurrency⟩

theorem inRange_effectiveDefaults {s : Settings} (h : s.validate = .ok ()) :
    s.effectiveDefaults.InRange ↔ s.pipeline.defaults.InRange := by
  refine and_congr Iff.rfl ?_
  simp only [effectiveDefaults]
  cases s.pipeline.defaults.maxAttempts with
  | none => simpa using Nat.ne_of_gt (validate_ok h).1
  | some n => rfl

end Settings

variable {σ : Type}

theorem Engine.ofSettings_valid {around : Surroundings σ} {s : Settings} {e : Engine σ}
    (h : Engine.ofSettings around s = .ok e) :
    s.validate = .ok () ∧ e.defaults = s.effectiveDefaults := by
  obtain ⟨⟨⟩, hvalid, h⟩ := bind_eq_ok.1 h
  obtain ⟨client, -, h⟩ := bind_eq_ok.1 h
  obtain ⟨checker, -, h⟩ := bind_eq_ok.1 h
  cases h
  exact ⟨hvalid, rfl⟩

namespace Batch

/-- What comes of a call that leaves all options open. If the default options are in range, it is a
batch, or a breakdown where there is no hall for the parallel files; otherwise it is a refusal before
anything is asked. -/
def RunsInRange (s : Settings) (e : Engine σ) (files : List Source) (world : σ)
    (out : Ending (Except RunFault Batch) × σ) : Prop :=
  (s.pipeline.defaults.InRange ∧
      if opens e files then ∃ b, out.1 = .finished (.ok b) else out.1 = .broken tooManyPermits) ∨
    (¬s.pipeline.defaults.InRange ∧
      ∃ detail, out = (.finished (.error (.invalidOptions detail)), world))

/-- With settings that are accepted, it depends on the ranges of the default options alone whether
files can be converted, whatever the files are and in whatever order they are worked on. -/
theorem accepted_runs {around : Surroundings σ} {s : Settings} {e : Engine σ}
    (h : Engine.ofSettings around s = .ok e) (files : List Source) (world : σ) :
    (∀ moves, RunsInRange s e files world (runIn moves e files {} world)) ∧
      RunsInRange s e files world (run e files {} world) := by
  obtain ⟨hvalid, hdefaults⟩ := Engine.ofSettings_valid h
  have hrange : (({} : CallOptions).orElse e.defaults).InRange ↔ s.pipeline.defaults.InRange := by
    rw [CallOptions.inRange_orElse_open, hdefaults, Settings.inRange_effectiveDefaults hvalid]
  have hmoves (moves : List Move) : RunsInRange s e files world (runIn moves e files {} world) := by
    by_cases hin : s.pipeline.defaults.InRange
    · obtain ⟨options, hresolve⟩ := CallOptions.resolve_inRange (hrange.2 hin)
      refine .inl ⟨hin, ?_⟩
      cases hopens : opens e files with
      | true => exact ⟨_, congrArg Prod.fst (runIn_ok moves hresolve hopens world)⟩
      | false => exact congrArg Prod.fst (runIn_shut moves hresolve hopens world)
    · obtain ⟨detail, hresolve⟩ := CallOptions.resolve_outOfRange (mt hrange.1 hin)
      exact .inr ⟨hin, detail, runIn_error moves hresolve files world⟩
  obtain ⟨moves, hrun, -⟩ := run_moves e files {} world
  exact ⟨hmoves, hrun ▸ hmoves moves⟩

def standaloneSettings (defaults : CallOptions) : Settings where
  oracle := { mode := .fallback }
  checker := { mode := .disabled }
  pipeline := { defaults }

def nowhere : Surroundings Unit := ⟨.unplugged, .bare, Table.empty⟩

def standaloneEngine (defaults : CallOptions) : Engine Unit where
  client := .fallback
  checker := .acceptAll
  terms := (standaloneSettings defaults).terms
  defaults := (standaloneSettings defaults).effectiveDefaults

theorem ofSettings_standalone (defaults : CallOptions) :
    Engine.ofSettings nowhere (standaloneSettings defaults) = .ok (standaloneEngine defaults) := rfl

def extremes : CallOptions := { temperature := some 2.0, maxAttempts := some 1 }

def oneSource : List Source := [⟨"A.kt", .kotlin, "class A"⟩]

theorem extremes_run : extremes.InRange ∧
    Engine.ofSettings nowhere (standaloneSettings extremes) = .ok (standaloneEngine extremes) ∧
    (∀ moves, RunsInRange (standaloneSettings extremes) (standaloneEngine extremes) oneSource ()
      (runIn moves (standaloneEngine extremes) oneSource {} ())) ∧
    RunsInRange (standaloneSettings extremes) (standaloneEngine extremes) oneSource ()
      (run (standaloneEngine extremes) oneSource {} ()) := by
  refine ⟨⟨fun t ht => ?_, by simp [extremes]⟩, ofSettings_standalone extremes,
    accepted_runs (ofSettings_standalone extremes) oneSource ()⟩
  obtain rfl : 2.0 = t := Option.some.inj ht
  decide

def noAttempts : CallOptions := { maxAttempts := some 0 }

/-- A bound of no attempts among the default options is accepted, and then every call is refused. -/
theorem noAttempts_refused : (standaloneSettings noAttempts).validate = .ok () ∧
    Engine.ofSettings nowhere (standaloneSettings noAttempts) = .ok (standaloneEngine noAttempts) ∧
    (run (standaloneEngine noAttempts) oneSource {} ()).1
      = .finished (.error (.invalidOptions "maxAttempts must be at least 1")) :=
  ⟨rfl, ofSettings_standalone noAttempts, rfl⟩

end Batch

end Crosswalk
