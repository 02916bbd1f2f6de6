import Crosswalk.Proofs.Fault
import Crosswalk.Settings.File

namespace Crosswalk

theorem CallOptions.resolve_ok {c : CallOptions} {o : ResolvedOptions} (h : c.resolve = .ok o) :
    o.direction = c.direction.getD default ∧ o.model = c.model ∧
      o.maxAttempts = c.maxAttempts.getD builtinMaxAttempts := by
  simp only [resolve] at h
  split at h
  · cases h
  · split at h
    · cases h
    · cases h
      exact ⟨rfl, rfl, rfl⟩

namespace Settings

def Overlaid {α β : Type} (env : Environment) (name : String) (read : String → Except RunFault α)
    (make : α → β) (old new : β) : Prop :=
  match env.get? name with
  | some text => ∃ a, read text = .ok a ∧ new = make a
  | none => new = old

section Override

variable {α β : Type} {env : Environment} {name : String} {read : String → Except RunFault α}
  {change : Settings → α → Settings} {s s' : Settings} (view : Settings → β)

theorem override_keeps (h : override env name read change s = .ok s')
    (hview : ∀ s a, view (change s a) = view s) : view s' = view s := by
  unfold override at h
  split at h
  · cases h
    rfl
  · obtain ⟨a, -, rfl⟩ := map_eq_ok.1 h
    exact hview s a

theorem override_overlaid (h : override env name read change s = .ok s') {make : α → β}
    (hview : ∀ s a, view (change s a) = make a) :
    Overlaid env name read make (view s) (view s') := by
  unfold override at h
  unfold Overlaid
  split at h
  · next hnone =>
    cases h
    rw [hnone]
  · next text htext =>
    obtain ⟨a, hread, rfl⟩ := map_eq_ok.1 h
    rw [htext]
    exact ⟨a, hread, hview s a⟩

end Override

def callDefaults (s : Settings) : Nat × CallOptions := (s.pipeline.maxAttempts, s.pipeline.defaults)

/-- What the environment makes of the settings that the options of a call depend on. -/
structure Overlay (env : Environment) (s s' : Settings) : Prop where
  bound : Overlaid env "REFORGE_MAX_ATTEMPTS" (numberOf "REFORGE_MAX_ATTEMPTS" word32) id
    s.pipeline.maxAttempts s'.pipeline.maxAttempts
  direction : Overlaid env "REFORGE_DIRECTION" Direction.parse some
    s.pipeline.defaults.direction s'.pipeline.defaults.direction
  model : Overlaid env "REFORGE_MODEL" .ok some
    s.pipeline.defaults.model s'.pipeline.defaults.model
  lasting : s'.pipeline.defaults.maxAttempts = s.pipeline.defaults.maxAttempts

theorem applyVariables_overlay {env : Environment} {s s' : Settings}
    (h : applyVariables env s = .ok s') : Overlay env s s' := by
  obtain ⟨s₁, h₁, h⟩ := bind_eq_ok.1 h
  obtain ⟨s₂, h₂, h⟩ := bind_eq_ok.1 h
  obtain ⟨s₃, h₃, h⟩ := bind_eq_ok.1 h
  obtain ⟨s₄, h₄, h⟩ := bind_eq_ok.1 h
  obtain ⟨s₅, h₅, h⟩ := bind_eq_ok.1 h
  obtain ⟨s₆, h₆, h⟩ := bind_eq_ok.1 h
  obtain ⟨s₇, hbound, h⟩ := bind_eq_ok.1 h
  obtain ⟨s₈, h₈, h⟩ := bind_eq_ok.1 h
  obtain ⟨s₉, h₉, h⟩ := bind_eq_ok.1 h
  obtain ⟨s₁₀, hdirection, hmodel⟩ := bind_eq_ok.1 h
  -- Only three of the variables reach the options of a call.
  have hbefore : s₆.callDefaults = s.callDefaults :=
    calc s₆.callDefaults = s₅.callDefaults := override_keeps callDefaults h₆ fun _ _ => rfl
      _ = s₄.callDefaults := override_keeps callDefaults h₅ fun _ _ => rfl
      _ = s₃.callDefaults := override_keeps callDefaults h₄ fun _ _ => rfl
      _ = s₂.callDefaults := override_keeps callDefaults h₃ fun _ _ => rfl
      _ = s₁.callDefaults := override_keeps callDefaults h₂ fun _ _ => rfl
      _ = s.callDefaults := override_keeps callDefaults h₁ fun _ _ => rfl
  have hbetween : s₉.callDefaults = s₇.callDefaults :=
    calc s₉.callDefaults = s₈.callDefaults := override_keeps callDefaults h₉ fun _ _ => rfl
      _ = s₇.callDefaults := override_keeps callDefaults h₈ fun _ _ => rfl
  obtain ⟨holdBound, holdDefaults⟩ := Prod.mk.inj hbefore
  obtain ⟨hnewBound, hnewDefaults⟩ := Prod.mk.inj hbetween
  have hdefaults : s₉.pipeline.defaults = s.pipeline.defaults :=
    hnewDefaults.trans
      ((override_keeps (·.pipeline.defaults) hbound fun _ _ => rfl).trans holdDefaults)
  have hlastBound : s'.pipeline.maxAttempts = s₇.pipeline.maxAttempts :=
    calc s'.pipeline.maxAttempts = s₁₀.pipeline.maxAttempts :=
          override_keeps (·.pipeline.maxAttempts) hmodel fun _ _ => rfl
      _ = s₉.pipeline.maxAttempts :=
          override_keeps (·.pipeline.maxAttempts) hdirection fun _ _ => rfl
      _ = s₇.pipeline.maxAttempts := hnewBound
  refine ⟨?_, ?_, ?_, ?_⟩
  · rw [hlastBound, ← holdBound]
    exact override_overlaid (·.pipeline.maxAttempts) hbound fun _ _ => rfl
  · rw [override_keeps (·.pipeline.defaults.direction) hmodel (fun _ _ => rfl), ← hdefaults]
    exact override_overlaid (·.pipeline.defaults.direction) hdirection fun _ _ => rfl
  · rw [← hdefaults, ← override_keeps (·.pipeline.defaults.model) hdirection (fun _ _ => rfl)]
    exact override_overlaid (·.pipeline.defaults.model) hmodel fun _ _ => rfl
  · rw [override_keeps (·.pipeline.defaults.maxAttempts) hmodel (fun _ _ => rfl),
      override_keeps (·.pipeline.defaults.maxAttempts) hdirection (fun _ _ => rfl), hdefaults]

theorem applyEnvironment_overlay {env : Environment} {s s' : Settings}
    (h : s.applyEnvironment env = .ok s') : Overlay env s s' := by
  obtain ⟨s₁, hvariables, h⟩ := bind_eq_ok.1 h
  obtain ⟨-, -, h⟩ := bind_eq_ok.1 h
  cases h
  exact applyVariables_overlay hvariables

/-- Where a call that leaves all options open takes its options from: from the environment, then
from the file, which has the built-in values where it says nothing. A bound on attempts among the
default options of the file comes before the environment. -/
structure Precedence (env : Environment) (file : Settings) (o : ResolvedOptions) : Prop where
  direction : ∀ text, env.get? "REFORGE_DIRECTION" = some text →
    Direction.parse text = .ok o.direction
  fileDirection : env.get? "REFORGE_DIRECTION" = none →
    o.direction = file.pipeline.defaults.direction.getD default
  model : ∀ text, env.get? "REFORGE_MODEL" = some text → o.model = some text
  fileModel : env.get? "REFORGE_MODEL" = none → o.model = file.pipeline.defaults.model
  maxAttempts : ∀ text, env.get? "REFORGE_MAX_ATTEMPTS" = some text →
    file.pipeline.defaults.maxAttempts = none →
      numberOf "REFORGE_MAX_ATTEMPTS" word32 text = .ok o.maxAttempts
  lastingMaxAttempts : ∀ n, file.pipeline.defaults.maxAttempts = some n → o.maxAttempts = n
  fileMaxAttempts : env.get? "REFORGE_MAX_ATTEMPTS" = none →
    o.maxAttempts = file.pipeline.defaults.maxAttempts.getD file.pipeline.maxAttempts

theorem options_precedence {env : Environment} {file s : Settings} {o : ResolvedOptions}
    (henv : file.applyEnvironment env = .ok s)
    (hresolve : (({} : CallOptions).orElse s.effectiveDefaults).resolve = .ok o) :
    Precedence env file o := by
  obtain ⟨hbound, hdirection, hmodel, hlasting⟩ := applyEnvironment_overlay henv
  obtain ⟨odirection, omodel, omaxAttempts⟩ := CallOptions.resolve_ok hresolve
  have hdefault : o.maxAttempts
      = file.pipeline.defaults.maxAttempts.getD s.pipeline.maxAttempts := by
    rw [omaxAttempts, ← hlasting]
    simp only [CallOptions.orElse, effectiveDefaults]
    cases s.pipeline.defaults.maxAttempts <;> rfl
  unfold Overlaid at hbound hdirection hmodel
  refine ⟨fun text htext => ?_, fun hnone => ?_, fun text htext => ?_, fun hnone => ?_,
    fun text htext hopen => ?_, fun n hn => ?_, fun hnone => ?_⟩
  · rw [htext] at hdirection
    obtain ⟨d, hparse, hd⟩ := hdirection
    rw [hparse, odirection]
    simp only [CallOptions.orElse, effectiveDefaults, hd]
    rfl
  · rw [hnone] at hdirection
    rw [odirection, ← hdirection]
    rfl
  · rw [htext] at hmodel
    obtain ⟨model, hread, hm⟩ := hmodel
    cases hread
    rw [omodel, ← hm]
    rfl
  · rw [hnone] at hmodel
    rw [omodel, ← hmodel]
    rfl
  · rw [htext] at hbound
    obtain ⟨n, hnumber, hn⟩ := hbound
    rw [hnumber, hdefault, hopen, hn]
    rfl
  · rw [hdefault, hn]
    rfl
  · rw [hnone] at hbound
    rw [hdefault, hbound]

def insistent : Environment := Table.ofList
  [("REFORGE_DIRECTION", "swift2kt"), ("REFORGE_MAX_ATTEMPTS", " 5 "), ("REFORGE_MODEL", "large")]

def overruled : Settings where
  pipeline := {
    maxAttempts := 4
    defaults := { direction := some .kotlinToSwift, model := some "small" } }

theorem overruled_precedence :
    ∃ s o, overruled.applyEnvironment insistent = .ok s ∧
      (({} : CallOptions).orElse s.effectiveDefaults).resolve = .ok o ∧
      Precedence insistent overruled o ∧
      o.direction = .swiftToKotlin ∧ o.model = some "large" ∧ o.maxAttempts = 5 := by
  have henv : overruled.applyEnvironment insistent = .ok {
      pipeline := {
        maxAttempts := 5
        defaults := { direction := some .swiftToKotlin, model := some "large" } } } := by cbv
  exact ⟨_, { direction := .swiftToKotlin, model := some "large", maxAttempts := 5 }, henv, rfl,
    options_precedence henv rfl, rfl, rfl, rfl⟩

def boundText : String := "\x7b\"pipeline\":\x7b\"defaults\":\x7b\"maxAttempts\":2\x7d\x7d\x7d"

def boundAmongDefaults : Tree := .dir [("reforge.json", .file (Text.toBytes boundText))]

/-- The bound in the environment is read, but the call goes by the one in the file. -/
theorem bound_not_overridden : ∃ file s o,
    ofFile "reforge.json" boundAmongDefaults = .ok file ∧
      file.applyEnvironment (Table.ofList [("REFORGE_MAX_ATTEMPTS", "5")]) = .ok s ∧
      (({} : CallOptions).orElse s.effectiveDefaults).resolve = .ok o ∧
      s.pipeline.maxAttempts = 5 ∧ o.maxAttempts = 2 := by
  have hread : boundAmongDefaults.readText "reforge.json" = .ok boundText := by cbv
  have hrun : (do
      let file ← ofFile "reforge.json" boundAmongDefaults
      let s ← file.applyEnvironment (Table.ofList [("REFORGE_MAX_ATTEMPTS", "5")])
      let o ← (({} : CallOptions).orElse s.effectiveDefaults).resolve
      .ok (s.pipeline.maxAttempts, o.maxAttempts))
        = (.ok (5, 2) : Except RunFault (Nat × Nat)) := by
    simp only [ofFile, hread]
    decide +kernel
  obtain ⟨file, hfile, hrun⟩ := bind_eq_ok.1 hrun
  obtain ⟨s, henv, hrun⟩ := bind_eq_ok.1 hrun
  obtain ⟨o, hresolve, hrun⟩ := bind_eq_ok.1 hrun
  obtain ⟨hs, ho⟩ := Prod.mk.inj (Except.ok.inj hrun)
  exact ⟨file, s, o, hfile, henv, hresolve, hs, ho⟩

end Settings

end Crosswalk
