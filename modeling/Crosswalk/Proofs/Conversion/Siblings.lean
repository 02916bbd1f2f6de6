import Crosswalk.Proofs.Conversion.Solo

namespace Crosswalk

variable {σ σ' ν : Type}

theorem Seat.steps_twins {terms : Terms} {j : Job} {W : σ → σ' → Prop} {services : Services σ}
    {services' : Services σ'} (ht : Services.Twins terms j W services services') (n : Nat)
    {seat seat' : Seat} (h : seat.forget = seat'.forget) {s : Shared σ} {s' : Shared σ'}
    (hw : W s.world s'.world) :
    (steps services terms j n seat s).1.forget = (steps services' terms j n seat' s').1.forget ∧
      W (steps services terms j n seat s).2.world (steps services' terms j n seat' s').2.world ∧
      (trail services terms j n seat s).map forget
        = (trail services' terms j n seat' s').map forget := by
  induction n generalizing seat seat' s s' with
  | zero => exact ⟨h, hw, rfl⟩
  | succ n ih =>
    have hsome := report?_isSome_of_forget h
    cases hopen : seat.report? with
    | none =>
      rw [hopen, Option.isSome_none, eq_comm, Option.isSome_eq_false_iff,
        Option.isNone_iff_eq_none] at hsome
      obtain ⟨hstep, hworld⟩ := step_twins ht h hw
      obtain ⟨hsteps, hworlds, htrail⟩ := ih hstep hworld
      rw [steps_open services terms j n hopen, steps_open services' terms j n hsome,
        trail_open services terms j n hopen, trail_open services' terms j n hsome, List.map_cons,
        List.map_cons, hstep, htrail]
      exact ⟨hsteps, hworlds, rfl⟩
    | some r =>
      rw [hopen, Option.isSome_some, eq_comm, Option.isSome_iff_exists] at hsome
      obtain ⟨r', hopen'⟩ := hsome
      obtain rfl := report?_eq_some.1 hopen
      obtain rfl := report?_eq_some.1 hopen'
      rw [steps_over, steps_over, trail_over, trail_over]
      exact ⟨h, hw, rfl⟩

theorem Job.run_twins {terms : Terms} {j : Job} {W : σ → σ' → Prop} {services : Services σ}
    {services' : Services σ'} (ht : Services.Twins terms j W services services') {s : Shared σ}
    {s' : Shared σ'} (hw : W s.world s'.world) :
    (j.run services terms s).1.forget = (j.run services' terms s').1.forget ∧
      W (j.run services terms s).2.world (j.run services' terms s').2.world := by
  obtain ⟨hseat, hworld, -⟩ := Seat.steps_twins ht (Seat.stepBound j)
    (show Seat.queued.forget = Seat.queued.forget from rfl) hw
  have hfits : Seat.queued.Fits j := trivial
  obtain ⟨r, hr⟩ := Seat.steps_settled services terms j hfits (Nat.le_refl (Seat.stepBound j)) s
  obtain ⟨r', hr'⟩ := Seat.steps_settled services' terms j hfits (Nat.le_refl (Seat.stepBound j)) s'
  rw [hr, hr'] at hseat
  simp only [run, hr, hr']
  exact ⟨Seat.settled.inj hseat, hworld⟩

namespace Habits

/-- The habits differ only in how they answer the file at the path. -/
structure SameBut (path : String) (habits habits' : Habits ν) : Prop where
  reply : ∀ other, other ≠ path → habits.reply other = habits'.reply other
  next : ∀ other, other ≠ path → habits.next other = habits'.next other
  verdict : habits.verdict = habits'.verdict

theorem SameBut.twins {path : String} {habits habits' : Habits ν} (h : SameBut path habits habits')
    {terms : Terms} {j : Job} (hpath : j.source.path ≠ path) :
    Services.Twins terms j (· = ·) habits.services habits'.services := by
  refine ⟨fun d x x' hx => ?_, fun code shadow target x x' hx => ?_⟩
  · obtain rfl := hx
    simp only [services, h.reply _ hpath, h.next _ hpath, and_self]
  · simp only [services, h.verdict, hx, and_self]

end Habits

namespace Services

def SameMemory (path : String) (memory : σ → String → ν) (w w' : σ) : Prop :=
  ∀ other, other ≠ path → memory w other = memory w' other

theorem Steady.twins_but {services services' : Services σ} {terms : Terms} {files : List Source}
    {habits habits' : Habits ν} {memory : σ → String → ν} {path : String}
    (hs : services.Steady terms files habits memory)
    (hs' : services'.Steady terms files habits' memory) (hsame : habits.SameBut path habits')
    {j : Job} (hj : j.source ∈ files) (hpath : j.source.path ≠ path) :
    Twins terms j (SameMemory path memory) services services' := by
  refine ⟨fun d w w' hw => ⟨?_, fun other hother => ?_⟩, fun code shadow target w w' hw => ?_⟩
  · rw [hs.reply j d w hj, hs'.reply j d w' hj, hsame.reply _ hpath, hw _ hpath]
  · rw [hs.next j d w hj, hs'.next j d w' hj, hsame.next _ hpath, hw _ hpath]
    by_cases heq : other = j.source.path
    · rw [heq, Function.update_self, Function.update_self]
    · rw [Function.update_of_ne heq, Function.update_of_ne heq, hw other hother]
  · rw [hs.verdict, hs'.verdict, hsame.verdict]
    refine ⟨rfl, fun other hother => ?_⟩
    rw [hs.check, hs'.check]
    exact hw other hother

end Services

end Crosswalk
