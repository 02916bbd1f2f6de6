import Crosswalk.Proofs.Conversion.Progress

namespace Crosswalk

variable {σ σ' : Type}

/-- The outcome without the remark about the manifest. -/
def Outcome.forget (o : Outcome) : Outcome := { o with recorded := none }

def Report.forget : Report → Report
  | .converted o => .converted o.forget
  | .escaped fault => .escaped fault
  | .broken reason => .broken reason

def Conversion.forget : Conversion → Conversion
  | .asking d => .asking d
  | .checking d answer candidate => .checking d answer candidate
  | .escaped d fault => .escaped d fault
  | .ended o => .ended o.forget

def Seat.forget : Seat → Seat
  | .queued => .queued
  | .asking d call => .asking d ⟨[], call.ending⟩
  | .checking d answer candidate call => .checking d answer candidate ⟨[], call.ending⟩
  | .settled r => .settled r.forget

/-- For the file of the job both services say the same in worlds that are related, and leave related
worlds behind. -/
structure Services.Twins (terms : Terms) (j : Job) (W : σ → σ' → Prop) (services : Services σ)
    (services' : Services σ') : Prop where
  ask : ∀ (d : Draft) (w : σ) (w' : σ'), W w w' →
    (services.ask j.source.path (d.request terms j) w).1.ending
        = (services'.ask j.source.path (d.request terms j) w').1.ending ∧
      W (services.ask j.source.path (d.request terms j) w).2
        (services'.ask j.source.path (d.request terms j) w').2
  check : ∀ (code shadow : String) (target : Language) (w : σ) (w' : σ'), W w w' →
    (services.check code shadow target w).1.ending = (services'.check code shadow target w').1.ending ∧
      W (services.check code shadow target w).2 (services'.check code shadow target w').2

theorem Services.twins_refl (terms : Terms) (j : Job) (services : Services σ) :
    Twins terms j (· = ·) services services := by
  refine ⟨fun d w w' h => ?_, fun code shadow target w w' h => ?_⟩
  all_goals
    obtain rfl := h
    exact ⟨rfl, rfl⟩

namespace Conversion

theorem onVerdict_forget (j : Job) (d : Draft) (answer candidate : String) (m m' : Manifest)
    (verdict : Except OracleFault Verdict) :
    (onVerdict j d answer candidate m verdict).1.forget
      = (onVerdict j d answer candidate m' verdict).1.forget := by
  unfold onVerdict
  split
  · rfl
  · simp only
    split <;> rfl

end Conversion

namespace Seat

theorem report?_forget (seat : Seat) : seat.forget.report? = seat.report?.map Report.forget := by
  cases seat <;> rfl

theorem report?_isSome_of_forget {seat seat' : Seat} (h : seat.forget = seat'.forget) :
    seat.report?.isSome = seat'.report?.isSome := by
  have hreport := congrArg (fun s => (report? s).isSome) h
  simpa only [report?_forget, Option.isSome_map] using hreport

theorem resume_forget (j : Job) {seat seat' : Seat} (h : seat.forget = seat'.forget)
    (m m' : Manifest) :
    (∃ r r', seat.resume j m = .error r ∧ seat'.resume j m' = .error r' ∧ r.forget = r'.forget) ∨
      ∃ c c' n n', seat.resume j m = .ok (c, n) ∧ seat'.resume j m' = .ok (c', n') ∧
        c.forget = c'.forget := by
  cases seat <;> cases seat' <;> simp only [forget, Seat.asking.injEq, Seat.checking.injEq,
    Seat.settled.injEq, reduceCtorEq, Call.mk.injEq, true_and] at h
  case queued.queued => exact .inr ⟨_, _, _, _, rfl, rfl, rfl⟩
  case asking.asking d call d' call' =>
    obtain ⟨rfl, hending⟩ := h
    simp only [resume, ← hending]
    cases call.ending with
    | broken reason => exact .inl ⟨_, _, rfl, rfl, rfl⟩
    | finished answer => exact .inr ⟨_, _, _, _, rfl, rfl, rfl⟩
  case checking.checking d answer candidate call d' answer' candidate' call' =>
    obtain ⟨rfl, rfl, rfl, hending⟩ := h
    simp only [resume, ← hending]
    cases call.ending with
    | broken reason => exact .inl ⟨_, _, rfl, rfl, rfl⟩
    | finished verdict =>
      exact .inr ⟨_, _, _, _, rfl, rfl, Conversion.onVerdict_forget j d answer candidate m m' verdict⟩
  case settled.settled r r' => exact .inl ⟨_, _, rfl, rfl, h⟩

theorem step_twins {terms : Terms} {j : Job} {W : σ → σ' → Prop} {services : Services σ}
    {services' : Services σ'} (ht : Services.Twins terms j W services services') {seat seat' : Seat}
    (h : seat.forget = seat'.forget) {s : Shared σ} {s' : Shared σ'} (hw : W s.world s'.world) :
    (seat.step services terms j s).1.forget = (seat'.step services' terms j s').1.forget ∧
      W (seat.step services terms j s).2.world (seat'.step services' terms j s').2.world := by
  obtain ⟨r, r', hr, hr', heq⟩ | ⟨c, c', n, n', hc, hc', heq⟩ :=
    resume_forget j h s.manifest s'.manifest
  · simp only [step, hr, hr']
    exact ⟨congrArg Seat.settled heq, hw⟩
  · simp only [step, hc, hc']
    cases c <;> cases c' <;> simp only [Conversion.forget, Conversion.asking.injEq,
      Conversion.checking.injEq, Conversion.escaped.injEq, Conversion.ended.injEq,
      reduceCtorEq] at heq
    case asking.asking d d' =>
      obtain rfl := heq
      obtain ⟨hending, hworld⟩ := ht.ask d s.world s'.world hw
      exact ⟨by simp only [await, forget, hending], hworld⟩
    case checking.checking d answer candidate d' answer' candidate' =>
      obtain ⟨rfl, rfl, rfl⟩ := heq
      obtain ⟨hending, hworld⟩ := ht.check candidate j.options.direction.rules.shadow
        j.options.direction.target s.world s'.world hw
      exact ⟨by simp only [await, forget, hending], hworld⟩
    case escaped.escaped d fault d' fault' =>
      obtain ⟨rfl, rfl⟩ := heq
      exact ⟨rfl, hw⟩
    case ended.ended o o' => exact ⟨by simp only [await, forget, Report.forget, heq], hw⟩

end Seat

end Crosswalk
