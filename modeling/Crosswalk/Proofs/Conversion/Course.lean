import Crosswalk.Proofs.Conversion.Trail

namespace Crosswalk

variable {σ : Type}

/-- Transitions that follow on one another, from one stage to another. -/
inductive Stage.Walk : Stage → List (Stage × Stage) → Stage → Prop
  | stay (s : Stage) : Walk s [] s
  | go {s t u : Stage} {rest : List (Stage × Stage)} (h : Walk t rest u) : Walk s ((s, t) :: rest) u

namespace Stage

theorem Walk.snoc {s t : Stage} {moves : List (Stage × Stage)} (h : Walk s moves t) (u : Stage) :
    Walk s (moves ++ [(t, u)]) u := by
  induction h with
  | stay s => exact .go (.stay u)
  | go _ ih => exact .go ih

theorem leadsTo_open {s t : Stage} (h : s.leadsTo t = true) : s.isTerminal = false := by
  cases s with
  | verified | exhausted => cases h
  | _ => rfl

theorem Walk.entered {s u : Stage} {moves : List (Stage × Stage)} (h : Walk s moves u)
    (hallowed : ∀ t ∈ moves, t.1.leadsTo t.2 = true) :
    ∀ t ∈ moves.dropLast, t.2.isTerminal = false := by
  induction h with
  | stay s => simp
  | @go s t u rest hrest ih =>
    cases hrest with
    | stay => simp
    | @go _ t' _ rest hrest =>
      have hnext : t.leadsTo t' = true := hallowed (t, t') (by simp)
      have htail := ih fun x hx => hallowed x (List.mem_cons_of_mem _ hx)
      intro x hx
      rw [List.dropLast_cons_of_ne_nil (by simp), List.mem_cons] at hx
      rcases hx with rfl | hx
      · exact leadsTo_open hnext
      · exact htail x hx

end Stage

namespace Course

structure Lawful (c : Course) : Prop where
  allowed : ∀ t ∈ c.transitions, t.1.leadsTo t.2 = true
  walk : Stage.Walk .pending c.transitions c.stage

def entries (c : Course) (s : Stage) : Nat := c.transitions.countP (·.2 == s)

theorem start_lawful : start.Lawful := ⟨by simp [start], .stay _⟩

theorem Lawful.advance {c : Course} (hc : c.Lawful) {next : Stage}
    (h : c.stage.leadsTo next = true) : (c.advance next).Lawful := by
  refine ⟨fun t ht => ?_, hc.walk.snoc next⟩
  rw [advance_transitions, List.mem_append, List.mem_singleton] at ht
  rcases ht with ht | rfl
  · exact hc.allowed t ht
  · exact h

@[simp]
theorem entries_advance (c : Course) (next s : Stage) :
    (c.advance next).entries s = c.entries s + if next = s then 1 else 0 := by
  simp only [entries, advance_transitions, List.countP_append, List.countP_singleton, beq_iff_eq]

end Course

structure Draft.StandsAt (j : Job) (stage : Stage) (d : Draft) : Prop where
  lawful : d.course.Lawful
  stage : d.course.stage = stage
  attempts : d.course.entries .attempting = d.number
  bound : d.number ≤ j.options.maxAttempts

theorem Draft.StandsAt.advance {j : Job} {s : Stage} {d : Draft} (h : d.StandsAt j s) {next : Stage}
    (hleads : s.leadsTo next = true) (hnext : next ≠ .attempting) :
    (d.advance next).StandsAt j next := by
  refine ⟨h.lawful.advance (h.stage ▸ hleads), rfl, ?_, h.bound⟩
  simp only [Draft.advance, Course.entries_advance, hnext, if_false]
  exact h.attempts

/-- The course of an outcome leads from the first stage to a last one, each step of it is allowed,
and its attempts are those that the result counts. -/
structure Outcome.Complete (j : Job) (o : Outcome) : Prop where
  allowed : ∀ t ∈ o.transitions, t.1.leadsTo t.2 = true
  walk : Stage.Walk .pending o.transitions o.finalStage
  terminal : o.finalStage.isTerminal = true
  once : ∀ t ∈ o.transitions.dropLast, t.2.isTerminal = false
  attempts : o.transitions.countP (·.2 == .attempting) = o.result.attempts
  bound : o.result.attempts ≤ j.options.maxAttempts
  verified : o.finalStage = .verified ↔ o.result.verified = true

namespace Conversion

def course : Conversion → Course
  | .asking d | .checking d _ _ | .escaped d _ => d.course
  | .ended o => o.course

def OnCourse (j : Job) : Conversion → Prop
  | .asking d => d.StandsAt j .attempting
  | .checking d _ _ => d.StandsAt j .validating
  | .escaped d _ => d.course.Lawful
  | .ended o => o.Complete j

theorem OnCourse.lawful {j : Job} {c : Conversion} (h : c.OnCourse j) : c.course.Lawful := by
  cases c with
  | asking d | checking d answer candidate => exact Draft.StandsAt.lawful h
  | escaped d fault => exact h
  | ended o => exact ⟨h.allowed, h.walk⟩

theorem start_onCourse (j : Job) : start.OnCourse j :=
  ⟨Course.start_lawful.advance rfl, rfl, by simp [Course.entries, Course.start]; rfl,
    j.options.maxAttempts_pos⟩

theorem ended_complete {j : Job} {s last : Stage} {d : Draft} (h : d.StandsAt j s)
    (hleads : s.leadsTo last = true) (hterminal : last.isTerminal = true) {r : Converted}
    (hattempts : r.attempts = d.number) (hverified : last = .verified ↔ r.verified = true)
    (attempts : List Attempt) (recorded : Option Recorded) :
    (Outcome.mk r attempts (d.course.advance last) recorded).Complete j := by
  have hlawful : (d.course.advance last).Lawful := h.lawful.advance (h.stage ▸ hleads)
  have hcount : (d.course.advance last).entries .attempting = r.attempts := by
    have hne : last ≠ .attempting := by
      rintro rfl
      cases hterminal
    rw [Course.entries_advance, if_neg hne, hattempts, h.attempts, Nat.add_zero]
  exact ⟨hlawful.allowed, hlawful.walk, hterminal, hlawful.walk.entered hlawful.allowed, hcount,
    hattempts ▸ h.bound, hverified⟩

theorem failed_onCourse {j : Job} {s : Stage} {d : Draft} {a : Attempt} (h : d.StandsAt j s)
    (hretry : s.leadsTo .retrying = true) (hexhaust : s.leadsTo .exhausted = true)
    (hnumber : a.number = d.number) : (failed j d a).OnCourse j := by
  unfold failed
  split
  · next hlt =>
    have hlawful : (d.course.advance .retrying).Lawful := h.lawful.advance (h.stage ▸ hretry)
    refine ⟨hlawful.advance rfl, rfl, ?_, ?_⟩
    · simp [h.attempts, Draft.number]
    · rw [hnumber] at hlt
      simpa [Draft.number] using hlt
  · exact ended_complete h hexhaust rfl hnumber (by simp [result]) _ none

theorem onAnswer_onCourse {j : Job} {d : Draft} (h : d.StandsAt j .attempting)
    (answer : Except OracleFault String) : (onAnswer j d answer).OnCourse j := by
  cases answer with
  | error fault =>
    simp only [onAnswer]
    split
    · exact ended_complete h rfl rfl rfl (by simp [result]) _ none
    · exact h.lawful
  | ok answer =>
    have hsanitizing : (d.advance .sanitizing).StandsAt j .sanitizing :=
      h.advance rfl Stage.noConfusion
    simp only [onAnswer]
    split
    · exact failed_onCourse hsanitizing rfl rfl rfl
    · split
      · exact failed_onCourse hsanitizing rfl rfl rfl
      · exact hsanitizing.advance rfl Stage.noConfusion

theorem onVerdict_onCourse {j : Job} {d : Draft} (h : d.StandsAt j .validating)
    (answer candidate : String) (m : Manifest) (verdict : Except OracleFault Verdict) :
    (onVerdict j d answer candidate m verdict).1.OnCourse j := by
  unfold onVerdict
  split
  · exact h.lawful
  · simp only
    split
    · exact ended_complete h rfl rfl rfl (by simp [result]) _ _
    · exact failed_onCourse h rfl rfl rfl

end Conversion

namespace Seat

def OnCourse (j : Job) : Seat → Prop
  | .queued => True
  | .asking d _ => (Conversion.asking d).OnCourse j
  | .checking d answer candidate _ => (Conversion.checking d answer candidate).OnCourse j
  | .settled (.converted o) => o.Complete j
  | .settled (.escaped _) | .settled (.broken _) => True

theorem await_onCourse (services : Services σ) (terms : Terms) (j : Job) (s : Shared σ)
    {c : Conversion} (h : c.OnCourse j) : (await services terms j s c).1.OnCourse j := by
  cases c with
  | escaped d fault => trivial
  | _ => exact h

theorem resume_onCourse {j : Job} {seat : Seat} (h : seat.OnCourse j) {m m' : Manifest}
    {c : Conversion} (hresume : seat.resume j m = .ok (c, m')) : c.OnCourse j := by
  cases seat with
  | queued =>
    cases hresume
    exact Conversion.start_onCourse j
  | asking d call =>
    cases hc : call.ending with
    | broken reason => simp [resume, hc] at hresume
    | finished answer =>
      simp only [resume, hc, Except.ok.injEq, Prod.mk.injEq] at hresume
      exact hresume.1 ▸ Conversion.onAnswer_onCourse h answer
  | checking d answer candidate call =>
    cases hc : call.ending with
    | broken reason => simp [resume, hc] at hresume
    | finished verdict =>
      simp only [resume, hc, Except.ok.injEq] at hresume
      have honCourse := Conversion.onVerdict_onCourse h answer candidate m verdict
      rwa [hresume] at honCourse
  | settled r => cases hresume

theorem step_onCourse (services : Services σ) (terms : Terms) (j : Job) (s : Shared σ) {seat : Seat}
    (h : seat.OnCourse j) (hopen : seat.report? = none) :
    (seat.step services terms j s).1.OnCourse j := by
  unfold step
  split
  · next r hr =>
    cases seat with
    | queued => cases hr
    | asking d call | checking d answer candidate call =>
      cases hc : call.ending <;> simp only [resume, hc, Except.error.injEq, reduceCtorEq] at hr
      exact hr ▸ trivial
    | settled r => cases hopen
  · next c m' hc => exact await_onCourse services terms j _ (resume_onCourse h hc)

theorem trail_onCourse (services : Services σ) (terms : Terms) (j : Job) (s : Shared σ) (n : Nat) :
    (∀ seat ∈ Seat.queued :: trail services terms j n .queued s, seat.OnCourse j) ∧
      (steps services terms j n .queued s).1.OnCourse j := by
  refine trail_induct services terms j
    (P := fun past seat _ => (∀ x ∈ past, x.OnCourse j) ∧ seat.OnCourse j)
    (fun past seat s h hopen => ?_) n [.queued] .queued s ⟨by simp [OnCourse], trivial⟩
  have hnext := step_onCourse services terms j s h.2 hopen
  refine ⟨fun x hx => ?_, hnext⟩
  rcases List.mem_append.1 hx with hx | hx
  · exact h.1 x hx
  · exact List.mem_singleton.1 hx ▸ hnext

end Seat

/-- Whatever state the file goes on from, it has made allowed advances only, also when an error is to
escape; and if it has an outcome, its course is complete. -/
structure Job.OnCourse (services : Services σ) (terms : Terms) (j : Job) (s : Shared σ) : Prop where
  advances : ∀ seat ∈ Seat.queued :: Seat.trail services terms j (Seat.stepBound j) .queued s,
    ∀ (m m' : Manifest) (c : Conversion), seat.resume j m = .ok (c, m') →
      ∀ t ∈ c.course.transitions, t.1.leadsTo t.2 = true
  outcome : ∀ o, (j.run services terms s).1 = .converted o → o.Complete j

/-- Every conversion keeps to its course, whatever it is answered. -/
theorem Job.run_onCourse (services : Services σ) (terms : Terms) (j : Job) (s : Shared σ) :
    j.OnCourse services terms s := by
  obtain ⟨htrail, hend⟩ := Seat.trail_onCourse services terms j s (Seat.stepBound j)
  refine ⟨fun seat hseat m m' c hresume => ?_, fun o ho => ?_⟩
  · exact (Seat.resume_onCourse (htrail seat hseat) hresume).lawful.allowed
  · simp only [Job.run] at ho
    cases hseat : (Seat.steps services terms j (Seat.stepBound j) .queued s).1 with
    | settled r =>
      rw [hseat] at ho hend
      obtain rfl : r = .converted o := ho
      exact hend
    | _ =>
      rw [hseat] at ho
      cases ho

end Crosswalk
