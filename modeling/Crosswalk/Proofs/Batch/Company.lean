import Crosswalk.Proofs.Batch.Entries
import Crosswalk.Proofs.Batch.Snapshot
import Crosswalk.Proofs.Conversion.Solo

namespace Crosswalk

variable {σ ν : Type} {services : Services σ} {terms : Terms} {files : List Source}
  {habits : Habits ν} {memory : σ → String → ν} {d : Direction}

namespace Habits

def alone (habits : Habits ν) (terms : Terms) (j : Job) (x : ν) (n : Nat) : Seat × Shared ν :=
  Seat.steps habits.services terms j n .queued ⟨Manifest.empty, x⟩

/-- What the file goes through on its own. -/
def trailAlone (habits : Habits ν) (terms : Terms) (j : Job) (x : ν) (n : Nat) : List Seat :=
  Seat.trail habits.services terms j n .queued ⟨Manifest.empty, x⟩

structure SameAlone (terms : Terms) (j : Job) (habits habits' : Habits ν) (x x' : ν) : Prop where
  alone : ∀ n, (habits.alone terms j x n).1.forget = (habits'.alone terms j x' n).1.forget
  trail : ∀ n, (habits.trailAlone terms j x n).map Seat.forget
    = (habits'.trailAlone terms j x' n).map Seat.forget

theorem SameAlone.refl (terms : Terms) (j : Job) (habits : Habits ν) (x : ν) :
    SameAlone terms j habits habits x x := ⟨fun _ => rfl, fun _ => rfl⟩

end Habits

theorem path_ne_of_index_ne (hpaths : (files.map (·.path)).Nodup) {i i' : Nat} {f f' : Source}
    (hf : files[i]? = some f) (hf' : files[i']? = some f') (hne : i ≠ i') : f.path ≠ f'.path := by
  intro heq
  have hget {i : Nat} {f : Source} (h : files[i]? = some f) :
      ((files.map (·.path))[i]?) = some f.path := by
    rw [List.getElem?_map, h]
    rfl
  have hi : i < (files.map (·.path)).length := (List.getElem?_eq_some_iff.1 (hget hf)).1
  exact hne ((List.getElem?_inj hi hpaths).1 ((hget hf).trans (heq ▸ (hget hf').symm)))

namespace Hall

/-- The file of the desk is where it would be after some steps on its own from `w`. -/
def GoesAlone (terms : Terms) (habits : Habits ν) (memory : σ → String → ν) (w : σ) (h : Hall σ)
    (past : List Desk) (p : Desk) : Prop :=
  ∃ n, (past.filter (·.index == p.index)).map Desk.forget
      = (habits.trailAlone terms p.job (memory w p.job.source.path) n).map
        (fun seat => ⟨p.index, p.job, seat.forget⟩) ∧
    p.seat.forget = (habits.alone terms p.job (memory w p.job.source.path) n).1.forget ∧
    memory h.shared.world p.job.source.path
      = (habits.alone terms p.job (memory w p.job.source.path) n).2.world

theorem GoesAlone.step (hs : services.Steady terms files habits memory) {w : σ} {h : Hall σ}
    {past : List Desk} {i : Nat} {p : Desk} (ha : GoesAlone terms habits memory w h past p)
    (hfile : p.job.source ∈ files) (hopen : p.seat.report? = none) :
    GoesAlone terms habits memory w (h.worked services terms i p)
      (past ++ [{ p with seat := (p.seat.step services terms p.job h.shared).1 }])
      { p with seat := (p.seat.step services terms p.job h.shared).1 } := by
  obtain ⟨n, hpast, hseat, hworld⟩ := ha
  have hopen' : (habits.alone terms p.job (memory w p.job.source.path) n).1.report? = none := by
    have hsome := Seat.report?_isSome_of_forget hseat
    rw [hopen] at hsome
    exact Option.not_isSome_iff_eq_none.1 (by rw [← hsome]; decide)
  obtain ⟨hsteps, htrail⟩ := Seat.steps_snoc habits.services terms p.job n hopen'
  obtain ⟨hstep, hmemory⟩ := Seat.step_twins (hs.twins hfile) hseat hworld
  refine ⟨n + 1, ?_, ?_, ?_⟩
  · rw [Habits.trailAlone, htrail, hsteps, List.map_append, List.filter_append, List.map_append]
    refine congrArg₂ (· ++ ·) hpast ?_
    rw [List.filter_cons_of_pos (by simp), List.filter_nil, List.map_singleton, List.map_singleton]
    exact congrArg (fun seat => [(⟨p.index, p.job, seat⟩ : Desk)]) hstep
  · rw [Habits.alone, hsteps]
    exact hstep
  · rw [Habits.alone, hsteps]
    exact hmemory

theorem GoesAlone.frame (hs : services.Steady terms files habits memory) {w : σ} {h : Hall σ}
    {past : List Desk} {i : Nat} {p q : Desk} (ha : GoesAlone terms habits memory w h past q)
    (hfile : p.job.source ∈ files) (hindex : q.index ≠ p.index)
    (hpath : q.job.source.path ≠ p.job.source.path) :
    GoesAlone terms habits memory w (h.worked services terms i p)
      (past ++ [{ p with seat := (p.seat.step services terms p.job h.shared).1 }]) q := by
  obtain ⟨n, hpast, hseat, hworld⟩ := ha
  refine ⟨n, ?_, hseat, ?_⟩
  · rw [List.filter_append, ← hpast]
    simp [Ne.symm hindex]
  · rw [← hworld]
    exact hs.step_memory hfile hpath _ _

structure Apart (files : List Source) (d : Direction) (terms : Terms) (habits : Habits ν)
    (memory : σ → String → ν) (w : σ) (h : Hall σ) (past : List Desk) : Prop where
  keeps : h.Keeps files d
  alone : ∀ p ∈ h.desks, GoesAlone terms habits memory w h past p
  steps : ∀ p ∈ past, p.index ∈ h.desks.map (·.index)

theorem Apart.work (hs : services.Steady terms files habits memory)
    (hpaths : (files.map (·.path)).Nodup) {w : σ} {h : Hall σ} {past : List Desk}
    (ha : h.Apart files d terms habits memory w past) {i : Nat} {p : Desk}
    (hready : h.ready? i = some p) :
    (h.worked services terms i p).Apart files d terms habits memory w
      (past ++ [{ p with seat := (p.seat.step services terms p.job h.shared).1 }]) := by
  obtain ⟨hdesk, hopen, -⟩ := ready?_eq_some.1 hready
  have hmem := List.mem_of_getElem? hdesk
  have hkeeps : (h.worked services terms i p).Keeps files d := ha.keeps.work hready
  have hfile := (ha.keeps.desks p hmem).file
  refine ⟨hkeeps, fun q hq => ?_, fun q hq => ?_⟩
  · by_cases hindex : q.index = p.index
    · obtain rfl := List.inj_on_of_nodup_map hkeeps.indices hq (worked_self hdesk) hindex
      exact (ha.alone p hmem).step hs (List.mem_of_getElem? hfile) hopen
    · have hq : q ∈ h.desks := by
        rcases mem_worked hq with hq | rfl
        · exact hq
        · exact absurd rfl hindex
      exact (ha.alone q hq).frame hs (List.mem_of_getElem? hfile) hindex
        (path_ne_of_index_ne hpaths (ha.keeps.desks q hq).file hfile hindex)
  · rw [worked_indices hdesk]
    rcases List.mem_append.1 hq with hq | hq
    · exact ha.steps q hq
    · rw [List.mem_singleton.1 hq]
      change p.index ∈ h.desks.map (·.index)
      exact List.mem_map_of_mem hmem

theorem Apart.collect {w : σ} {h : Hall σ} {past : List Desk}
    (ha : h.Apart files d terms habits memory w past) {i : Nat} {p : Desk} {r : Report}
    {path : String} (hp : h.desks[i]? = some p) (hr : p.seat = .settled r)
    (hpath : (p.index, path) ∈ h.pending) :
    (h.collected p r).Apart files d terms habits memory w past :=
  ⟨ha.keeps.collect hp hr hpath, ha.alone, ha.steps⟩

theorem follow_apart (hs : services.Steady terms files habits memory)
    (hpaths : (files.map (·.path)).Nodup) {h : Hall σ} (hk : h.Keeps files d)
    (hqueued : ∀ p ∈ h.desks, p.seat = .queued) (moves : List Move) :
    (h.follow services terms moves).Apart files d terms habits memory h.shared.world
      (h.history services terms moves) := by
  refine history_induct (P := Apart files d terms habits memory h.shared.world)
    (fun _ _ _ _ ha hready => ha.work hs hpaths hready)
    (fun _ _ _ _ _ _ ha hp hr hpath => ha.collect hp hr hpath) ⟨hk, fun p hp => ?_, by simp⟩ moves
  exact ⟨0, rfl, by rw [hqueued p hp]; rfl, rfl⟩

theorem GoesAlone.unique {habits' : Habits ν} {w w' : σ} {h h' : Hall σ} {past past' : List Desk}
    {p p' : Desk} (ha : GoesAlone terms habits memory w h past p)
    (ha' : GoesAlone terms habits' memory w' h' past' p') (hcard : card p = card p')
    (hsame : Habits.SameAlone terms p.job habits habits' (memory w p.job.source.path)
      (memory w' p.job.source.path)) {r r' : Report} (hr : p.seat = .settled r)
    (hr' : p'.seat = .settled r') :
    p.forget = p'.forget ∧ (past.filter (·.index == p.index)).map Desk.forget
      = (past'.filter (·.index == p.index)).map Desk.forget := by
  obtain ⟨index, j, seat⟩ := p
  obtain ⟨index', j', seat'⟩ := p'
  obtain ⟨rfl, rfl⟩ := Prod.mk.inj hcard
  obtain ⟨n, hpast, hseat, -⟩ := ha
  obtain ⟨n', hpast', hseat', -⟩ := ha'
  rw [← hsame.alone n'] at hseat'
  have hover {seat : Seat} {r : Report} {m : Nat} (hr : seat = .settled r)
      (hm : seat.forget = (habits.alone terms j (memory w j.source.path) m).1.forget) :
      ∃ r', (habits.alone terms j (memory w j.source.path) m).1 = .settled r' := by
    have hsome := Seat.report?_isSome_of_forget hm
    rw [hr] at hsome
    obtain ⟨r', hr'⟩ := Option.isSome_iff_exists.1 hsome.symm
    exact ⟨r', Seat.report?_eq_some.1 hr'⟩
  obtain ⟨s, hs⟩ := hover hr hseat
  obtain ⟨s', hs'⟩ := hover hr' hseat'
  obtain ⟨hsteps, htrail⟩ := Seat.steps_unique habits.services terms j hs hs'
  refine ⟨?_, ?_⟩
  · simp only [Desk.forget, Desk.mk.injEq, true_and]
    rw [hseat, hseat', Habits.alone, hsteps]
    rfl
  · have hmap (trail : List Seat) : trail.map (fun seat => (⟨index, j, seat.forget⟩ : Desk))
        = (trail.map Seat.forget).map fun seat => ⟨index, j, seat⟩ := by
      rw [List.map_map]
      rfl
    rw [hpast, hpast', hmap, hmap, ← hsame.trail n', Habits.trailAlone, htrail]
    rfl

/-- The halls hold the same files, and each file is over in the same way and has got there in the
same steps. -/
structure SameCourse (h h' : Hall σ) (past past' : List Desk) : Prop where
  desks : h.desks.map Desk.forget = h'.desks.map Desk.forget
  steps : ∀ index, (past.filter (·.index == index)).map Desk.forget
    = (past'.filter (·.index == index)).map Desk.forget

theorem Apart.sameDesk {habits' : Habits ν} {w w' : σ} {h h' : Hall σ} {past past' : List Desk}
    (ha : h.Apart files d terms habits memory w past)
    (ha' : h'.Apart files d terms habits' memory w' past') (hdone : h.isDone = true)
    (hdone' : h'.isDone = true) {p p' : Desk} (hp : p ∈ h.desks) (hp' : p' ∈ h'.desks)
    (hcard : card p = card p')
    (hsame : Habits.SameAlone terms p.job habits habits' (memory w p.job.source.path)
      (memory w' p.job.source.path)) :
    p.forget = p'.forget ∧ (past.filter (·.index == p.index)).map Desk.forget
      = (past'.filter (·.index == p.index)).map Desk.forget := by
  obtain ⟨r, hr, -⟩ := ha.keeps.filed_of_done hdone hp
  obtain ⟨r', hr', -⟩ := ha'.keeps.filed_of_done hdone' hp'
  exact (ha.alone p hp).unique (ha'.alone p' hp') hcard hsame hr hr'

theorem Apart.no_steps {w : σ} {h : Hall σ} {past : List Desk}
    (ha : h.Apart files d terms habits memory w past) {index : Nat}
    (hindex : index ∉ h.desks.map (·.index)) : past.filter (·.index == index) = [] := by
  refine List.filter_eq_nil_iff.2 fun p hp heq => hindex ?_
  rw [beq_iff_eq] at heq
  exact heq ▸ ha.steps p hp

theorem exists_partner {h h' : Hall σ} (hcards : h.desks.map card = h'.desks.map card) {p : Desk}
    (hp : p ∈ h.desks) : ∃ p' ∈ h'.desks, card p = card p' := by
  have hmem := List.mem_map_of_mem (f := card) hp
  rw [hcards, List.mem_map] at hmem
  obtain ⟨p', hp', heq⟩ := hmem
  exact ⟨p', hp', heq.symm⟩

theorem Apart.sameCourse {w : σ} {h h' : Hall σ} {past past' : List Desk}
    (ha : h.Apart files d terms habits memory w past)
    (ha' : h'.Apart files d terms habits memory w past')
    (hcards : h.desks.map card = h'.desks.map card)
    (hdone : h.isDone = true) (hdone' : h'.isDone = true) : h.SameCourse h' past past' := by
  refine ⟨List.ext_getElem? fun i => ?_, fun index => ?_⟩
  · have hget : h.desks[i]?.map card = h'.desks[i]?.map card := by
      rw [← List.getElem?_map, ← List.getElem?_map, hcards]
    rw [List.getElem?_map, List.getElem?_map]
    cases hp : h.desks[i]? with
    | some p =>
      rw [hp, Option.map_some, eq_comm, Option.map_eq_some_iff] at hget
      obtain ⟨p', hp', hcard⟩ := hget
      rw [hp', Option.map_some, Option.map_some, (ha.sameDesk ha' hdone hdone'
        (List.mem_of_getElem? hp) (List.mem_of_getElem? hp') hcard.symm (.refl ..)).1]
    | none =>
      rw [hp, Option.map_none, eq_comm, Option.map_eq_none_iff] at hget
      rw [hget]
  · by_cases hindex : index ∈ h.desks.map (·.index)
    · obtain ⟨p, hp, rfl⟩ := List.mem_map.1 hindex
      obtain ⟨p', hp', hcard⟩ := exists_partner hcards hp
      exact (ha.sameDesk ha' hdone hdone' hp hp' hcard (.refl ..)).2
    · rw [ha.no_steps hindex, ha'.no_steps (indices_of_cards hcards ▸ hindex)]

end Hall

end Crosswalk
