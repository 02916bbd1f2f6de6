import Crosswalk.Proofs.Batch.Completion
import Crosswalk.Proofs.Batch.Schedule

namespace Crosswalk

variable {σ : Type}

namespace Hall

variable {services : Services σ} {terms : Terms} {h : Hall σ}

/-- At every moment of every run the permits and the files at work are as many as at its start. -/
theorem follow_permits (h : Hall σ) (moves : List Move) :
    (h.follow services terms moves).permits + (h.follow services terms moves).working
      = h.permits + h.working :=
  follow_induct (P := fun h' => h'.permits + h'.working = h.permits + h.working)
    (fun _ _ _ heq hready => (worked_permits services terms hready).trans heq)
    (fun _ _ _ _ _ heq _ _ _ => heq) rfl moves

/-- The numbers of the files whose reports the moves enter, in the order of the moves. -/
def filings (services : Services σ) (terms : Terms) : Hall σ → List Move → List Nat
  | _, [] => []
  | h, m :: moves =>
    ((h.filed? m).map (·.index)).toList ++ filings services terms (h.move services terms m) moves

theorem move_pending (services : Services σ) (terms : Terms)
    (honce : (h.pending.map (·.1)).Nodup) (m : Move) :
    (((h.filed? m).map (·.index)).toList
      ++ (h.move services terms m).pending.map (·.1)).Perm (h.pending.map (·.1)) := by
  cases m with
  | work i =>
    cases hready : h.ready? i with
    | none => simp [filed?, move, step_none hready]
    | some p => simp [filed?, move, step_ready hready, worked]
  | collect i =>
    cases hfiled : h.filed? (.collect i) with
    | none =>
      obtain heq | ⟨p, r, path, hp, hr, hpath, -⟩ := collect_cases h i
      · simp [move, heq]
      · rw [filed?_collect.2 ⟨hp, ⟨r, hr⟩, path, hpath⟩] at hfiled
        cases hfiled
    | some p =>
      obtain ⟨hp, ⟨r, hr⟩, path, hpath⟩ := filed?_collect.1 hfiled
      have hrest : (h.pending.filter (·.1 != p.index)).map (·.1)
          = (h.pending.map (·.1)).erase p.index := by
        rw [honce.erase_eq_filter, List.filter_map]
        rfl
      rw [move, collect_pending hp hr hpath, collected, hrest]
      exact (List.perm_cons_erase (List.mem_map_of_mem (f := (·.1)) hpath)).symm

/-- At every moment of every run the reports that were entered and those to come are all there are,
each once. -/
theorem follow_pending (honce : (h.pending.map (·.1)).Nodup) (moves : List Move) :
    (h.filings services terms moves
      ++ (h.follow services terms moves).pending.map (·.1)).Perm (h.pending.map (·.1)) := by
  induction moves generalizing h with
  | nil => exact .refl _
  | cons m moves ih =>
    have hmove := move_pending services terms honce m
    have hlater : ((h.move services terms m).pending.map (·.1)).Nodup :=
      (List.nodup_append.1 (hmove.nodup_iff.2 honce)).2.1
    rw [filings, List.append_assoc, follow_cons]
    exact ((ih hlater).append_left _).trans hmove

theorem Idle.filings (hi : h.Idle) (moves : List Move) : h.filings services terms moves = [] := by
  induction moves with
  | nil => rfl
  | cons m moves ih =>
    rw [Hall.filings, hi.reports, hi.move, ih]
    rfl

/-- A hall in which nothing can move is one that is done: nobody waits in vain. -/
theorem Alive.idle_iff (ha : h.Alive) {files : List Source} {d : Direction} (hk : h.Keeps files d) :
    h.Idle ↔ h.isDone = true := by
  constructor
  · intro hidle
    rw [isDone, List.isEmpty_iff, List.eq_nil_iff_forall_not_mem]
    intro e he
    obtain ⟨p, hp, hindex⟩ := List.mem_map.1 (ha.pending e he)
    cases hreport : p.seat.report? with
    | none =>
      obtain ⟨i, q, hready⟩ := ha.exists_ready hp hreport
      rw [hidle.steps i] at hready
      cases hready
    | some r =>
      obtain ⟨i, hi⟩ := List.getElem?_of_mem hp
      have hfiled := filed?_collect.2 ⟨hi, ⟨r, Seat.report?_eq_some.1 hreport⟩, e.2, hindex ▸ he⟩
      rw [hidle.reports] at hfiled
      cases hfiled
  · intro hdone
    constructor
    · intro i
      rw [Option.eq_none_iff_forall_ne_some]
      intro p hready
      obtain ⟨hp, hopen, -⟩ := ready?_eq_some.1 hready
      obtain ⟨r, hr, -⟩ := hk.filed_of_done hdone (List.mem_of_getElem? hp)
      rw [hr] at hopen
      cases hopen
    · intro m
      rw [Option.eq_none_iff_forall_ne_some]
      intro p hfiled
      cases m with
      | work i => cases hfiled
      | collect i =>
        obtain ⟨-, -, path, hpath⟩ := filed?_collect.1 hfiled
        rw [List.isEmpty_iff.1 hdone] at hpath
        cases hpath

theorem working_of_filed (hreports : ∀ p ∈ h.desks, h.book.HasFiled p) : h.working = 0 := by
  rw [working, List.countP_eq_zero]
  intro p hp
  obtain ⟨r, hr, -⟩ := hreports p hp
  simp [hr, atWork]

end Hall

namespace Batch

theorem sequentialSteps_indices (services : Services σ) (terms : Terms) (options : ResolvedOptions)
    (summary : Summary) (list : List (Source × Nat)) (s : Shared σ) :
    ∀ p ∈ sequentialSteps services terms options summary list s, p.index ∈ list.map (·.2) := by
  induction list generalizing s with
  | nil => simp [sequentialSteps]
  | cons f rest ih =>
    obtain ⟨file, index⟩ := f
    intro p hp
    rcases List.mem_append.1 hp with hp | hp
    · obtain ⟨seat, -, rfl⟩ := List.mem_map.1 hp
      exact List.mem_cons_self
    · exact List.mem_cons_of_mem _ (ih _ p hp)

variable {moves : List Move} {e : Engine σ} {options : ResolvedOptions} {files : List Source}
  {world : σ}

theorem stepsIn_lanes {past later : List Desk} {p : Desk}
    (hsteps : stepsIn moves e options files world = past ++ p :: later)
    (hp : p.index ∈ (lane e.threshold files .parallel).map (·.2)) :
    ∀ f ∈ lane e.threshold files .sequential,
      ∃ q ∈ past, q.index = f.2 ∧ q.seat.report?.isSome = true := by
  intro f hf
  have hover := sequentialSteps_over e.services e.terms options (Summary.ofSources files)
    (lane e.threshold files .sequential) ⟨Manifest.empty, world⟩
  have hindices := sequentialSteps_indices e.services e.terms options (Summary.ofSources files)
    (lane e.threshold files .sequential) ⟨Manifest.empty, world⟩
  have hf' : f.2 ∈ (sequentialRun e options files world).1.map (·.index) := by
    rw [sequentialRun_indices]
    exact List.mem_map_of_mem hf
  obtain ⟨q, hq, hindex⟩ := List.mem_map.1 hf'
  rw [sequentialRun, ← hover, List.mem_filter] at hq
  rw [stepsIn] at hsteps
  generalize sequentialSteps e.services e.terms options (Summary.ofSources files)
    (lane e.threshold files .sequential) ⟨Manifest.empty, world⟩ = steps at hsteps hindices hq
  refine ⟨q, ?_, hindex, hq.2⟩
  -- The step of the parallel file is none of the sequential steps, so all of these come before it.
  obtain ⟨more, rfl, -⟩ | ⟨more, rfl, hmore⟩ := List.append_eq_append_iff.1 hsteps
  · exact List.mem_append_left _ hq.1
  · cases more with
    | nil => simpa using hq.1
    | cons p' more =>
      obtain rfl : p = p' := by simpa using congrArg List.head? hmore
      obtain ⟨g, hg, hgindex⟩ := List.mem_map.1 (hindices p (by simp))
      obtain ⟨g', hg', hgindex'⟩ := List.mem_map.1 hp
      exact absurd (hgindex.trans hgindex'.symm) (lane_disjoint hg hg')

theorem opened_working : (opened e options files world).working = 0 := by
  rw [Hall.working, List.countP_eq_zero]
  intro p hp
  simp [(opened_desk hp).2.1, Hall.atWork]

/-- What holds of the parallel lane of a batch after the moves so far. -/
structure Limited (moves : List Move) (e : Engine σ) (options : ResolvedOptions)
    (files : List Source) (world : σ) : Prop where
  working : (hallAfter moves e options files world).working ≤ max 1 e.permits
  permits : (hallAfter moves e options files world).permits
    + (hallAfter moves e options files world).working = granted e files
  sequentialFirst : ∀ past p later, stepsIn moves e options files world = past ++ p :: later →
    p.index ∈ (lane e.threshold files .parallel).map (·.2) →
      ∀ f ∈ lane e.threshold files .sequential,
        ∃ q ∈ past, q.index = f.2 ∧ q.seat.report?.isSome = true
  filings : ((opened e options files world).filings e.services e.terms moves
    ++ (hallAfter moves e options files world).pending.map (·.1)).Perm
      ((lane e.threshold files .parallel).map (·.2))

/-- What holds when nothing of the parallel lane can move any more: all permits are back, every file
of the lane was entered once, with its own report, and nothing is still to come. -/
structure Over (moves : List Move) (e : Engine σ) (options : ResolvedOptions) (files : List Source)
    (world : σ) : Prop where
  permits : (hallAfter moves e options files world).permits = max 1 e.permits
  filings : ((opened e options files world).filings e.services e.terms moves).Perm
    ((lane e.threshold files .parallel).map (·.2))
  pending : (hallAfter moves e options files world).pending = []
  reports : ∀ p ∈ (hallAfter moves e options files world).desks,
    (hallAfter moves e options files world).book.HasFiled p

/-- What holds of a hall that does not open: nobody in it takes a step, and no report comes in. -/
structure Shut (moves : List Move) (e : Engine σ) (options : ResolvedOptions) (files : List Source)
    (world : σ) : Prop where
  idle : (hallAfter moves e options files world).Idle
  steps : (opened e options files world).history e.services e.terms moves = []
  filings : (opened e options files world).filings e.services e.terms moves = []

theorem hallAfter_shut (hshut : opens e files = false) : Shut moves e options files world := by
  have hidle := opened_idle hshut options world
  refine ⟨?_, hidle.history moves, hidle.filings moves⟩
  rw [hallAfter, hidle.follow]
  exact hidle

theorem hallAfter_limited (moves : List Move) (e : Engine σ) (options : ResolvedOptions)
    (files : List Source) (world : σ) : Limited moves e options files world := by
  have hpermits : (hallAfter moves e options files world).permits
      + (hallAfter moves e options files world).working = granted e files := by
    rw [hallAfter, Hall.follow_permits, opened_working]
    rfl
  have hgranted : granted e files ≤ max 1 e.permits := by
    rw [granted]
    split
    · exact Nat.le_refl _
    · exact Nat.zero_le _
  refine ⟨by omega, hpermits, fun _ _ _ => stepsIn_lanes, ?_⟩
  have hopened : (opened e options files world).pending.map (·.1)
      = (lane e.threshold files .parallel).map (·.2) := by
    rw [opened_pending, List.map_map]
    rfl
  rw [← hopened]
  exact Hall.follow_pending (opened_keeps e options files world).once moves

theorem hallAfter_idle_iff (hopens : opens e files = true) :
    (hallAfter moves e options files world).Idle ↔ Completes moves e options files world :=
  (hallAfter_alive hopens moves options world).idle_iff (hallAfter_keeps moves e options files world)

theorem hallAfter_over (hopens : opens e files = true)
    (hidle : (hallAfter moves e options files world).Idle) : Over moves e options files world := by
  have hdone := (hallAfter_idle_iff hopens).1 hidle
  have hlimited := hallAfter_limited moves e options files world
  have hpending := List.isEmpty_iff.1 hdone
  have hreports : ∀ p ∈ (hallAfter moves e options files world).desks,
      (hallAfter moves e options files world).book.HasFiled p := fun p hp =>
    (hallAfter_keeps moves e options files world).filed_of_done hdone hp
  have hpermits := hlimited.permits
  have hfilings := hlimited.filings
  rw [Hall.working_of_filed hreports, Nat.add_zero, granted, if_pos hopens] at hpermits
  rw [hpending, List.map_nil, List.append_nil] at hfilings
  exact ⟨hpermits, hfilings, hpending, hreports⟩

/-- At every moment of every run of a batch no more parallel files are at work than there are
permits, and none before the sequential lane is over. If the hall opens, the run can always be
brought to an end, and when nothing can move any more, all permits are back and each file of the lane
is settled once. A hall that does not open settles none. -/
theorem concurrency_limited (moves : List Move) (e : Engine σ) (options : ResolvedOptions)
    (files : List Source) (world : σ) :
    Limited moves e options files world ∧
      if opens e files then
        ((hallAfter moves e options files world).Idle → Over moves e options files world) ∧
          ∃ more, (hallAfter (moves ++ more) e options files world).Idle
      else Shut moves e options files world := by
  refine ⟨hallAfter_limited moves e options files world, ?_⟩
  cases hopens : opens e files with
  | true =>
    obtain ⟨more, hdone⟩ := exists_completes hopens moves options world
    exact ⟨hallAfter_over hopens, more, (hallAfter_idle_iff hopens).2 hdone⟩
  | false => exact hallAfter_shut hopens

/-- Two parallel files, of which neither is ever settled although nothing can move. -/
theorem crowded_unsettled :
    (lane crowded.threshold twoFiles .parallel).map (·.2) = [0, 1] ∧
      ∀ moves, (hallAfter moves crowded {} twoFiles ()).Idle ∧
        (opened crowded {} twoFiles ()).filings crowded.services crowded.terms moves = [] ∧
        ¬Over moves crowded {} twoFiles () := by
  have hlane : (lane crowded.threshold twoFiles .parallel).map (·.2) = [0, 1] := by decide +kernel
  refine ⟨hlane, fun moves => ?_⟩
  have hall : Shut moves crowded {} twoFiles () := hallAfter_shut crowded_shut
  have hfilings := hall.filings
  refine ⟨hall.idle, hfilings, fun hover => ?_⟩
  have hsettled := hover.filings
  rw [hfilings, hlane] at hsettled
  exact absurd hsettled.length_eq (by decide)

end Batch

end Crosswalk
