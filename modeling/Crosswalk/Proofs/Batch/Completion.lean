import Crosswalk.Proofs.Batch.Lanes
import Crosswalk.Proofs.Batch.Runs

namespace Crosswalk

variable {σ : Type} {services : Services σ} {terms : Terms}

namespace Hall

/-- Whoever waits for a permit waits for a file at work, and whose report is to come has a desk. -/
structure Alive (h : Hall σ) : Prop where
  fits : ∀ p ∈ h.desks, p.seat.Fits p.job
  room : 0 < h.permits + h.working
  pending : ∀ e ∈ h.pending, e.1 ∈ h.desks.map (·.index)

theorem Alive.work {h : Hall σ} (ha : h.Alive) {i : Nat} {p : Desk} (hready : h.ready? i = some p) :
    (h.worked services terms i p).Alive := by
  have hdesk := (ready?_eq_some.1 hready).1
  refine ⟨worked_fits services terms hdesk ha.fits, ?_, ?_⟩
  · rw [worked_permits services terms hready]
    exact ha.room
  · rw [worked_indices hdesk]
    exact ha.pending

theorem Alive.collect {h : Hall σ} (ha : h.Alive) (p : Desk) (r : Report) :
    (h.collected p r).Alive :=
  ⟨ha.fits, ha.room, fun e he => ha.pending e (List.mem_filter.1 he).1⟩

theorem Alive.follow (services : Services σ) (terms : Terms) {h : Hall σ} (ha : h.Alive)
    (moves : List Move) : (h.follow services terms moves).Alive :=
  follow_induct (P := Alive) (fun _ _ _ ha hready => ha.work hready)
    (fun _ _ p r _ ha _ _ _ => ha.collect p r) ha moves

theorem Clocked.alive {h : Hall σ} {turns blocked : List Nat} (hc : h.Clocked turns blocked) :
    h.Alive := by
  refine ⟨hc.fits, hc.room, fun e he => ?_⟩
  obtain ⟨p, hp, hindex, -⟩ := hc.pending e he
  exact List.mem_map.2 ⟨p, hp, hindex⟩

theorem Alive.exists_ready {h : Hall σ} (ha : h.Alive) {q : Desk} (hq : q ∈ h.desks)
    (hopen : q.seat.report? = none) : ∃ i p, h.ready? i = some p := by
  by_cases hpermits : h.permits = 0
  · have hworking : 0 < h.desks.countP fun p => atWork p.seat := by
      have hroom := ha.room
      rwa [hpermits, Nat.zero_add] at hroom
    obtain ⟨p, hp, hwork⟩ := List.countP_pos_iff.1 hworking
    obtain ⟨i, hi⟩ := List.getElem?_of_mem hp
    refine ⟨i, p, ready?_eq_some.2 ⟨hi, ?_, .inl hwork⟩⟩
    cases hseat : p.seat with
    | settled r => simp [hseat, atWork] at hwork
    | _ => rfl
  · obtain ⟨i, hi⟩ := List.getElem?_of_mem hq
    exact ⟨i, q, ready?_eq_some.2 ⟨hi, hopen, .inr hpermits⟩⟩

def toDo (h : Hall σ) : Nat := (h.desks.map fun p => p.seat.left p.job).sum + h.pending.length

theorem Alive.work_toDo {h : Hall σ} (ha : h.Alive) {i : Nat} {p : Desk}
    (hready : h.ready? i = some p) : (h.worked services terms i p).toDo < h.toDo := by
  obtain ⟨hdesk, hopen, -⟩ := ready?_eq_some.1 hready
  obtain ⟨rest, hold, hnew⟩ := worked_perm services terms hdesk
  have hleft := (Seat.step_fits_left services terms p.job h.shared
    (ha.fits p (List.mem_of_getElem? hdesk)) hopen).2
  have hpending : (h.worked services terms i p).pending = h.pending := rfl
  simp only [toDo, (hold.map _).sum_eq, (hnew.map _).sum_eq, List.map_cons, List.sum_cons, hpending]
  omega

theorem collect_toDo {h : Hall σ} {p : Desk} {path : String} (r : Report)
    (hpath : (p.index, path) ∈ h.pending) : (h.collected p r).toDo < h.toDo := by
  have hless : (h.pending.filter (·.1 != p.index)).length < h.pending.length :=
    List.length_filter_lt_length_iff_exists.2 ⟨_, hpath, by simp⟩
  exact Nat.add_lt_add_left hless _

theorem collect_pending {h : Hall σ} {i : Nat} {p : Desk} {r : Report} {path : String}
    (hp : h.desks[i]? = some p) (hr : p.seat = .settled r) (hpath : (p.index, path) ∈ h.pending) :
    h.collect i = h.collected p r := by
  obtain ⟨index, j, seat⟩ := p
  subst hr
  simp only [collect, hp, isPending_iff.2 ⟨path, hpath⟩, if_true, collected]

theorem Alive.finish (services : Services σ) (terms : Terms) {h : Hall σ} (ha : h.Alive) :
    ∃ moves, (h.follow services terms moves).isDone = true := by
  induction hn : h.toDo using Nat.strong_induction_on generalizing h with
  | _ n ih =>
    subst hn
    by_cases hover : ∃ q ∈ h.desks, q.seat.report? = none
    · obtain ⟨q, hq, hopen⟩ := hover
      obtain ⟨i, p, hready⟩ := ha.exists_ready hq hopen
      obtain ⟨moves, hdone⟩ := ih _ (ha.work_toDo hready) (ha.work hready) rfl
      exact ⟨.work i :: moves, by rwa [follow_cons, move, step_ready hready]⟩
    · cases hpending : h.pending with
      | nil => exact ⟨[], by rw [follow_nil, isDone, hpending]; rfl⟩
      | cons e rest =>
        have he : e ∈ h.pending := by rw [hpending]; exact List.mem_cons_self
        obtain ⟨p, hp, hindex⟩ := List.mem_map.1 (ha.pending e he)
        obtain ⟨i, hi⟩ := List.getElem?_of_mem hp
        cases hreport : p.seat.report? with
        | none => exact absurd ⟨p, hp, hreport⟩ hover
        | some r =>
          have hpath : (p.index, e.2) ∈ h.pending := hindex ▸ he
          obtain ⟨moves, hdone⟩ := ih _ (collect_toDo r hpath) (ha.collect p r) rfl
          refine ⟨.collect i :: moves, ?_⟩
          rwa [follow_cons, move, collect_pending hi (Seat.report?_eq_some.1 hreport) hpath]

end Hall

namespace Batch

theorem hallAfter_alive {e : Engine σ} {files : List Source} (h : opens e files = true)
    (moves : List Move) (options : ResolvedOptions) (world : σ) :
    (hallAfter moves e options files world).Alive :=
  (Hall.opened_clocked _ (granted_pos h) _ _).alive.follow e.services e.terms moves

theorem opened_idle {e : Engine σ} {files : List Source} (h : opens e files = false)
    (options : ResolvedOptions) (world : σ) : (opened e options files world).Idle := by
  have hqueued {i : Nat} {p : Desk} (hp : (opened e options files world).desks[i]? = some p) :
      p.seat = .queued := (opened_desk (List.mem_of_getElem? hp)).2.1
  refine ⟨fun i => ?_, fun m => ?_⟩ <;> rw [Option.eq_none_iff_forall_ne_some] <;> intro p hp
  · obtain ⟨hdesk, -, hroom⟩ := Hall.ready?_eq_some.1 hp
    simp [hqueued hdesk, Hall.atWork, opened, Hall.opened, granted, h] at hroom
  · cases m with
    | work i => cases hp
    | collect i =>
      obtain ⟨hdesk, ⟨r, hr⟩, -⟩ := Hall.filed?_collect.1 hp
      rw [hqueued hdesk] at hr
      cases hr

theorem Completes.opens {moves : List Move} {e : Engine σ} {options : ResolvedOptions}
    {files : List Source} {world : σ} (h : Completes moves e options files world) :
    Batch.opens e files = true := by
  cases hopens : Batch.opens e files with
  | true => rfl
  | false =>
    rw [Completes, hallAfter, (opened_idle hopens options world).follow, Hall.isDone, opened_pending,
      List.isEmpty_map] at h
    simp [Batch.opens, h] at hopens

/-- Wherever the parallel files of a hall that opens are, the batch can still be completed. -/
theorem exists_completes {e : Engine σ} {files : List Source} (h : opens e files = true)
    (moves : List Move) (options : ResolvedOptions) (world : σ) :
    ∃ more, Completes (moves ++ more) e options files world := by
  obtain ⟨more, hdone⟩ := (hallAfter_alive h moves options world).finish e.services e.terms
  refine ⟨more, ?_⟩
  rwa [Completes, hallAfter, Hall.follow_append]

end Batch
end Crosswalk
