import Crosswalk.Proofs.Batch.Book
import Crosswalk.Proofs.Batch.Lanes
import Crosswalk.Proofs.Batch.Moves

namespace Crosswalk

variable {σ : Type}

namespace Hall

variable {services : Services σ} {terms : Terms}

/-- A hall and its book agree: a slot is empty while its report is to come, and filled after. -/
structure Keeps (files : List Source) (d : Direction) (h : Hall σ) : Prop where
  book : h.book.Keeps files d
  desks : ∀ p ∈ h.desks, p.Belongs files d
  indices : (h.desks.map (·.index)).Nodup
  pending : ∀ e ∈ h.pending, h.book.slots[e.1]? = some none ∧
    ∃ p ∈ h.desks, p.index = e.1 ∧ p.job.source.path = e.2
  once : (h.pending.map (·.1)).Nodup
  filed : ∀ p ∈ h.desks, p.index ∈ h.pending.map (·.1) ∨ h.book.HasFiled p

theorem Keeps.work {files : List Source} {d : Direction} {h : Hall σ} (hk : h.Keeps files d) {i : Nat}
    {p : Desk} (hp : h.ready? i = some p) : (h.worked services terms i p).Keeps files d := by
  obtain ⟨hdesk, hopen, -⟩ := ready?_eq_some.1 hp
  have hbelongs := hk.desks p (List.mem_of_getElem? hdesk)
  refine ⟨hk.book, fun q hq => ?_, ?_, fun e he => ?_, hk.once, fun q hq => ?_⟩
  · rcases mem_worked hq with hq | rfl
    · exact hk.desks q hq
    · exact ⟨hbelongs.file, hbelongs.direction, Seat.step_fits services terms _ _ hbelongs.fits⟩
  · rw [worked_indices hdesk]
    exact hk.indices
  · obtain ⟨hslot, q, hq, hindex, hpath⟩ := hk.pending e he
    refine ⟨hslot, ?_⟩
    by_cases hqp : q = p
    · subst hqp
      exact ⟨_, worked_self hdesk, hindex, hpath⟩
    · exact ⟨q, mem_worked_of_ne hdesk hq hqp, hindex, hpath⟩
  · rcases mem_worked hq with hq | rfl
    · exact hk.filed q hq
    · rcases hk.filed p (List.mem_of_getElem? hdesk) with hpending | ⟨r, hr, -⟩
      · exact .inl hpending
      · rw [hr] at hopen
        cases hopen

theorem mem_pending_filter {pending : List (Nat × String)} {index n : Nat} (h : n ≠ index) :
    n ∈ (pending.filter (·.1 != index)).map (·.1) ↔ n ∈ pending.map (·.1) := by
  simp only [List.mem_map, List.mem_filter, bne_iff_ne]
  constructor
  · rintro ⟨e, ⟨he, -⟩, rfl⟩
    exact ⟨e, he, rfl⟩
  · rintro ⟨e, he, rfl⟩
    exact ⟨e, ⟨he, h⟩, rfl⟩

theorem Keeps.collect {files : List Source} {d : Direction} {h : Hall σ} (hk : h.Keeps files d)
    {i : Nat} {p : Desk} {r : Report} {path : String} (hp : h.desks[i]? = some p)
    (hr : p.seat = .settled r) (hpath : (p.index, path) ∈ h.pending) :
    (h.collected p r).Keeps files d := by
  have hmem := List.mem_of_getElem? hp
  have hbelongs := hk.desks p hmem
  have hslot : h.book.slots[p.index]? = some none := (hk.pending _ hpath).1
  have hin : p.index < h.book.slots.length := (List.getElem?_eq_some_iff.1 hslot).1
  refine ⟨Book.report_keeps hk.book hbelongs hslot (hbelongs.report_fits hr), hk.desks, hk.indices,
    fun e he => ?_, hk.once.sublist (List.filter_sublist.map _), fun q hq => ?_⟩
  · obtain ⟨he, hne⟩ := List.mem_filter.1 he
    obtain ⟨hempty, hdesk⟩ := hk.pending e he
    exact ⟨by rw [collected, Book.settle_slot_ne (Ne.symm (bne_iff_ne.1 hne)), hempty], hdesk⟩
  · by_cases hindex : q.index = p.index
    · obtain rfl : q = p := List.inj_on_of_nodup_map hk.indices hq hmem hindex
      exact .inr ⟨r, hr, Book.settle_slot_self hin _ _⟩
    · rcases hk.filed q hq with hpending | ⟨r', hr', hslot'⟩
      · exact .inl ((mem_pending_filter hindex).2 hpending)
      · exact .inr ⟨r', hr', by rw [collected, Book.settle_slot_ne (Ne.symm hindex), hslot']⟩

theorem Keeps.follow {files : List Source} {d : Direction} {h : Hall σ} (hk : h.Keeps files d)
    (moves : List Move) : (h.follow services terms moves).Keeps files d :=
  follow_induct (P := Keeps files d) (fun _ _ _ hk hp => hk.work hp)
    (fun _ _ _ _ _ hk hp hr hpath => hk.collect hp hr hpath) hk moves

theorem Keeps.close {files : List Source} {d : Direction} {h : Hall σ} (hk : h.Keeps files d) :
    h.close.Keeps files d := by
  obtain ⟨hbook, hdesks, -, hpending, honce, -⟩ := hk
  unfold Hall.close
  generalize h.book = b at *
  generalize h.pending = pending at *
  induction pending generalizing b with
  | nil => exact hbook
  | cons e rest ih =>
    obtain ⟨hslot, p, hp, hindex, hpath⟩ := hpending e List.mem_cons_self
    rw [List.map_cons, List.nodup_cons] at honce
    have hsettle : (b.settle e.1 e.2 (.broken "task cancelled")).Keeps files d := by
      rw [← hindex, ← hpath]
      exact Book.report_keeps hbook (hdesks p hp) (by rw [hindex, hslot]) trivial
    refine ih _ hsettle honce.2 fun e' he' => ?_
    obtain ⟨hslot', hdesk'⟩ := hpending e' (List.mem_cons_of_mem _ he')
    have hne : e.1 ≠ e'.1 := fun heq => honce.1 (heq ▸ List.mem_map_of_mem he')
    exact ⟨by rw [Book.settle_slot_ne hne, hslot'], hdesk'⟩

theorem close_done {h : Hall σ} (hdone : h.isDone = true) : h.close = h.book := by
  rw [close, List.isEmpty_iff.1 hdone]
  rfl

theorem Keeps.filed_of_done {files : List Source} {d : Direction} {h : Hall σ} (hk : h.Keeps files d)
    (hdone : h.isDone = true) {p : Desk} (hp : p ∈ h.desks) : h.book.HasFiled p := by
  rcases hk.filed p hp with hpending | hfiled
  · rw [List.isEmpty_iff.1 hdone] at hpending
    cases hpending
  · exact hfiled

end Hall

namespace Batch

variable {e : Engine σ} {options : ResolvedOptions} {files : List Source} {world : σ}

theorem openedBook_keeps (e : Engine σ) (options : ResolvedOptions) (files : List Source) (world : σ) :
    (openedBook e options files world).Keeps files options.direction ∧
      (∀ p ∈ (sequentialRun e options files world).1,
        (openedBook e options files world).HasFiled p) ∧
      ∀ f ∈ lane e.threshold files .parallel,
        (openedBook e options files world).slots[f.2]? = some none := by
  have hblank (n : Nat) (hn : n < files.length) (a b : Nat) :
      (Book.blank files.length a b).slots[n]? = some none := by
    rw [Book.blank, List.getElem?_replicate, if_pos hn]
  have hin {l : Lane} {f : Source × Nat} (hf : f ∈ lane e.threshold files l) :
      f.2 < files.length := (List.getElem?_eq_some_iff.1 (mem_lane.1 hf).1).1
  have hnodup : ((sequentialRun e options files world).1.map (·.index)).Nodup := by
    rw [sequentialRun_indices]
    exact lane_nodup e.threshold files .sequential
  obtain ⟨hkeeps, hfiled, hframe⟩ := Book.enterAll_keeps
    (Book.blank_keeps files options.direction (lane_length e.threshold files)) hnodup
    fun p hp => by
      obtain ⟨hlane, hoptions, -, r, hr, hfits⟩ := sequentialRun_desk hp
      refine ⟨⟨(mem_lane.1 hlane).1, by rw [hoptions], ?_⟩, ⟨r, hr⟩, hblank _ (hin hlane) _ _⟩
      rw [hr]
      exact hfits
  refine ⟨hkeeps, hfiled, fun f hf => ?_⟩
  rw [openedBook, hframe, hblank _ (hin hf)]
  rw [sequentialRun_indices, List.mem_map]
  rintro ⟨g, hg, heq⟩
  exact lane_disjoint hg hf heq

theorem opened_keeps (e : Engine σ) (options : ResolvedOptions) (files : List Source) (world : σ) :
    (opened e options files world).Keeps files options.direction := by
  obtain ⟨hkeeps, -, hempty⟩ := openedBook_keeps e options files world
  refine ⟨hkeeps, fun p hp => ?_, ?_, fun x hx => ?_, ?_, fun p hp => .inl ?_⟩
  · obtain ⟨hlane, hseat, hjob⟩ := opened_desk hp
    exact ⟨(mem_lane.1 hlane).1, by rw [hjob], by rw [hseat]; trivial⟩
  · rw [opened_indices]
    exact lane_nodup e.threshold files .parallel
  · rw [opened_pending, List.mem_map] at hx
    obtain ⟨f, hf, rfl⟩ := hx
    have hdesk : (⟨f.2, ⟨f.1, options, Summary.ofSources files,
        (sequentialRun e options files world).2.manifest⟩, .queued⟩ : Desk)
          ∈ (opened e options files world).desks := by
      simp only [opened, Hall.opened, parallelJobs, List.map_map, List.mem_map]
      exact ⟨f, hf, rfl⟩
    exact ⟨hempty f hf, _, hdesk, rfl, rfl⟩
  · rw [opened_pending, List.map_map]
    exact lane_nodup e.threshold files .parallel
  · rw [opened_pending, List.map_map]
    exact List.mem_map_of_mem (opened_desk hp).1

end Batch
end Crosswalk
