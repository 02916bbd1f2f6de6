import Crosswalk.Batch.Basic
import Crosswalk.Proofs.Conversion.Progress

namespace Crosswalk.Batch

variable {σ : Type}

theorem mem_lane {threshold : Nat} {files : List Source} {l : Lane} {f : Source × Nat} :
    f ∈ lane threshold files l ↔ files[f.2]? = some f.1 ∧ Lane.ofSource threshold f.1 = l := by
  simp only [lane, List.mem_filter, List.mem_zipIdx_iff_getElem?, decide_eq_true_eq]

theorem lane_ascending (threshold : Nat) (files : List Source) (l : Lane) :
    ((lane threshold files l).map (·.2)).Pairwise (· < ·) := by
  have hall : (files.zipIdx.map (·.2)).Pairwise (· < ·) := by
    rw [List.zipIdx_map_snd]
    exact List.pairwise_lt_range'
  exact hall.sublist (List.filter_sublist.map _)

theorem lane_nodup (threshold : Nat) (files : List Source) (l : Lane) :
    ((lane threshold files l).map (·.2)).Nodup :=
  (lane_ascending threshold files l).imp Nat.ne_of_lt

theorem lane_length (threshold : Nat) (files : List Source) :
    (lane threshold files .sequential).length + (lane threshold files .parallel).length
      = files.length := by
  have hother : ∀ f : Source × Nat, decide (Lane.ofSource threshold f.1 = .parallel)
      = !decide (Lane.ofSource threshold f.1 = .sequential) := by
    intro f
    cases Lane.ofSource threshold f.1 <;> rfl
  have hlength := List.length_eq_length_filter_add (l := files.zipIdx)
    fun f => decide (Lane.ofSource threshold f.1 = .sequential)
  rw [List.length_zipIdx] at hlength
  simp only [lane, hother]
  exact hlength.symm

theorem lane_disjoint {threshold : Nat} {files : List Source} {f g : Source × Nat}
    (hf : f ∈ lane threshold files .sequential) (hg : g ∈ lane threshold files .parallel) :
    f.2 ≠ g.2 := by
  rw [mem_lane] at hf hg
  intro heq
  rw [heq, hg.1, Option.some.injEq] at hf
  rw [← hf.1, hg.2] at hf
  exact absurd hf.2 (by decide)

theorem runSequential_desks (services : Services σ) (terms : Terms) (options : ResolvedOptions)
    (summary : Summary) (list : List (Source × Nat)) (s : Shared σ) :
    (runSequential services terms options summary list s).1.map (fun p => (p.job.source, p.index))
        = list ∧
      ∀ p ∈ (runSequential services terms options summary list s).1,
        p.job.options = options ∧ p.job.summary = summary ∧
          ∃ r, p.seat = .settled r ∧ r.Fits p.job := by
  induction list generalizing s with
  | nil => exact ⟨rfl, by simp [runSequential]⟩
  | cons f rest ih =>
    obtain ⟨file, index⟩ := f
    have hrest := ih ((⟨file, options, summary, s.manifest⟩ : Job).run services terms s).2
    refine ⟨congrArg (List.cons (file, index)) hrest.1, fun p hp => ?_⟩
    rcases List.mem_cons.1 hp with rfl | hp
    · exact ⟨rfl, rfl, _, rfl, Job.run_fits services terms _ s⟩
    · exact hrest.2 p hp

variable {e : Engine σ} {options : ResolvedOptions} {files : List Source} {world : σ}

theorem sequentialRun_indices :
    (sequentialRun e options files world).1.map (·.index)
      = (lane e.threshold files .sequential).map (·.2) := by
  have h := (runSequential_desks e.services e.terms options (Summary.ofSources files)
    (lane e.threshold files .sequential) ⟨Manifest.empty, world⟩).1
  have hmap := congrArg (List.map Prod.snd) h
  rw [List.map_map] at hmap
  exact hmap

theorem sequentialRun_desk {p : Desk} (hp : p ∈ (sequentialRun e options files world).1) :
    (p.job.source, p.index) ∈ lane e.threshold files .sequential ∧
      p.job.options = options ∧ p.job.summary = Summary.ofSources files ∧
        ∃ r, p.seat = .settled r ∧ r.Fits p.job := by
  obtain ⟨hlist, hdesks⟩ := runSequential_desks e.services e.terms options (Summary.ofSources files)
    (lane e.threshold files .sequential) ⟨Manifest.empty, world⟩
  have hmem : (p.job.source, p.index) ∈ (sequentialRun e options files world).1.map
      fun p => (p.job.source, p.index) := List.mem_map_of_mem hp
  exact ⟨hlist ▸ hmem, hdesks p hp⟩

theorem opened_desk {p : Desk} (hp : p ∈ (opened e options files world).desks) :
    (p.job.source, p.index) ∈ lane e.threshold files .parallel ∧ p.seat = .queued ∧
      p.job = ⟨p.job.source, options, Summary.ofSources files,
        (sequentialRun e options files world).2.manifest⟩ := by
  simp only [opened, Hall.opened, parallelJobs, List.map_map, List.mem_map] at hp
  obtain ⟨f, hf, rfl⟩ := hp
  exact ⟨hf, rfl, rfl⟩

theorem opened_indices :
    (opened e options files world).desks.map (·.index)
      = (lane e.threshold files .parallel).map (·.2) := by
  simp [opened, Hall.opened, parallelJobs]

theorem opened_pending :
    (opened e options files world).pending
      = (lane e.threshold files .parallel).map fun f => (f.2, f.1.path) := by
  simp [opened, Hall.opened, parallelJobs]

end Crosswalk.Batch
