import Crosswalk.Proofs.Batch.Lanes

namespace Crosswalk

namespace Lane

theorem ofSource_sequential {threshold : Nat} {s : Source} :
    ofSource threshold s = .sequential ↔ threshold ≤ score s := by
  unfold ofSource
  split
  · next h => simp [h]
  · next h => simp [h]

theorem ofSource_parallel {threshold : Nat} {s : Source} :
    ofSource threshold s = .parallel ↔ score s < threshold := by
  unfold ofSource
  split
  · next h => simp [h]
  · next h => simp [Nat.lt_of_not_le h]

end Lane

namespace Lanes

def files (l : Lanes) : Lane → List Source
  | .sequential => l.sequential
  | .parallel => l.parallel

theorem add_files (threshold : Nat) (l : Lanes) (file : Source) (lane : Lane) :
    (l.add threshold file).files lane
      = l.files lane ++ [file].filter (Lane.ofSource threshold · = lane) := by
  by_cases h : threshold ≤ Lane.score file
  · have hlane : Lane.ofSource threshold file = .sequential := Lane.ofSource_sequential.2 h
    cases lane <;> simp [add, files, h, hlane]
  · have hlane : Lane.ofSource threshold file = .parallel :=
      Lane.ofSource_parallel.2 (Nat.lt_of_not_le h)
    cases lane <;> simp [add, files, h, hlane]

theorem foldl_add_files (threshold : Nat) (sources : List Source) (l : Lanes) (lane : Lane) :
    (sources.foldl (add threshold) l).files lane
      = l.files lane ++ sources.filter (Lane.ofSource threshold · = lane) := by
  induction sources generalizing l with
  | nil => simp
  | cons file rest ih =>
    rw [List.foldl_cons, ih, add_files, List.append_assoc, ← List.filter_append,
      List.singleton_append]

theorem ofSources_files (threshold : Nat) (sources : List Source) (lane : Lane) :
    (ofSources threshold sources).files lane
      = sources.filter (Lane.ofSource threshold · = lane) := by
  rw [ofSources, foldl_add_files]
  cases lane <;> rfl

end Lanes

namespace Batch

theorem lane_sources (threshold : Nat) (files : List Source) (l : Lane) :
    (lane threshold files l).map (·.1) = files.filter (Lane.ofSource threshold · = l) := by
  conv_rhs => rw [← List.zipIdx_map_fst 0 files, List.filter_map]
  rfl

/-- How the files of a batch are shared out between the two lanes. -/
structure SharesOut (threshold : Nat) (files : List Source) : Prop where
  classified : ∀ l, (Lanes.ofSources threshold files).files l
    = (lane threshold files l).map (·.1)
  sequentialLane : ∀ {σ : Type} (e : Engine σ) options world, e.threshold = threshold →
    (sequentialRun e options files world).1.map (fun p => (p.job.source, p.index))
      = lane threshold files .sequential
  parallelLane : ∀ {σ : Type} (e : Engine σ) options world, e.threshold = threshold →
    (opened e options files world).desks.map (fun p => (p.job.source, p.index))
      = lane threshold files .parallel
  oneLane : ∀ file i, files[i]? = some file → ∃! l, (file, i) ∈ lane threshold files l
  inputs : ∀ l, ∀ f ∈ lane threshold files l, files[f.2]? = some f.1
  inOrder : ∀ l, ((lane threshold files l).map (·.2)).Pairwise (· < ·)
  reached : ∀ file i, files[i]? = some file →
    ((file, i) ∈ lane threshold files .sequential ↔ threshold ≤ Lane.score file)

theorem lane_sharesOut (threshold : Nat) (files : List Source) : SharesOut threshold files where
  classified l := by rw [Lanes.ofSources_files, lane_sources]
  sequentialLane e options world h := by
    rw [← h]
    exact (runSequential_desks e.services e.terms options (Summary.ofSources files) _ _).1
  parallelLane e options world h := by
    simp [opened, Hall.opened, parallelJobs, h, Function.comp_def]
  oneLane file i h :=
    ⟨Lane.ofSource threshold file, mem_lane.2 ⟨h, rfl⟩, fun l hl => (mem_lane.1 hl).2.symm⟩
  inputs l f hf := (mem_lane.1 hf).1
  inOrder := lane_ascending threshold files
  reached file i h := by
    rw [mem_lane, Lane.ofSource_sequential]
    exact and_iff_right h

/-- A higher threshold leaves the files of the parallel lane there, and those that stay in the
sequential lane stay in their order. -/
structure Raised (low high : Nat) (files : List Source) : Prop where
  sequential : (lane high files .sequential).Sublist (lane low files .sequential)
  parallel : (lane low files .parallel).Sublist (lane high files .parallel)
  moved : ∀ f ∈ lane high files .parallel,
    f ∈ lane low files .parallel ∨ f ∈ lane low files .sequential
  classified : ((Lanes.ofSources high files).files .sequential).Sublist
      ((Lanes.ofSources low files).files .sequential) ∧
    ((Lanes.ofSources low files).files .parallel).Sublist
      ((Lanes.ofSources high files).files .parallel)

theorem lane_raised {low high : Nat} (h : low ≤ high) (files : List Source) :
    Raised low high files := by
  have hsequential : (lane high files .sequential).Sublist (lane low files .sequential) := by
    refine List.monotone_filter_right _ fun f hf => ?_
    rw [decide_eq_true_eq, Lane.ofSource_sequential] at hf ⊢
    exact Nat.le_trans h hf
  have hparallel : (lane low files .parallel).Sublist (lane high files .parallel) := by
    refine List.monotone_filter_right _ fun f hf => ?_
    rw [decide_eq_true_eq, Lane.ofSource_parallel] at hf ⊢
    exact Nat.lt_of_lt_of_le hf h
  refine ⟨hsequential, hparallel, fun f hf => ?_, ?_, ?_⟩
  · have hinput := (mem_lane.1 hf).1
    cases hlane : Lane.ofSource low f.1 with
    | sequential => exact .inr (mem_lane.2 ⟨hinput, hlane⟩)
    | parallel => exact .inl (mem_lane.2 ⟨hinput, hlane⟩)
  · simp only [(lane_sharesOut _ files).classified]
    exact hsequential.map _
  · simp only [(lane_sharesOut _ files).classified]
    exact hparallel.map _

/-- The classifier and a batch share files out alike, each input to one lane, and a threshold that is
raised only moves files from the sequential lane to the parallel one. -/
theorem lanes_agree (threshold more : Nat) (files : List Source) :
    SharesOut threshold files ∧ Raised threshold (threshold + more) files :=
  ⟨lane_sharesOut threshold files, lane_raised (Nat.le_add_right threshold more) files⟩

end Batch

end Crosswalk
