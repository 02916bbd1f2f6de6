import Crosswalk.Proofs.Batch.Filing
import Crosswalk.Proofs.Batch.History
import Crosswalk.Proofs.Batch.Runs

namespace Crosswalk

variable {σ : Type}

theorem Book.entries_getElem? {b : Book} {files : List Source} {i : Nat} {f : Source} {x : Entry}
    (hfile : files[i]? = some f) (hslot : b.slots[i]? = some (some x)) :
    (b.entries files)[i]? = some x := by
  have hzip : (files.zip b.slots)[i]? = some (f, some x) := by
    rw [List.getElem?_zip_eq_some]
    exact ⟨hfile, hslot⟩
  rw [entries, List.getElem?_map, hzip]
  rfl

theorem Hall.follow_frame {services : Services σ} {terms : Terms} {h : Hall σ} {n : Nat}
    (hn : n ∉ h.desks.map (·.index)) (moves : List Move) :
    (h.follow services terms moves).book.slots[n]? = h.book.slots[n]? := by
  have hkept : (h.follow services terms moves).book.slots[n]? = h.book.slots[n]? ∧
      n ∉ (h.follow services terms moves).desks.map (·.index) := by
    refine follow_induct (P := fun h' => h'.book.slots[n]? = h.book.slots[n]? ∧
      n ∉ h'.desks.map (·.index)) ?_ ?_ ⟨rfl, hn⟩ moves
    · intro h' i p hkept hp
      rw [worked_indices (ready?_eq_some.1 hp).1]
      exact hkept
    · intro h' i p r path hkept hp hr hpath
      have hne : p.index ≠ n := fun heq =>
        hkept.2 (heq ▸ List.mem_map_of_mem (List.mem_of_getElem? hp))
      exact ⟨by rw [collected, Book.settle_slot_ne hne, hkept.1], hkept.2⟩
  exact hkept.1

namespace Batch

/-- The desks of all files, as the moves leave them. -/
def desksIn (moves : List Move) (e : Engine σ) (options : ResolvedOptions) (files : List Source)
    (world : σ) : List Desk :=
  (sequentialRun e options files world).1 ++ (hallAfter moves e options files world).desks

/-- What the batch says about each input, before the results are made to agree. -/
def entriesIn (moves : List Move) (e : Engine σ) (options : ResolvedOptions) (files : List Source)
    (world : σ) : List Entry :=
  (hallAfter moves e options files world).close.entries files

variable {moves : List Move} {e : Engine σ} {options : ResolvedOptions} {files : List Source}
  {world : σ}

theorem hallAfter_keeps (moves : List Move) (e : Engine σ) (options : ResolvedOptions)
    (files : List Source) (world : σ) :
    (hallAfter moves e options files world).Keeps files options.direction :=
  (opened_keeps e options files world).follow moves

theorem hallAfter_indices :
    (hallAfter moves e options files world).desks.map (·.index)
      = (lane e.threshold files .parallel).map (·.2) :=
  (Hall.follow_indices _ moves).trans opened_indices

theorem desksIn_belongs {p : Desk} (hp : p ∈ desksIn moves e options files world) :
    p.Belongs files options.direction := by
  rcases List.mem_append.1 hp with hp | hp
  · obtain ⟨hlane, hoptions, -, r, hr, hfits⟩ := sequentialRun_desk hp
    refine ⟨(mem_lane.1 hlane).1, by rw [hoptions], ?_⟩
    rw [hr]
    exact hfits
  · exact (hallAfter_keeps moves e options files world).desks p hp

theorem exists_desk {i : Nat} (hi : i < files.length) :
    ∃ p ∈ desksIn moves e options files world, p.index = i := by
  have hfile : files[i]? = some files[i] := List.getElem?_eq_getElem hi
  have hindex : i ∈ (desksIn moves e options files world).map (·.index) := by
    rw [desksIn, List.map_append, sequentialRun_indices, hallAfter_indices, List.mem_append]
    cases hlane : Lane.ofSource e.threshold files[i] with
    | sequential => exact .inl (List.mem_map.2 ⟨(files[i], i), mem_lane.2 ⟨hfile, hlane⟩, rfl⟩)
    | parallel => exact .inr (List.mem_map.2 ⟨(files[i], i), mem_lane.2 ⟨hfile, hlane⟩, rfl⟩)
  obtain ⟨p, hp, heq⟩ := List.mem_map.1 hindex
  exact ⟨p, hp, heq⟩

theorem entry_of_desk (hdone : Completes moves e options files world) {p : Desk}
    (hp : p ∈ desksIn moves e options files world) :
    ∃ r, p.seat = .settled r ∧
      (entriesIn moves e options files world)[p.index]? = some (r.settle p.job.source.path) := by
  have hfiled : (hallAfter moves e options files world).book.HasFiled p := by
    rcases List.mem_append.1 hp with hseq | hpar
    · obtain ⟨-, hfiled, -⟩ := openedBook_keeps e options files world
      obtain ⟨r, hr, hslot⟩ := hfiled p hseq
      refine ⟨r, hr, (Hall.follow_frame ?_ moves).trans hslot⟩
      rw [opened_indices]
      intro hmem
      obtain ⟨g, hg, heq⟩ := List.mem_map.1 hmem
      exact lane_disjoint (sequentialRun_desk hseq).1 hg heq.symm
    · exact (hallAfter_keeps moves e options files world).filed_of_done hdone hpar
  obtain ⟨r, hr, hslot⟩ := hfiled
  refine ⟨r, hr, ?_⟩
  rw [entriesIn, Hall.close_done hdone]
  exact Book.entries_getElem? (desksIn_belongs hp).file hslot

theorem entriesIn_length : (entriesIn moves e options files world).length = files.length := by
  have hkeeps := (hallAfter_keeps moves e options files world).close
  exact (Book.entries_isFor hkeeps).length_eq.symm

theorem desk_of_entry (hdone : Completes moves e options files world) {i : Nat} {x : Entry}
    (hx : (entriesIn moves e options files world)[i]? = some x) :
    ∃ p ∈ desksIn moves e options files world, p.index = i ∧
      ∃ r, p.seat = .settled r ∧ x = r.settle p.job.source.path := by
  have hi : i < files.length := entriesIn_length ▸ (List.getElem?_eq_some_iff.1 hx).1
  obtain ⟨p, hp, rfl⟩ := exists_desk hi
  obtain ⟨r, hr, hentry⟩ := entry_of_desk hdone hp
  exact ⟨p, hp, rfl, r, hr, Option.some.inj (hx.symm.trans hentry)⟩

theorem convertIn_manifest :
    (convertIn moves e options files world).1.manifest
      = (hallAfter moves e options files world).shared.manifest := rfl

theorem convertIn_results :
    (convertIn moves e options files world).1.results
      = Unified.files options.direction (hallAfter moves e options files world).shared.manifest
        ((entriesIn moves e options files world).filterMap Entry.result?) := rfl

end Batch
end Crosswalk
