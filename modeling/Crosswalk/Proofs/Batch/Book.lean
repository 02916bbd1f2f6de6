import Crosswalk.Proofs.Conversion.Progress
import Crosswalk.Batch.Book

namespace Crosswalk

variable {σ : Type}

def Entry.IsFor (d : Direction) (f : Source) : Entry → Prop
  | .ok c => c.path = f.path ∧ c.outputPath = f.outputPath d ∧ c.digest = f.digest
  | .error x => x.path = f.path

theorem Report.settle_isFor {j : Job} {r : Report} (h : r.Fits j) :
    Entry.IsFor j.options.direction j.source (r.settle j.source.path) := by
  cases r with
  | converted o => exact ⟨h.path, h.outputPath, h.digest⟩
  | escaped fault | broken reason => rfl

namespace Book

def results (b : Book) : List Converted := b.slots.filterMap fun slot => slot.bind Entry.result?

structure Keeps (files : List Source) (d : Direction) (b : Book) : Prop where
  size : b.slots.length = files.length
  entries : ∀ (i : Nat) (e : Entry), b.slots[i]? = some (some e) →
    ∃ f, files[i]? = some f ∧ Entry.IsFor d f e
  inputs : b.tally.totalFiles = files.length
  lanes : b.tally.sequentialFiles + b.tally.parallelFiles = b.tally.totalFiles
  verified : b.tally.verified = b.results.countP (·.verified)
  placeholders : b.tally.placeholders = b.results.countP (·.placeholder)
  ways : b.tally.verified + b.tally.exhausted + b.tally.placeholders = b.results.length
  attempts : b.tally.totalAttempts = (b.results.map (·.attempts)).sum

theorem blank_keeps (files : List Source) (d : Direction) {sequential parallel : Nat}
    (h : sequential + parallel = files.length) :
    (blank files.length sequential parallel).Keeps files d := by
  have hresults : (blank files.length sequential parallel).results = [] := by
    simp [blank, results]
  refine ⟨by simp [blank], ?_, rfl, h, ?_, ?_, ?_, ?_⟩
  · intro i e he
    simp [blank, List.getElem?_replicate] at he
  all_goals rw [hresults]; rfl

theorem results_settle {b : Book} {i : Nat} (h : b.slots[i]? = some none) (path : String)
    (r : Report) :
    (b.settle i path r).results.Perm ((Entry.result? (r.settle path)).toList ++ b.results) := by
  obtain ⟨hi, hnone⟩ := List.getElem?_eq_some_iff.1 h
  have hold := (List.getElem_cons_eraseIdx_perm hi).filterMap fun slot => slot.bind Entry.result?
  have hnew := (List.set_perm_cons_eraseIdx hi (some (r.settle path))).filterMap
    fun slot => slot.bind Entry.result?
  rw [hnone, List.filterMap_cons_none rfl] at hold
  refine hnew.trans (.trans (.of_eq ?_) (hold.append_left _))
  cases hr : Entry.result? (r.settle path) <;> simp [hr]

theorem settle_keeps {files : List Source} {b : Book} {j : Job} {i : Nat} {r : Report}
    (hb : b.Keeps files j.options.direction) (hslot : b.slots[i]? = some none)
    (hfile : files[i]? = some j.source) (hr : r.Fits j) :
    (b.settle i j.source.path r).Keeps files j.options.direction := by
  have hperm := results_settle hslot j.source.path r
  have hentries : ∀ (n : Nat) (e : Entry),
      (b.settle i j.source.path r).slots[n]? = some (some e) →
        ∃ f, files[n]? = some f ∧ Entry.IsFor j.options.direction f e := by
    intro n e he
    simp only [settle, List.getElem?_set] at he
    split at he
    · next heq =>
      subst heq
      split at he
      · cases he
        exact ⟨_, hfile, Report.settle_isFor hr⟩
      · cases he
    · exact hb.entries n e he
  have hsize : (b.settle i j.source.path r).slots.length = files.length := by
    simpa [settle] using hb.size
  -- The counts follow the results, and only a conversion adds one.
  cases r with
  | converted o =>
    have hone := hr.one_way
    refine ⟨hsize, hentries, hb.inputs, hb.lanes, ?_, ?_, ?_, ?_⟩
    · rw [hperm.countP_eq]
      simp [settle, Tally.addReport, Tally.add, hb.verified, Report.settle, Entry.result?,
        List.countP_cons]
    · rw [hperm.countP_eq]
      simp [settle, Tally.addReport, Tally.add, hb.placeholders, Report.settle, Entry.result?,
        List.countP_cons]
    · rw [hperm.length_eq]
      have hways := hb.ways
      simp only [settle, Tally.addReport, Tally.add, Report.settle, Entry.result?,
        Option.toList_some, List.length_append, List.length_singleton]
      omega
    · rw [(hperm.map _).sum_eq]
      simp [settle, Tally.addReport, Tally.add, hb.attempts, Report.settle, Entry.result?,
        Nat.add_comm]
  | escaped fault | broken reason =>
    refine ⟨hsize, hentries, hb.inputs, hb.lanes, ?_, ?_, ?_, ?_⟩
    · rw [hperm.countP_eq]; exact hb.verified
    · rw [hperm.countP_eq]; exact hb.placeholders
    · rw [hperm.length_eq]; exact hb.ways
    · rw [(hperm.map _).sum_eq]; exact hb.attempts

theorem settle_slot_self {b : Book} {i : Nat} (h : i < b.slots.length) (path : String) (r : Report) :
    (b.settle i path r).slots[i]? = some (some (r.settle path)) := by
  simp only [settle, List.getElem?_set, if_true, h]

theorem settle_slot_ne {b : Book} {i n : Nat} (h : i ≠ n) (path : String) (r : Report) :
    (b.settle i path r).slots[n]? = b.slots[n]? := by
  simp only [settle, List.getElem?_set, if_neg h]

/-- The report of a desk is in its slot. -/
def HasFiled (b : Book) (p : Desk) : Prop :=
  ∃ r, p.seat = .settled r ∧ b.slots[p.index]? = some (some (r.settle p.job.source.path))

end Book

/-- A desk for one of the inputs, with a sound state of its work. -/
structure Desk.Belongs (files : List Source) (d : Direction) (p : Desk) : Prop where
  file : files[p.index]? = some p.job.source
  direction : p.job.options.direction = d
  fits : p.seat.Fits p.job

theorem Desk.Belongs.report_fits {files : List Source} {d : Direction} {p : Desk} {r : Report}
    (hp : p.Belongs files d) (hr : p.seat = .settled r) : r.Fits p.job := by
  have hfits := hp.fits
  rw [hr] at hfits
  exact hfits

namespace Book

theorem enter_settled {p : Desk} {r : Report} (hr : p.seat = .settled r) (b : Book) :
    b.enter p = b.settle p.index p.job.source.path r := by
  simp only [enter, hr]

theorem report_keeps {files : List Source} {d : Direction} {b : Book} {p : Desk} {r : Report}
    (hb : b.Keeps files d) (hp : p.Belongs files d) (hslot : b.slots[p.index]? = some none)
    (hr : r.Fits p.job) : (b.settle p.index p.job.source.path r).Keeps files d := by
  obtain ⟨hfile, rfl, -⟩ := hp
  exact settle_keeps hb hslot hfile hr

theorem enterAll_keeps {files : List Source} {d : Direction} {desks : List Desk} {b : Book}
    (hb : b.Keeps files d) (hnodup : (desks.map (·.index)).Nodup)
    (hdesks : ∀ p ∈ desks, p.Belongs files d ∧ (∃ r, p.seat = .settled r) ∧
      b.slots[p.index]? = some none) :
    (desks.foldl enter b).Keeps files d ∧ (∀ p ∈ desks, (desks.foldl enter b).HasFiled p) ∧
      ∀ n, n ∉ desks.map (·.index) → (desks.foldl enter b).slots[n]? = b.slots[n]? := by
  induction desks generalizing b with
  | nil => exact ⟨hb, by simp, fun n _ => rfl⟩
  | cons p rest ih =>
    rw [List.map_cons, List.nodup_cons] at hnodup
    obtain ⟨hbelongs, ⟨r, hr⟩, hslot⟩ := hdesks p List.mem_cons_self
    have hin : p.index < b.slots.length := (List.getElem?_eq_some_iff.1 hslot).1
    have hentered : (b.enter p).Keeps files d := by
      rw [enter_settled hr]
      exact report_keeps hb hbelongs hslot (hbelongs.report_fits hr)
    obtain ⟨hkeeps, hfiled, hframe⟩ := ih hentered hnodup.2 fun q hq => by
      obtain ⟨hqbelongs, hqr, hqslot⟩ := hdesks q (List.mem_cons_of_mem _ hq)
      have hne : p.index ≠ q.index := fun heq => hnodup.1 (heq ▸ List.mem_map_of_mem hq)
      exact ⟨hqbelongs, hqr, by rw [enter_settled hr, settle_slot_ne hne, hqslot]⟩
    refine ⟨hkeeps, fun q hq => ?_, fun n hn => ?_⟩
    · rcases List.mem_cons.1 hq with rfl | hq
      · refine ⟨r, hr, ?_⟩
        rw [List.foldl_cons, hframe _ hnodup.1, enter_settled hr, settle_slot_self hin]
      · exact hfiled q hq
    · rw [List.map_cons, List.mem_cons, not_or] at hn
      rw [List.foldl_cons, hframe n hn.2, enter_settled hr, settle_slot_ne (Ne.symm hn.1)]

end Book

namespace Book

theorem entries_isFor {files : List Source} {d : Direction} {b : Book} (hb : b.Keeps files d) :
    List.Forall₂ (Entry.IsFor d) files (b.entries files) := by
  rw [List.forall₂_iff_get]
  have hlength : (b.entries files).length = files.length := by
    simp [entries, hb.size]
  refine ⟨hlength.symm, fun i hi hi' => ?_⟩
  have hslot : i < b.slots.length := hb.size ▸ hi
  simp only [entries, List.get_eq_getElem, List.getElem_map, List.getElem_zip]
  cases hentry : b.slots[i] with
  | none => rfl
  | some e =>
    obtain ⟨f, hf, he⟩ := hb.entries i e (List.getElem?_eq_some_iff.2 ⟨hslot, hentry⟩)
    rw [List.getElem?_eq_getElem hi, Option.some.injEq] at hf
    exact hf ▸ he

theorem entries_results {files : List Source} {b : Book} (hsize : b.slots.length = files.length) :
    (b.entries files).filterMap Entry.result? = b.results := by
  have hentry : ∀ f : Source × Option Entry, Entry.result?
      (f.2.getD ((Report.broken "no outcome recorded").settle f.1.path))
        = f.2.bind Entry.result? := by
    rintro ⟨f, slot⟩
    cases slot <;> rfl
  have hsnd : (files.zip b.slots).map Prod.snd = b.slots := List.map_snd_zip hsize.le
  rw [results, ← hsnd, List.filterMap_map, entries, List.filterMap_map]
  exact List.filterMap_congr fun f _ => hentry f

end Book

end Crosswalk
