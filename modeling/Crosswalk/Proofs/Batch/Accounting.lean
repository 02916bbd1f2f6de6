import Crosswalk.Proofs.Batch.Filing
import Crosswalk.Proofs.Batch.Runs

namespace Crosswalk

variable {σ : Type}

namespace Batch

/-- One entry for each input, in input order, and counts that say what the entries say. -/
structure Accounts (files : List Source) (b : Batch) : Prop where
  entries : ∃ entries : List Entry, List.Forall₂ (Entry.IsFor b.direction) files entries ∧
    b.results = entries.filterMap Entry.result? ∧ b.errors = entries.filterMap Entry.failure?
  success : b.success = true ↔ b.errors = []
  total : b.tally.totalFiles = files.length
  lanes : b.tally.sequentialFiles + b.tally.parallelFiles = b.tally.totalFiles
  verified : b.tally.verified = b.results.countP (·.verified)
  placeholders : b.tally.placeholders = b.results.countP (·.placeholder)
  ways : b.tally.verified + b.tally.exhausted + b.tally.placeholders = b.results.length
  errors : b.tally.errors = b.errors.length
  attempts : b.tally.totalAttempts = (b.results.map (·.attempts)).sum

end Batch

namespace Unified

theorem file_keeps (d : Direction) (m : Manifest) (c : Converted) :
    ∃ content, file d m c = { c with content } := by
  unfold file
  split
  · exact ⟨c.content, rfl⟩
  · exact ⟨_, rfl⟩

theorem files_map {α : Type} (d : Direction) (m : Manifest) {f : Converted → α}
    (hf : ∀ c content, f { c with content } = f c) (cs : List Converted) :
    (files d m cs).map f = cs.map f := by
  rw [files, List.map_map]
  refine List.map_congr_left fun c _ => ?_
  obtain ⟨content, heq⟩ := file_keeps d m c
  rw [Function.comp_apply, heq, hf]

theorem files_countP (d : Direction) (m : Manifest) {f : Converted → Bool}
    (hf : ∀ c content, f { c with content } = f c) (cs : List Converted) :
    (files d m cs).countP f = cs.countP f := by
  have hmap := congrArg (List.countP id) (files_map d m hf cs)
  rwa [List.countP_map, List.countP_map] at hmap

end Unified

namespace Entry

def unified (d : Direction) (m : Manifest) : Entry → Entry := Except.map (Unified.file d m)

theorem IsFor.unified {d : Direction} {f : Source} {e : Entry} (h : e.IsFor d f) (m : Manifest) :
    (e.unified d m).IsFor d f := by
  cases e with
  | error x => exact h
  | ok c =>
    obtain ⟨content, heq⟩ := Unified.file_keeps d m c
    simp only [Entry.unified, Except.map, heq]
    exact h

theorem unified_results (d : Direction) (m : Manifest) (entries : List Entry) :
    (entries.map (unified d m)).filterMap result?
      = Unified.files d m (entries.filterMap result?) := by
  rw [Unified.files, List.map_filterMap, List.filterMap_map]
  refine List.filterMap_congr fun e _ => ?_
  cases e <;> rfl

theorem unified_failures (d : Direction) (m : Manifest) (entries : List Entry) :
    (entries.map (unified d m)).filterMap failure? = entries.filterMap failure? := by
  rw [List.filterMap_map]
  refine List.filterMap_congr fun e _ => ?_
  cases e <;> rfl

end Entry

namespace Batch

variable {e : Engine σ} {options : ResolvedOptions} {files : List Source} {world : σ}

theorem ofBook_accounts {d : Direction} {b : Book} (hb : b.Keeps files d) (m : Manifest) :
    (ofBook d files m b).Accounts files := by
  have hresults : (ofBook d files m b).results = Unified.files d m b.results := by
    simp only [ofBook, Book.entries_results hb.size]
  have hentries : List.Forall₂ (Entry.IsFor d) files ((b.entries files).map (Entry.unified d m)) := by
    rw [List.forall₂_map_right_iff]
    exact (Book.entries_isFor hb).imp fun _ _ he => he.unified m
  refine ⟨⟨_, hentries, ?_, ?_⟩, ?_, hb.inputs, hb.lanes, ?_, ?_, ?_, rfl, ?_⟩
  · exact (Entry.unified_results d m _).symm
  · exact (Entry.unified_failures d m _).symm
  · exact List.isEmpty_iff
  · rw [hresults, Unified.files_countP d m fun _ _ => rfl]
    exact hb.verified
  · rw [hresults, Unified.files_countP d m fun _ _ => rfl]
    exact hb.placeholders
  · rw [hresults, Unified.files, List.length_map]
    exact hb.ways
  · rw [hresults, Unified.files_map d m fun _ _ => rfl]
    exact hb.attempts

theorem convertIn_accounts (moves : List Move) (e : Engine σ) (options : ResolvedOptions)
    (files : List Source) (world : σ) : (convertIn moves e options files world).1.Accounts files :=
  ofBook_accounts ((opened_keeps e options files world).follow moves).close _

/-- What a call says about its files: options that do not resolve make it fail before anything is
asked, and all others give a batch that accounts for every file, unless there is no hall for the
parallel files. Then the call breaks down. -/
def Accounted (e : Engine σ) (files : List Source) (call : CallOptions) (world : σ)
    (out : Ending (Except RunFault Batch) × σ) : Prop :=
  match (call.orElse e.defaults).resolve with
  | .error fault => out = (.finished (.error fault), world)
  | .ok options =>
    if opens e files then
      ∃ b, out.1 = .finished (.ok b) ∧ b.direction = options.direction ∧ b.Accounts files
    else out.1 = .broken tooManyPermits

theorem runIn_accounted (moves : List Move) (e : Engine σ) (files : List Source) (call : CallOptions)
    (world : σ) : Accounted e files call world (runIn moves e files call world) := by
  unfold Accounted
  cases hresolve : (call.orElse e.defaults).resolve with
  | error fault => exact runIn_error moves hresolve files world
  | ok options =>
    cases hopens : opens e files with
    | false => exact congrArg Prod.fst (runIn_shut moves hresolve hopens world)
    | true =>
      rw [runIn_ok moves hresolve hopens world]
      exact ⟨_, rfl, rfl, convertIn_accounts moves e options files world⟩

/-- Every call accounts for its files, whatever its services do and in whatever order its parallel
files are worked on and collected, by the clock or otherwise. -/
theorem run_accounted (e : Engine σ) (files : List Source) (call : CallOptions) (world : σ) :
    (∀ moves, Accounted e files call world (runIn moves e files call world)) ∧
      Accounted e files call world (run e files call world) := by
  obtain ⟨moves, hmoves, -⟩ := run_moves e files call world
  exact ⟨fun moves => runIn_accounted moves e files call world,
    hmoves ▸ runIn_accounted moves e files call world⟩

/-- Nobody is asked, and the limit on files at work is the largest that a machine word can say. -/
def overbooked : Engine Unit where
  client := .fallback
  checker := .acceptAll
  permits := 2 ^ 64 - 1

/-- The options are in order, but the file is neither among results nor among errors. -/
theorem overbooked_lost :
    (∃ options, (({} : CallOptions).orElse overbooked.defaults).resolve = .ok options) ∧
      run overbooked [⟨"A.kt", .kotlin, "class A"⟩] {} () = (.broken tooManyPermits, ()) :=
  ⟨⟨_, rfl⟩, rfl⟩

end Batch
end Crosswalk
