import Crosswalk.Batch.Report
import Crosswalk.Proofs.Batch.Accounting
import Crosswalk.Proofs.Project.Sources

namespace Crosswalk

open Crosswalk.Tree (joinPath IsNamed Holds Apart Written)

namespace Batch

theorem Accounts.result_for {files : List Source} {b : Batch} (h : b.Accounts files) {r : Converted}
    (hr : r ∈ b.results) : ∃ f ∈ files, r.path = f.path ∧ r.outputPath = f.outputPath b.direction := by
  obtain ⟨entries, hfor, hresults, -⟩ := h.entries
  rw [hresults] at hr
  obtain ⟨entry, hentry, hresult⟩ := List.mem_filterMap.1 hr
  have hconverted : entry = .ok r := by
    cases entry with
    | error x => cases hresult
    | ok c => exact congrArg Except.ok (Option.some.inj hresult)
  obtain ⟨i, hi, hi'⟩ := List.mem_iff_getElem.1 hentry
  have hfile : i < files.length := hfor.length_eq ▸ hi
  have hisFor := hfor.get hfile hi
  rw [List.get_eq_getElem, List.get_eq_getElem, hi', hconverted] at hisFor
  exact ⟨files[i], List.getElem_mem hfile, hisFor.1, hisFor.2.1⟩

theorem run_accounts {σ : Type} {e : Engine σ} {files : List Source} {call : CallOptions} {world : σ}
    {b : Batch} (h : (run e files call world).1 = .finished (.ok b)) : b.Accounts files := by
  obtain ⟨moves, hmoves, -⟩ := run_moves e files call world
  rw [hmoves] at h
  cases hresolve : (call.orElse e.defaults).resolve with
  | error fault =>
    rw [runIn_error moves hresolve] at h
    cases h
  | ok options =>
    cases hopens : opens e files with
    | false =>
      rw [runIn_shut moves hresolve hopens] at h
      cases h
    | true =>
      rw [runIn_ok moves hresolve hopens] at h
      cases h
      exact convertIn_accounts moves e options files world

theorem run_sequential {σ : Type} {e : Engine σ} {files : List Source} {call : CallOptions}
    {options : ResolvedOptions} (hresolve : (call.orElse e.defaults).resolve = .ok options)
    (hlane : lane e.threshold files .parallel = []) (world : σ) :
    (run e files call world).1 = .finished (.ok (convertBy id e options files world).1) := by
  have hdesks : (opened e options files world).desks = [] := by
    simp [opened, parallelJobs, hlane, Hall.opened]
  have hrun : (opened e options files world).run e.services e.terms
      = opened e options files world := by
    rw [Hall.run, hdesks, List.length_nil, List.range_zero, List.map_nil, Hall.runFor]
  have hopens : opens e files = true := by simp [opens, hlane]
  simp only [run, runBy, hresolve, hopens, if_true, convertBy, hrun, id]

end Batch

namespace Output

theorem writeFile_written {path text : String} {t t' : Tree} (h : writeFile path text t = .ok t') :
    Written path (Text.toBytes text) t t' := by
  rw [writeFile] at h
  split at h
  · cases h
  · next made hmade =>
    split at h
    · cases h
    · next written hwritten =>
      cases h
      exact Tree.writeText_written (Tree.makeDirs_keeps hmade) hwritten

theorem writeReport_written {directory text : String} {t t' : Tree}
    (h : writeReport directory text t = (.ok (), t')) :
    Written (reportPath directory) (Text.toBytes text) t t' := by
  rw [writeReport] at h
  split at h
  · cases h
  · next made hmade =>
    split at h
    · cases h
    · next written hwritten =>
      cases h
      exact Tree.writeText_written (Tree.makeDirs_keeps hmade) hwritten

theorem writeFiles_cons {f : String × String} {files : List (String × String)} {t t' : Tree}
    (h : writeFiles (f :: files) t = (.ok (), t')) :
    ∃ written, writeFile f.1 f.2 t = .ok written ∧ writeFiles files written = (.ok (), t') := by
  rw [writeFiles] at h
  split at h
  · next written hwritten => exact ⟨written, hwritten, h⟩
  · cases h

theorem writeFiles_holds {path : String} {content : Bytes} {files : List (String × String)}
    {t t' : Tree} (hwrite : writeFiles files t = (.ok (), t')) (hholds : t.Holds path content)
    (hapart : ∀ f ∈ files, Apart path f.1) : t'.Holds path content := by
  induction files generalizing t with
  | nil =>
    cases hwrite
    exact hholds
  | cons f files ih =>
    obtain ⟨written, hwritten, hrest⟩ := writeFiles_cons hwrite
    have hkept := hholds.written (writeFile_written hwritten) (hapart f List.mem_cons_self)
    exact ih hrest hkept fun g hg => hapart g (List.mem_cons_of_mem f hg)

theorem writeFiles_last {path text : String} {before after : List (String × String)} {t t' : Tree}
    (hwrite : writeFiles (before ++ (path, text) :: after) t = (.ok (), t'))
    (hapart : ∀ f ∈ after, Apart path f.1) : t'.Holds path (Text.toBytes text) := by
  induction before generalizing t with
  | nil =>
    obtain ⟨written, hwritten, hrest⟩ := writeFiles_cons hwrite
    exact writeFiles_holds hrest (writeFile_written hwritten).holds hapart
  | cons f before ih =>
    obtain ⟨written, -, hrest⟩ := writeFiles_cons hwrite
    exact ih hrest

/-- The files and the report that were written, as they are read again. -/
structure Stored (b : Batch) (stamps : Stamps) (directory : String) (t : Tree) : Prop where
  /-- The last result with an output path is the one that is there. -/
  last : ∀ (before : List Converted) (r : Converted) (after : List Converted),
    b.results = before ++ r :: after → (∀ r' ∈ after, r'.outputPath ≠ r.outputPath) →
      t.read (joinPath directory r.outputPath) = .ok (Text.toBytes r.content)
  all : (b.results.map (·.outputPath)).Nodup → ∀ r ∈ b.results,
    t.read (joinPath directory r.outputPath) = .ok (Text.toBytes r.content)
  shared : ∀ r ∈ b.results, ∀ r' ∈ b.results,
    r.outputPath = r'.outputPath ↔ Source.stem r.path = Source.stem r'.path
  report : t.read (reportPath directory) = .ok (Text.toBytes (b.report stamps))

theorem reportName_isNamed : IsNamed reportName :=
  (Tree.isEntryName_segments (by decide +kernel)).2

theorem outputPath_ne_reportName (s : Source) (d : Direction) : s.outputPath d ≠ reportName := by
  intro h
  have hlast := Source.getLast_outputPath s d
  rw [h] at hlast
  exact absurd hlast (by decide)

variable {σ : Type}

theorem write_last {d : Direction} {files : List Source} {b : Batch}
    (hpaths : ∀ r ∈ b.results, ∃ f ∈ files, r.path = f.path ∧ r.outputPath = f.outputPath d)
    (hnamed : ∀ f ∈ files, IsNamed f.path) {stamps : Stamps} {directory : String} {t t' : Tree}
    (hwrite : write b stamps directory t = (.ok (), t')) (before : List Converted) (r : Converted)
    (after : List Converted) (hresults : b.results = before ++ r :: after)
    (hlast : ∀ r' ∈ after, r'.outputPath ≠ r.outputPath) :
    t'.read (joinPath directory r.outputPath) = .ok (Text.toBytes r.content) := by
  have hname {r' : Converted} (hr' : r' ∈ b.results) : IsNamed r'.outputPath := by
    obtain ⟨f, hf, -, houtput⟩ := hpaths r' hr'
    exact houtput ▸ Source.outputPath_isNamed (hnamed f hf) d
  have hr : r ∈ b.results := by simp [hresults]
  rw [write, hresults, List.map_append, List.map_cons] at hwrite
  split at hwrite
  · cases hwrite
  · next written hwritten =>
    have hholds := writeFiles_last hwritten fun f hf => by
      obtain ⟨r', hr', rfl⟩ := List.mem_map.1 hf
      exact Tree.apart_joinPath (hname hr) (hname (by simp [hresults, hr']))
        (Ne.symm (hlast r' hr')) directory
    obtain ⟨f, -, -, houtput⟩ := hpaths r hr
    have hreport : r.outputPath ≠ reportName := houtput ▸ outputPath_ne_reportName f d
    exact (hholds.written (writeReport_written hwrite)
      (Tree.apart_joinPath (hname hr) reportName_isNamed hreport directory)).read

theorem write_report {b : Batch} {stamps : Stamps} {directory : String} {t t' : Tree}
    (hwrite : write b stamps directory t = (.ok (), t')) :
    t'.read (reportPath directory) = .ok (Text.toBytes (b.report stamps)) := by
  rw [write] at hwrite
  split at hwrite
  · cases hwrite
  · exact (writeReport_written hwrite).holds.read

/-- Where writing a batch of the sources of a project comes to its end, every result is on disk that
no later result overwrites, and so is the report. -/
theorem write_stored (d : Direction) {root : Tree} (hroot : root.wellNamed = true) {e : Engine σ}
    {call : CallOptions} {world : σ} {b : Batch}
    (hrun : (Batch.run e (Project.sources d.sources root) call world).1 = .finished (.ok b))
    {stamps : Stamps}
    {directory : String} {t t' : Tree} (hwrite : write b stamps directory t = (.ok (), t')) :
    Stored b stamps directory t' := by
  have hnamed := Project.sources_isNamed hroot d
  have hpaths : ∀ r ∈ b.results, ∃ f ∈ Project.sources d.sources root,
      r.path = f.path ∧ r.outputPath = f.outputPath b.direction :=
    fun _ hr => (Batch.run_accounts hrun).result_for hr
  have hlast := write_last hpaths hnamed hwrite
  refine ⟨hlast, fun hnodup r hr => ?_, fun r hr r' hr' => ?_, write_report hwrite⟩
  · obtain ⟨before, after, hresults⟩ := List.append_of_mem hr
    rw [hresults, List.map_append, List.map_cons] at hnodup
    have hother := (List.nodup_cons.1 (List.nodup_append.1 hnodup).2.1).1
    exact hlast before r after hresults fun r' hr' heq =>
      hother (List.mem_map.2 ⟨r', hr', heq⟩)
  · obtain ⟨f, -, hpath, houtput⟩ := hpaths r hr
    obtain ⟨f', -, hpath', houtput'⟩ := hpaths r' hr'
    rw [hpath, hpath', houtput, houtput', Source.outputPath, Source.outputPath,
      String.append_left_inj, String.append_left_inj]

deriving instance DecidableEq for Refusal

def offline : Engine Unit where
  client := .fallback
  checker := .acceptAll
  threshold := 0

theorem builtinMaxAttempts_pos : 0 < builtinMaxAttempts := by decide

def builtinOptions : ResolvedOptions where
  maxAttempts_pos := builtinMaxAttempts_pos

def unstamped : Stamps := ⟨"", "", "", ""⟩

theorem ofBytes?_classes : Text.ofBytes? [99, 108, 97, 115, 115, 32, 65] = some "class A" ∧
    Text.ofBytes? [99, 108, 97, 115, 115, 32, 66] = some "class B" := by
  constructor <;>
    simp [Text.ofBytes?, Text.decode, Text.decodeFrom, Text.decodeFrom.start, Text.leadByte?]

def neighbours : Tree :=
  .dir [("A.kt", .file [99, 108, 97, 115, 115, 32, 65]),
    ("ui", .dir [("B.java", .file [99, 108, 97, 115, 115, 32, 66])])]

def neighbourFiles : List Source := [⟨"A.kt", .kotlin, "class A"⟩, ⟨"ui/B.java", .java, "class B"⟩]

theorem neighbours_sources :
    Project.sources Direction.kotlinToSwift.sources neighbours = neighbourFiles := by
  have hfound : Project.sourcesAt Direction.kotlinToSwift.sources "" neighbours
      = neighbourFiles := by
    simp only [neighbours, Project.sourcesAt, Project.sourcesIn, Project.source?, ofBytes?_classes]
    decide +kernel
  rw [Project.sources, hfound, List.mergeSort_of_pairwise (by decide +kernel)]

def neighbourBatch : Batch := (Batch.convertBy id offline builtinOptions neighbourFiles ()).1

theorem neighbours_stored :
    neighbours.wellNamed = true ∧
    (Batch.run offline (Project.sources Direction.kotlinToSwift.sources neighbours) {} ()).1
      = .finished (.ok neighbourBatch) ∧
    (neighbourBatch.results.map (·.outputPath)).Nodup ∧
    write neighbourBatch unstamped "out" .empty
      = (.ok (), (write neighbourBatch unstamped "out" .empty).2) ∧
    Stored neighbourBatch unstamped "out" (write neighbourBatch unstamped "out" .empty).2 := by
  have hnamed : neighbours.wellNamed = true := by decide +kernel
  have hrun : (Batch.run offline (Project.sources Direction.kotlinToSwift.sources neighbours)
      {} ()).1 = .finished (.ok neighbourBatch) := by
    rw [neighbours_sources]
    exact Batch.run_sequential rfl (by decide +kernel) ()
  have hok : (write neighbourBatch unstamped "out" .empty).1 = .ok () := by decide +kernel
  have hwrite : write neighbourBatch unstamped "out" .empty
      = (.ok (), (write neighbourBatch unstamped "out" .empty).2) := Prod.ext hok rfl
  exact ⟨hnamed, hrun, by decide +kernel, hwrite, write_stored .kotlinToSwift hnamed hrun hwrite⟩

def twins : Tree :=
  .dir [("A.java", .file [99, 108, 97, 115, 115, 32, 65]),
    ("A.kt", .file [99, 108, 97, 115, 115, 32, 66])]

def twinFiles : List Source := [⟨"A.java", .java, "class A"⟩, ⟨"A.kt", .kotlin, "class B"⟩]

theorem twins_sources :
    Project.sources Direction.kotlinToSwift.sources twins = twinFiles := by
  have hfound : Project.sourcesAt Direction.kotlinToSwift.sources "" twins = twinFiles := by
    simp only [twins, Project.sourcesAt, Project.sourcesIn, Project.source?, ofBytes?_classes]
    decide +kernel
  rw [Project.sources, hfound, List.mergeSort_of_pairwise (by decide +kernel)]

def twinBatch : Batch := (Batch.convertBy id offline builtinOptions twinFiles ()).1

/-- Writing says that all is well, but the result of the first one is gone. -/
theorem twins_overwritten :
    twins.wellNamed = true ∧
    (Batch.run offline (Project.sources Direction.kotlinToSwift.sources twins) {} ()).1
      = .finished (.ok twinBatch) ∧
    (write twinBatch unstamped "out" .empty).1 = .ok () ∧
    ∃ r ∈ twinBatch.results,
      (write twinBatch unstamped "out" .empty).2.read (joinPath "out" r.outputPath)
        ≠ .ok (Text.toBytes r.content) := by
  refine ⟨by decide +kernel, ?_, by decide +kernel, by decide +kernel⟩
  rw [twins_sources]
  exact Batch.run_sequential rfl (by decide +kernel) ()

end Output

end Crosswalk
