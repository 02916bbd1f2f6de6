import Crosswalk.Project.Sources
import Crosswalk.Proofs.Files.Listing
import Crosswalk.Proofs.Text.Utf8

namespace Crosswalk

namespace Source

def lastName (path : String) : List Char := (path.toList.reverse.takeWhile (· != '/')).reverse

theorem lastName_free (path : String) : '/' ∉ lastName path := fun h => by
  simpa using List.mem_takeWhile_imp (List.mem_reverse.1 h)

theorem exists_dirs (path : String) : ∃ dirs, path.toList = dirs ++ lastName path ∧
    (dirs = [] ∨ ∃ parent, dirs = parent ++ ['/']) := by
  refine ⟨(path.toList.reverse.dropWhile (· != '/')).reverse, ?_, ?_⟩
  · rw [lastName, ← List.reverse_append, List.takeWhile_append_dropWhile, List.reverse_reverse]
  · cases hrest : path.toList.reverse.dropWhile (· != '/') with
    | nil => exact .inl rfl
    | cons c rest =>
      have hne : path.toList.reverse.dropWhile (· != '/') ≠ [] := by simp [hrest]
      have hhead := List.head_dropWhile_not (· != '/') hne
      have hc : c = '/' := by simpa [hrest] using hhead
      exact .inr ⟨rest.reverse, by rw [List.reverse_cons, hc]⟩

theorem stem_eq {path : String} {dirs : List Char} (h : path.toList = dirs ++ lastName path) :
    ∃ k, (stem path).toList = dirs ++ (lastName path).take k := by
  have hall : ∃ k, path.toList = dirs ++ (lastName path).take k :=
    ⟨(lastName path).length, by rw [List.take_length, ← h]⟩
  rw [stem, ← lastName]
  split
  · next upToDot ending hsplit =>
    split
    · exact hall
    · next hlong =>
      have hlength : upToDot.length + ending.length = (lastName path).length := by
        rw [← List.length_append, Text.append_of_splitAfterLast? hsplit]
      have hcut : path.toList.length - ending.length - 1
          = dirs.length + ((lastName path).length - ending.length - 1) := by
        rw [h, List.length_append]
        omega
      refine ⟨(lastName path).length - ending.length - 1, ?_⟩
      rw [String.toList_ofList, hcut, h, List.take_length_add_append]
  · exact hall

theorem getLast_outputPath (s : Source) (d : Direction) :
    (s.outputPath d).toList.getLast? = some 't' := by
  cases d <;> simp [outputPath, Direction.target, Language.fileSuffix]

theorem isName_of_getLast {w : String} (h : w.toList.getLast? = some 't') :
    Tree.isName w = true := by
  have hne (v : String) (hv : v.toList.getLast? ≠ some 't') : w ≠ v := fun heq => hv (heq ▸ h)
  simp [Tree.isName, Tree.staysHere, Tree.goesUp, hne "" (by decide), hne "." (by decide),
    hne ".." (by decide)]

/-- The last segment of an output path has the ending of the target language, so it is a name,
whatever the source is called. -/
theorem outputPath_isNamed {s : Source} (h : Tree.IsNamed s.path) (d : Direction) :
    Tree.IsNamed (s.outputPath d) := by
  obtain ⟨dirs, hpath, hdirs⟩ := exists_dirs s.path
  obtain ⟨k, hstem⟩ := stem_eq hpath
  let last := String.ofList ((lastName s.path).take k) ++ "." ++ d.target.fileSuffix
  have houtput : s.outputPath d = String.ofList dirs ++ last :=
    String.toList_injective (by simp [outputPath, hstem, last])
  have hlast : Tree.segments last = [last] := by
    refine Tree.segments_name fun hslash => ?_
    have hfree := lastName_free s.path
    cases d <;> simp [last, Direction.target, Language.fileSuffix] at hslash <;>
      exact hfree (List.mem_of_mem_take hslash)
  have hname : Tree.isName last = true := by
    refine isName_of_getLast ?_
    cases d <;> simp [last, Direction.target, Language.fileSuffix]
  rcases hdirs with rfl | ⟨parent, rfl⟩
  · have hsegments : Tree.segments (s.outputPath d) = [last] := by
      rw [houtput, ← hlast]
      simp
    intro w hw
    rw [hsegments, List.mem_singleton] at hw
    exact hw ▸ hname
  · have hparent : s.path = String.ofList parent ++ "/" ++ String.ofList (lastName s.path) :=
      String.toList_injective (by simp [hpath])
    have hparents : String.ofList (parent ++ ['/']) = String.ofList parent ++ "/" :=
      String.toList_injective (by simp)
    rw [Tree.IsNamed, hparent, Tree.segments_slash] at h
    rw [Tree.IsNamed, houtput, hparents, Tree.segments_slash, hlast]
    intro w hw
    rcases List.mem_append.1 hw with hw | hw
    · exact h w (List.mem_append_left _ hw)
    · exact List.mem_singleton.1 hw ▸ hname

end Source

namespace Project

theorem source?_eq_some {languages : List Language} {path : String} {content : Bytes} {s : Source} :
    source? languages path content = some s ↔ content = Text.toBytes s.content ∧ s.path = path ∧
      s.language = .ofPath path ∧ .ofPath path ∈ languages := by
  rw [source?]
  split
  · next hwanted =>
    rw [Option.map_eq_some_iff]
    constructor
    · rintro ⟨text, htext, rfl⟩
      exact ⟨Text.ofBytes?_eq_some.1 htext, rfl, rfl, List.contains_iff_mem.1 hwanted⟩
    · rintro ⟨hcontent, rfl, hlanguage, -⟩
      refine ⟨s.content, Text.ofBytes?_eq_some.2 hcontent, ?_⟩
      rw [Source.ofPath, ← hlanguage]
  · next hunwanted =>
    exact iff_of_false nofun fun h => hunwanted (List.contains_iff_mem.2 h.2.2.2)

theorem ofPath_empty : Language.ofPath "" = .unknown := by decide +kernel

mutual

theorem sourcesAt_isNamed {languages : List Language} (hknown : .unknown ∉ languages)
    {path : String} (hpath : path = "" ∨ Tree.IsNamed path) : ∀ {t : Tree}, t.wellNamed = true →
      ∀ s ∈ sourcesAt languages path t, Tree.IsNamed s.path
  | .file content, _, s, hs => by
    rw [sourcesAt, Option.mem_toList] at hs
    obtain ⟨-, hspath, -, hwanted⟩ := source?_eq_some.1 hs
    rw [hspath]
    refine hpath.resolve_left fun hempty => hknown ?_
    rwa [hempty, ofPath_empty] at hwanted
  | .dir entries, hnamed, s, hs => by
    rw [Tree.wellNamed] at hnamed
    rw [sourcesAt] at hs
    refine sourcesIn_isNamed hknown (fun name hname => ?_) hnamed s hs
    split
    · next hempty => simpa using (Tree.isEntryName_segments hname).2
    · next hne => exact (hpath.resolve_left hne).below hname
  | .other, _, s, hs => by cases hs

theorem sourcesIn_isNamed {languages : List Language} (hknown : .unknown ∉ languages)
    {start : String} (hstart : ∀ name, Tree.isEntryName name = true → Tree.IsNamed (start ++ name)) :
    ∀ {entries : List (String × Tree)}, Tree.entriesNamed entries = true →
      ∀ s ∈ sourcesIn languages start entries, Tree.IsNamed s.path
  | [], _, s, hs => by cases hs
  | (name, t) :: rest, hnamed, s, hs => by
    rw [Tree.entriesNamed, Bool.and_eq_true, Bool.and_eq_true] at hnamed
    rw [sourcesIn] at hs
    refine (List.mem_append.1 hs).elim (fun hs => ?_) ?_
    · split at hs
      · cases hs
      · exact sourcesAt_isNamed hknown (.inr (hstart name hnamed.1.1)) hnamed.1.2 s hs
    · exact sourcesIn_isNamed hknown hstart hnamed.2 s

end

theorem sources_isNamed {root : Tree} (hroot : root.wellNamed = true) (d : Direction) :
    ∀ s ∈ sources d.sources root, Tree.IsNamed s.path := by
  intro s hs
  refine sourcesAt_isNamed ?_ (.inl rfl) hroot s (List.mem_mergeSort.1 hs)
  cases d <;> decide

end Project

end Crosswalk
