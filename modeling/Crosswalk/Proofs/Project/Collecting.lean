import Crosswalk.CommandLine.Run
import Crosswalk.Proofs.Project.Sources

namespace Crosswalk

namespace Project

variable {languages : List Language}

theorem isPassedOver_eq_false {d : String} :
    isPassedOver d = false ↔ d.toList.head? ≠ some '.' ∧ d ∉ passedOver := by
  have hdot : d.startsWith "." = true ↔ d.toList.head? = some '.' := by
    rw [String.startsWith_string_iff]
    cases d.toList with
    | nil => simp
    | cons c cs => simp [List.cons_prefix_cons, eq_comm]
  rw [isPassedOver, Bool.or_eq_false_iff, ← Bool.not_eq_true, hdot, ← Bool.not_eq_true,
    List.contains_iff_mem]

/-- A file at the end of a way on which no directory is passed over. -/
structure Shows (t : Tree) (way : List String) (content : Bytes) : Prop where
  file : t.at? way = some (.file content)
  shown : ∀ d ∈ way.dropLast, isPassedOver d = false

section Shows

variable {t : Tree} {way : List String} {content : Bytes} {name : String}

theorem shows_here : Shows t [] content ↔ t = .file content :=
  ⟨fun h => Option.some.inj h.file, fun h => ⟨congrArg some h, List.forall_mem_nil _⟩⟩

theorem shows_below (hfile : t.at? way = some (.file content)) :
    (∀ d ∈ (name :: way).dropLast, isPassedOver d = false)
      ↔ isSkipped name t = false ∧ ∀ d ∈ way.dropLast, isPassedOver d = false := by
  cases way with
  | nil =>
    obtain rfl := Option.some.inj hfile
    simp [isSkipped]
  | cons next way =>
    cases t with
    | dir entries => rw [List.dropLast_cons_of_ne_nil (List.cons_ne_nil _ _), List.forall_mem_cons,
        isSkipped]
    | file content => cases hfile
    | other => cases hfile

theorem shows_dir {entries : List (String × Tree)} (hnodup : (entries.map (·.1)).Nodup) :
    Shows (.dir entries) (name :: way) content
      ↔ ∃ t, (name, t) ∈ entries ∧ isSkipped name t = false ∧ Shows t way content := by
  constructor
  · rintro ⟨hfile, hshown⟩
    obtain ⟨t, hlookup, hbelow⟩ := Option.bind_eq_some_iff.1 hfile
    obtain ⟨hskip, hshown⟩ := (shows_below hbelow).1 hshown
    exact ⟨t, (lookup_eq_some hnodup).1 hlookup, hskip, hbelow, hshown⟩
  · rintro ⟨t, hmem, hskip, hfile, hshown⟩
    refine ⟨?_, (shows_below hfile).2 ⟨hskip, hshown⟩⟩
    rw [Tree.at?, (lookup_eq_some hnodup).2 hmem, Option.bind_some, hfile]

end Shows

theorem sourcesIn_eq (start : String) (entries : List (String × Tree)) :
    sourcesIn languages start entries = entries.flatMap fun e =>
      if isSkipped e.1 e.2 then [] else sourcesAt languages (start ++ e.1) e.2 := by
  induction entries with
  | nil => rfl
  | cons e entries ih =>
    obtain ⟨name, t⟩ := e
    rw [sourcesIn, ih, List.flatMap_cons]

theorem sourcesAt_dir {here : List String} (hhere : ∀ name ∈ here, Tree.isEntryName name = true)
    (entries : List (String × Tree)) : sourcesAt languages ("/".intercalate here) (.dir entries)
      = entries.flatMap fun e => if isSkipped e.1 e.2 then []
          else sourcesAt languages ("/".intercalate (here ++ [e.1])) e.2 := by
  rw [sourcesAt, sourcesIn_eq]
  by_cases hempty : here = []
  · simp [hempty, String.intercalate_singleton]
  · have hne : "/".intercalate here ≠ "" := fun h => hempty ((Tree.intercalate_eq_empty hhere).1 h)
    simp only [if_neg hne, Tree.intercalate_concat hempty]

theorem names_below {entries : List (String × Tree)} (h : (Tree.dir entries).IsListing)
    {here : List String} (hhere : ∀ name ∈ here, Tree.isEntryName name = true)
    {e : String × Tree} (he : e ∈ entries) : ∀ name ∈ here ++ [e.1], Tree.isEntryName name = true :=
  List.forall_mem_append.2 ⟨hhere, List.forall_mem_singleton.2 (h.entryName he)⟩

/-- The walk through what stands at the end of the way `here` finds what is shown there. -/
theorem mem_sourcesAt {t : Tree} (ht : t.IsListing) (here : List String)
    (hhere : ∀ name ∈ here, Tree.isEntryName name = true) {s : Source} :
    s ∈ sourcesAt languages ("/".intercalate here) t ↔ ∃ way content, Shows t way content ∧
      source? languages ("/".intercalate (here ++ way)) content = some s := by
  induction t using Tree.induction generalizing here with
  | file content =>
    rw [sourcesAt, Option.mem_toList]
    constructor
    · exact fun h => ⟨[], content, shows_here.2 rfl, by rwa [List.append_nil]⟩
    · rintro ⟨way, content, hshows, h⟩
      cases way with
      | nil =>
        cases shows_here.1 hshows
        rwa [List.append_nil] at h
      | cons name way => cases hshows.file
  | dir entries ih =>
    rw [sourcesAt_dir hhere, List.mem_flatMap]
    -- What a walk below an entry finds has the name of the entry before it.
    have hbelow {e : String × Tree} (he : e ∈ entries) :=
      ih e he (ht.entry he) (here ++ [e.1]) (names_below ht hhere he)
    constructor
    · rintro ⟨e, he, h⟩
      split at h
      · cases h
      · next hskip =>
        obtain ⟨way, content, hshows, hsource⟩ := (hbelow he).1 h
        rw [List.append_assoc] at hsource
        exact ⟨e.1 :: way, content,
          (shows_dir ht.nodup).2 ⟨e.2, he, Bool.eq_false_of_not_eq_true hskip, hshows⟩, hsource⟩
    · rintro ⟨way, content, hshows, hsource⟩
      cases way with
      | nil => cases shows_here.1 hshows
      | cons name way =>
        obtain ⟨t, he, hskip, hshows⟩ := (shows_dir ht.nodup).1 hshows
        refine ⟨(name, t), he, ?_⟩
        rw [if_neg (by simp [hskip])]
        exact (hbelow he).2 ⟨way, content, hshows, by rwa [List.append_assoc]⟩
  | other =>
    refine iff_of_false (List.not_mem_nil) ?_
    rintro ⟨way, content, ⟨hfile, -⟩, -⟩
    cases way <;> cases hfile

theorem path_sourcesAt {t : Tree} (ht : t.IsListing) {here : List String}
    (hhere : ∀ name ∈ here, Tree.isEntryName name = true) {s : Source}
    (hs : s ∈ sourcesAt languages ("/".intercalate here) t) :
    ∃ way, (∀ name ∈ here ++ way, Tree.isEntryName name = true) ∧
      s.path = "/".intercalate (here ++ way) := by
  obtain ⟨way, content, hshows, hsource⟩ := (mem_sourcesAt ht here hhere).1 hs
  exact ⟨way, List.forall_mem_append.2 ⟨hhere, ht.names hshows.file⟩,
    (source?_eq_some.1 hsource).2.1⟩

theorem sourcesAt_apart {t : Tree} (ht : t.IsListing) (here : List String)
    (hhere : ∀ name ∈ here, Tree.isEntryName name = true) :
    (sourcesAt languages ("/".intercalate here) t).Pairwise (·.path ≠ ·.path) := by
  induction t using Tree.induction generalizing here with
  | file content =>
    rw [sourcesAt]
    cases source? languages ("/".intercalate here) content with
    | none => exact .nil
    | some s => exact List.pairwise_singleton _ s
  | dir entries ih =>
    rw [sourcesAt_dir hhere, List.pairwise_flatMap]
    constructor
    · intro e he
      split
      · exact .nil
      · exact ih e he (ht.entry he) _ (names_below ht hhere he)
    · -- Behind `here`, the paths of two entries go on with their names, which differ.
      refine (List.pairwise_map.1 ht.nodup).imp_of_mem fun {e e'} he he' hne s hs s' hs' heq => ?_
      have hwalked := List.mem_ite_nil_left.1 hs
      have hwalked' := List.mem_ite_nil_left.1 hs'
      obtain ⟨way, hnames, hway⟩ := path_sourcesAt (ht.entry he) (names_below ht hhere he) hwalked.2
      obtain ⟨way', hnames', hway'⟩ :=
        path_sourcesAt (ht.entry he') (names_below ht hhere he') hwalked'.2
      have hways := Tree.intercalate_inj hnames hnames' (hway ▸ hway' ▸ heq)
      rw [List.append_assoc, List.append_assoc] at hways
      exact hne (List.cons.inj (List.append_cancel_left hways)).1
  | other => exact .nil

theorem isSkipped_relisted {t t' : Tree} (h : t.Relisted t') (name : String) :
    isSkipped name t = isSkipped name t' := by
  induction h with
  | trans _ _ ih ih' => exact ih.trans ih'
  | _ => rfl

theorem sourcesAt_relisted {t t' : Tree} (h : t.Relisted t') (path : String) :
    (sourcesAt languages path t).Perm (sourcesAt languages path t') := by
  induction h generalizing path with
  | refl t => exact .refl _
  | order h =>
    rw [sourcesAt, sourcesAt, sourcesIn_eq, sourcesIn_eq]
    exact h.flatMap_right _
  | @inside t t' name front back h ih =>
    simp only [sourcesAt, sourcesIn_eq, List.flatMap_append, List.flatMap_cons]
    refine (List.Perm.append_right _ ?_).append_left _
    rw [isSkipped_relisted h]
    split
    · exact .nil
    · exact ih _
  | trans _ _ ih ih' => exact (ih path).trans (ih' path)

theorem byPath_iff {s s' : Source} : byPath s s' = true ↔ s.path ≤ s'.path := by
  rw [byPath, Bool.not_eq_true', decide_eq_false_iff_not, not_lt]

theorem mergeSort_ascending {found : List Source} (h : found.Pairwise (·.path ≠ ·.path)) :
    (found.mergeSort byPath).Pairwise (·.path < ·.path) := by
  have htrans (a b c : Source) (hab : byPath a b = true) (hbc : byPath b c = true) :
      byPath a c = true :=
    byPath_iff.2 ((byPath_iff.1 hab).trans (byPath_iff.1 hbc))
  have htotal (a b : Source) : (byPath a b || byPath b a) = true := by
    simpa [byPath_iff] using le_total a.path b.path
  have hsorted := List.pairwise_mergeSort htrans htotal found
  have hapart : (found.mergeSort byPath).Pairwise (·.path ≠ ·.path) :=
    ((List.mergeSort_perm found byPath).pairwise_iff Ne.symm).2 h
  exact hsorted.imp₂ (fun _ _ hle hne => lt_of_le_of_ne (byPath_iff.1 hle) hne) hapart

theorem sources_ascending {root : Tree} (hroot : root.IsListing) :
    (sources languages root).Pairwise (·.path < ·.path) :=
  mergeSort_ascending (sourcesAt_apart hroot [] (List.forall_mem_nil _))

theorem sources_relisted {root root' : Tree} (hroot : root.IsListing) (h : root.Relisted root') :
    sources languages root' = sources languages root := by
  have hapart : (sourcesAt languages "" root).Pairwise (·.path ≠ ·.path) :=
    sourcesAt_apart hroot [] (List.forall_mem_nil _)
  have hperm : (sourcesAt languages "" root).Perm (sourcesAt languages "" root') :=
    sourcesAt_relisted h ""
  refine List.Perm.eq_of_pairwise (fun _ _ _ _ hlt hlt' => (lt_asymm hlt hlt').elim)
    (mergeSort_ascending ((hperm.pairwise_iff Ne.symm).1 hapart)) (mergeSort_ascending hapart) ?_
  exact (List.mergeSort_perm _ _).trans (hperm.symm.trans (List.mergeSort_perm _ _).symm)

/-- The source is what stands in the file at the end of the way: a text in a wanted language that no
directory on the way hides. -/
structure FoundAt (languages : List Language) (root : Tree) (way : List String) (s : Source) :
    Prop where
  file : root.at? way = some (.file (Text.toBytes s.content))
  path : s.path = "/".intercalate way
  language : s.language = .ofPath s.path
  wanted : s.language ∈ languages
  shown : ∀ d ∈ way.dropLast, d.toList.head? ≠ some '.' ∧ d ∉ passedOver

theorem mem_sources {root : Tree} (hroot : root.IsListing) {s : Source} :
    s ∈ sources languages root ↔ ∃ way, FoundAt languages root way s := by
  rw [sources, List.mem_mergeSort]
  refine (mem_sourcesAt hroot [] (List.forall_mem_nil _)).trans ⟨?_, ?_⟩
  · rintro ⟨way, content, hshows, hsource⟩
    obtain ⟨rfl, hpath, hlanguage, hwanted⟩ := source?_eq_some.1 hsource
    exact ⟨way, hshows.file, hpath, hpath ▸ hlanguage, hlanguage ▸ hwanted,
      fun d hd => isPassedOver_eq_false.1 (hshows.shown d hd)⟩
  · rintro ⟨way, hfile, hpath, hlanguage, hwanted, hshown⟩
    exact ⟨way, _, ⟨hfile, fun d hd => isPassedOver_eq_false.2 (hshown d hd)⟩,
      source?_eq_some.2 ⟨rfl, hpath, hpath ▸ hlanguage, hpath ▸ hlanguage ▸ hwanted⟩⟩

theorem FoundAt.unique {root : Tree} (hroot : root.IsListing) {way way' : List String} {s : Source}
    (h : FoundAt languages root way s) (h' : FoundAt languages root way' s) : way = way' :=
  Tree.intercalate_inj (hroot.names h.file) (hroot.names h'.file) (h.path ▸ h'.path)

end Project

namespace CommandLine

open Project

variable {input : String} {files root : Tree}

/-- Each source that is collected stands in one file, and all files that are texts in the wanted
languages and not hidden are collected. Where the root stands, what it is called and in which order
directories are listed make no difference. -/
theorem collectSources_exact (languages : List Language) (hroot : root.IsListing)
    (hfound : files.get input = .ok root) :
    ∃ found, collectSources languages input files = .ok found ∧
      (∀ s ∈ found, ∃! way, FoundAt languages root way s) ∧
      (∀ s way, FoundAt languages root way s → s ∈ found) ∧
      found.Pairwise (·.path < ·.path) ∧
      ∀ input' files' root', files'.get input' = .ok root' → root.Relisted root' →
        collectSources languages input' files' = .ok found := by
  have hcollect {input : String} {files root : Tree} (h : files.get input = .ok root) :
      collectSources languages input files = .ok (sources languages root) := by
    rw [collectSources, h]
  refine ⟨sources languages root, hcollect hfound, fun s hs => ?_,
    fun s way h => (mem_sources hroot).2 ⟨way, h⟩, sources_ascending hroot,
    fun input' files' root' hfound' h => by rw [hcollect hfound', sources_relisted hroot h]⟩
  obtain ⟨way, hway⟩ := (mem_sources hroot).1 hs
  exact ⟨way, hway, fun way' hway' => hway'.unique hroot hway⟩

def checkoutApp : List (String × Tree) :=
  [("src", .dir [("Home.kt", .file (Text.toBytes "class Home")), ("Pipe.kt", .other)]),
    ("build", .dir [("R.kt", .file (Text.toBytes "object R"))])]

def checkout (app : List (String × Tree)) : Tree :=
  .dir [("app", .dir app), (".git", .dir [("Hook.kt", .file (Text.toBytes "class Hook"))]),
    ("Broken.kt", .file [0xFF]), ("Legacy.java", .file (Text.toBytes "class Legacy {}"))]

theorem checkout_collected : ∃ found,
    collectSources [.kotlin, .java] "here" (.dir [("here", checkout checkoutApp)]) = .ok found ∧
      collectSources [.kotlin, .java] "there" (.dir [("there", checkout checkoutApp.reverse)])
        = .ok found ∧
      Source.ofPath "app/src/Home.kt" "class Home" ∈ found ∧
      Source.ofPath "Legacy.java" "class Legacy {}" ∈ found := by
  have hroot : (checkout checkoutApp).IsListing := ⟨by decide +kernel, by decide +kernel⟩
  have hhere : (Tree.dir [("here", checkout checkoutApp)]).get "here"
      = .ok (checkout checkoutApp) := rfl
  obtain ⟨found, hfound, -, hall, -, hother⟩ :=
    collectSources_exact [.kotlin, .java] hroot hhere
  refine ⟨found, hfound, ?_, hall _ ["app", "src", "Home.kt"] ?_, hall _ ["Legacy.java"] ?_⟩
  · exact hother _ _ _ rfl (.inside "app" [] _ (.order (List.reverse_perm _).symm))
  · exact ⟨rfl, by decide +kernel, rfl, by decide +kernel, by decide +kernel⟩
  · exact ⟨rfl, by decide +kernel, rfl, by decide +kernel, by decide +kernel⟩

end CommandLine

end Crosswalk
