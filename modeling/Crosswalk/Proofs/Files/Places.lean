import Crosswalk.Proofs.Files.Tree

namespace Crosswalk.Tree

def isName (s : String) : Bool := !staysHere s && !goesUp s

theorem isName_eq {s : String} (h : isName s = true) : staysHere s = false ∧ goesUp s = false := by
  simpa [isName] using h

/-- Segments lead through directories to the place of a file, which is not the place of a
directory. -/
inductive Places (t : Tree) : (here segments way : List String) → Prop
  | stay {here rest way : List String} {s : String} (hhere : t.IsDir here)
      (hs : staysHere s = true) (hrest : Places t here rest way) : Places t here (s :: rest) way
  | up {here rest way : List String} {s : String} (hhere : t.IsDir here)
      (hstays : staysHere s = false) (hs : goesUp s = true)
      (hrest : Places t here.dropLast rest way) : Places t here (s :: rest) way
  | down {here rest way : List String} {s : String} (hhere : t.IsDir here) (hs : isName s = true)
      (hbelow : t.IsDir (here ++ [s])) (hrest : Places t (here ++ [s]) rest way) :
      Places t here (s :: rest) way
  | last {here : List String} {s : String} (hhere : t.IsDir here) (hs : isName s = true)
      (hfree : ¬t.IsDir (here ++ [s])) : Places t here [s] (here ++ [s])

theorem places_of_place {t : Tree} {here segments way : List String}
    (h : place t here segments = .ok way) : Places t here segments way := by
  induction segments generalizing here with
  | nil => cases h
  | cons s rest ih =>
    rw [place] at h
    split at h
    · next entries hhere =>
      have hdir : t.IsDir here := ⟨entries, hhere⟩
      have hentry {found : Option Tree} (hlookup : entries.lookup s = found)
          (hfile : ∀ inner, found ≠ some (.dir inner)) : ¬t.IsDir (here ++ [s]) := by
        rintro ⟨inner, hinner⟩
        rw [at?_concat hhere, hlookup] at hinner
        exact hfile inner hinner
      by_cases hstays : staysHere s = true
      · rw [if_pos hstays] at h
        exact .stay hdir hstays (ih h)
      · rw [if_neg hstays] at h
        rw [Bool.not_eq_true] at hstays
        by_cases hup : goesUp s = true
        · rw [if_pos hup] at h
          exact .up hdir hstays hup (ih h)
        · rw [if_neg hup] at h
          have hname : isName s = true := by simp [isName, hstays, hup]
          split at h
          · next inner hlookup =>
            exact .down hdir hname ⟨inner, (at?_concat hhere s).trans hlookup⟩ (ih h)
          · next content hlookup =>
            split at h
            · next hrest =>
              obtain rfl := List.isEmpty_iff.1 hrest
              cases h
              exact .last hdir hname (hentry hlookup fun _ heq => by cases heq)
            · cases h
          · cases h
          · next hlookup =>
            split at h
            · next hrest =>
              obtain rfl := List.isEmpty_iff.1 hrest
              cases h
              exact .last hdir hname (hentry hlookup fun _ heq => by cases heq)
            · split at h <;> cases h
    · cases h

namespace Places

variable {t t' : Tree} {here segments way : List String}

theorem parent (h : Places t here segments way) :
    ∃ parent s, way = parent ++ [s] ∧ t.IsDir parent := by
  induction h with
  | last hhere => exact ⟨_, _, rfl, hhere⟩
  | _ => assumption

theorem free (h : Places t here segments way) : ¬t.IsDir way := by
  induction h with
  | last _ _ hfree => exact hfree
  | _ => assumption

theorem kept (h : Places t here segments way) (hdirs : ∀ w, t.IsDir w → t'.IsDir w)
    (hfree : ¬t'.IsDir way) : Places t' here segments way := by
  induction h with
  | stay hhere hs _ ih => exact .stay (hdirs _ hhere) hs (ih hfree)
  | up hhere hstays hs _ ih => exact .up (hdirs _ hhere) hstays hs (ih hfree)
  | down hhere hs hbelow _ ih => exact .down (hdirs _ hhere) hs (hdirs _ hbelow) (ih hfree)
  | last hhere hs => exact .last (hdirs _ hhere) hs hfree

theorem goTo (h : Places t here segments way) (hway : (t.at? way).isSome = true) :
    Tree.goTo t here segments = .ok way := by
  induction h with
  | stay hhere hs _ ih =>
    obtain ⟨entries, hentries⟩ := hhere
    simpa [Tree.goTo, hentries, hs] using ih hway
  | up hhere hstays hs _ ih =>
    obtain ⟨entries, hentries⟩ := hhere
    simpa [Tree.goTo, hentries, hstays, hs] using ih hway
  | down hhere hs hbelow _ ih =>
    obtain ⟨entries, hentries⟩ := hhere
    obtain ⟨inner, hinner⟩ := hbelow
    rw [at?_concat hentries] at hinner
    simpa [Tree.goTo, hentries, isName_eq hs, hinner] using ih hway
  | last hhere hs =>
    obtain ⟨entries, hentries⟩ := hhere
    rw [at?_concat hentries] at hway
    simp [Tree.goTo, hentries, isName_eq hs, hway]

theorem names (h : Places t here segments way) (hnames : ∀ s ∈ segments, isName s = true) :
    way = here ++ segments := by
  induction h with
  | stay _ hs =>
    have hname := (isName_eq (hnames _ List.mem_cons_self)).1
    rw [hs] at hname
    cases hname
  | up _ _ hs =>
    have hname := (isName_eq (hnames _ List.mem_cons_self)).2
    rw [hs] at hname
    cases hname
  | down _ _ _ _ ih =>
    rw [ih fun s hs => hnames s (List.mem_cons_of_mem _ hs), List.append_assoc]
    rfl
  | last => rfl

theorem names_after {start names : List String} (h : Places t here (start ++ names) way)
    (hne : names ≠ []) (hnames : ∀ s ∈ names, isName s = true) :
    ∃ base, Tree.goTo t here start = .ok base ∧ way = base ++ names := by
  induction start generalizing here with
  | nil => exact ⟨here, rfl, h.names hnames⟩
  | cons s start ih =>
    rw [List.cons_append] at h
    generalize hrest : start ++ names = rest at h
    cases h with
    | stay hhere hs hbelow =>
      obtain ⟨entries, hentries⟩ := hhere
      subst hrest
      simpa [Tree.goTo, hentries, hs] using ih hbelow
    | up hhere hstays hs hbelow =>
      obtain ⟨entries, hentries⟩ := hhere
      subst hrest
      simpa [Tree.goTo, hentries, hstays, hs] using ih hbelow
    | down hhere hs hdir hbelow =>
      obtain ⟨entries, hentries⟩ := hhere
      obtain ⟨inner, hinner⟩ := hdir
      subst hrest
      rw [at?_concat hentries] at hinner
      simpa [Tree.goTo, hentries, isName_eq hs, hinner] using ih hbelow
    | last => exact absurd (List.append_eq_nil_iff.1 hrest).2 hne

end Places

/-- The path leads to a file with this content. -/
def Holds (t : Tree) (path : String) (content : Bytes) : Prop :=
  ∃ way, Places t [] (segments path) way ∧ t.at? way = some (.file content)

/-- Directories on the way may be made before the file is written. -/
def Written (path : String) (content : Bytes) (old new : Tree) : Prop :=
  ∃ t way, old.Keeps t ∧ Places t [] (segments path) way ∧ new = t.put way (.file content)

def Apart (p q : String) : Prop :=
  ∀ t way, Places t [] (segments p) way → ¬Places t [] (segments q) way

theorem Holds.read {t : Tree} {path : String} {content : Bytes} (h : t.Holds path content) :
    t.read path = .ok content := by
  obtain ⟨way, hplaces, hfile⟩ := h
  have hne : path ≠ "" := by
    rintro rfl
    have hempty : segments "" = [""] := rfl
    rw [hempty] at hplaces
    cases hplaces with
    | stay _ _ hrest => cases hrest
    | up _ hstays => cases hstays
    | down _ hs => cases hs
    | last _ hs => cases hs
  have hgoTo := hplaces.goTo (by rw [hfile]; rfl)
  rw [Tree.read, get, if_neg hne, hgoTo]
  simp only [bind, Except.bind, hfile]

theorem Places.put {t : Tree} {here segments way segments' way' : List String}
    (h : Places t here segments way) (h' : Places t here segments' way') {content : Bytes}
    (hfree : ¬(t.put way' (.file content)).IsDir way) :
    Places (t.put way' (.file content)) here segments way := by
  refine h.kept (fun w hdir => ?_) hfree
  exact (put_keptAt _ h'.free fun heq => h'.free (heq ▸ hdir)).isDir hdir

theorem not_isDir_of_file {t : Tree} {way : List String} {content : Bytes}
    (h : t.at? way = some (.file content)) : ¬t.IsDir way := by
  rintro ⟨entries, hentries⟩
  rw [h] at hentries
  cases hentries

theorem Written.holds {path : String} {content : Bytes} {old new : Tree}
    (h : Written path content old new) : new.Holds path content := by
  obtain ⟨t, way, -, hplaces, rfl⟩ := h
  obtain ⟨parent, s, rfl, hparent⟩ := hplaces.parent
  have hfile := at?_put_self hparent s (.file content)
  exact ⟨_, hplaces.put hplaces (not_isDir_of_file hfile), hfile⟩

theorem Holds.written {p q : String} {content content' : Bytes} {old new : Tree}
    (h : old.Holds p content) (hwritten : Written q content' old new) (hapart : Apart p q) :
    new.Holds p content := by
  obtain ⟨way, hplaces, hfile⟩ := h
  obtain ⟨t, way', hkeeps, hplaces', rfl⟩ := hwritten
  have hfile : t.at? way = some (.file content) := (hkeeps way).file hfile
  have hplaces : Places t [] (segments p) way :=
    hplaces.kept (fun w hdir => (hkeeps w).isDir hdir) (not_isDir_of_file hfile)
  have hne : way ≠ way' := fun heq => hapart t way hplaces (heq ▸ hplaces')
  have hfile' := (put_keptAt (.file content') hplaces'.free hne).file hfile
  exact ⟨way, hplaces.put hplaces' (not_isDir_of_file hfile'), hfile'⟩

theorem writeText_written {path text : String} {old t new : Tree} (hkeeps : old.Keeps t)
    (h : t.writeText path text = .ok new) : Written path (Text.toBytes text) old new := by
  rw [writeText, write] at h
  split at h
  · cases h
  · cases hplace : place t [] (segments path) with
    | error fault =>
      rw [hplace] at h
      cases h
    | ok way =>
      rw [hplace] at h
      cases h
      exact ⟨t, way, hkeeps, places_of_place hplace, rfl⟩

end Crosswalk.Tree
