import Crosswalk.Proofs.Files.Paths
import Crosswalk.Proofs.Names.Table

namespace Crosswalk.Tree

theorem induction {P : Tree → Prop} (file : ∀ content, P (.file content))
    (dir : ∀ entries, (∀ e ∈ entries, P e.2) → P (.dir entries)) (other : P .other) : ∀ t, P t :=
  @Tree.rec P (fun entries => ∀ e ∈ entries, P e.2) (fun e => P e.2) file dir other
    (List.forall_mem_nil _) (fun _ _ he hrest => List.forall_mem_cons.2 ⟨he, hrest⟩)
    (fun _ _ ht => ht)

def isEntryName (name : String) : Bool := isName name && !name.toList.contains '/'

mutual

def wellNamed : Tree → Bool
  | .file _ => true
  | .dir entries => entriesNamed entries
  | .other => true

def entriesNamed : List (String × Tree) → Bool
  | [] => true
  | (name, t) :: rest => isEntryName name && wellNamed t && entriesNamed rest

end

mutual

def distinctNames : Tree → Bool
  | .file _ => true
  | .dir entries => decide (entries.map (·.1)).Nodup && entriesDistinct entries
  | .other => true

def entriesDistinct : List (String × Tree) → Bool
  | [] => true
  | (_, t) :: rest => distinctNames t && entriesDistinct rest

end

theorem entriesDistinct_iff {entries : List (String × Tree)} :
    entriesDistinct entries = true ↔ ∀ e ∈ entries, e.2.distinctNames = true := by
  induction entries with
  | nil => exact iff_of_true rfl (List.forall_mem_nil _)
  | cons e entries ih => rw [entriesDistinct, Bool.and_eq_true, List.forall_mem_cons, ih]

theorem distinctNames_dir {entries : List (String × Tree)} :
    (dir entries).distinctNames = true
      ↔ (entries.map (·.1)).Nodup ∧ ∀ e ∈ entries, e.2.distinctNames = true := by
  rw [distinctNames, Bool.and_eq_true, decide_eq_true_eq, entriesDistinct_iff]

/-- A tree as a file system has it. -/
structure IsListing (t : Tree) : Prop where
  named : t.wellNamed = true
  distinct : t.distinctNames = true

theorem entriesNamed_iff {entries : List (String × Tree)} : entriesNamed entries = true
    ↔ ∀ e ∈ entries, isEntryName e.1 = true ∧ e.2.wellNamed = true := by
  induction entries with
  | nil => exact iff_of_true rfl (List.forall_mem_nil _)
  | cons e entries ih =>
    rw [entriesNamed, Bool.and_eq_true, Bool.and_eq_true, List.forall_mem_cons, ih]

section Listing

variable {entries : List (String × Tree)} {e : String × Tree}

theorem IsListing.nodup (h : (dir entries).IsListing) : (entries.map (·.1)).Nodup :=
  (distinctNames_dir.1 h.distinct).1

theorem IsListing.entryName (h : (dir entries).IsListing) (he : e ∈ entries) :
    isEntryName e.1 = true :=
  (entriesNamed_iff.1 h.named e he).1

theorem IsListing.entry (h : (dir entries).IsListing) (he : e ∈ entries) : e.2.IsListing :=
  ⟨(entriesNamed_iff.1 h.named e he).2, (distinctNames_dir.1 h.distinct).2 e he⟩

end Listing

theorem IsListing.names {t found : Tree} {way : List String} (h : t.IsListing)
    (hfound : t.at? way = some found) : ∀ name ∈ way, isEntryName name = true := by
  induction way generalizing t with
  | nil => exact List.forall_mem_nil _
  | cons name way ih =>
    cases t with
    | file content => cases hfound
    | other => cases hfound
    | dir entries =>
      obtain ⟨below, hlookup, hbelow⟩ := Option.bind_eq_some_iff.1 hfound
      have hmem := (lookup_eq_some h.nodup).1 hlookup
      exact List.forall_mem_cons.2 ⟨h.entryName hmem, ih (h.entry hmem) hbelow⟩

/-- The same tree, whose directories may list their entries in another order. -/
inductive Relisted : Tree → Tree → Prop
  | refl (t : Tree) : Relisted t t
  | order {entries entries' : List (String × Tree)} (h : entries.Perm entries') :
      Relisted (.dir entries) (.dir entries')
  | inside {t t' : Tree} (name : String) (front back : List (String × Tree)) (h : Relisted t t') :
      Relisted (.dir (front ++ (name, t) :: back)) (.dir (front ++ (name, t') :: back))
  | trans {t t' t'' : Tree} (h : Relisted t t') (h' : Relisted t' t'') : Relisted t t''

theorem isEntryName_segments {name : String} (h : isEntryName name = true) :
    segments name = [name] ∧ IsNamed name := by
  rw [isEntryName, Bool.and_eq_true] at h
  have hsegments : segments name = [name] := segments_name (by simpa using h.2)
  refine ⟨hsegments, fun s hs => ?_⟩
  rw [hsegments, List.mem_singleton] at hs
  rw [hs, h.1]

theorem IsNamed.below {path name : String} (h : IsNamed path) (hname : isEntryName name = true) :
    IsNamed (path ++ "/" ++ name) := by
  intro s hs
  rw [segments_slash] at hs
  exact (List.mem_append.1 hs).elim (h s) ((isEntryName_segments hname).2 s)

section Ways

variable {way way' : List String}

theorem segments_intercalate (hne : way ≠ []) (hnames : ∀ name ∈ way, isEntryName name = true) :
    segments ("/".intercalate way) = way := by
  induction way with
  | nil => exact absurd rfl hne
  | cons name way ih =>
    obtain ⟨hname, hway⟩ := List.forall_mem_cons.1 hnames
    have hsegments := (isEntryName_segments hname).1
    by_cases hlast : way = []
    · rw [hlast, String.intercalate_singleton, hsegments]
    · rw [String.intercalate_cons_of_ne_nil hlast, segments_slash, hsegments, ih hlast hway,
        List.singleton_append]

theorem intercalate_eq_empty (hnames : ∀ name ∈ way, isEntryName name = true) :
    "/".intercalate way = "" ↔ way = [] := by
  refine ⟨fun h => ?_, fun h => h ▸ rfl⟩
  by_contra hne
  have hsegments := segments_intercalate hne hnames
  rw [h] at hsegments
  have hempty : isEntryName "" = true := hnames "" (hsegments ▸ List.mem_singleton_self _)
  revert hempty
  decide

/-- Two ways are never spelled alike. -/
theorem intercalate_inj (hnames : ∀ name ∈ way, isEntryName name = true)
    (hnames' : ∀ name ∈ way', isEntryName name = true)
    (h : "/".intercalate way = "/".intercalate way') : way = way' := by
  by_cases hway : way = []
  · rw [(intercalate_eq_empty hnames).2 hway] at h
    rw [hway, (intercalate_eq_empty hnames').1 h.symm]
  · have hway' : way' ≠ [] := fun hempty =>
      hway ((intercalate_eq_empty hnames).1 (h.trans ((intercalate_eq_empty hnames').2 hempty)))
    rw [← segments_intercalate hway hnames, h, segments_intercalate hway' hnames']

theorem intercalate_concat (hne : way ≠ []) (name : String) :
    "/".intercalate (way ++ [name]) = "/".intercalate way ++ "/" ++ name := by
  induction way with
  | nil => exact absurd rfl hne
  | cons first way ih =>
    by_cases hlast : way = []
    · rw [hlast, List.singleton_append, String.intercalate_cons_of_ne_nil (List.cons_ne_nil _ _),
        String.intercalate_singleton, String.intercalate_singleton]
    · rw [List.cons_append, String.intercalate_cons_of_ne_nil (by simp), ih hlast,
        String.intercalate_cons_of_ne_nil hlast]
      simp only [String.append_assoc]

end Ways

end Crosswalk.Tree
