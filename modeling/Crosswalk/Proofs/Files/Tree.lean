import Mathlib
import Crosswalk.Files.Tree

namespace Crosswalk.Tree

theorem lookup_putEntry_self (name : String) (t : Tree) (entries : List (String × Tree)) :
    (putEntry name t entries).lookup name = some t := by
  induction entries with
  | nil => simp [putEntry]
  | cons entry entries ih =>
    obtain ⟨n, old⟩ := entry
    rw [putEntry]
    split
    · next hname => simp [hname]
    · next hother => simp [List.lookup_cons, beq_false_of_ne (Ne.symm hother), ih]

theorem lookup_putEntry_ne {name other : String} (h : other ≠ name) (t : Tree)
    (entries : List (String × Tree)) :
    (putEntry name t entries).lookup other = entries.lookup other := by
  induction entries with
  | nil => rw [putEntry, List.lookup_cons, beq_false_of_ne h]
  | cons entry entries ih =>
    obtain ⟨n, old⟩ := entry
    rw [putEntry]
    split
    · next hname => rw [List.lookup_cons, List.lookup_cons, hname, beq_false_of_ne h]
    · rw [List.lookup_cons, List.lookup_cons, ih]

theorem at?_append (way rest : List String) (t : Tree) :
    t.at? (way ++ rest) = (t.at? way).bind (at? rest) := by
  induction way generalizing t with
  | nil => rfl
  | cons s way ih =>
    cases t with
    | file content => rfl
    | other => rfl
    | dir entries =>
      rw [List.cons_append, at?, at?]
      cases entries.lookup s with
      | none => rfl
      | some t => exact ih t

theorem at?_concat {t : Tree} {here : List String} {entries : List (String × Tree)}
    (h : t.at? here = some (.dir entries)) (s : String) :
    t.at? (here ++ [s]) = entries.lookup s := by
  rw [at?_append, h, Option.bind_some, at?]
  cases entries.lookup s <;> rfl

def IsDir (t : Tree) (way : List String) : Prop := ∃ entries, t.at? way = some (.dir entries)

/-- A file stays the same file; a directory stays one, whatever comes into it. -/
def Lasts : Tree → Tree → Prop
  | .file content, now => now = .file content
  | .dir _, now => ∃ entries, now = .dir entries
  | .other, now => now = .other

theorem Lasts.refl (t : Tree) : t.Lasts t := by
  cases t with
  | file content => rfl
  | dir entries => exact ⟨entries, rfl⟩
  | other => rfl

theorem Lasts.trans {old t new : Tree} (h : old.Lasts t) (h' : t.Lasts new) : old.Lasts new := by
  cases old with
  | file content =>
    cases h
    exact h'
  | dir entries =>
    obtain ⟨_, rfl⟩ := h
    exact h'
  | other =>
    cases h
    exact h'

def KeptAt (old new : Tree) (way : List String) : Prop :=
  ∀ found, old.at? way = some found → ∃ now, new.at? way = some now ∧ found.Lasts now

def Keeps (old new : Tree) : Prop := ∀ way, KeptAt old new way

theorem Keeps.refl (t : Tree) : t.Keeps t := fun _ found h => ⟨found, h, .refl found⟩

theorem Keeps.trans {old t new : Tree} (h : old.Keeps t) (h' : t.Keeps new) : old.Keeps new := by
  intro way found hfound
  obtain ⟨now, hnow, hlasts⟩ := h way found hfound
  obtain ⟨new, hnew, hlasts'⟩ := h' way now hnow
  exact ⟨new, hnew, hlasts.trans hlasts'⟩

theorem KeptAt.isDir {old new : Tree} {way : List String} (h : KeptAt old new way)
    (hdir : old.IsDir way) : new.IsDir way := by
  obtain ⟨entries, hentries⟩ := hdir
  obtain ⟨now, hnow, entries', rfl⟩ := h _ hentries
  exact ⟨entries', hnow⟩

theorem KeptAt.file {old new : Tree} {way : List String} {content : Bytes}
    (h : KeptAt old new way) (hfile : old.at? way = some (.file content)) :
    new.at? way = some (.file content) := by
  obtain ⟨now, hnow, rfl⟩ := h _ hfile
  exact hnow

theorem at?_put_ne {s s' : String} (hs : s' ≠ s) (way : List String) (new : Tree)
    (entries : List (String × Tree)) (other : List String) :
    ((dir entries).put (s :: way) new).at? (s' :: other) = (dir entries).at? (s' :: other) := by
  rw [put]
  split
  · rw [at?, at?, lookup_putEntry_ne hs]
  · split
    · rw [at?, at?, lookup_putEntry_ne hs]
    · rfl

/-- Where no directory is replaced, everything but the way itself is left alone. -/
theorem put_keptAt {t : Tree} {way : List String} (new : Tree) (hway : ¬t.IsDir way)
    {other : List String} (hne : other ≠ way) : KeptAt t (t.put way new) other := by
  intro found hfound
  induction way generalizing t other with
  | nil =>
    cases t with
    | dir entries => exact absurd ⟨entries, rfl⟩ hway
    | file content =>
      cases other with
      | nil => exact absurd rfl hne
      | cons s other => cases hfound
    | other =>
      cases other with
      | nil => exact absurd rfl hne
      | cons s other => cases hfound
  | cons s way ih =>
    cases t with
    | file content => exact ⟨found, hfound, .refl found⟩
    | other => exact ⟨found, hfound, .refl found⟩
    | dir entries =>
      cases other with
      | nil =>
        -- A directory on the way gets another entry and stays one.
        cases hfound
        rw [put]
        split
        · exact ⟨_, rfl, _, rfl⟩
        · split <;> exact ⟨_, rfl, _, rfl⟩
      | cons s' other =>
        rw [at?] at hfound
        by_cases hs : s' = s
        · subst hs
          cases hlookup : entries.lookup s' with
          | none =>
            rw [hlookup] at hfound
            cases hfound
          | some below =>
            rw [hlookup, Option.bind_some] at hfound
            have hbelow : ¬below.IsDir way := fun ⟨inner, hinner⟩ =>
              hway ⟨inner, by rw [at?, hlookup, Option.bind_some, hinner]⟩
            obtain ⟨now, hnow, hlasts⟩ := ih hbelow (fun heq => hne (heq ▸ rfl)) hfound
            refine ⟨now, ?_, hlasts⟩
            simp only [put, hlookup, at?, lookup_putEntry_self, Option.bind_some, hnow]
        · exact ⟨found, (at?_put_ne hs way new entries other).trans hfound, .refl found⟩

theorem at?_put_self {t : Tree} {parent : List String} (hparent : t.IsDir parent) (s : String)
    (new : Tree) : (t.put (parent ++ [s]) new).at? (parent ++ [s]) = some new := by
  induction parent generalizing t with
  | nil =>
    obtain ⟨entries, hentries⟩ := hparent
    obtain rfl := Option.some.inj hentries
    rw [List.nil_append, put]
    split <;> simp [at?, put, lookup_putEntry_self]
  | cons d parent ih =>
    obtain ⟨inner, hinner⟩ := hparent
    cases t with
    | file content => cases hinner
    | other => cases hinner
    | dir entries =>
      rw [at?] at hinner
      obtain ⟨below, hlookup, hbelow⟩ := Option.bind_eq_some_iff.1 hinner
      have hput := ih ⟨inner, hbelow⟩
      simp only [List.cons_append, put, hlookup, at?, lookup_putEntry_self, Option.bind_some, hput]

theorem makeWay_keeps {t t' : Tree} {here segments : List String}
    (h : makeWay t here segments = .ok t') : t.Keeps t' := by
  induction segments generalizing t here with
  | nil =>
    rw [makeWay] at h
    split at h
    · cases h
      exact .refl _
    · cases h
  | cons s rest ih =>
    rw [makeWay] at h
    split at h
    · next entries hhere =>
      split at h
      · exact ih h
      · split at h
        · exact ih h
        · split at h
          · exact ih h
          · next hmissing =>
            have hnone : t.at? (here ++ [s]) = none := by
              rw [at?_concat hhere]
              exact Option.not_isSome_iff_eq_none.1 hmissing
            refine Keeps.trans (fun way found hfound => ?_) (ih h)
            have hdir : ¬t.IsDir (here ++ [s]) := by
              rintro ⟨inner, hinner⟩
              rw [hnone] at hinner
              cases hinner
            refine put_keptAt empty hdir (fun heq => ?_) found hfound
            rw [heq, hnone] at hfound
            cases hfound
    · cases h

theorem makeDirs_keeps {path : String} {t t' : Tree} (h : t.makeDirs path = .ok t') :
    t.Keeps t' := by
  rw [makeDirs] at h
  split at h
  · cases h
    exact .refl _
  · exact makeWay_keeps h

end Crosswalk.Tree
