import Crosswalk.Proofs.Names.Declaring
import Crosswalk.Proofs.Names.History
import Crosswalk.Proofs.Text.Bounded
import Crosswalk.Proofs.Text.Edited

namespace Crosswalk

open Text

namespace Text

def OnlySpaces (s : List Char) : Prop := ∀ c ∈ s, isBlank c = true → c = ' '

theorem onlySpaces_of_all {s : List Char} (h : s.all (fun c => !isBlank c || c == ' ') = true) :
    OnlySpaces s := by
  intro c hc hblank
  simpa [hblank] using List.all_eq_true.1 h c hc

theorem OnlySpaces.append {s t : List Char} (hs : OnlySpaces s) (ht : OnlySpaces t) :
    OnlySpaces (s ++ t) := List.forall_mem_append.2 ⟨hs, ht⟩

theorem Word.onlySpaces {w : List Char} (h : Word w) : OnlySpaces w :=
  fun _ hc hblank => absurd hc (h.free (not_isWord_of_blank hblank))

theorem onlySpaces_intercalate {sep : List Char} {ls : List (List Char)} (hsep : OnlySpaces sep)
    (hls : ∀ l ∈ ls, OnlySpaces l) : OnlySpaces (sep.intercalate ls) := by
  induction ls with
  | nil => exact List.forall_mem_nil _
  | cons l ls ih =>
    obtain ⟨hl, hls⟩ := List.forall_mem_cons.1 hls
    cases ls with
    | nil => rwa [List.intercalate_singleton]
    | cons l' ls =>
      rw [List.intercalate_cons_cons]
      exact (hl.append hsep).append (ih hls)

end Text

namespace Manifest

def heading : String := "Established names (reuse these exactly):"

/-- What stands before the target in the line of a mapping. -/
def lead (source : String) : String := "- " ++ source ++ " -> "

def mappingLine (source target : String) : List Char := (lead source ++ target).toList

def otherLine (names : List String) : List Char :=
  ("Other defined types: " ++ ", ".intercalate names).toList

def fullLines (m : Manifest) : List (List Char) :=
  (if m.symbols.isEmpty then []
    else heading.toList :: m.symbols.entries.map fun e => mappingLine e.1 e.2)
    ++ if m.unmapped.isEmpty then [] else [otherLine m.unmapped]

/-- The rendered names have a line that says this. -/
def Says (m : Manifest) (source target : String) : Prop :=
  mappingLine source target ∈ lines m.render.toList

/-- How many bytes of the text stand before the target of a mapping, if these mappings do. -/
def offset (before : List (String × String)) (source : String) : Nat :=
  byteLength (closed (heading.toList :: before.map fun e => mappingLine e.1 e.2))
    + byteLength (lead source).toList

def CutsTarget (m : Manifest) : Prop :=
  ∃ before e after, m.symbols.entries = before ++ e :: after ∧ offset before e.1 ≤ renderLimit ∧
    renderLimit < offset before e.1 + byteLength e.2.toList

theorem mappingLine_append (source target : String) :
    mappingLine source target = (lead source).toList ++ target.toList := String.toList_append

theorem renderMapping_toList (e : String × String) :
    (renderMapping e).toList = mappingLine e.1 e.2 ++ ['\n'] := by
  rw [renderMapping, String.toList_append, mappingLine, lead]
  rfl

theorem renderFull_toList (m : Manifest) : m.renderFull.toList = closed m.fullLines := by
  have hmappings : (String.join (m.symbols.entries.map renderMapping)).toList
      = closed (m.symbols.entries.map fun e => mappingLine e.1 e.2) := by
    rw [String.toList_join, closed, List.flatMap_map, List.flatMap_map]
    exact List.flatMap_congr fun e _ => renderMapping_toList e
  rw [renderFull, fullLines, closed_append, String.toList_append]
  refine congrArg₂ (· ++ ·) ?_ ?_
  · split
    · rfl
    · rw [String.toList_append, hmappings, closed_cons, List.append_cons]
      rfl
  · split
    · rfl
    · rw [String.toList_append]
      exact (List.append_nil _).symm

theorem lead_toList (source : String) :
    (lead source).toList = "-".toList ++ ' ' :: (source.toList ++ ' ' :: "->".toList) ++ [' '] := by
  simp [lead]

theorem pieces_mappingLine (source target : String) : splitAtChar ' ' (mappingLine source target)
    = ["-".toList] ++ (splitAtChar ' ' source.toList ++
      (["->".toList] ++ splitAtChar ' ' target.toList)) := by
  rw [mappingLine_append, lead_toList, List.append_assoc, List.append_assoc, List.cons_append,
    splitAtChar_append, List.append_assoc, List.cons_append, List.singleton_append,
    splitAtChar_append, splitAtChar_append]
  rfl

theorem mappingLine_inj {source target source' target' : String} (hsource : ' ' ∉ source'.toList)
    (htarget : ' ' ∉ target'.toList) :
    mappingLine source target = mappingLine source' target' ↔
      source = source' ∧ target = target' := by
  refine ⟨fun h => ?_, by rintro ⟨rfl, rfl⟩; rfl⟩
  have hpieces := congrArg (splitAtChar ' ') h
  rw [pieces_mappingLine, pieces_mappingLine, splitAtChar_free hsource, splitAtChar_free htarget,
    List.append_cancel_left_eq] at hpieces
  have hone : (splitAtChar ' ' source.toList).length = 1 := by
    have hlength := congrArg List.length hpieces
    have hfirst := List.length_pos_of_ne_nil (splitAtChar_ne_nil ' ' source.toList)
    have hsecond := List.length_pos_of_ne_nil (splitAtChar_ne_nil ' ' target.toList)
    simp only [List.length_append, List.length_singleton] at hlength
    omega
  obtain ⟨hfirst, hrest⟩ := List.append_inj hpieces hone
  have hsecond := List.append_cancel_left hrest
  rw [← splitAtChar_free hsource] at hfirst
  rw [← splitAtChar_free htarget] at hsecond
  exact ⟨String.toList_injective (splitAtChar_injective ' ' hfirst),
    String.toList_injective (splitAtChar_injective ' ' hsecond)⟩

theorem mappingLine_ne_lead {source target source' : String} (hsource : ' ' ∉ source'.toList)
    {part : List Char} (hpart : part <+: (lead source').toList)
    (hne : part ≠ (lead source').toList) : mappingLine source target ≠ part := by
  rintro rfl
  rw [lead_toList] at hpart hne
  have hcount := ((List.prefix_concat_iff.1 hpart).resolve_left hne).sublist.count_le ' '
  rw [mappingLine_append, lead_toList] at hcount
  simp [List.count_eq_zero_of_not_mem hsource] at hcount
  omega

theorem mappingLine_eq_takeBytes {n : Nat} {source target source' full : String}
    (hsource : ' ' ∉ source'.toList) (hfull : ' ' ∉ full.toList) :
    mappingLine source target = takeBytes n (mappingLine source' full) ↔
      source = source' ∧ byteLength (lead source').toList ≤ n ∧
        target.toList = takeBytes (n - byteLength (lead source').toList) full.toList := by
  rw [mappingLine_append source' full]
  by_cases hlead : byteLength (lead source').toList ≤ n
  · obtain ⟨part, hpart⟩ : ∃ part : String,
        part.toList = takeBytes (n - byteLength (lead source').toList) full.toList :=
      ⟨_, String.toList_ofList⟩
    have hfree : ' ' ∉ part.toList := fun hmem =>
      hfull ((takeBytes_isPrefix _ _).subset (hpart ▸ hmem))
    rw [takeBytes_append hlead, ← hpart, ← mappingLine_append,
      mappingLine_inj hsource hfree, and_iff_right hlead, String.toList_inj]
  · have hover : n < byteLength (lead source').toList := Nat.lt_of_not_le hlead
    refine iff_of_false ?_ fun h => hlead h.2.1
    rw [takeBytes_of_over hover]
    refine mappingLine_ne_lead hsource (takeBytes_isPrefix n _) fun heq => ?_
    have hle := byteLength_takeBytes_le n (lead source').toList
    rw [heq] at hle
    exact hlead hle

theorem mappingLine_ne {part l : List Char} (hl : '-' ∉ l.head?) (hpart : part <+: l)
    (source target : String) : mappingLine source target ≠ part := by
  rintro rfl
  obtain ⟨rest, rfl⟩ := hpart
  rw [mappingLine_append, lead_toList] at hl
  exact hl rfl

theorem shown_mappings {n : Nat} {entries : List (String × String)}
    (hentries : ∀ e ∈ entries, ' ' ∉ e.1.toList ∧ ' ' ∉ e.2.toList) (source target : String) :
    Shown n (entries.map fun e => mappingLine e.1 e.2) (mappingLine source target) ↔
      ∃ before full after, entries = before ++ (source, full) :: after ∧
        byteLength (closed (before.map fun e => mappingLine e.1 e.2))
          + byteLength (lead source).toList ≤ n ∧
        target.toList = takeBytes (n - (byteLength (closed (before.map fun e => mappingLine e.1 e.2))
          + byteLength (lead source).toList)) full.toList := by
  constructor
  · rintro ⟨_, _, _, hsplit, hfits, hline⟩
    obtain ⟨before, rest, rfl, rfl, hrest⟩ := List.map_eq_append_iff.1 hsplit
    obtain ⟨⟨source', full⟩, after, rfl, rfl, rfl⟩ := List.map_eq_cons_iff.1 hrest
    obtain ⟨hsource, hfull⟩ := hentries _ (List.mem_append_right before List.mem_cons_self)
    obtain ⟨rfl, hlead, htarget⟩ := (mappingLine_eq_takeBytes hsource hfull).1 hline
    refine ⟨before, full, after, rfl, ?_, by rw [htarget, Nat.sub_sub]⟩
    exact (Nat.add_le_add_left hlead _).trans_eq (Nat.add_sub_of_le hfits)
  · rintro ⟨before, full, after, rfl, hoffset, htarget⟩
    obtain ⟨hsource, hfull⟩ := hentries _ (List.mem_append_right before List.mem_cons_self)
    refine ⟨_, _, _, by rw [List.map_append, List.map_cons], Nat.le_of_add_right_le hoffset,
      (mappingLine_eq_takeBytes hsource hfull).2 ⟨rfl, Nat.le_sub_of_add_le' hoffset, ?_⟩⟩
    rw [htarget, Nat.sub_sub]

theorem offset_eq (before : List (String × String)) (source : String) : offset before source
    = byteLength heading.toList + 1 + (byteLength (closed (before.map fun e => mappingLine e.1 e.2))
      + byteLength (lead source).toList) := by
  rw [offset, byteLength_closed_cons, Nat.add_assoc]

section Records

variable (notes : List Note)

theorem symbols_free : ∀ e ∈ (ofNotes notes).symbols.entries,
    ' ' ∉ e.1.toList ∧ ' ' ∉ e.2.toList := by
  intro e he
  obtain ⟨hname, htarget⟩ := (ofNotes_wellNamed notes).names e.1 e.2
    ((Entries.get?_eq_some (ofNotes notes).symbols.ascending).2 he)
  exact ⟨hname.word.free (by decide), htarget.word.free (by decide)⟩

theorem unmapped_types : ∀ name ∈ (ofNotes notes).unmapped, Rules.IsTypeName name := by
  intro name hname
  obtain ⟨n, -, htarget⟩ := mem_definitions.1 (List.mem_filter.1 hname).1
  exact Rules.declaredType?_isTypeName htarget

theorem fullLines_spaces : ∀ l ∈ (ofNotes notes).fullLines, OnlySpaces l := by
  rw [fullLines, List.forall_mem_append]
  constructor
  · split
    · exact List.forall_mem_nil _
    · rw [List.forall_mem_cons, List.forall_mem_map]
      refine ⟨onlySpaces_of_all (by decide), fun e he => ?_⟩
      obtain ⟨hname, htarget⟩ := (ofNotes_wellNamed notes).names e.1 e.2
        ((Entries.get?_eq_some (ofNotes notes).symbols.ascending).2 he)
      rw [mappingLine_append, lead, String.toList_append, String.toList_append]
      exact (((onlySpaces_of_all (by decide)).append hname.word.onlySpaces).append
        (onlySpaces_of_all (by decide))).append htarget.word.onlySpaces
  · split
    · exact List.forall_mem_nil _
    · rw [List.forall_mem_singleton, otherLine, String.toList_append, String.toList_intercalate]
      refine (onlySpaces_of_all (by decide)).append (onlySpaces_intercalate
        (onlySpaces_of_all (by decide)) (List.forall_mem_map.2 fun name hname => ?_))
      exact (unmapped_types notes name hname).word.onlySpaces

theorem fullLines_single : ∀ l ∈ (ofNotes notes).fullLines, '\n' ∉ l ∧ '\r' ∉ l := fun l hl =>
  ⟨fun hmem => absurd (fullLines_spaces notes l hl _ hmem rfl) (by decide),
    fun hmem => absurd (fullLines_spaces notes l hl _ hmem rfl) (by decide)⟩

theorem shown_fullLines (m : Manifest) (source target : String) :
    Shown renderLimit m.fullLines (mappingLine source target) ↔
      Shown (renderLimit - (byteLength heading.toList + 1))
        (m.symbols.entries.map fun e => mappingLine e.1 e.2) (mappingLine source target) := by
  have hlimit : byteLength heading.toList + 1 ≤ renderLimit := by decide
  have hheading := mappingLine_ne (l := heading.toList) (by decide)
    (takeBytes_isPrefix renderLimit heading.toList) source target
  have hother (n : Nat) : ¬Shown n (if m.unmapped.isEmpty then [] else [otherLine m.unmapped])
      (mappingLine source target) := by
    split
    · exact not_shown_nil
    · have hstart : '-' ∉ (otherLine m.unmapped).head? := by
        rw [otherLine, String.toList_append]
        exact (by decide : '-' ∉ some 'O')
      have hne := mappingLine_ne hstart (takeBytes_isPrefix n _) source target
      rw [shown_cons, or_iff_right hne]
      exact fun h => not_shown_nil h.2
  rw [fullLines, shown_append, or_iff_left fun h => hother _ h.2]
  split
  · next hempty =>
    rw [List.isEmpty_iff.1 hempty]
    exact iff_of_false not_shown_nil not_shown_nil
  · rw [shown_cons, or_iff_right hheading, and_iff_right hlimit]

/-- Every mapping is said, as far as its target is within the limit. -/
theorem says_iff (source target : String) : (ofNotes notes).Says source target ↔
    ∃ before full after, (ofNotes notes).symbols.entries = before ++ (source, full) :: after ∧
      offset before source ≤ renderLimit ∧
      target.toList = takeBytes (renderLimit - offset before source) full.toList := by
  have hlimit : byteLength heading.toList + 1 ≤ renderLimit := by decide
  have hdots := mappingLine_ne (by decide) (List.prefix_refl "...".toList) source target
  rw [Says, render]
  split
  · next hempty =>
    rw [isEmpty, Bool.and_eq_true] at hempty
    have hnothing : lines "No symbols mapped yet.".toList = ["No symbols mapped yet.".toList] := by
      decide
    rw [hnothing, List.mem_singleton]
    refine iff_of_false (mappingLine_ne (by decide) (List.prefix_refl _) source target) ?_
    rintro ⟨before, full, after, hentries, -⟩
    rw [Table.isEmpty, hentries] at hempty
    simp at hempty
  · rw [String.toList_ofList, renderFull_toList, mem_lines_bounded (fullLines_single notes),
      or_iff_left fun h => hdots h.2, shown_fullLines, shown_mappings (symbols_free notes)]
    simp only [offset_eq, Nat.le_sub_iff_add_le' hlimit, Nat.sub_sub]

variable {notes}

theorem targetFor?_entry {before after : List (String × String)} {source full : String}
    (h : (ofNotes notes).symbols.entries = before ++ (source, full) :: after) :
    (ofNotes notes).targetFor? source = some full :=
  (Entries.get?_eq_some (ofNotes notes).symbols.ascending).2
    (h ▸ List.mem_append_right before List.mem_cons_self)

theorem CutsTarget.misstated (h : (ofNotes notes).CutsTarget) : ∃ source target,
    (ofNotes notes).Says source target ∧ (ofNotes notes).targetFor? source ≠ some target := by
  obtain ⟨before, ⟨source, full⟩, after, hentries, hlow, hhigh⟩ := h
  simp only at hlow hhigh
  refine ⟨source, String.ofList (takeBytes (renderLimit - offset before source) full.toList),
    (says_iff notes _ _).2 ⟨before, full, after, hentries, hlow, String.toList_ofList⟩, ?_⟩
  rw [targetFor?_entry hentries]
  intro heq
  have hfull := congrArg String.toList (Option.some.inj heq)
  have hle := byteLength_takeBytes_le (renderLimit - offset before source) full.toList
  rw [String.toList_ofList] at hfull
  rw [← hfull] at hle
  omega

/-- What is said of a source name is its target or a part of it. All of it is said of every mapping
just if the limit does not fall inside a target. -/
theorem says_targets (notes : List Note) :
    (∀ source target, (ofNotes notes).Says source target →
      ∃ full, (ofNotes notes).targetFor? source = some full ∧ target.toList <+: full.toList) ∧
    ((∀ source target, (ofNotes notes).Says source target →
      (ofNotes notes).targetFor? source = some target) ↔ ¬(ofNotes notes).CutsTarget) := by
  refine ⟨fun source target h => ?_, fun h hcuts => ?_, fun h source target hsays => ?_⟩
  · obtain ⟨before, full, after, hentries, -, htarget⟩ := (says_iff notes source target).1 h
    exact ⟨full, targetFor?_entry hentries, htarget ▸ takeBytes_isPrefix _ _⟩
  · obtain ⟨source, target, hsays, hother⟩ := hcuts.misstated
    exact hother (h source target hsays)
  · obtain ⟨before, full, after, hentries, hoffset, htarget⟩ :=
      (says_iff notes source target).1 hsays
    have hfits : byteLength full.toList ≤ renderLimit - offset before source := by
      by_contra hover
      exact h ⟨before, (source, full), after, hentries, hoffset, by simp only; omega⟩
    rw [takeBytes_of_fits hfits] at htarget
    rw [String.toList_injective htarget]
    exact targetFor?_entry hentries

end Records

def namingNote (name : String) : Note :=
  ⟨"class" ++ " " ++ "A", "struct" ++ " " ++ name, "A.swift"⟩

theorem namingNote_symbols {name : String} (h : Rules.IsTypeName name) :
    (ofNotes [namingNote name]).symbols.entries = [("A", name)] := by
  have hsource : Rules.declaredType? (namingNote name).source = some "A" :=
    Rules.declaredType?_keyword (by decide) ⟨'A', [], rfl, by decide, List.forall_mem_nil _⟩
  have htarget : Rules.declaredType? (namingNote name).candidate = some name :=
    Rules.declaredType?_keyword (by decide) h
  rw [ofNotes, List.foldl_cons, List.foldl_nil, record, htarget]
  simp only [hsource]
  rfl

theorem misstated_of_long {name : String} (h : Rules.IsTypeName name)
    (hlong : renderLimit < byteLength name.toList) : ∃ source target,
      (ofNotes [namingNote name]).Says source target ∧
        (ofNotes [namingNote name]).targetFor? source ≠ some target :=
  CutsTarget.misstated ⟨[], ("A", name), [], namingNote_symbols h,
    (by decide : offset [] "A" ≤ renderLimit), Nat.lt_add_left _ hlong⟩

def repeatedName (n : Nat) : String := String.ofList (List.replicate n 'B')

theorem repeatedName_isTypeName {n : Nat} (h : n ≠ 0) : Rules.IsTypeName (repeatedName n) := by
  obtain ⟨n, rfl⟩ := Nat.exists_eq_succ_of_ne_zero h
  refine ⟨'B', List.replicate n 'B', ?_, by decide, fun c hc => ?_⟩
  · rw [repeatedName, String.toList_ofList, List.replicate_succ]
  · rw [List.eq_of_mem_replicate hc]
    rfl

theorem byteLength_repeatedName (n : Nat) : byteLength (repeatedName n).toList = n := by
  rw [repeatedName, String.toList_ofList]
  induction n with
  | zero => rfl
  | succ n ih =>
    rw [List.replicate_succ, byteLength, ih, Nat.add_comm]
    rfl

theorem repeatedName_misstated : ∃ source target,
    (ofNotes [namingNote (repeatedName 4001)]).Says source target ∧
      (ofNotes [namingNote (repeatedName 4001)]).targetFor? source ≠ some target :=
  misstated_of_long (repeatedName_isTypeName (by decide))
    ((by decide : renderLimit < 4001).trans_eq (byteLength_repeatedName 4001).symm)

end Manifest

end Crosswalk
