import Crosswalk.Proofs.Names.Declaring
import Crosswalk.Proofs.Names.History
import Crosswalk.Proofs.Pattern.Scanning

namespace Crosswalk

open Text

namespace Rules

structure GivesName (blanks : List Char) (name : String) (after : List Char) : Prop where
  nonempty : blanks ≠ []
  blank : ∀ c ∈ blanks, isBlank c = true
  typeName : IsTypeName name
  whole : ∀ c ∈ after.head?, isIdentifierChar c = false

/-- A type of this name is declared behind so many characters. -/
def DeclaresAt (content : List Char) (start : Nat) (name : String) : Prop :=
  ∃ before keyword blanks after,
    content = before ++ (keyword.toList ++ (blanks ++ (name.toList ++ after))) ∧
      before.length = start ∧ (∀ c ∈ before.getLast?, isWord c = false) ∧
      keyword ∈ typeKeywords ∧ GivesName blanks name after

/-- A type of this name is declared, and none before it. -/
def DeclaresFirst (content : List Char) (name : String) : Prop :=
  ∃ start, DeclaresAt content start name ∧
    ∀ earlier < start, ∀ other, ¬DeclaresAt content earlier other

theorem GivesName.of_behind {s name : List Char} (h : nameBehind? s = some name) :
    ∃ blanks after, s = blanks ++ (name ++ after) ∧ GivesName blanks (String.ofList name) after := by
  have hname := isTypeName_of_behind h
  rw [nameBehind?] at h
  split at h
  · next hblank =>
    split at h
    · next c rest hrest =>
      split at h
      · obtain rfl := Option.some.inj h
        refine ⟨s.takeWhile isBlank, rest.dropWhile isIdentifierChar, ?_, ?_, ?_, hname, ?_⟩
        · rw [List.cons_append, List.takeWhile_append_dropWhile, ← hrest,
            List.takeWhile_append_dropWhile]
        · cases s with
          | nil => cases hblank
          | cons b s =>
            have hb : isBlank b = true := hblank
            rw [List.takeWhile_cons_of_pos hb]
            exact List.cons_ne_nil _ _
        · exact fun x hx => List.mem_takeWhile_imp hx
        · intro x hx
          have hhead := List.head?_dropWhile_not isIdentifierChar rest
          rwa [Option.mem_def.1 hx] at hhead
      · cases h
    · cases h
  · cases h

theorem GivesName.behind {blanks after : List Char} {name : String} (h : GivesName blanks name after) :
    nameBehind? (blanks ++ (name.toList ++ after)) = some name.toList := by
  obtain ⟨c, rest, hname, hupper, hrest⟩ := h.typeName
  have hhead : (blanks ++ (name.toList ++ after)).head?.any isBlank = true := by
    obtain ⟨b, more, rfl⟩ := List.exists_cons_of_ne_nil h.nonempty
    exact h.blank b List.mem_cons_self
  have hc : isBlank c ≠ true := by
    intro hblank
    rw [not_isUpper_of_blank hblank] at hupper
    cases hupper
  have hafter : after.takeWhile isIdentifierChar = [] := by
    cases after with
    | nil => rfl
    | cons x after => exact List.takeWhile_cons_of_neg (by simp [h.whole x rfl])
  rw [nameBehind?, hhead, if_pos rfl, List.dropWhile_append_of_pos h.blank, hname, List.cons_append,
    List.dropWhile_cons_of_neg hc]
  simp only [hupper, if_true, List.takeWhile_append_of_pos hrest, hafter, List.append_nil]

def nameHere? (last : Option Char) (s : List Char) (start : Nat) : Option (List Char) :=
  if (Pattern.lastOf last (s.take start)).any isWord then none else nameAt? (s.drop start)

theorem scanName?_first {last : Option Char} {s name : List Char} :
    scanName? last s = some name ↔ ∃ start, nameHere? last s start = some name ∧
      ∀ earlier < start, nameHere? last s earlier = none := by
  induction s generalizing last with
  | nil =>
    have hnone (start : Nat) : nameHere? last [] start = none := by
      rw [nameHere?, List.drop_nil, nameAt?_opens (show Opens [] from rfl), ite_self]
    simp [scanName?, hnone]
  | cons c s ih =>
    have hzero : nameHere? last (c :: s) 0
        = if last.any isWord then none else nameAt? (c :: s) := rfl
    have hsucc (start : Nat) :
        nameHere? last (c :: s) (start + 1) = nameHere? (some c) s start := by
      rw [nameHere?, nameHere?, List.take_succ_cons, List.drop_succ_cons, Pattern.lastOf_cons]
    rw [scanName?, ← hzero]
    -- What is declared here is declared first; else the first declaration is one of what follows.
    cases hhere : nameHere? last (c :: s) 0 with
    | some found =>
      constructor
      · intro hfound
        exact ⟨0, hhere.trans hfound, fun earlier hlt => absurd hlt (Nat.not_lt_zero earlier)⟩
      · rintro ⟨start, hname, hfirst⟩
        cases start with
        | zero => exact hhere.symm.trans hname
        | succ start =>
          rw [hfirst 0 start.succ_pos] at hhere
          cases hhere
    | none =>
      have hlater : (none <|> scanName? (some c) s) = scanName? (some c) s := rfl
      rw [hlater, ih]
      constructor
      · rintro ⟨start, hname, hfirst⟩
        refine ⟨start + 1, (hsucc start).trans hname, fun earlier hlt => ?_⟩
        cases earlier with
        | zero => exact hhere
        | succ earlier => exact (hsucc earlier).trans (hfirst earlier (Nat.lt_of_succ_lt_succ hlt))
      · rintro ⟨start, hname, hfirst⟩
        cases start with
        | zero =>
          rw [hhere] at hname
          cases hname
        | succ start =>
          exact ⟨start, (hsucc start).symm.trans hname, fun earlier hlt =>
            (hsucc earlier).symm.trans (hfirst (earlier + 1) (Nat.succ_lt_succ hlt))⟩

section Content

variable {content : List Char} {start : Nat} {name : String}

theorem nameHere?_some :
    nameHere? none content start = some name.toList ↔ DeclaresAt content start name := by
  constructor
  · intro h
    rw [nameHere?] at h
    split at h
    · cases h
    · next hlast =>
      obtain ⟨keyword, hkeyword, rest, hrest, hbehind⟩ := nameAt?_some h
      obtain ⟨blanks, after, rfl, hnamed⟩ := GivesName.of_behind hbehind
      rw [String.ofList_toList] at hnamed
      have hstart : start < content.length := by
        by_contra hle
        rw [List.drop_eq_nil_of_le (Nat.le_of_not_lt hle)] at hrest
        exact List.append_ne_nil_of_left_ne_nil (typeKeywords_words keyword hkeyword).nonempty _
          hrest.symm
      refine ⟨content.take start, keyword, blanks, after, ?_, ?_, ?_, hkeyword, hnamed⟩
      · rw [← hrest, List.take_append_drop]
      · exact List.length_take_of_le (Nat.le_of_lt hstart)
      · intro c hc
        rw [Pattern.lastOf, Option.mem_def.1 hc] at hlast
        exact Bool.eq_false_iff.2 hlast
  · rintro ⟨before, keyword, blanks, after, rfl, rfl, hopens, hkeyword, hnamed⟩
    have hlast : ¬(Pattern.lastOf none before).any isWord = true := by
      rw [Pattern.lastOf, Option.or_none]
      cases hbefore : before.getLast? with
      | none => exact Bool.false_ne_true
      | some c => exact Bool.eq_false_iff.1 (hopens c hbefore)
    have hbehind := hnamed.behind
    rw [nameHere?, List.take_left, List.drop_left, if_neg hlast,
      nameAt?_word (typeKeywords_words keyword hkeyword) (opens_behind hbehind),
      String.ofList_toList, if_pos hkeyword, hbehind]

theorem nameHere?_none :
    nameHere? none content start = none ↔ ∀ name, ¬DeclaresAt content start name := by
  rw [Option.eq_none_iff_forall_ne_some]
  constructor
  · intro h name hname
    exact h name.toList (nameHere?_some.2 hname)
  · intro h name hname
    refine h (String.ofList name) (nameHere?_some.1 ?_)
    rwa [String.toList_ofList]

theorem DeclaresAt.exists_first (h : DeclaresAt content start name) :
    ∃ first, DeclaresFirst content first := by
  classical
  have hsome : ∃ start name, DeclaresAt content start name := ⟨start, name, h⟩
  obtain ⟨first, hfirst⟩ := Nat.find_spec hsome
  exact ⟨first, Nat.find hsome, hfirst, fun earlier hlt other hother =>
    Nat.find_min hsome hlt ⟨other, hother⟩⟩

end Content

theorem declaredType?_eq_some {content name : String} :
    declaredType? content = some name ↔ DeclaresFirst content.toList name := by
  have hchars : declaredType? content = some name ↔
      scanName? none content.toList = some name.toList := by
    rw [declaredType?_scan, Option.map_eq_some_iff]
    constructor
    · rintro ⟨chars, hchars, rfl⟩
      rwa [String.toList_ofList]
    · exact fun h => ⟨name.toList, h, String.ofList_toList⟩
  rw [hchars, scanName?_first, DeclaresFirst]
  exact exists_congr fun start =>
    and_congr nameHere?_some (forall₂_congr fun earlier _ => nameHere?_none)

example : declaredType? "a superclass B, enum class\n  C_1é" = some "C_1" := by decide

theorem declaredType?_eq_none {content : String} :
    declaredType? content = none ↔ ∀ start name, ¬DeclaresAt content.toList start name := by
  constructor
  · intro h start name hname
    obtain ⟨first, hfirst⟩ := hname.exists_first
    rw [declaredType?_eq_some.2 hfirst] at h
    cases h
  · intro h
    refine Option.eq_none_iff_forall_ne_some.2 fun name hname => ?_
    obtain ⟨start, hstart, -⟩ := declaredType?_eq_some.1 hname
    exact h start name hstart

end Rules

namespace Manifest

inductive Holds (m : Manifest) (name : String) : Prop
  | source (target : String) (h : m.symbols.get? name = some target)
  | target (source : String) (h : m.symbols.get? source = some name)
  | definition (h : m.isDefined name = true)
  | exported (path : String) (h : m.exports.get? name = some path)

theorem not_holds_empty (name : String) : ¬empty.Holds name := by
  rintro (⟨_, h⟩ | ⟨_, h⟩ | h | ⟨_, h⟩) <;> cases h

theorem Holds.note {m : Manifest} {n : Note} {name : String} (h : (m.note n).Holds name) :
    m.Holds name ∨ Rules.IsTypeName name := by
  cases h with
  | source target h =>
    rw [note_symbols, Option.or_eq_some_iff] at h
    rcases h with hold | ⟨-, hnew⟩
    · exact .inl (.source target hold)
    · exact .inr (Rules.declaredType?_isTypeName (Note.symbol?_eq_some hnew).1)
  | target source h =>
    rw [note_symbols, Option.or_eq_some_iff] at h
    rcases h with hold | ⟨-, hnew⟩
    · exact .inl (.target source hold)
    · exact .inr (Rules.declaredType?_isTypeName (Note.symbol?_eq_some hnew).2)
  | definition h =>
    rcases (isDefined_record m n.source n.candidate n.path name).1 h with hold | hnew
    · exact .inl (.definition hold)
    · exact .inr (Rules.declaredType?_isTypeName hnew)
  | exported path h =>
    rw [note_exports, Option.or_eq_some_iff] at h
    rcases h with hold | ⟨-, hnew⟩
    · exact .inl (.exported path hold)
    · exact .inr (Rules.declaredType?_isTypeName (Note.export?_eq_some hnew))

theorem Holds.noteAll {m : Manifest} {notes : List Note} {name : String}
    (h : (m.noteAll notes).Holds name) : m.Holds name ∨ Rules.IsTypeName name := by
  induction notes generalizing m with
  | nil => exact .inl h
  | cons n notes ih =>
    rcases ih (m := m.note n) h with hnote | hname
    · exact hnote.note
    · exact .inr hname

end Manifest

/-- The type that is found in a text is the one that the text declares first, and no type is found
where it declares none. So every name that is ever recorded is the name of a type. -/
theorem declarations_scanned :
    (∀ content name, Rules.declaredType? content = some name ↔
      Rules.DeclaresFirst content.toList name) ∧
    (∀ content, Rules.declaredType? content = none ↔
      ∀ start name, ¬Rules.DeclaresAt content.toList start name) ∧
    ∀ notes name, (Manifest.ofNotes notes).Holds name → Rules.IsTypeName name := by
  refine ⟨fun _ _ => Rules.declaredType?_eq_some, fun _ => Rules.declaredType?_eq_none, ?_⟩
  intro notes name h
  exact (Manifest.Holds.noteAll (m := Manifest.empty) h).resolve_left (Manifest.not_holds_empty name)

end Crosswalk
