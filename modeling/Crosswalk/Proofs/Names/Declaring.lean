import Crosswalk.Proofs.Names.Scanner

namespace Crosswalk

open Text

namespace Text

theorem Word.not_blank {c : Char} {w : List Char} (h : Word (c :: w)) : isBlank c = false := by
  refine Bool.eq_false_iff.2 fun hc => ?_
  have hall := h.all
  rw [List.all_cons, not_isWord_of_blank hc] at hall
  cases hall

theorem IsPiece.allBlank {c : Char} {w : List Char} (h : IsPiece (c :: w)) :
    allBlank (c :: w) = isBlank c := by
  rw [Text.allBlank]
  obtain hword | ⟨d, hd, -⟩ := h
  · rw [List.all_cons, hword.not_blank, Bool.false_and]
  · obtain ⟨rfl, rfl⟩ := List.cons.inj hd
    rw [List.all_cons, List.all_nil, Bool.and_true]

theorem Word.allBlank {w : List Char} (h : Word w) : Text.allBlank w = false := by
  cases w with
  | nil => exact absurd rfl h.nonempty
  | cons c w => rw [IsPiece.allBlank (.inl h), h.not_blank]

theorem Cut.opens_tail {w : List Char} {l : List (List Char)} (h : Cut (w :: l)) (hw : Word w) :
    Opens l.flatten :=
  Spelling.opens_flatten (fun v hv => h.pieces v (List.mem_cons_of_mem w hv))
    fun v hv hword => (List.isChain_cons.1 h.apart).1 v hv ⟨hw, hword⟩

end Text

namespace Rules

def isCapitalised (w : List Char) : Bool := w.head?.any isUpper

def wordBehind? (l : List (List Char)) : Option (List Char) :=
  if l.head?.any allBlank then
    (l.dropWhile allBlank).head?.filter isCapitalised
  else none

/-- The first capitalised word behind a keyword, in a text that is given by its pieces. -/
def declaredWord? : List (List Char) → Option (List Char)
  | [] => none
  | w :: l => (if String.ofList w ∈ typeKeywords then wordBehind? l else none) <|> declaredWord? l

theorem head?_flatten_blank {l : List (List Char)} (hl : ∀ w ∈ l, IsPiece w) :
    l.flatten.head?.any isBlank = l.head?.any allBlank := by
  cases l with
  | nil => rfl
  | cons w l =>
    have hpiece := hl w List.mem_cons_self
    cases w with
    | nil => exact absurd rfl hpiece.nonempty
    | cons c w => exact hpiece.allBlank.symm

theorem dropWhile_flatten_blank {l : List (List Char)} (hl : ∀ w ∈ l, IsPiece w) :
    l.flatten.dropWhile isBlank = (l.dropWhile allBlank).flatten := by
  induction l with
  | nil => rfl
  | cons w l ih =>
    have hpiece := hl w List.mem_cons_self
    have ih := ih fun v hv => hl v (List.mem_cons_of_mem w hv)
    rw [List.flatten_cons]
    by_cases hw : allBlank w = true
    · rw [List.dropWhile_append_of_pos (List.all_eq_true.1 hw), ih, List.dropWhile_cons_of_pos hw]
    · rw [List.dropWhile_cons_of_neg hw, List.flatten_cons]
      cases w with
      | nil => exact absurd rfl hpiece.nonempty
      | cons c w =>
        rw [hpiece.allBlank] at hw
        rw [List.cons_append, List.dropWhile_cons_of_neg hw]

theorem takeWhile_word {w t : List Char} (ht : Opens t) :
    (w ++ t).takeWhile isIdentifierChar = w.takeWhile isIdentifierChar := by
  have hnil : t.takeWhile isIdentifierChar = [] := by
    cases t with
    | nil => rfl
    | cons c t =>
      refine List.takeWhile_cons_of_neg fun hc => ?_
      simp [Opens, isWord_of_identifierChar hc] at ht
  rw [List.takeWhile_append, hnil, List.append_nil]
  split
  · next hlength => exact ((List.takeWhile_prefix _).eq_of_length hlength).symm
  · rfl

theorem IsTypeName.capitalised {name : String} (h : IsTypeName name) :
    isCapitalised name.toList = true := by
  obtain ⟨c, rest, hname, hc, -⟩ := h
  rw [hname]
  exact hc

theorem word_of_capitalised {w : List Char} (h : IsPiece w) (hw : isCapitalised w = true) :
    Word w := by
  cases w with
  | nil => cases hw
  | cons c w =>
    exact h.word_of_mem List.mem_cons_self (isWord_of_identifierChar (isIdentifierChar_of_upper hw))

theorem nameBehind?_flatten {l : List (List Char)} (hl : Cut l) :
    nameBehind? l.flatten = (wordBehind? l).map (·.takeWhile isIdentifierChar) := by
  have hrest : Cut (l.dropWhile allBlank) :=
    ⟨fun w hw => hl.pieces w ((List.dropWhile_suffix _).subset hw),
      hl.apart.suffix (List.dropWhile_suffix _)⟩
  rw [nameBehind?, head?_flatten_blank hl.pieces, dropWhile_flatten_blank hl.pieces, wordBehind?]
  split
  · generalize l.dropWhile allBlank = rest at hrest
    cases rest with
    | nil => rfl
    | cons w rest =>
      have hpiece := hrest.pieces w List.mem_cons_self
      cases w with
      | nil => exact absurd rfl hpiece.nonempty
      | cons c w =>
        simp only [List.flatten_cons, List.cons_append, List.head?_cons]
        cases hc : isUpper c with
        | false => simp [Option.filter, isCapitalised, hc]
        | true =>
          have hopens := hrest.opens_tail (word_of_capitalised hpiece hc)
          have hfirst := List.takeWhile_cons_of_pos (isIdentifierChar_of_upper hc) (l := w)
          simp [Option.filter, isCapitalised, hc, takeWhile_word hopens, hfirst]
  · rfl

theorem opens_behind {s name : List Char} (h : nameBehind? s = some name) : Opens s := by
  rw [nameBehind?] at h
  split at h
  · next hblank =>
    cases s with
    | nil => cases hblank
    | cons b s => simpa [Opens] using not_isWord_of_blank hblank
  · cases h

theorem nameAt?_word {u t : List Char} (hu : Word u) (ht : Opens t) :
    nameAt? (u ++ t) = if String.ofList u ∈ typeKeywords then nameBehind? t else none := by
  have hname {name : List Char} (h : nameAt? (u ++ t) = some name) :
      String.ofList u ∈ typeKeywords ∧ nameBehind? t = some name := by
    obtain ⟨w, hw, rest, heq, hbehind⟩ := nameAt?_some h
    -- A blank follows the keyword, so the keyword is a whole word of the text.
    obtain ⟨rfl, rfl⟩ := hu.whole_unique (typeKeywords_words w hw) ht (opens_behind hbehind) heq
    exact ⟨by rwa [String.ofList_toList], hbehind⟩
  split
  · next hmem =>
    refine Option.ext fun name => ⟨fun h => (hname h).2, fun hbehind => ?_⟩
    have hcut : (String.ofList u).toList.isPrefixOf? (u ++ t) = some t :=
      List.isPrefixOf?_eq_some_iff_append_eq.2 (by rw [String.toList_ofList])
    have hsome : (nameAt? (u ++ t)).isSome = true :=
      List.findSome?_isSome_iff.2 ⟨_, hmem, by rw [hcut, Option.bind_some, hbehind]; rfl⟩
    obtain ⟨found, hfound⟩ := Option.isSome_iff_exists.1 hsome
    rw [hfound, ← (hname hfound).2, hbehind]
  · next hmem => exact Option.eq_none_iff_forall_ne_some.2 fun name h => hmem (hname h).1

theorem scanName?_inside {c : Char} (hc : isWord c = true) {v : List Char}
    (hv : v.all isWord = true) (s : List Char) :
    ∃ c', scanName? (some c) (v ++ s) = scanName? (some c') s := by
  induction v generalizing c with
  | nil => exact ⟨c, rfl⟩
  | cons d v ih =>
    rw [List.all_cons, Bool.and_eq_true] at hv
    obtain ⟨c', hscan⟩ := ih hv.1 hv.2
    have hlast : (some c).any isWord = true := hc
    refine ⟨c', ?_⟩
    rw [List.cons_append, scanName?, hlast, hscan]
    rfl

/-- The name that the scan finds is the beginning of the first capitalised word behind a keyword. -/
theorem scanName?_flatten {l : List (List Char)} (hl : Cut l) {last : Option Char}
    (hlast : last.any isWord = true → ∀ w ∈ l.head?, ¬Word w) :
    scanName? last l.flatten = (declaredWord? l).map (·.takeWhile isIdentifierChar) := by
  induction l generalizing last with
  | nil => rfl
  | cons w l ih =>
    obtain ⟨hnext, hchain⟩ := List.isChain_cons.1 hl.apart
    have htail : Cut l := ⟨fun v hv => hl.pieces v (List.mem_cons_of_mem _ hv), hchain⟩
    obtain hword | ⟨c, rfl, hc⟩ := hl.pieces w List.mem_cons_self
    · have hout : last.any isWord = false :=
        Bool.eq_false_iff.2 fun hin => hlast hin w rfl hword
      have hname := nameAt?_word hword (hl.opens_tail hword)
      cases w with
      | nil => exact absurd rfl hword.nonempty
      | cons c v =>
        have hall := hword.all
        rw [List.all_cons, Bool.and_eq_true] at hall
        obtain ⟨c', hinside⟩ := scanName?_inside hall.1 hall.2 l.flatten
        rw [List.flatten_cons, List.cons_append] at *
        rw [scanName?, hout, if_neg Bool.false_ne_true, hname, hinside, declaredWord?,
          nameBehind?_flatten htail, ih htail fun _ v hv hv' => hnext v hv ⟨hword, hv'⟩]
        split <;> simp [Option.map_or]
    · have hopens : Opens ([c] ++ l.flatten) := by simpa [Opens] using hc
      have hout : (some c).any isWord = true → ∀ v ∈ l.head?, ¬Word v := by
        intro hin
        rw [Option.any_some, hc] at hin
        cases hin
      rw [List.flatten_cons, List.singleton_append] at *
      rw [scanName?, nameAt?_opens hopens, ite_self, declaredWord?,
        if_neg (Spelling.not_mem_of_other typeKeywords_words hc), ih htail hout]
      rfl

theorem typeKeywords_small : ∀ w ∈ typeKeywords, isCapitalised w.toList = false := by decide

/-- Words are replaced one by one, and what is replaced and what stands for it is capitalised. -/
structure Recapitalises (f : String → String) : Prop where
  keeps : KeepsWords f
  capital : ∀ w, f w ≠ w → isCapitalised w.toList = true ∧ isCapitalised (f w).toList = true

section Replaced

variable {f : String → String} (hf : Recapitalises f)
include hf

theorem Recapitalises.piece {w : List Char} (hw : IsPiece w) :
    (String.ofList (onWord f w) ∈ typeKeywords ↔ String.ofList w ∈ typeKeywords) ∧
      allBlank (onWord f w) = allBlank w ∧ isCapitalised (onWord f w) = isCapitalised w := by
  obtain hword | ⟨c, rfl, hc⟩ := hw
  · rw [hword.onWord]
    by_cases hsame : f (String.ofList w) = String.ofList w
    · rw [hsame, String.toList_ofList]
      exact ⟨Iff.rfl, rfl, rfl⟩
    · obtain ⟨hbefore, hafter⟩ := hf.capital _ hsame
      rw [String.toList_ofList] at hbefore
      have hnew : Word (f (String.ofList w)).toList := hf.keeps _ (by rwa [String.toList_ofList])
      refine ⟨iff_of_false (fun h => ?_) (fun h => ?_), ?_, ?_⟩
      · have := typeKeywords_small _ h
        rw [String.toList_ofList, hafter] at this
        cases this
      · have := typeKeywords_small _ h
        rw [String.toList_ofList, hbefore] at this
        cases this
      · rw [hnew.allBlank, hword.allBlank]
      · rw [hafter, hbefore]
  · have hother : onWord f [c] = [c] := if_neg (by simp [hc])
    rw [hother]
    exact ⟨Iff.rfl, rfl, rfl⟩

theorem Recapitalises.dropWhile_map {l : List (List Char)} (hl : ∀ w ∈ l, IsPiece w) :
    (l.map (onWord f)).dropWhile allBlank = (l.dropWhile allBlank).map (onWord f) := by
  induction l with
  | nil => rfl
  | cons w l ih =>
    have htail : ∀ v ∈ l, IsPiece v := fun v hv => hl v (List.mem_cons_of_mem w hv)
    rw [List.map_cons, List.dropWhile_cons, List.dropWhile_cons,
      (hf.piece (hl w List.mem_cons_self)).2.1, ih htail]
    split <;> rfl

theorem Recapitalises.wordBehind?_map {l : List (List Char)} (hl : ∀ w ∈ l, IsPiece w) :
    wordBehind? (l.map (onWord f)) = (wordBehind? l).map (onWord f) := by
  have hblank : (l.map (onWord f)).head?.any allBlank = l.head?.any allBlank := by
    cases l with
    | nil => rfl
    | cons w l => exact (hf.piece (hl w List.mem_cons_self)).2.1
  rw [wordBehind?, wordBehind?, hblank, hf.dropWhile_map hl]
  split
  · cases hrest : l.dropWhile allBlank with
    | nil => rfl
    | cons w rest =>
      have hmem : w ∈ l := (List.dropWhile_suffix _).subset (hrest ▸ List.mem_cons_self)
      have hcapital := (hf.piece (hl w hmem)).2.2
      simp only [List.map_cons, List.head?_cons, Option.filter, hcapital]
      split <;> rfl
  · rfl

theorem Recapitalises.declaredWord?_map {l : List (List Char)} (hl : ∀ w ∈ l, IsPiece w) :
    declaredWord? (l.map (onWord f)) = (declaredWord? l).map (onWord f) := by
  induction l with
  | nil => rfl
  | cons w l ih =>
    have htail : ∀ v ∈ l, IsPiece v := fun v hv => hl v (List.mem_cons_of_mem w hv)
    rw [List.map_cons, declaredWord?, declaredWord?, hf.wordBehind?_map htail, ih htail]
    simp only [(hf.piece (hl w List.mem_cons_self)).1]
    split <;> simp [Option.map_or]

end Replaced

def declared? (content : String) : Option String :=
  (declaredWord? (pieces content.toList)).map String.ofList

def nameOf (w : String) : String := String.ofList (w.toList.takeWhile isIdentifierChar)

theorem IsTypeName.nameOf {name : String} (h : IsTypeName name) : Rules.nameOf name = name := by
  obtain ⟨c, rest, hname, hc, hrest⟩ := h
  have hall : ∀ x ∈ name.toList, isIdentifierChar x = true := by
    rw [hname]
    exact List.forall_mem_cons.2 ⟨isIdentifierChar_of_upper hc, hrest⟩
  rw [Rules.nameOf, List.takeWhile_eq_self_iff.2 hall, String.ofList_toList]

theorem declaredType?_eq (content : String) :
    declaredType? content = (declared? content).map nameOf := by
  have hscan := scanName?_flatten (pieces_cut content.toList)
    (fun (h : (none : Option Char).any isWord = true) => by cases h)
  rw [pieces_flatten] at hscan
  rw [declaredType?_scan, hscan, declared?, Option.map_map, Option.map_map]
  refine congrArg (Option.map · _) (funext fun w => ?_)
  simp only [Function.comp_apply, nameOf, String.toList_ofList]

theorem declaredType?_keyword {w name : String} (hw : w ∈ typeKeywords) (hname : IsTypeName name) :
    declaredType? (w ++ " " ++ name) = some name := by
  obtain ⟨c, rest, hchars, hc, hrest⟩ := hname
  have hbehind : nameBehind? (' ' :: name.toList) = some name.toList := by
    have hfirst : isBlank c = false := by
      refine Bool.eq_false_iff.2 fun hblank => ?_
      rw [not_isUpper_of_blank hblank] at hc
      cases hc
    rw [nameBehind?, hchars]
    simp [show isBlank ' ' = true from rfl, hfirst, hc, List.takeWhile_eq_self_iff.2 hrest]
  have hword := typeKeywords_words w hw
  have hopens : Opens (' ' :: name.toList) := (by decide : isWord ' ' = false)
  have hat := nameAt?_word hword hopens
  rw [String.ofList_toList, if_pos hw, hbehind] at hat
  rw [declaredType?_scan, String.toList_append, String.toList_append, List.append_assoc]
  have hscan : scanName? none (w.toList ++ ' ' :: name.toList) = some name.toList := by
    obtain ⟨first, more, hstart⟩ := List.exists_cons_of_ne_nil hword.nonempty
    rw [hstart, List.cons_append] at hat ⊢
    rw [scanName?, Option.any_none, if_neg Bool.false_ne_true, hat]
    rfl
  exact (congrArg (Option.map String.ofList) hscan).trans
    (congrArg some String.ofList_toList)

theorem declaredWord?_mem {l : List (List Char)} {w : List Char} (h : declaredWord? l = some w) :
    w ∈ l ∧ isCapitalised w = true := by
  induction l with
  | nil => cases h
  | cons v l ih =>
    rcases (Option.orElse_eq_some ..).1 h with hbehind | ⟨-, hlater⟩
    · split at hbehind
      · rw [wordBehind?] at hbehind
        split at hbehind
        · obtain ⟨hhead, hcapital⟩ := Option.filter_eq_some_iff.1 hbehind
          have hmem := (List.dropWhile_suffix _).subset (List.mem_of_head? hhead)
          exact ⟨List.mem_cons_of_mem v hmem, hcapital⟩
        · cases hbehind
      · cases hbehind
    · exact ⟨List.mem_cons_of_mem v (ih hlater).1, (ih hlater).2⟩

theorem Recapitalises.declared?_mapWords {f : String → String} (hf : Recapitalises f)
    (content : String) :
    declared? (String.ofList (mapWords f content.toList)) = (declared? content).map f := by
  have hcut := pieces_cut content.toList
  rw [declared?, String.toList_ofList, pieces_mapWords hf.keeps, hf.declaredWord?_map hcut.pieces,
    declared?]
  cases hfound : declaredWord? (pieces content.toList) with
  | none => rfl
  | some w =>
    have hmem := declaredWord?_mem hfound
    have hword := word_of_capitalised (hcut.pieces w hmem.1) hmem.2
    rw [Option.map_some, Option.map_some, Option.map_some, Option.map_some, hword.onWord,
      String.ofList_toList]

end Rules

end Crosswalk
