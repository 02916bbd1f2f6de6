import Crosswalk.Proofs.Pattern.Words
import Crosswalk.Rules.Declarations

namespace Crosswalk

open Text

theorem Text.not_isWord_of_blank {c : Char} (h : isBlank c = true) : isWord c = false := by
  obtain ⟨r, hr, hc⟩ := List.any_eq_true.1 h
  have hall : ∀ r ∈ blankRanges, ∀ n ∈ List.range' r.1 (r.2 + 1 - r.1),
      isWord (Char.ofNat n) = false := by decide +kernel
  rw [Bool.and_eq_true, decide_eq_true_eq, decide_eq_true_eq] at hc
  rw [← Char.ofNat_toNat c]
  exact hall r hr c.toNat (List.mem_range'_1.2 (by omega))

namespace Pattern

variable {α : Type} {member : Char → Bool} {k : Place → Option α}

theorem runMany_greedy {before s : List Char}
    (h : (k ⟨(s.takeWhile member).reverse ++ before, s.dropWhile member⟩).isSome = true ∨
      ∀ before c after, member c = true → k ⟨before, c :: after⟩ = none) :
    runMany member k before s = k ⟨(s.takeWhile member).reverse ++ before, s.dropWhile member⟩ := by
  induction s generalizing before with
  | nil => rfl
  | cons c s ih =>
    rw [runMany]
    cases hc : member c with
    | false => simp [hc]
    | true =>
      simp only [List.takeWhile_cons_of_pos hc, List.dropWhile_cons_of_pos hc, List.reverse_cons,
        List.append_assoc, List.singleton_append] at h ⊢
      rw [if_pos trivial, ih h]
      rcases h with hsome | hnone
      · obtain ⟨a, ha⟩ := Option.isSome_iff_exists.1 hsome
        rw [ha]
        rfl
      · rw [hnone before c s hc]
        cases k ⟨(s.takeWhile member).reverse ++ c :: before, s.dropWhile member⟩ <;> rfl

theorem run_someBlanks {k : Place → Captures → Option α} (caps : Captures)
    (hk : ∀ before c after, isBlank c = true → k ⟨before, c :: after⟩ caps = none)
    (before s : List Char) :
    someBlanks.run ⟨before, s⟩ caps k = if s.head?.any isBlank then
      k ⟨(s.takeWhile isBlank).reverse ++ before, s.dropWhile isBlank⟩ caps else none := by
  cases s with
  | nil => rfl
  | cons b s =>
    have hhead : (b :: s).head?.any isBlank = isBlank b := rfl
    simp only [someBlanks, atLeastOne, run]
    rw [hhead]
    split
    · next hb =>
      rw [runMany_greedy (.inr hk), List.takeWhile_cons_of_pos hb, List.dropWhile_cons_of_pos hb,
        List.reverse_cons, List.append_assoc, List.singleton_append]
    · rfl

end Pattern

namespace Rules

/-- A capital letter, then letters, digits and underscores. -/
def IsTypeName (name : String) : Prop :=
  ∃ c rest, name.toList = c :: rest ∧ isUpper c = true ∧ ∀ x ∈ rest, isIdentifierChar x = true

theorem isWord_of_identifierChar {c : Char} (h : isIdentifierChar c = true) :
    Text.isWord c = true := by
  have hascii : c.toNat < 0x80 := by
    rw [isIdentifierChar, Bool.or_eq_true, beq_iff_eq] at h
    rcases h with h | rfl
    · simp only [Char.isAlphanum, Char.isAlpha, Char.isUpper, Char.isLower, Char.isDigit,
        Bool.or_eq_true, Bool.and_eq_true, decide_eq_true_eq, UInt32.le_iff_toNat_le] at h
      have hval : c.toNat = c.val.toNat := rfl
      simp at h
      omega
    · decide
  rw [Text.isWord, if_pos hascii]
  exact h

theorem isIdentifierChar_of_upper {c : Char} (h : isUpper c = true) : isIdentifierChar c = true := by
  simp only [isUpper, Bool.and_eq_true, decide_eq_true_eq] at h
  have hupper : c.isUpper = true := decide_eq_true h
  simp [isIdentifierChar, Char.isAlphanum, Char.isAlpha, hupper]

theorem IsTypeName.word {name : String} (h : IsTypeName name) : Text.Word name.toList := by
  obtain ⟨c, rest, hname, hc, hrest⟩ := h
  rw [hname]
  refine ⟨List.cons_ne_nil c rest, List.all_eq_true.2 fun x hx => isWord_of_identifierChar ?_⟩
  rcases List.mem_cons.1 hx with rfl | hx
  · exact isIdentifierChar_of_upper hc
  · exact hrest x hx

def nameBehind? (s : List Char) : Option (List Char) :=
  if s.head?.any isBlank then
    match s.dropWhile isBlank with
    | c :: rest => if isUpper c then some (c :: rest.takeWhile isIdentifierChar) else none
    | [] => none
  else none

def nameAt? (s : List Char) : Option (List Char) :=
  typeKeywords.findSome? fun w => (w.toList.isPrefixOf? s).bind nameBehind?

/-- The first name that is declared where no word goes on. -/
def scanName? : (last : Option Char) → List Char → Option (List Char)
  | _, [] => none
  | last, c :: s => (if last.any isWord then none else nameAt? (c :: s)) <|> scanName? (some c) s

theorem run_capital {α : Type} (p : Place) (caps : Captures) {k : Place → Captures → Option α}
    (hk : ∀ q caps, (k q caps).isSome = true) :
    (Pattern.group 1 (.seq (.one isUpper) (.many isIdentifierChar))).run p caps k
      = match p.after with
        | c :: rest =>
          if isUpper c then
            let stop : Place := ⟨(rest.takeWhile isIdentifierChar).reverse ++ c :: p.before,
              rest.dropWhile isIdentifierChar⟩
            k stop ((1, p, stop) :: caps)
          else none
        | [] => none := by
  obtain ⟨before, after⟩ := p
  cases after with
  | nil => rfl
  | cons c rest =>
    simp only [Pattern.run]
    split
    · exact Pattern.runMany_greedy (.inl (hk _ _))
    · rfl

theorem not_isUpper_of_blank {c : Char} (h : isBlank c = true) : isUpper c = false := by
  cases hc : isUpper c with
  | false => rfl
  | true =>
    have hword := isWord_of_identifierChar (isIdentifierChar_of_upper hc)
    rw [not_isWord_of_blank h] at hword
    cases hword

theorem since_capital (before after : List Char) (c : Char) (rest : List Char) :
    Place.since ⟨before, c :: rest⟩
        ⟨(rest.takeWhile isIdentifierChar).reverse ++ c :: before, after⟩
      = c :: rest.takeWhile isIdentifierChar := by
  have happend :=
    Pattern.since_append (c :: rest.takeWhile isIdentifierChar) before (c :: rest) after
  rwa [List.reverse_cons, List.append_assoc, List.singleton_append] at happend

/-- Behind a keyword the pattern finds just the name that blanks and a capital letter open. -/
theorem run_nameBehind (before s : List Char) (start : Place) :
    ((Pattern.sequence [Pattern.someBlanks,
        .group 1 (.seq (.one isUpper) (.many isIdentifierChar))]).run ⟨before, s⟩ []
          fun stop caps => some (Match.mk start stop caps)).map Match.firstGroup?
      = (nameBehind? s).map some := by
  have hcapital (p : Place) := run_capital p []
    (k := fun stop caps => some (Match.mk start stop caps)) fun _ _ => rfl
  rw [Pattern.run_sequence, Pattern.run_someBlanks, nameBehind?]
  · split
    · rw [Pattern.sequence, hcapital]
      cases s.dropWhile isBlank with
      | nil => rfl
      | cons c rest =>
        simp only
        split
        · simp [Match.firstGroup?, Match.group?, since_capital]
        · rfl
    · rfl
  · intro before c after hc
    rw [Pattern.sequence, hcapital]
    simp [not_isUpper_of_blank hc]

theorem isTypeName_of_behind {s name : List Char} (h : nameBehind? s = some name) :
    IsTypeName (String.ofList name) := by
  rw [nameBehind?] at h
  split at h
  · split at h
    · next c rest _ =>
      split at h
      · next hupper =>
        obtain rfl := Option.some.inj h
        exact ⟨c, _, String.toList_ofList, hupper, fun x hx => List.mem_takeWhile_imp hx⟩
      · cases h
    · cases h
  · cases h

theorem nameAt?_some {s name : List Char} (h : nameAt? s = some name) :
    ∃ w ∈ typeKeywords, ∃ rest, s = w.toList ++ rest ∧ nameBehind? rest = some name := by
  obtain ⟨w, hw, hname⟩ := List.exists_of_findSome?_eq_some h
  obtain ⟨rest, hrest, hname⟩ := Option.bind_eq_some_iff.1 hname
  exact ⟨w, hw, rest, (List.isPrefixOf?_eq_some_iff_append_eq.1 hrest).symm, hname⟩

theorem typeKeywords_words : ∀ w ∈ typeKeywords, Word w.toList := by decide

theorem nameAt?_opens {s : List Char} (h : Opens s) : nameAt? s = none := by
  refine Option.eq_none_iff_forall_ne_some.2 fun name hname => ?_
  obtain ⟨w, hw, rest, rfl, -⟩ := nameAt?_some hname
  exact (typeKeywords_words w hw).not_opens rest h

theorem matchAt_typeDeclaration (last : Option Char) (s : List Char) :
    (typeDeclaration.matchAt (.behind last s)).map Match.firstGroup?
      = (if last.any isWord then none else nameAt? s).map some := by
  have hmatch : (typeDeclaration.matchAt (.behind last s)).map Match.firstGroup?
      = if (Place.behind last s).atBoundary then (nameAt? s).map some else none := by
    rw [typeDeclaration, Pattern.matchAt, Pattern.run_sequence, Pattern.run]
    split
    · rw [Pattern.run_sequence, Pattern.texts, Pattern.run_anyOf, List.findSome?_map, nameAt?,
        List.map_findSome?, List.map_findSome?]
      refine congrArg (List.findSome? · typeKeywords) (funext fun w => ?_)
      simp only [Function.comp_apply, Pattern.run_text, Option.map_bind]
      refine congrArg (Option.bind _) (funext fun rest => ?_)
      exact run_nameBehind _ rest _
    · rfl
  rw [hmatch]
  -- A keyword starts with a word character, so that it stands at a boundary unless a word goes on.
  by_cases hopens : Opens s
  · rw [nameAt?_opens hopens, ite_self]
    split <;> rfl
  · have hlast : last.toList.head?.any isWord = last.any isWord := by cases last <;> rfl
    rw [Opens, Bool.not_eq_false] at hopens
    rw [Place.atBoundary, Place.behind, isBoundary, hlast, hopens]
    cases last.any isWord <;> rfl

theorem findFrom_typeDeclaration (last : Option Char) (s : List Char) :
    (typeDeclaration.findFrom last s).map Match.firstGroup? = (scanName? last s).map some := by
  induction s generalizing last with
  | nil =>
    rw [Pattern.findFrom, matchAt_typeDeclaration, nameAt?_opens (show Opens [] from rfl), ite_self]
    rfl
  | cons c s ih =>
    have hmatch := matchAt_typeDeclaration last (c :: s)
    have ih := ih (some c)
    rw [Pattern.findFrom, scanName?]
    cases hhere : (if last.any isWord then none else nameAt? (c :: s)) with
    | none =>
      rw [hhere, Option.map_none, Option.map_eq_none_iff] at hmatch
      rw [hmatch]
      exact ih
    | some name =>
      rw [hhere] at hmatch
      obtain ⟨m, hm, hgroup⟩ := Option.map_eq_some_iff.1 hmatch
      rw [hm]
      exact congrArg some hgroup

theorem declaredType?_scan (content : String) :
    declaredType? content = (scanName? none content.toList).map String.ofList := by
  have hfind := congrArg (Option.bind · id) (findFrom_typeDeclaration none content.toList)
  simp only [Option.bind_map, Function.id_comp, Option.bind_fun_some] at hfind
  rw [declaredType?, Pattern.find?, hfind]

theorem scanName?_isTypeName {last : Option Char} {s name : List Char}
    (h : scanName? last s = some name) : IsTypeName (String.ofList name) := by
  induction s generalizing last with
  | nil => cases h
  | cons c s ih =>
    rcases (Option.orElse_eq_some ..).1 h with hhere | ⟨-, hlater⟩
    · split at hhere
      · cases hhere
      · obtain ⟨_, _, rest, _, hbehind⟩ := nameAt?_some hhere
        exact isTypeName_of_behind hbehind
    · exact ih hlater

theorem declaredType?_isTypeName {content name : String} (h : declaredType? content = some name) :
    IsTypeName name := by
  rw [declaredType?_scan] at h
  obtain ⟨chars, hchars, rfl⟩ := Option.map_eq_some_iff.1 h
  exact scanName?_isTypeName hchars

end Rules

end Crosswalk
