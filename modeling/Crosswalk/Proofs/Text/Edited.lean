import Crosswalk.Proofs.Names.Scanner

namespace Crosswalk.Text

theorem opens_cons {c : Char} {s : List Char} : Opens (c :: s) ↔ isWord c = false := Iff.rfl

theorem opens_of_append {s t : List Char} (h : Opens (s ++ t)) : Opens s := by
  cases s with
  | nil => rfl
  | cons c s => exact h

theorem append_apart {c : Char} {u s x t : List Char} (hc : c ∉ u) (h : u ++ s = x ++ c :: t) :
    ∃ x', x = u ++ x' ∧ s = x' ++ c :: t := by
  rcases List.append_eq_append_iff.1 h with ⟨x', rfl, hs⟩ | ⟨u', rfl, hu⟩
  · exact ⟨x', rfl, hs⟩
  · cases u' with
    | nil => exact ⟨[], by simp, by simpa using hu.symm⟩
    | cons d u' =>
      obtain ⟨rfl, -⟩ := List.cons.inj hu
      exact absurd (List.mem_append_right x List.mem_cons_self) hc

theorem Word.free {c : Char} {w : List Char} (h : Word w) (hc : isWord c = false) : c ∉ w := by
  intro hmem
  rw [List.all_eq_true.1 h.all c hmem] at hc
  cases hc

theorem Word.getLast? {w : List Char} (h : Word w) : w.getLast?.any isBlank = false := by
  cases hlast : w.getLast? with
  | none => rfl
  | some c =>
    refine Bool.eq_false_iff.2 fun hc => ?_
    exact h.free (not_isWord_of_blank hc) (List.mem_of_getLast? hlast)

/-- Text with another character behind each of its words, and all of them out of a list. -/
inductive Phrase (ws : List String) : List Char → Prop
  | nil : Phrase ws []
  | other {c : Char} {s : List Char} (hc : isWord c = false) (h : Phrase ws s) : Phrase ws (c :: s)
  | word {w : String} {c : Char} {s : List Char} (hw : Word w.toList) (hmem : w ∈ ws)
      (hc : isWord c = false) (h : Phrase ws (c :: s)) : Phrase ws (w.toList ++ c :: s)

namespace Phrase

variable {ws ws' : List String} {s t : List Char}

theorem append (h : Phrase ws s) (h' : Phrase ws t) : Phrase ws (s ++ t) := by
  induction h with
  | nil => exact h'
  | other hc _ ih => exact .other hc ih
  | word hw hmem hc _ ih =>
    rw [List.append_assoc]
    exact .word hw hmem hc ih

theorem mono (h : Phrase ws s) (hws : ws ⊆ ws') : Phrase ws' s := by
  induction h with
  | nil => exact .nil
  | other hc _ ih => exact .other hc ih
  | word hw hmem hc _ ih => exact .word hw (hws hmem) hc ih

theorem others (h : ∀ c ∈ s, isWord c = false) : Phrase ws s := by
  induction s with
  | nil => exact .nil
  | cons c s ih =>
    obtain ⟨hc, hs⟩ := List.forall_mem_cons.1 h
    exact .other hc (ih hs)

theorem blanks (h : ∀ c ∈ s, isBlank c = true) : Phrase ws s :=
  others fun c hc => not_isWord_of_blank (h c hc)

theorem getLast? (h : Phrase ws s) : s.getLast?.any isWord = false := by
  induction h with
  | nil => rfl
  | @other c s hc _ ih =>
    cases s with
    | nil => simpa using hc
    | cons d s => rwa [List.getLast?_cons_cons]
  | @word w c s _ _ _ _ ih => rwa [List.getLast?_append_of_ne_nil _ (List.cons_ne_nil c s)]

theorem unique {x y : List Char} {u v : String} (hx : Phrase ws x) (hy : Phrase ws y)
    (hu : Word u.toList) (hv : Word v.toList) (huws : u ∉ ws) (hvws : v ∉ ws) (hs : Opens s)
    (ht : Opens t) (h : x ++ (u.toList ++ s) = y ++ (v.toList ++ t)) : u = v ∧ s = t := by
  induction hx generalizing y with
  | nil =>
    cases hy with
    | nil =>
      obtain ⟨huv, hst⟩ := hu.whole_unique hv hs ht h
      exact ⟨String.toList_inj.1 huv, hst⟩
    | @other c y hc _ =>
      exact absurd (show Opens ([] ++ (u.toList ++ s)) by rw [h]; exact hc) (hu.not_opens s)
    | @word w c y hw hmem hc hy =>
      rw [List.nil_append, List.append_assoc] at h
      obtain ⟨huw, -⟩ := hu.whole_unique hw hs (opens_cons.2 hc) h
      exact absurd (String.toList_inj.1 huw ▸ hmem) huws
  | @other c x hc _ ih =>
    cases hy with
    | nil =>
      exact absurd (show Opens ([] ++ (v.toList ++ t)) by rw [← h]; exact hc) (hv.not_opens t)
    | other _ hy => exact ih hy (List.cons.inj h).2
    | @word w d y hw _ _ _ =>
      rw [List.append_assoc] at h
      exact absurd (show Opens (w.toList ++ _) by rw [← h]; exact hc) (hw.not_opens _)
  | @word w c x hw hmem hc _ ih =>
    cases hy with
    | nil =>
      rw [List.nil_append, List.append_assoc] at h
      obtain ⟨hwv, -⟩ := hw.whole_unique hv (opens_cons.2 hc) ht h
      exact absurd (String.toList_inj.1 hwv ▸ hmem) hvws
    | @other d y hd _ =>
      rw [List.append_assoc] at h
      exact absurd (show Opens (w.toList ++ _) by rw [h]; exact hd) (hw.not_opens _)
    | @word w' d y hw' _ hd hy =>
      rw [List.append_assoc, List.append_assoc] at h
      exact ih hy (hw.whole_unique hw' (opens_cons.2 hc) (opens_cons.2 hd) h).2

theorem behind (h : Phrase ws (s ++ t)) (ht : s.getLast?.any isWord = true → Opens t) :
    Phrase ws t := by
  generalize hz : s ++ t = z at h
  induction h generalizing s with
  | nil =>
    obtain ⟨-, rfl⟩ := List.append_eq_nil_iff.1 hz
    exact .nil
  | @other c z hc h ih =>
    cases s with
    | nil =>
      rw [List.nil_append] at hz
      exact hz ▸ .other hc h
    | cons d s =>
      refine ih (fun hs => ht ?_) (List.cons.inj hz).2
      cases s with
      | nil => cases hs
      | cons d s => rwa [List.getLast?_cons_cons]
  | @word w c z hw hmem hc h ih =>
    rcases List.append_eq_append_iff.1 hz with ⟨w', hw', rfl⟩ | ⟨s', rfl, hs'⟩
    · have hall := hw.all
      rw [hw', List.all_append, Bool.and_eq_true] at hall
      by_cases hs : s = []
      · subst hs
        rw [List.nil_append] at hw'
        exact hw' ▸ .word hw hmem hc h
      · cases w' with
        | nil => exact h
        | cons e w' =>
          -- The text would go on in the word.
          have hlast : s.getLast?.any isWord = true := by
            rw [List.getLast?_eq_some_getLast hs]
            exact List.all_eq_true.1 hall.1 _ (List.getLast_mem hs)
          exact absurd (ht hlast) (Word.not_opens ⟨List.cons_ne_nil e w', hall.2⟩ _)
    · refine ih (fun hs => ht ?_) hs'.symm
      cases s' with
      | nil => cases hs
      | cons d s' => rwa [List.getLast?_append_of_ne_nil _ (List.cons_ne_nil d s')]

end Phrase

/-- What is replaced by what: words, words together with the blanks behind them, and exclamation
marks. The blanks before and after are out of two sets. -/
structure Edits where
  words : List (String × String)
  openers : List (String × String)
  marks : List (String × String)
  gap : Char → Bool
  gap' : Char → Bool

namespace Edits

def flip (e : Edits) : Edits where
  words := e.words.map Prod.swap
  openers := e.openers.map Prod.swap
  marks := e.marks.map Prod.swap
  gap := e.gap'
  gap' := e.gap

def products (e : Edits) : List String := (e.words ++ e.openers).map Prod.snd

structure Sound (e : Edits) : Prop where
  words : ∀ edit ∈ e.words ++ e.openers, Word edit.1.toList ∧ Word edit.2.toList
  marks : ∀ edit ∈ e.marks, (edit.1 ≠ "" ∧ ∀ c ∈ edit.1.toList, c = '!') ∧
    edit.2 ≠ "" ∧ ∀ c ∈ edit.2.toList, c = '!'
  gap : ∀ c, e.gap c = true → isBlank c = true
  gap' : ∀ c, e.gap' c = true → isBlank c = true

end Edits

/-- The second text is the first one after some edits. `inside` says that a word goes on from the
text before. -/
inductive Edited (e : Edits) : (inside : Bool) → List Char → List Char → Prop
  | nil {inside : Bool} : Edited e inside [] []
  | plain {inside : Bool} {c : Char} {s t : List Char} (h : Edited e (isWord c) s t) :
      Edited e inside (c :: s) (c :: t)
  | word {w v : String} {s t : List Char} (hmem : (w, v) ∈ e.words) (hs : Opens s) (ht : Opens t)
      (h : Edited e true s t) : Edited e false (w.toList ++ s) (v.toList ++ t)
  | opener {w v : String} {b b' s t : List Char} (hmem : (w, v) ∈ e.openers) (hb : b ≠ [])
      (hgap : ∀ c ∈ b, e.gap c = true) (hb' : b' ≠ []) (hgap' : ∀ c ∈ b', e.gap' c = true)
      (h : Edited e false s t) :
      Edited e false (w.toList ++ (b ++ s)) (v.toList ++ (b' ++ t))
  | mark {inside : Bool} {w v : String} {s t : List Char} (hmem : (w, v) ∈ e.marks)
      (h : Edited e false s t) : Edited e inside (w.toList ++ s) (v.toList ++ t)

namespace Edited

variable {e : Edits} {inside : Bool} {s t : List Char} {c : Char}

theorem flip_flip (e : Edits) : e.flip.flip = e := by
  simp [Edits.flip, Function.comp_def]

theorem flip (h : Edited e inside s t) : Edited e.flip inside t s := by
  induction h with
  | nil => exact .nil
  | plain _ ih => exact .plain ih
  | word hmem hs ht _ ih => exact .word (List.mem_map.2 ⟨_, hmem, rfl⟩) ht hs ih
  | opener hmem hb hgap hb' hgap' _ ih =>
    exact .opener (List.mem_map.2 ⟨_, hmem, rfl⟩) hb' hgap' hb hgap ih
  | mark hmem _ ih => exact .mark (List.mem_map.2 ⟨_, hmem, rfl⟩) ih

theorem plains (h : Edited e inside s t) (x : List Char) {inside' : Bool}
    (hx : x.getLast?.elim inside' isWord = inside) : Edited e inside' (x ++ s) (x ++ t) := by
  induction x generalizing inside' with
  | nil =>
    obtain rfl := hx
    exact h
  | cons c x ih =>
    refine .plain (ih ?_)
    rw [← hx]
    cases x with
    | nil => rfl
    | cons d x => simp [List.getLast?_cons]

end Edited

namespace Edits.Sound

variable {e : Edits} {w v : String}

theorem flip (he : e.Sound) : e.flip.Sound where
  words := by
    intro edit hedit
    rw [Edits.flip, ← List.map_append] at hedit
    obtain ⟨back, hback, rfl⟩ := List.mem_map.1 hedit
    exact (he.words back hback).symm
  marks := by
    intro edit hedit
    obtain ⟨back, hback, rfl⟩ := List.mem_map.1 hedit
    exact (he.marks back hback).symm
  gap := he.gap'
  gap' := he.gap

theorem word (he : e.Sound) (h : (w, v) ∈ e.words) : Word w.toList ∧ Word v.toList :=
  he.words _ (List.mem_append_left _ h)

theorem opener (he : e.Sound) (h : (w, v) ∈ e.openers) : Word w.toList ∧ Word v.toList :=
  he.words _ (List.mem_append_right _ h)

theorem mark (he : e.Sound) (h : (w, v) ∈ e.marks) :
    (∃ w', w.toList = '!' :: w') ∧ ∃ v', v.toList = '!' :: v' := by
  have hone {u : String} (hu : u ≠ "" ∧ ∀ c ∈ u.toList, c = '!') : ∃ u', u.toList = '!' :: u' := by
    cases h : u.toList with
    | nil => exact absurd (String.toList_eq_nil_iff.1 h) hu.1
    | cons c u' =>
      obtain rfl := hu.2 c (h ▸ List.mem_cons_self)
      exact ⟨u', rfl⟩
  exact ⟨hone (he.marks _ h).1, hone (he.marks _ h).2⟩

end Edits.Sound

namespace Edited

variable {e : Edits} {inside : Bool} {s t : List Char} {c : Char}

theorem heads (he : e.Sound) (h : Edited e inside s t) : s.head? = t.head? ∨
    s.head?.any isWord = true ∧ t.head?.any isWord = true := by
  have hword {w u : List Char} (hw : Word w) : (w ++ u).head?.any isWord = true :=
    Bool.not_eq_false _ ▸ hw.not_opens u
  cases h with
  | nil | plain => exact .inl rfl
  | word hmem => exact .inr ⟨hword (he.word hmem).1, hword (he.word hmem).2⟩
  | opener hmem => exact .inr ⟨hword (he.opener hmem).1, hword (he.opener hmem).2⟩
  | mark hmem =>
    obtain ⟨⟨w', hw⟩, v', hv⟩ := he.mark hmem
    rw [hw, hv]
    exact .inl rfl

theorem head (he : e.Sound) (h : Edited e inside s t) :
    s.head?.any isWord = t.head?.any isWord := by
  rcases h.heads he with heq | ⟨hs, ht⟩
  · rw [heq]
  · rw [hs, ht]

theorem opens (he : e.Sound) (h : Edited e inside s t) (ht : Opens t) : Opens s := by
  rw [Opens, h.head he]
  exact ht

theorem other (he : e.Sound) (h : Edited e inside s (c :: t)) (hc : isWord c = false)
    (hmark : c ≠ '!') : ∃ s', s = c :: s' ∧ Edited e false s' t := by
  have hword {w u : List Char} (hw : Word w) : w ++ u ≠ c :: t :=
    fun heq => hw.not_opens u (heq ▸ opens_cons.2 hc)
  generalize hz : c :: t = z at h
  cases h with
  | nil => cases hz
  | plain h =>
    obtain ⟨rfl, rfl⟩ := List.cons.inj hz
    exact ⟨_, rfl, hc ▸ h⟩
  | word hmem => exact absurd hz.symm (hword (he.word hmem).2)
  | opener hmem => exact absurd hz.symm (hword (he.opener hmem).2)
  | mark hmem =>
    obtain ⟨-, v', hv⟩ := he.mark hmem
    rw [hv] at hz
    exact absurd (List.cons.inj hz).1 hmark

theorem rest (he : e.Sound) {u : List Char} (h : Edited e true s (u ++ t))
    (hu : u.all isWord = true) : ∃ s', s = u ++ s' ∧ Edited e true s' t := by
  induction u generalizing s with
  | nil => exact ⟨s, rfl, h⟩
  | cons c u ih =>
    rw [List.all_cons, Bool.and_eq_true] at hu
    generalize hz : c :: u ++ t = z at h
    cases h with
    | nil => cases hz
    | plain h =>
      obtain ⟨rfl, rfl⟩ := List.cons.inj hz
      rw [hu.1] at h
      obtain ⟨s', rfl, h'⟩ := ih h hu.2
      exact ⟨s', rfl, h'⟩
    | mark hmem =>
      obtain ⟨-, v', hv⟩ := he.mark hmem
      rw [hv] at hz
      obtain ⟨rfl, -⟩ := List.cons.inj hz
      exact absurd hu.1 (by decide)

theorem begun (he : e.Sound) {u : List Char} (h : Edited e inside s (u ++ t)) (hu : Word u)
    (hfresh : ∀ v ∈ e.products, ∀ rest, Opens rest → u ++ t ≠ v.toList ++ rest) :
    ∃ s', s = u ++ s' ∧ Edited e true s' t := by
  obtain ⟨c, u, rfl⟩ := List.exists_cons_of_ne_nil hu.nonempty
  have hall := hu.all
  rw [List.all_cons, Bool.and_eq_true] at hall
  generalize hz : c :: u ++ t = z at h hfresh
  cases h with
  | nil => cases hz
  | plain h =>
    obtain ⟨rfl, rfl⟩ := List.cons.inj hz
    rw [hall.1] at h
    obtain ⟨s', rfl, h'⟩ := h.rest he hall.2
    exact ⟨s', rfl, h'⟩
  | @word w v _ _ hmem _ ht =>
    exact absurd rfl (hfresh v (List.mem_map.2 ⟨_, List.mem_append_left _ hmem, rfl⟩) _ ht)
  | @opener w v b b' _ _ hmem _ _ hb' hgap' =>
    refine absurd rfl (hfresh v (List.mem_map.2 ⟨_, List.mem_append_right _ hmem, rfl⟩) _ ?_)
    obtain ⟨d, b', rfl⟩ := List.exists_cons_of_ne_nil hb'
    exact not_isWord_of_blank (he.gap' d (hgap' d List.mem_cons_self))
  | mark hmem =>
    obtain ⟨-, v', hv⟩ := he.mark hmem
    rw [hv] at hz
    obtain ⟨rfl, -⟩ := List.cons.inj hz
    exact absurd hall.1 (by decide)

/-- A word is there, or what it was replaced by. -/
theorem replaced (he : e.Sound) {u : String} (h : Edited e inside (u.toList ++ s) t)
    (hu : Word u.toList) (hs : Opens s) :
    ∃ v t', t = v.toList ++ t' ∧ Opens t' ∧ (v = u ∨ (u, v) ∈ e.words ++ e.openers) := by
  have hblank {b r : List Char} (hb : b ≠ []) (hall : ∀ c ∈ b, isBlank c = true) :
      Opens (b ++ r) := by
    obtain ⟨d, b, rfl⟩ := List.exists_cons_of_ne_nil hb
    exact not_isWord_of_blank (hall d List.mem_cons_self)
  generalize hz : u.toList ++ s = z at h
  cases h with
  | nil => exact absurd (List.append_eq_nil_iff.1 hz).1 hu.nonempty
  | @plain _ c _ t h =>
    obtain ⟨d, u', hu'⟩ := List.exists_cons_of_ne_nil hu.nonempty
    have hall := hu.all
    rw [hu', List.all_cons, Bool.and_eq_true] at hall
    rw [hu'] at hz
    obtain ⟨rfl, rfl⟩ := List.cons.inj hz
    rw [hall.1] at h
    obtain ⟨t', rfl, hrest⟩ := h.flip.rest he.flip hall.2
    exact ⟨u, t', by rw [hu', List.cons_append], hrest.opens he.flip hs, .inl rfl⟩
  | @word w v _ t hmem hs' ht =>
    obtain ⟨huw, -⟩ := hu.whole_unique (he.word hmem).1 hs hs' hz
    obtain rfl := String.toList_inj.1 huw
    exact ⟨v, t, rfl, ht, .inr (List.mem_append_left _ hmem)⟩
  | @opener w v b b' _ t hmem hb hgap hb' hgap' =>
    obtain ⟨huw, -⟩ := hu.whole_unique (he.opener hmem).1 hs
      (hblank hb fun c hc => he.gap c (hgap c hc)) hz
    obtain rfl := String.toList_inj.1 huw
    exact ⟨v, b' ++ t, rfl, hblank hb' fun c hc => he.gap' c (hgap' c hc),
      .inr (List.mem_append_right _ hmem)⟩
  | mark hmem =>
    obtain ⟨⟨w', hw⟩, -⟩ := he.mark hmem
    rw [hw] at hz
    refine absurd ?_ (hu.not_opens s)
    rw [hz, List.cons_append, opens_cons]
    decide

theorem whole (he : e.Sound) {u : String} (h : Edited e inside s (u.toList ++ t))
    (hu : Word u.toList) (ht : Opens t) (hfresh : u ∉ e.products) :
    ∃ s', s = u.toList ++ s' ∧ Edited e true s' t := by
  refine h.begun he hu fun v hv rest hrest heq => hfresh ?_
  obtain ⟨edit, hedit, rfl⟩ := List.mem_map.1 hv
  obtain ⟨huv, -⟩ := hu.whole_unique (he.words edit hedit).2 ht hrest heq
  exact String.toList_inj.1 huv ▸ hv

theorem opening (he : e.Sound) {u : String} (h : Edited e inside s (u.toList ++ t))
    (hu : Word u.toList) (hfresh : ∀ v ∈ e.products, ¬u.toList <+: v.toList) :
    ∃ s', s = u.toList ++ s' ∧ Edited e true s' t := by
  refine h.begun he hu fun v hv rest hrest heq => ?_
  rcases List.append_eq_append_iff.1 heq with ⟨v', hv', -⟩ | ⟨u', hu', hrest'⟩
  · exact hfresh v hv ⟨v', hv'.symm⟩
  · cases u' with
    | nil => exact hfresh v hv ⟨[], by simpa using hu'⟩
    | cons d u' =>
      rw [hrest', List.cons_append, opens_cons] at hrest
      exact hu.free hrest (hu' ▸ List.mem_append_right _ List.mem_cons_self)

/-- Text whose words were not written in place of others was there before. -/
theorem phrase (he : e.Sound) {ws : List String} {z : List Char} (h : Edited e inside s (z ++ t))
    (hz : Phrase ws z) (hmark : '!' ∉ z) (hfresh : ∀ w ∈ ws, w ∉ e.products) :
    ∃ s', s = z ++ s' ∧ Edited e (z.getLast?.elim inside isWord) s' t := by
  induction hz generalizing inside s with
  | nil => exact ⟨s, rfl, h⟩
  | @other c z hc hz ih =>
    rw [List.mem_cons, not_or] at hmark
    obtain ⟨s', rfl, h'⟩ := h.other he hc (Ne.symm hmark.1)
    obtain ⟨s'', rfl, h''⟩ := ih h' hmark.2
    refine ⟨s'', rfl, ?_⟩
    cases z with
    | nil => simpa [hc] using h''
    | cons d z => simpa [List.getLast?_cons_cons, List.getLast?_cons] using h''
  | @word w c z hw hmem hc hz ih =>
    rw [List.append_assoc] at h
    rw [List.mem_append, not_or] at hmark
    obtain ⟨s', rfl, h'⟩ := h.whole he hw (opens_cons.2 hc) (hfresh w hmem)
    obtain ⟨s'', rfl, h''⟩ := ih h' hmark.2
    refine ⟨s'', by rw [List.append_assoc], ?_⟩
    rw [List.getLast?_append_of_ne_nil _ (List.cons_ne_nil c z)]
    simpa [List.getLast?_cons] using h''

theorem ended (he : e.Sound) {ws : List String} {x : List Char} {u : String}
    (h : Edited e inside s (x ++ (u.toList ++ t))) (hx : Phrase ws x) (hmark : '!' ∉ x)
    (hfresh : ∀ w ∈ u :: ws, w ∉ e.products) (hu : Word u.toList) (ht : Opens t) :
    ∃ s', s = x ++ (u.toList ++ s') ∧ Edited e true s' t := by
  rw [List.forall_mem_cons] at hfresh
  obtain ⟨s', rfl, h'⟩ := h.phrase he hx hmark hfresh.2
  obtain ⟨s'', rfl, h''⟩ := h'.whole he hu ht hfresh.1
  exact ⟨s'', rfl, h''⟩

theorem apart (he : e.Sound) {x : List Char} (h : Edited e inside s (x ++ c :: t))
    (hc : isWord c = false) (hmark : c ≠ '!') (hgap : e.gap' c = false) :
    ∃ y s', s = y ++ c :: s' ∧ Edited e inside y x ∧ Edited e false s' t := by
  generalize hz : x ++ c :: t = z at h
  induction h generalizing x with
  | nil => exact absurd hz (List.append_ne_nil_of_right_ne_nil x (List.cons_ne_nil c t))
  | @plain inside d s z h ih =>
    cases x with
    | nil =>
      obtain ⟨rfl, rfl⟩ := List.cons.inj hz
      exact ⟨[], s, rfl, .nil, hc ▸ h⟩
    | cons d x =>
      obtain ⟨rfl, hrest⟩ := List.cons.inj hz
      obtain ⟨y, s', rfl, hy, hs'⟩ := ih hrest
      exact ⟨_ :: y, s', rfl, .plain hy, hs'⟩
  | @word w v s z hmem hs ht _ ih =>
    obtain ⟨x, rfl, hrest⟩ := append_apart ((he.word hmem).2.free hc) hz.symm
    obtain ⟨y, s', rfl, hy, hs'⟩ := ih hrest.symm
    have hx : Opens x := opens_of_append (hrest ▸ ht)
    exact ⟨w.toList ++ y, s', by rw [List.append_assoc], .word hmem (hy.opens he hx) hx hy, hs'⟩
  | @opener w v b b' s z hmem hb hold hb' hgap' _ ih =>
    obtain ⟨x, rfl, hrest⟩ := append_apart ((he.opener hmem).2.free hc) hz.symm
    have hfree : c ∉ b' := fun hin => by
      rw [hgap' c hin] at hgap
      cases hgap
    obtain ⟨x, rfl, hlater⟩ := append_apart hfree hrest
    obtain ⟨y, s', rfl, hy, hs'⟩ := ih hlater.symm
    exact ⟨w.toList ++ (b ++ y), s', by simp, .opener hmem hb hold hb' hgap' hy, hs'⟩
  | @mark inside w v s z hmem _ ih =>
    have hfree : c ∉ v.toList := fun hin => hmark ((he.marks _ hmem).2.2 c hin)
    obtain ⟨x, rfl, hrest⟩ := append_apart hfree hz.symm
    obtain ⟨y, s', rfl, hy, hs'⟩ := ih hrest.symm
    exact ⟨w.toList ++ y, s', by rw [List.append_assoc], .mark hmem hy, hs'⟩

theorem nil_of_edited (he : e.Sound) (h : Edited e inside s []) : s = [] := by
  generalize hz : [] = z at h
  cases h with
  | nil => rfl
  | plain => cases hz
  | word hmem => exact absurd (List.append_eq_nil_iff.1 hz.symm).1 (he.word hmem).2.nonempty
  | opener hmem => exact absurd (List.append_eq_nil_iff.1 hz.symm).1 (he.opener hmem).2.nonempty
  | mark hmem =>
    obtain ⟨-, v', hv⟩ := he.mark hmem
    rw [hv] at hz
    cases hz

theorem parts (he : e.Sound) {x : List Char} (h : Edited e inside (x ++ c :: s) t)
    (hc : isWord c = false) (hmark : c ≠ '!') (hgap : e.gap c = false) :
    ∃ y t', t = y ++ c :: t' ∧ Edited e inside x y ∧ Edited e false s t' := by
  obtain ⟨y, t', rfl, hx, hs⟩ := h.flip.apart he.flip hc hmark hgap
  have hx := hx.flip
  have hs := hs.flip
  rw [flip_flip] at hx hs
  exact ⟨y, t', rfl, hx, hs⟩

theorem behind_others (he : e.Sound) {z : List Char} (h : Edited e inside (z ++ s) t)
    (hz : ∀ c ∈ z, isWord c = false) (hmark : '!' ∉ z) : ∃ t' inside', t = z ++ t' ∧
      Edited e inside' s t' ∧ (inside = false → inside' = false) := by
  have hphrase : Phrase [] z := .others hz
  obtain ⟨t', rfl, hback⟩ := h.flip.phrase he.flip hphrase hmark (by simp)
  have hedit := hback.flip
  rw [flip_flip] at hedit
  refine ⟨t', _, rfl, hedit, ?_⟩
  rintro rfl
  cases hlast : z.getLast? with
  | none => rfl
  | some c => exact hz c (List.mem_of_getLast? hlast)

theorem behind_blanks (he : e.Sound) {b : List Char} (h : Edited e inside (b ++ s) t)
    (hb : ∀ c ∈ b, isBlank c = true) : ∃ t' inside', t = b ++ t' ∧ Edited e inside' s t' ∧
      (inside = false → inside' = false) :=
  h.behind_others he (fun c hc => not_isWord_of_blank (hb c hc))
    fun hin => absurd (hb _ hin) (by decide)

theorem blanks (he : e.Sound) (h : Edited e inside s t) (hs : ∀ c ∈ s, isBlank c = true) :
    t = s := by
  rw [← List.append_nil s] at h
  obtain ⟨t', _, rfl, hrest, -⟩ := h.behind_blanks he hs
  rw [hrest.flip.nil_of_edited he.flip, List.append_nil]

theorem word_apart {w x b : List Char} (hw : Word w) (hb : ∀ c ∈ b, isBlank c = true)
    (h : w ++ s = x ++ b) : ∃ x', x = w ++ x' ∧ s = x' ++ b := by
  rcases List.append_eq_append_iff.1 h with ⟨x', rfl, hs⟩ | ⟨w', rfl, hb'⟩
  · exact ⟨x', rfl, hs⟩
  · cases w' with
    | nil => exact ⟨[], by simp, by simpa using hb'.symm⟩
    | cons d w' =>
      have hd := hb d (hb' ▸ List.mem_cons_self)
      exact absurd (List.mem_append_right x List.mem_cons_self) (hw.free (not_isWord_of_blank hd))

theorem spaced (he : e.Sound) {member : Char → Bool}
    (hword : ∀ c, isWord c = true → member c = true) (hmark : member '!' = false)
    (hgap : (∀ c, e.gap' c = true → member c = true) ∨ ∀ c, isBlank c = true → member c = false)
    (h : Edited e inside s t) {x b : List Char} (hs : s = x ++ b) (hx : ∀ c ∈ x, member c = true)
    (hb : ∀ c ∈ b, isBlank c = true) : ∃ x' b', t = x' ++ b' ∧ (∀ c ∈ x', member c = true) ∧
      (∀ c ∈ b', isBlank c = true) ∧ (x ≠ [] → x' ≠ []) := by
  induction h generalizing x with
  | nil =>
    obtain ⟨rfl, rfl⟩ := List.append_eq_nil_iff.1 hs.symm
    exact ⟨[], [], rfl, List.forall_mem_nil _, List.forall_mem_nil _, id⟩
  | @plain inside c s t h ih =>
    cases x with
    | nil =>
      rw [List.nil_append] at hs
      have hwhole : Edited e inside (c :: s) (c :: t) := .plain h
      have hall := hwhole.blanks he (hs ▸ hb)
      rw [hall, hs]
      exact ⟨[], b, rfl, List.forall_mem_nil _, hb, id⟩
    | cons d x =>
      obtain ⟨rfl, hrest⟩ := List.cons.inj hs
      obtain ⟨hc, hx⟩ := List.forall_mem_cons.1 hx
      obtain ⟨x', b', rfl, hx', hb', -⟩ := ih hrest hx
      exact ⟨c :: x', b', rfl, List.forall_mem_cons.2 ⟨hc, hx'⟩, hb',
        fun _ => List.cons_ne_nil c x'⟩
  | @word w v s t hmem _ _ _ ih =>
    obtain ⟨hw, hv⟩ := he.word hmem
    obtain ⟨x, rfl, hrest⟩ := word_apart hw hb hs
    obtain ⟨x', b', rfl, hx', hb', -⟩ := ih hrest fun c hc => hx c (List.mem_append_right _ hc)
    refine ⟨v.toList ++ x', b', by rw [List.append_assoc], ?_, hb', fun _ => by simp [hv.nonempty]⟩
    exact List.forall_mem_append.2 ⟨fun c hc => hword c (List.all_eq_true.1 hv.all c hc), hx'⟩
  | @opener w v c c' s t hmem hc hgapc hc' hgapc' h ih =>
    obtain ⟨hw, hv⟩ := he.opener hmem
    obtain ⟨x, rfl, hrest⟩ := word_apart hw hb hs
    have hvmember : ∀ c ∈ v.toList, member c = true :=
      fun c hc => hword c (List.all_eq_true.1 hv.all c hc)
    have hne (y : List Char) : v.toList ++ y ≠ [] := by simp [hv.nonempty]
    rcases List.append_eq_append_iff.1 hrest with ⟨x, rfl, hs'⟩ | ⟨b₂, rfl, rfl⟩
    · -- The blanks behind the word are in the set.
      obtain ⟨d, hd⟩ := List.exists_mem_of_ne_nil c hc
      have hgap' : ∀ c, e.gap' c = true → member c = true := by
        refine hgap.resolve_right fun hblank => ?_
        have hdx := hx d (by simp [hd])
        rw [hblank d (he.gap d (hgapc d hd))] at hdx
        cases hdx
      obtain ⟨x', b', rfl, hx', hb', -⟩ := ih hs' fun c hc => hx c (by simp [hc])
      refine ⟨v.toList ++ (c' ++ x'), b', by simp, ?_, hb', fun _ => hne _⟩
      exact List.forall_mem_append.2 ⟨hvmember,
        List.forall_mem_append.2 ⟨fun c hc => hgap' c (hgapc' c hc), hx'⟩⟩
    · -- The set ends with the word.
      have hsame := h.blanks he fun c hc => hb c (List.mem_append_right _ hc)
      refine ⟨v.toList, c' ++ t, rfl, hvmember, ?_, fun _ => hv.nonempty⟩
      rw [hsame]
      exact List.forall_mem_append.2 ⟨fun c hc => he.gap' c (hgapc' c hc),
        fun c hc => hb c (List.mem_append_right _ hc)⟩
  | @mark inside w v s t hmem _ _ =>
    obtain ⟨⟨w', hw⟩, -⟩ := he.mark hmem
    rw [hw] at hs
    cases x with
    | nil => exact absurd (hb '!' (by rw [List.nil_append] at hs; simp [← hs])) (by decide)
    | cons d x =>
      obtain ⟨rfl, -⟩ := List.cons.inj hs
      rw [hx _ List.mem_cons_self] at hmark
      cases hmark

end Edited

end Crosswalk.Text
