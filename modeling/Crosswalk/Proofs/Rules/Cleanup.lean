import Crosswalk.Proofs.Rules.Rewording
import Crosswalk.Rules.RuleSet

namespace Crosswalk

open Text Pattern

namespace Pattern

variable {e : Edits} {p : Pattern}

theorem Tracks.lines (hfollows : Follows e p) (hopens : p.opensLine = true)
    (hadvances : p.advances = true) (htakes : p.takes = true) (hmark : p.avoids '!' = true) :
    Tracks e p where
  advances := hadvances
  fresh := by
    intro last s hm hword
    have hline := hm.atLineStart hopens
    cases last with
    | none => cases hword
    | some c =>
      obtain rfl : c = '\n' := by simpa using hline
      exact absurd hword (by decide)
  blank := fun hm _ => hm.atLineStart hopens
  follows := fun hedit hlast hopens _ hm => hfollows hedit hlast hopens hm
  marked := fun _ hm => absurd hm (not_matches_avoided htakes hmark)

theorem text_groupless (w : String) : (text w).groupless = true := by
  rw [text]
  induction w.toList with
  | nil => rfl
  | cons c cs ih =>
    cases cs with
    | nil => rfl
    | cons d cs => exact ih

end Pattern

namespace Rules

variable {e : Edits} {ws : List String} {name kw kw' : String} {before : Pattern}

theorem keywordRule_reads {last : Option Char} {s : List Char}
    (hbefore : Phrases ws (.seq indent before))
    (h : (keywordRule name before kw kw').pattern.Matches last s) :
    ∃ x rest, s = x ++ (kw.toList ++ rest) ∧ Phrase ws x ∧ Opens rest := by
  obtain ⟨_, rest, rfl, _, _, rfl, ⟨rfl, -⟩, x, _, rfl, hx, y, b, rfl, hkw, hb⟩ := h
  obtain rfl := takes_text.1 hkw
  obtain ⟨hne, hblank⟩ := takes_atLeastOne.1 hb
  obtain ⟨c, b, rfl⟩ := List.exists_cons_of_ne_nil hne
  exact ⟨x, c :: b ++ rest, by simp, hbefore _ _ _ hx,
    opens_cons.2 (not_isWord_of_blank (hblank c List.mem_cons_self))⟩

theorem keywordRule_replacement {last : Option Char} {s : List Char} {m : Match}
    (hgroupless : before.groupless = true)
    (h : (keywordRule name before kw kw').pattern.matchAt (.behind last s) = some m) :
    ∃ x b, m.text = x ++ (kw.toList ++ b) ∧
      (keywordRule name before kw kw').replacement m = x ++ (kw'.toList ++ [' ']) ∧
      (Pattern.seq indent before).Takes last x (kw.toList ++ b ++ m.stop.after) ∧
      last.all (· == '\n') = true ∧ b ≠ [] ∧ ∀ c ∈ b, isBlank c = true := by
  have htext := matchAt_text h
  obtain ⟨start, stop, caps⟩ := m
  obtain ⟨-, hleads⟩ := matchAt_leads h
  change (Pattern.seq .lineStart (.seq (.group 1 (.seq indent before))
    (.seq (text kw) someBlanks))).Leads (.behind last s) [] stop caps at hleads
  cases hleads with
  | seq hline hrest =>
    cases hline with
    | lineStart hline =>
      obtain ⟨x, y, hafter, hx, ⟨_, b, rfl, hkw, hb⟩, hgroup⟩ :=
        hrest.grouped (by simp [groupless, hgroupless, indent])
          (by simp [groupless, text_groupless, someBlanks, atLeastOne])
      obtain rfl := takes_text.1 hkw
      obtain ⟨hne, hblank⟩ := takes_atLeastOne.1 hb
      rw [hafter, ← List.append_assoc] at htext
      refine ⟨x, b, (List.append_cancel_right htext).symm, ?_, ?_, ?_, hne, hblank⟩
      · simp [Rule.replacement, keywordRule, TemplatePart.expand, hgroup]
      · simpa [Place.behind] using hx
      · simpa [Place.atLineStart, Place.behind] using hline

theorem keywordRule_rewords (he : e.Sound) (hbefore : Phrases ws before)
    (hgroupless : before.groupless = true)
    (hpattern : (keywordRule name before kw kw').pattern.advances = true ∧
      (keywordRule name before kw kw').pattern.takes = true ∧
      (keywordRule name before kw kw').pattern.avoids '!' = true ∧
      (keywordRule name before kw kw').pattern.sees = true)
    (hmem : (kw, kw') ∈ e.openers) (hgap : ∀ c, isBlank c = true → e.gap c = true)
    (hgap' : e.gap' ' ' = true) (hfresh : ∀ w ∈ kw :: ws, w ∉ e.products)
    (hkw : kw ∉ ws) (hkw' : kw' ∉ ws ∧ kw' ≠ kw) :
    (keywordRule name before kw kw').Rewords e ws [kw] := by
  have hindent : Phrases ws (.seq indent before) :=
    .seq (.many fun c hc => by
      rw [isIndent, Bool.or_eq_true, beq_iff_eq, beq_iff_eq] at hc
      rcases hc with rfl | rfl <;> decide) hbefore
  have hphrases : Phrases (kw :: ws) (keywordRule name before kw kw').pattern :=
    .seq .lineStart (.seq (fun _ _ _ h => (hindent _ _ _ h).mono (List.subset_cons_self kw ws))
      ((Phrases.word (he.opener hmem).1).mono (by simp)))
  have hline {last : Option Char} (hlast : last.all (· == '\n') = true) :
      last.any isWord = false := by
    cases last with
    | none => rfl
    | some c =>
      obtain rfl : c = '\n' := by simpa using hlast
      decide
  exact {
    takes := hpattern.2.1
    tracks := .lines (.phrase he hphrases hpattern.2.2.1 hpattern.2.2.2 hfresh) rfl hpattern.1
      hpattern.2.1 hpattern.2.2.1
    swaps := by
      intro last s m hm
      obtain ⟨x, b, htext, hreplaced, hx, hlast, hb, hblank⟩ :=
        keywordRule_replacement hgroupless hm
      -- The blanks behind the keyword belong to the swap, since one space is written for them.
      obtain ⟨c, b, rfl⟩ := List.exists_cons_of_ne_nil hb
      exact ⟨x, kw, kw', c :: b, [' '], htext, hreplaced, {
        phrase := hindent _ _ _ hx
        outside := lastOf_phrase (hindent _ _ _ hx) (hline hlast)
        passed := hkw'.1
        sought := by simpa using hkw'.2
        edit := .inr ⟨hmem, hb, fun c hc => hgap c (hblank c hc), by simp, by simpa using hgap'⟩
        opens := opens_cons.2 (not_isWord_of_blank (hblank c List.mem_cons_self))
        quiet := by
          intro y z hyz hz last rest hword hmatches
          rcases List.singleton_eq_append_iff.1 hyz with ⟨rfl, -⟩ | ⟨-, rfl⟩
          · have hend := hline (hmatches.atLineStart rfl)
            rw [lastOf_nil, hword] at hend
            cases hend
          · exact hz rfl }⟩
    reads := by
      intro last s hm
      obtain ⟨x, rest, rfl, hx, hrest⟩ := keywordRule_reads hindent hm
      exact ⟨x, kw, rest, rfl, hx, List.mem_singleton_self kw, hrest⟩
    targets := by simpa using ⟨(he.opener hmem).1, hkw⟩ }

theorem textRule_rewords (he : e.Sound) {w v lit written : String} {c : Char}
    (hlit : lit.toList = w.toList ++ [c]) (hwritten : written.toList = v.toList ++ [c])
    (hc : isWord c = false) (hmem : (w, v) ∈ e.words) (hfresh : w ∉ e.products) (hne : v ≠ w)
    (hpattern : (text lit).advances = true ∧ (text lit).takes = true ∧
      (text lit).avoids '!' = true ∧ (text lit).sees = true) :
    (textRule name (.seq .boundary (text lit)) written).Rewords e [] [w] := by
  obtain ⟨hw, hv⟩ := he.word hmem
  obtain ⟨d, w', hdw⟩ := List.exists_cons_of_ne_nil hw.nonempty
  have hd : isWord d = true := List.all_eq_true.1 hw.all d (hdw ▸ List.mem_cons_self)
  have hmatches {last : Option Char} {s : List Char}
      (h : (Pattern.seq .boundary (text lit)).Matches last s) :
      ∃ rest, s = w.toList ++ c :: rest ∧ last.any isWord = false := by
    obtain ⟨_, rest, rfl, _, y, rfl, ⟨rfl, hboundary⟩, hy⟩ := h
    obtain rfl := takes_text.1 hy
    refine ⟨rest, by simp [hlit], ?_⟩
    simpa [hlit, hdw, isBoundary, hd] using hboundary
  have hphrases : Phrases [w] (.seq .boundary (text lit)) :=
    .seq .boundary (.text (hlit ▸ .word hw (List.mem_singleton_self w) hc (.other hc .nil)))
  obtain ⟨hadvances, htakes, hmark, hsees⟩ := hpattern
  exact {
    takes := by simp [textRule, takes, htakes]
    tracks := {
      advances := by simp [textRule, advances, hadvances]
      fresh := by
        intro last s hm hword
        obtain ⟨rest, -, hlast⟩ := hmatches hm
        rw [hlast] at hword
        cases hword
      blank := by
        intro last b s hm hb
        obtain ⟨rest, hs, -⟩ := hmatches hm
        rw [hdw] at hs
        obtain ⟨rfl, -⟩ := List.cons.inj hs
        rw [not_isWord_of_blank hb] at hd
        cases hd
      follows := fun hedit hlast hopens _ hm =>
        Follows.phrase he hphrases (by simp [avoids, hmark]) (by simp [sees, hsees])
          (by simpa using hfresh) hedit hlast hopens hm
      marked := fun _ hm => absurd hm
        (not_matches_avoided (by simp [textRule, takes, htakes])
          (by simp [textRule, avoids, hmark])) }
    swaps := by
      intro last s m hm
      obtain ⟨hs, htakes⟩ := matchAt_matches hm
      obtain ⟨rest, hs', hlast⟩ := hmatches ⟨m.text, m.stop.after, hs, htakes⟩
      obtain ⟨_, y, htext, ⟨rfl, -⟩, hy⟩ := htakes
      obtain rfl := takes_text.1 hy
      -- The character behind the word is taken and written again.
      refine ⟨[], w, v, [c], [c], htext.trans hlit, ?_, {
        phrase := .nil
        outside := hlast
        passed := List.not_mem_nil
        sought := by simpa using hne
        edit := .inl ⟨hmem, rfl⟩
        opens := hc
        quiet := ?_ }⟩
      · simp [Rule.replacement, textRule, TemplatePart.expand, hwritten]
      · intro y z hyz hz last rest _ hm
        rcases List.singleton_eq_append_iff.1 hyz with ⟨rfl, rfl⟩ | ⟨-, rfl⟩
        · obtain ⟨rest, hs, -⟩ := hmatches hm
          rw [hdw] at hs
          obtain ⟨rfl, -⟩ := List.cons.inj hs
          rw [hd] at hc
          cases hc
        · exact hz rfl
    reads := by
      intro last s hm
      obtain ⟨rest, rfl, -⟩ := hmatches hm
      exact ⟨[], w, c :: rest, rfl, .nil, List.mem_singleton_self w, hc⟩
    targets := by simpa using hw }

/-- What the literal for "no value" may follow, apart from a return. -/
def operators : List (List Char) :=
  [['='], ['!'], ['=', '='], ['!', '='], ['('], [','], [':'], ['?']]

theorem nullRule_takes {word word' : String} (hw : Word word.toList) {last : Option Char}
    {z rest : List Char} : (nullRule name word word').pattern.Takes last z rest ↔
      ∃ o b, z = o ++ (b ++ word.toList) ∧ (∀ c ∈ b, isBlank c = true) ∧ Opens rest ∧
        (o ∈ operators ∨ o = "return".toList ∧ last.any isWord = false) := by
  have hend (o b : List Char) : (lastOf (lastOf last (o ++ b)) word.toList).any isWord = true :=
    lastOf_of_word hw _
  have hstart (s : List Char) : isBoundary last ("return".toList ++ s).head? = true ↔
      last.any isWord = false := by
    have hhead : ("return".toList ++ s).head?.any isWord = true := by simp; decide
    rw [isBoundary, hhead]
    cases last.any isWord <;> decide
  constructor
  · rintro ⟨_, _, rfl, ⟨o, b, rfl, ho, hb⟩, x, _, rfl, hx, rfl, hboundary⟩
    obtain rfl := takes_text.1 hx
    refine ⟨o, b, by simp, hb, (boundary_iff_opens (hend o b)).1 hboundary, ?_⟩
    obtain ⟨p, hp, ho⟩ := takes_anyOf.1 ho
    simp only [List.mem_cons, List.not_mem_nil, or_false] at hp
    rcases hp with rfl | rfl | rfl
    · obtain ⟨_, y, rfl, ⟨c, rfl, hc⟩, hy⟩ := ho
      rw [Bool.or_eq_true, beq_iff_eq, beq_iff_eq] at hc
      rcases hy with hy | rfl
      · obtain rfl := takes_char.1 hy
        rcases hc with rfl | rfl <;> exact .inl (by decide)
      · rcases hc with rfl | rfl <;> exact .inl (by decide)
    · obtain ⟨_, y, rfl, ⟨rfl, hlast⟩, hy⟩ := ho
      obtain rfl := takes_text.1 hy
      rw [List.append_assoc] at hlast
      exact .inr ⟨rfl, (hstart _).1 hlast⟩
    · obtain ⟨c, rfl, hc⟩ := ho
      simp only [Bool.or_eq_true, beq_iff_eq] at hc
      rcases hc with ((rfl | rfl) | rfl) | rfl <;> exact .inl (by decide)
  · rintro ⟨o, b, rfl, hb, hrest, ho⟩
    refine ⟨o ++ b, word.toList, by simp, ⟨o, b, rfl, ?_, hb⟩, word.toList, [],
      (List.append_nil _).symm, takes_text.2 rfl, rfl, (boundary_iff_opens (hend o b)).2 hrest⟩
    rcases ho with ho | ⟨rfl, hlast⟩
    · simp only [operators, List.mem_cons, List.not_mem_nil, or_false] at ho
      rcases ho with rfl | rfl | rfl | rfl | rfl | rfl | rfl | rfl
      · exact Or.inl ⟨['='], [], rfl, ⟨'=', rfl, rfl⟩, Or.inr rfl⟩
      · exact Or.inl ⟨['!'], [], rfl, ⟨'!', rfl, rfl⟩, Or.inr rfl⟩
      · exact Or.inl ⟨['='], ['='], rfl, ⟨'=', rfl, rfl⟩, Or.inl ⟨'=', rfl, rfl⟩⟩
      · exact Or.inl ⟨['!'], ['='], rfl, ⟨'!', rfl, rfl⟩, Or.inl ⟨'=', rfl, rfl⟩⟩
      all_goals exact Or.inr (Or.inr ⟨_, rfl, rfl⟩)
    · exact Or.inr (Or.inl ⟨[], _, rfl, ⟨rfl, (hstart _).2 hlast⟩, takes_text.2 rfl⟩)

theorem nullRule_replacement {word word' : String} {last : Option Char} {s : List Char} {m : Match}
    (h : (nullRule name word word').pattern.matchAt (.behind last s) = some m) :
    ∃ x, m.text = x ++ word.toList ∧ (nullRule name word word').replacement m
      = x ++ word'.toList := by
  have htext := matchAt_text h
  obtain ⟨start, stop, caps⟩ := m
  obtain ⟨-, hleads⟩ := matchAt_leads h
  obtain ⟨x, y, hafter, -, ⟨_, _, rfl, hy, rfl, -⟩, hgroup⟩ := Leads.grouped
    (q := .seq (anyOf _) blanks) (k := .seq (text word) .boundary) hleads (by decide)
    (by simp [groupless, text_groupless])
  obtain rfl := takes_text.1 hy
  rw [hafter, List.append_nil, ← List.append_assoc] at htext
  refine ⟨x, (List.append_cancel_right htext).symm, ?_⟩
  simp [Rule.replacement, nullRule, TemplatePart.expand, hgroup]

/-- The literal and its translation, also where they are joined to a return. -/
structure Returned (e : Edits) (lit lit' joined joined' : String) : Prop where
  left : joined.toList = "return".toList ++ lit.toList
  right : joined'.toList = "return".toList ++ lit'.toList
  fresh : "return" ∉ e.products
  edits : ∀ edit ∈ [(lit, lit'), (joined, joined')], edit ∈ e.words ∧ edit.1 ∉ e.products ∧
    edit.1 ≠ "return" ∧ edit.2 ≠ "return" ∧ edit.2 ∉ [lit, joined]

section Returned

variable {lit lit' joined joined' : String} {o b : List Char}

theorem operators_other {c : Char} (ho : o ∈ operators) (hc : c ∈ o) : isWord c = false := by
  have hall : (operators.all fun o => o.all fun c => !isWord c) = true := by decide
  simpa using List.all_eq_true.1 (List.all_eq_true.1 hall o ho) c hc

theorem Returned.word (h : Returned e lit lit' joined joined') (he : e.Sound) :
    Word lit.toList :=
  (he.word (h.edits _ List.mem_cons_self).1).1

theorem Returned.ends (h : Returned e lit lit' joined joined')
    (ho : (∀ c ∈ o, isWord c = false) ∨ o = "return".toList) (hb : ∀ c ∈ b, isBlank c = true) :
    ∃ x, ∃ edit ∈ [(lit, lit'), (joined, joined')], o ++ (b ++ lit.toList) = x ++ edit.1.toList ∧
      o ++ (b ++ lit'.toList) = x ++ edit.2.toList ∧ Phrase ["return"] x ∧
        (∀ c ∈ x, c ∈ o ∨ isBlank c = true) ∧ (x = [] → o = [] ∨ o = "return".toList) := by
  have hkept : ∀ c ∈ o ++ b, c ∈ o ∨ isBlank c = true :=
    fun c hc => (List.mem_append.1 hc).imp_right (hb c)
  have hsplit (w : String) : o ++ (b ++ w.toList) = o ++ b ++ w.toList := by simp
  rcases ho with ho | rfl
  · exact ⟨o ++ b, _, List.mem_cons_self, hsplit lit, hsplit lit',
      (Phrase.others ho).append (.blanks hb), hkept,
      fun hnil => .inl (List.append_eq_nil_iff.1 hnil).1⟩
  · cases b with
    | nil => exact ⟨[], (joined, joined'), by simp, h.left.symm, h.right.symm, .nil,
        List.forall_mem_nil _, fun _ => .inr rfl⟩
    | cons c b =>
      exact ⟨_, _, List.mem_cons_self, hsplit lit, hsplit lit', .word (w := "return")
        (by decide) (by simp) (not_isWord_of_blank (hb c List.mem_cons_self)) (.blanks hb),
        hkept, fun _ => .inr rfl⟩

theorem Returned.kept (h : Returned e lit lit' joined joined') (he : e.Sound) {inside : Bool}
    {s rest : List Char} (hedit : Edited e inside s (o ++ (b ++ lit.toList) ++ rest))
    (ho : (∀ c ∈ o, isWord c = false) ∨ o = "return".toList) (hmark : '!' ∉ o)
    (hb : ∀ c ∈ b, isBlank c = true) (hrest : Opens rest) :
    ∃ s', s = o ++ (b ++ lit.toList) ++ s' ∧ Edited e true s' rest := by
  obtain ⟨x, ⟨u, v⟩, huv, hxu, -, hx, hxo, -⟩ := h.ends ho hb
  obtain ⟨hmem, hfresh, -⟩ := h.edits _ huv
  have hmark' : '!' ∉ x := fun hin => (hxo _ hin).elim hmark (by decide)
  have hfresh' : ∀ w ∈ [u, "return"], w ∉ e.products := by simpa using ⟨hfresh, h.fresh⟩
  rw [hxu, List.append_assoc] at hedit
  obtain ⟨s', rfl, hrest'⟩ := hedit.ended he hx hmark' hfresh' (he.word hmem).1 hrest
  exact ⟨s', by rw [hxu, List.append_assoc], hrest'⟩

theorem nullRule_tracks (h : Returned e lit lit' joined joined') (he : e.Sound)
    (hpattern : (nullRule name lit lit').pattern.advances = true ∧
      (nullRule name lit lit').pattern.sees = true) :
    Tracks e (nullRule name lit lit').pattern where
  advances := hpattern.1
  fresh := by
    rintro last _ ⟨z, rest, rfl, hz⟩ hword
    obtain ⟨o, b, rfl, -, -, ho | ⟨-, hlast⟩⟩ := (nullRule_takes (h.word he)).1 hz
    · cases o with
      | nil => exact absurd ho (by decide)
      | cons c o => exact operators_other ho List.mem_cons_self
    · rw [hlast] at hword
      cases hword
  blank := by
    rintro last c s ⟨z, rest, hs, hz⟩ hc
    obtain ⟨o, b, rfl, -, -, ho⟩ := (nullRule_takes (h.word he)).1 hz
    have hhead : ∀ o ∈ "return".toList :: operators, o.head?.any isBlank = false ∧ o ≠ [] := by
      decide
    obtain ⟨hhead, hne⟩ := hhead o (List.mem_cons.2 (ho.symm.imp_left And.left))
    obtain ⟨d, o, rfl⟩ := List.exists_cons_of_ne_nil hne
    obtain ⟨rfl, -⟩ := List.cons.inj hs
    rw [List.head?_cons, Option.any_some, hc] at hhead
    cases hhead
  follows := by
    rintro last last' s _ hedit hlast - hmark ⟨z, rest, rfl, hz⟩
    obtain ⟨o, b, rfl, hb, hrest, ho⟩ := (nullRule_takes (h.word he)).1 hz
    -- Operators that hold a mark start with it, and the text does not start with one.
    have hhead : ∀ o ∈ "return".toList :: operators, '!' ∈ o → o.head? = some '!' := by
      decide
    have hmark' : '!' ∉ o := fun hin => by
      have ho' := hhead o (List.mem_cons.2 (ho.symm.imp_left And.left)) hin
      cases o with
      | nil => cases ho'
      | cons c o => exact hmark ho'
    obtain ⟨s', rfl, hedit'⟩ :=
      h.kept he hedit (ho.imp (fun h _ => operators_other h) And.left) hmark' hb hrest
    exact ⟨_, s', rfl, hz.elsewhere hpattern.2 hlast (hedit'.head he).symm⟩
  marked := by
    rintro last last' s t hedit ⟨z, rest, hs, hz⟩
    obtain ⟨o, b, rfl, hb, hrest, ho⟩ := (nullRule_takes (h.word he)).1 hz
    have hops : ∀ o ∈ "return".toList :: operators, o.head? = some '!' →
        o ∈ operators ∧ '!' ∉ o.tail := by decide
    cases o with
    | nil => rcases ho with ho | ⟨ho, -⟩ <;> exact absurd ho (by decide)
    | cons c o =>
      obtain ⟨rfl, rfl⟩ := List.cons.inj hs
      obtain ⟨hop, hmark⟩ := hops _ (List.mem_cons.2 (ho.symm.imp_left And.left)) rfl
      have hothers : ∀ c ∈ o, isWord c = false :=
        fun c hc => operators_other hop (List.mem_cons_of_mem _ hc)
      obtain ⟨s', rfl, hedit'⟩ := h.kept he hedit (.inl hothers) hmark hb hrest
      exact ⟨_, s', rfl, (nullRule_takes (h.word he)).2
        ⟨_, b, rfl, hb, hedit'.opens he hrest, .inl hop⟩⟩

theorem nullRule_rewords (h : Returned e lit lit' joined joined') (he : e.Sound)
    (hpattern : (nullRule name lit lit').pattern.advances = true ∧
      (nullRule name lit lit').pattern.takes = true ∧
      (nullRule name lit lit').pattern.sees = true) :
    (nullRule name lit lit').Rewords e ["return"] [lit, joined] where
  takes := hpattern.2.1
  tracks := nullRule_tracks h he ⟨hpattern.1, hpattern.2.2⟩
  swaps := by
    intro last s m hm
    obtain ⟨x₀, htext, hreplaced⟩ := nullRule_replacement hm
    obtain ⟨o, b, hob, hb, hrest, ho⟩ := (nullRule_takes (h.word he)).1 (matchAt_matches hm).2
    obtain ⟨x, ⟨u, v⟩, huv, hxu, hxv, hx, -, hnil⟩ :=
      h.ends (ho.imp (fun h _ => operators_other h) And.left) hb
    obtain ⟨hmem, -, -, hpassed, hsought⟩ := h.edits _ huv
    obtain rfl : x₀ = o ++ b := List.append_cancel_right (by rw [← htext, hob, List.append_assoc])
    refine ⟨x, u, v, [], [], by simp [hob, hxu], by simp [hreplaced, hxv], {
      phrase := hx
      outside := Bool.eq_false_iff.2 fun hword => ?_
      passed := by simpa using hpassed
      sought := hsought
      edit := .inl ⟨hmem, rfl⟩
      opens := hrest
      quiet := fun y z hyz hz => absurd (List.append_eq_nil_iff.1 hyz.symm).2 hz }⟩
    obtain rfl := nil_of_lastOf hx hword
    rcases ho with ho | ⟨-, hlast⟩
    · rcases hnil rfl with rfl | rfl <;> exact absurd ho (by decide)
    · rw [lastOf_nil, hlast] at hword
      cases hword
  reads := by
    rintro last _ ⟨z, rest, rfl, hz⟩
    obtain ⟨o, b, rfl, hb, hrest, ho⟩ := (nullRule_takes (h.word he)).1 hz
    obtain ⟨x, ⟨u, v⟩, huv, hxu, -, hx, -⟩ :=
      h.ends (ho.imp (fun h _ => operators_other h) And.left) hb
    have hu : u ∈ [lit, joined] := List.mem_map_of_mem (f := Prod.fst) huv
    exact ⟨x, u, rest, by rw [hxu, List.append_assoc], hx, hu, hrest⟩
  targets := by
    intro u hu
    obtain ⟨edit, hedit, rfl⟩ : ∃ edit ∈ [(lit, lit'), (joined, joined')], edit.1 = u := by
      simpa [eq_comm] using hu
    obtain ⟨hmem, -, hne, -⟩ := h.edits edit hedit
    exact ⟨(he.word hmem).1, by simpa using hne⟩

end Returned

end Rules

end Crosswalk
