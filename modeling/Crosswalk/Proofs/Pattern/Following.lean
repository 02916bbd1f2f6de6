import Crosswalk.Proofs.Pattern.Taking
import Crosswalk.Proofs.Text.Edited

namespace Crosswalk.Pattern

open Text

/-- All that the pattern takes are whole words of the list, with other characters behind them. -/
def Phrases (ws : List String) (p : Pattern) : Prop :=
  ∀ last z rest, p.Takes last z rest → Phrase ws z

def Nullable (p : Pattern) : Prop := ∀ last rest, p.Takes last [] rest

section Phrases

variable {ws ws' : List String} {p q : Pattern}

theorem Phrases.mono (h : Phrases ws p) (hws : ws ⊆ ws') : Phrases ws' p :=
  fun last z rest hz => (h last z rest hz).mono hws

theorem Phrases.seq (hp : Phrases ws p) (hq : Phrases ws q) : Phrases ws (.seq p q) := by
  rintro last _ rest ⟨x, y, rfl, hx, hy⟩
  exact (hp _ _ _ hx).append (hq _ _ _ hy)

theorem Phrases.alt (hp : Phrases ws p) (hq : Phrases ws q) : Phrases ws (.alt p q) :=
  fun last z rest h => h.elim (hp last z rest) (hq last z rest)

theorem Phrases.star (hp : Phrases ws p) : Phrases ws (.star p) := by
  intro last z rest h
  change Rounds p.Takes last z rest at h
  induction h with
  | stop => exact .nil
  | again hx _ ih => exact (hp _ _ _ hx).append ih

theorem Phrases.empty : Phrases ws .empty := by
  rintro last _ rest rfl
  exact .nil

theorem Phrases.optional (hp : Phrases ws p) : Phrases ws (.optional p) := hp.alt .empty

theorem Phrases.boundary : Phrases ws .boundary := by
  rintro last _ rest ⟨rfl, -⟩
  exact .nil

theorem Phrases.lineStart : Phrases ws .lineStart := by
  rintro last _ rest ⟨rfl, -⟩
  exact .nil

theorem Phrases.one {member : Char → Bool}
    (h : ∀ c, member c = true → isWord c = false) : Phrases ws (.one member) := by
  rintro last _ rest ⟨c, rfl, hc⟩
  exact .other (h c hc) .nil

theorem Phrases.char {c : Char} (hc : isWord c = false) : Phrases ws (.char c) :=
  .one fun _ hd => eq_of_beq hd ▸ hc

theorem Phrases.many {member : Char → Bool} (h : ∀ c, member c = true → isBlank c = true) :
    Phrases ws (.many member) :=
  fun _ _ _ hz => .blanks fun c hc => h c (hz c hc)

theorem Phrases.text {w : String} (h : Phrase ws w.toList) : Phrases ws (.text w) := by
  intro last z rest hz
  exact takes_text.1 hz ▸ h

theorem Phrases.words (hws : ∀ w ∈ ws, Word w.toList) :
    Phrases ws (.seq (texts ws) someBlanks) := by
  rintro last _ rest ⟨x, y, rfl, hx, hy⟩
  obtain ⟨w, hw, rfl⟩ := takes_texts.1 hx
  obtain ⟨hne, hblank⟩ := takes_atLeastOne.1 hy
  obtain ⟨c, y, rfl⟩ := List.exists_cons_of_ne_nil hne
  exact .word (hws w hw) hw (not_isWord_of_blank (hblank c List.mem_cons_self)) (.blanks hblank)

theorem Phrases.closed {c : Char} (hws : ∀ w ∈ ws, Word w.toList)
    (hp : ∀ last z rest, p.Takes last z rest → ∃ w ∈ ws, z = w.toList) (hc : isWord c = false) :
    Phrases ws (.seq p (.char c)) := by
  rintro last _ rest ⟨x, y, rfl, hx, hy⟩
  obtain ⟨w, hw, rfl⟩ := hp _ _ _ hx
  obtain rfl := takes_char.1 hy
  exact .word (hws w hw) hw hc (.other hc .nil)

theorem Phrases.word {w : String} (hw : Word w.toList) :
    Phrases [w] (.seq (.text w) someBlanks) :=
  .words (by simpa using hw)

end Phrases

/-- Where the pattern matches after the edits, it matches before them. -/
def Follows (e : Edits) (p : Pattern) : Prop :=
  ∀ ⦃last last' : Option Char⦄ ⦃s t : List Char⦄, Edited e (last'.any isWord) s t →
    Alike p last' last → (last'.any isWord = true → Opens t) → p.Matches last' t → p.Matches last s

section Follows

variable {e : Edits} {ws : List String} {p q r : Pattern}

theorem lastOf_word (last : Option Char) (z : List Char) :
    (lastOf last z).any isWord = z.getLast?.elim (last.any isWord) isWord := by
  rw [lastOf]
  cases z.getLast? <;> rfl

theorem nil_of_lastOf {x : List Char} (hx : Phrase ws x) {last : Option Char}
    (h : (lastOf last x).any isWord = true) : x = [] := by
  have hend := hx.getLast?
  rw [lastOf] at h
  cases hlast : x.getLast? with
  | none => exact List.getLast?_eq_none_iff.1 hlast
  | some c =>
    rw [hlast] at h hend
    rw [Option.some_or, hend] at h
    cases h

theorem lastOf_phrase {x : List Char} (hx : Phrase ws x) {last : Option Char}
    (hlast : last.any isWord = false) : (lastOf last x).any isWord = false := by
  refine Bool.eq_false_iff.2 fun h => ?_
  obtain rfl := nil_of_lastOf hx h
  rw [lastOf_nil, hlast] at h
  cases h

theorem Follows.seq (he : e.Sound) (hq : Phrases ws q) (hmark : q.avoids '!' = true)
    (hsees : q.sees = true) (hfresh : ∀ w ∈ ws, w ∉ e.products) (hp : Follows e p) :
    Follows e (.seq q p) := by
  rintro last last' s _ hedit hlast hopens ⟨_, rest, rfl, x, y, rfl, hx, hy⟩
  have hphrase := hq _ _ _ hx
  rw [List.append_assoc] at hedit hopens
  obtain ⟨s', rfl, hrest⟩ := hedit.phrase he hphrase (hx.avoids hmark) hfresh
  rw [← lastOf_word] at hrest
  have hopens' : (lastOf last' x).any isWord = true → Opens (y ++ rest) := by
    intro hword
    obtain rfl := nil_of_lastOf hphrase hword
    exact hopens hword
  have hlastq : Alike q last' last := hlast.part fun h => by rw [linewise, h, Bool.true_or]
  have hlastp : Alike p last' last := hlast.part fun h => by rw [linewise, h, Bool.or_true]
  obtain ⟨y', rest', hs', hy'⟩ :=
    hp hrest (hlastp.passed x) hopens' ⟨y, rest, rfl, hy⟩
  have hx' := hx.elsewhere hsees hlastq (hrest.head he).symm
  rw [hs'] at hx'
  exact ⟨x ++ y', rest', by rw [hs', List.append_assoc], x, y', rfl, hx', hy'⟩

theorem Follows.behind (he : e.Sound) (hq : Phrases [] q) (hmark : q.avoids '!' = true)
    (hsees : q.sees = true) (hp : Follows e p) : Follows e (.seq q p) :=
  .seq he hq hmark hsees (fun _ hw => absurd hw List.not_mem_nil) hp

theorem Follows.phrase (he : e.Sound) (hp : Phrases ws p) (hmark : p.avoids '!' = true)
    (hsees : p.sees = true) (hfresh : ∀ w ∈ ws, w ∉ e.products) : Follows e p := by
  have hseq : Follows e (.seq p .empty) :=
    .seq he hp hmark hsees hfresh fun _ _ s _ _ _ _ _ => ⟨[], s, rfl, rfl⟩
  rintro last last' s _ hedit hlast hopens ⟨z, rest, rfl, hz⟩
  have hlast : Alike (.seq p .empty) last' last := hlast.part fun h => by
    simpa [linewise] using h
  obtain ⟨_, rest', rfl, x, _, rfl, hx, rfl⟩ := hseq hedit hlast hopens
    ⟨z, rest, rfl, z, [], (List.append_nil z).symm, hz, rfl⟩
  exact ⟨x, rest', by rw [List.append_nil], hx⟩

theorem Follows.assoc (h : Follows e (.seq (.seq p q) r)) : Follows e (.seq p (.seq q r)) := by
  rintro last last' s _ hedit hlast hopens ⟨z, rest, rfl, hz⟩
  have hlast : Alike (.seq (.seq p q) r) last' last := hlast.part fun h => by
    simpa [linewise, Bool.or_assoc] using h
  obtain ⟨z', rest', rfl, hz'⟩ := h hedit hlast hopens ⟨z, rest, rfl, takes_assoc.1 hz⟩
  exact ⟨z', rest', rfl, takes_assoc.2 hz'⟩

theorem Follows.assoc' (h : Follows e (.seq p (.seq q r))) : Follows e (.seq (.seq p q) r) := by
  rintro last last' s _ hedit hlast hopens ⟨z, rest, rfl, hz⟩
  have hlast : Alike (.seq p (.seq q r)) last' last := hlast.part fun h => by
    simpa [linewise, Bool.or_assoc] using h
  obtain ⟨z', rest', rfl, hz'⟩ := h hedit hlast hopens ⟨z, rest, rfl, takes_assoc.2 hz⟩
  exact ⟨z', rest', rfl, takes_assoc.1 hz'⟩

theorem Follows.alt (hp : Follows e p) (hq : Follows e q) : Follows e (.alt p q) := by
  rintro last last' s _ hedit hlast hopens ⟨z, rest, rfl, hz | hz⟩
  · obtain ⟨z', rest', hs, hz'⟩ := hp hedit
      (hlast.part fun h => by rw [linewise, h, Bool.true_or]) hopens ⟨z, rest, rfl, hz⟩
    exact ⟨z', rest', hs, .inl hz'⟩
  · obtain ⟨z', rest', hs, hz'⟩ := hq hedit
      (hlast.part fun h => by rw [linewise, h, Bool.or_true]) hopens ⟨z, rest, rfl, hz⟩
    exact ⟨z', rest', hs, .inr hz'⟩

theorem Follows.anyOf {ps : List Pattern} (hps : ∀ p ∈ ps, Follows e p) :
    Follows e (.anyOf ps) := by
  induction ps with
  | nil =>
    rintro last last' s _ - - - ⟨_, rest, -, c, -, hc⟩
    cases hc
  | cons p ps ih =>
    obtain ⟨hp, hps⟩ := List.forall_mem_cons.1 hps
    cases ps with
    | nil => exact hp
    | cons q ps => exact hp.alt (ih hps)

theorem Follows.tail (hp : Follows e p) (hq : Nullable q) : Follows e (.seq p q) := by
  rintro last last' s _ hedit hlast hopens ⟨_, rest, rfl, x, y, rfl, hx, -⟩
  obtain ⟨z, rest', rfl, hz⟩ := hp hedit (hlast.part fun h => by rw [linewise, h, Bool.true_or])
    hopens ⟨x, y ++ rest, by rw [List.append_assoc], hx⟩
  exact ⟨z, rest', rfl, z, [], (List.append_nil z).symm, hz, hq _ _⟩

theorem Follows.one (he : e.Sound) {member : Char → Bool}
    (hword : ∀ c, isWord c = true → member c = true) (hmark : member '!' = false) :
    Follows e (.one member) := by
  rintro last last' s _ hedit - - ⟨_, rest, rfl, c, rfl, hc⟩
  cases hcw : isWord c with
  | true =>
    have hhead : s.head?.any isWord = true := (hedit.head he).trans hcw
    cases s with
    | nil => cases hhead
    | cons d s =>
      exact ⟨[d], s, rfl, d, rfl, hword d hhead⟩
  | false =>
    have hne : c ≠ '!' := by
      rintro rfl
      rw [hmark] at hc
      cases hc
    obtain ⟨s', rfl, -⟩ := hedit.other he hcw hne
    exact ⟨[c], s', rfl, c, rfl, hc⟩

theorem boundary_iff_opens {last : Option Char} {s : List Char} (hlast : last.any isWord = true) :
    isBoundary last s.head? = true ↔ Opens s := by
  rw [isBoundary, hlast, Opens]
  cases s.head?.any isWord <;> decide

theorem lastOf_of_word {w : List Char} (hw : Word w) (last : Option Char) :
    (lastOf last w).any isWord = true := by
  have hpassed : (w.reverse ++ last.toList).head? = lastOf last w := by
    rw [head?_passed, Option.head?_toList]
  exact hpassed ▸ hw.last _

theorem Follows.whole (he : e.Sound) (hws : ∀ w ∈ ws, Word w.toList)
    (hfresh : ∀ w ∈ ws, w ∉ e.products) : Follows e (.seq (texts ws) .boundary) := by
  rintro last last' s _ hedit - - ⟨_, rest, rfl, x, _, rfl, hx, rfl, hboundary⟩
  obtain ⟨w, hw, rfl⟩ := takes_texts.1 hx
  rw [List.append_nil] at hedit
  have hopens := (boundary_iff_opens (lastOf_of_word (hws w hw) last')).1 hboundary
  obtain ⟨s', rfl, hrest⟩ := hedit.whole he (hws w hw) hopens (hfresh w hw)
  refine ⟨w.toList, s', rfl, w.toList, [], (List.append_nil _).symm, takes_texts.2 ⟨w, hw, rfl⟩,
    rfl, ?_⟩
  exact (boundary_iff_opens (lastOf_of_word (hws w hw) last)).2 (hrest.opens he hopens)

theorem Follows.word (he : e.Sound) {w : String} (hw : Word w.toList) (hfresh : w ∉ e.products) :
    Follows e (.seq (text w) .boundary) :=
  show Follows e (.seq (texts [w]) .boundary) from
    .whole he (List.forall_mem_singleton.2 hw) (List.forall_mem_singleton.2 hfresh)

theorem Follows.opening (he : e.Sound) (hws : ∀ w ∈ ws, Word w.toList)
    (hfresh : ∀ w ∈ ws, ∀ v ∈ e.products, ¬w.toList <+: v.toList) : Follows e (texts ws) := by
  rintro last last' s _ hedit - - ⟨z, rest, rfl, hz⟩
  obtain ⟨w, hw, rfl⟩ := takes_texts.1 hz
  obtain ⟨s', rfl, -⟩ := hedit.opening he (hws w hw) (hfresh w hw)
  exact ⟨w.toList, s', rfl, takes_texts.2 ⟨w, hw, rfl⟩⟩

end Follows

/-- Edits that write no line feed in place of blanks, and fewer exclamation marks. -/
structure Shrinks (e : Edits) : Prop where
  gap : ∀ c, e.gap' c = true → c ≠ '\n'
  marks : ∀ edit ∈ e.marks, edit.2.toList <:+ edit.1.toList

/-- Edits make no match of the pattern. It starts in no word, at blanks only where a line starts,
and at an exclamation mark it does not look back. -/
structure Tracks (e : Edits) (p : Pattern) : Prop where
  advances : p.advances = true
  fresh : ∀ {last s}, p.Matches last s → last.any isWord = true → Opens s
  blank : ∀ {last c s}, p.Matches last (c :: s) → isBlank c = true →
    last.all (· == '\n') = true
  follows : ∀ {last last' s t}, Edited e (last'.any isWord) s t → Alike p last' last →
    (last'.any isWord = true → Opens t) → t.head? ≠ some '!' → p.Matches last' t →
      p.Matches last s
  marked : ∀ {last last' s t}, Edited e false s t → p.Matches last' ('!' :: t) →
    p.Matches last ('!' :: s)

section Tracks

variable {e : Edits} {p : Pattern} {last last' : Option Char} {s t : List Char}

theorem Tracks.inside (hp : Tracks e p) {v x y rest : List Char} (hv : Word v) (hxy : v = x ++ y)
    (hx : x ≠ []) (hy : y ≠ []) : ¬p.Matches (lastOf last x) (y ++ rest) := by
  subst hxy
  have hall := hv.all
  rw [List.all_append, Bool.and_eq_true] at hall
  intro hmatches
  have hopens := hp.fresh hmatches (lastOf_of_word ⟨hx, hall.1⟩ last)
  exact (⟨hy, hall.2⟩ : Word y).not_opens rest hopens

theorem Tracks.word (hp : Tracks e p) {v : List Char} (hv : Word v)
    (hstart : ¬p.Matches last (v ++ t)) {x y : List Char} (hxy : v = x ++ y) (hy : y ≠ []) :
    ¬p.Matches (lastOf last x) (y ++ t) := by
  by_cases hx : x = []
  · subst hx
    rw [List.nil_append] at hxy
    rwa [← hxy, lastOf_nil]
  · exact hp.inside hv hxy hx hy

theorem lastOf_mem {z : List Char} (hz : z ≠ []) (last : Option Char) :
    ∃ c ∈ z, lastOf last z = some c := by
  refine ⟨z.getLast hz, List.getLast_mem hz, ?_⟩
  rw [lastOf, List.getLast?_eq_some_getLast hz, Option.some_or]

theorem alike_words {w v : List Char} (hw : Word w) (hv : Word v) (last last' : Option Char) :
    Alike p (lastOf last' v) (lastOf last w) := by
  refine ⟨by rw [lastOf_of_word hw, lastOf_of_word hv], fun _ hline => ?_⟩
  obtain ⟨c, hc, hlast⟩ := lastOf_mem hv.nonempty last'
  rw [hlast] at hline
  obtain rfl : c = '\n' := by simpa using hline
  exact absurd hc (hv.free (by decide))

theorem Tracks.plain (hp : Tracks e p) {c : Char} (hedit : Edited e (isWord c) s t)
    (hlast : Alike p last' last) (hm : p.Matches last' (c :: t)) : p.Matches last (c :: s) := by
  by_cases hc : c = '!'
  · subst hc
    exact hp.marked hedit hm
  · exact hp.follows (.plain hedit) hlast (hp.fresh hm) (by simpa using hc) hm

theorem head?_ne_mark {v : List Char} (hv : Word v) (t : List Char) :
    (v ++ t).head? ≠ some '!' := by
  intro hhead
  refine hv.not_opens t ?_
  rw [Opens, hhead]
  decide

/-- What was unmatched before the edits is unmatched after them. -/
theorem Tracks.unmatched (he : e.Sound) (hshrinks : Shrinks e) (hp : Tracks e p)
    (hedit : Edited e (last'.any isWord) s t) (hlast : Alike p last' last)
    (h : p.findFrom last s = none) : p.findFrom last' t = none := by
  have hadvances := hp.advances
  -- By induction on the edits. What the two texts have before them may differ, as long as the
  -- pattern cannot tell.
  generalize hinside : last'.any isWord = inside at hedit
  induction hedit generalizing last last' with
  | nil =>
    rw [findFrom, matchAt_none hadvances] at h ⊢
    exact fun hm => h (hp.follows .nil hlast (fun _ => rfl) (by simp) hm)
  | @plain inside c s t hedit ih =>
    rw [findFrom_cons_none hadvances] at h ⊢
    exact ⟨fun hm => h.1 (hp.plain hedit hlast hm), ih (.refl p _) h.2 rfl⟩
  | @word w v s t hmem hs ht hedit ih =>
    obtain ⟨hw, hv⟩ := he.word hmem
    have hwhole : Edited e (last'.any isWord) (w.toList ++ s) (v.toList ++ t) :=
      hinside ▸ .word hmem hs ht hedit
    have hstart : ¬p.Matches last' (v.toList ++ t) := fun hm =>
      (findFrom_none hadvances _ _).1 h [] _ rfl
        (hp.follows hwhole hlast (hp.fresh hm) (head?_ne_mark hv t) hm)
    rw [findFrom_append_none hadvances] at h ⊢
    exact ⟨fun x y hxy hy => hp.word hv hstart hxy hy,
      ih (alike_words hw hv _ _) h.2 (lastOf_of_word hv last')⟩
  | @opener w v b b' s t hmem hb hgap hb' hgap' hedit ih =>
    obtain ⟨hw, hv⟩ := he.opener hmem
    have hwhole : Edited e (last'.any isWord) (w.toList ++ (b ++ s)) (v.toList ++ (b' ++ t)) :=
      hinside ▸ .opener hmem hb hgap hb' hgap' hedit
    have hstart : ¬p.Matches last' (v.toList ++ (b' ++ t)) := fun hm =>
      (findFrom_none hadvances _ _).1 h [] _ rfl
        (hp.follows hwhole hlast (hp.fresh hm) (head?_ne_mark hv _) hm)
    rw [findFrom_append_none hadvances, findFrom_append_none hadvances] at h ⊢
    obtain ⟨c, hc, hlastc⟩ := lastOf_mem hb (lastOf last w.toList)
    obtain ⟨d, hd, hlastd⟩ := lastOf_mem hb' (lastOf last' v.toList)
    have hbreak : d ≠ '\n' := hshrinks.gap d (hgap' d hd)
    refine ⟨fun x y hxy hy => hp.word hv hstart hxy hy, fun x y hxy hy hm => ?_, ih ?_ h.2.2 ?_⟩
    · -- Between the word and the end of the blanks no line starts.
      obtain ⟨a, y, rfl⟩ := List.exists_cons_of_ne_nil hy
      have hline := hp.blank hm (he.gap' a (hgap' a (by simp [hxy])))
      have hsome : ∃ z ∈ v.toList ++ x, lastOf (lastOf last' v.toList) x = some z := by
        rw [← lastOf_append]
        exact lastOf_mem (by simp [hv.nonempty]) last'
      obtain ⟨z, hz, hlastz⟩ := hsome
      rw [hlastz] at hline
      obtain rfl : z = '\n' := by simpa using hline
      rcases List.mem_append.1 hz with hz | hz
      · exact hv.free (by decide) hz
      · exact hshrinks.gap _ (hgap' _ (hxy ▸ List.mem_append_left _ hz)) rfl
    · rw [hlastc, hlastd]
      refine ⟨?_, fun _ hline => absurd (by simpa using hline) hbreak⟩
      simp [not_isWord_of_blank (he.gap c (hgap c hc)),
        not_isWord_of_blank (he.gap' d (hgap' d hd))]
    · rw [hlastd, Option.any_some]
      exact not_isWord_of_blank (he.gap' d (hgap' d hd))
  | @mark inside w v s t hmem hedit ih =>
    -- Marks are only taken away, and a match at a mark does not look at what is before it.
    obtain ⟨u, hu⟩ := hshrinks.marks _ hmem
    obtain ⟨-, v', hv'⟩ := he.mark hmem
    have hmarks := (he.marks _ hmem).2.2
    have hlast {last : Option Char} : lastOf last v.toList = some '!' := by
      obtain ⟨c, hc, hlastc⟩ := lastOf_mem (by simp [hv'] : v.toList ≠ []) last
      rw [hlastc, hmarks c hc]
    change u ++ v.toList = w.toList at hu
    rw [← hu, List.append_assoc, findFrom_append_none hadvances, findFrom_append_none hadvances,
      hlast] at h
    rw [findFrom_append_none hadvances, hlast]
    refine ⟨fun x y hxy hy hm => ?_, ih (.refl p _) h.2.2 rfl⟩
    obtain ⟨c, y, rfl⟩ := List.exists_cons_of_ne_nil hy
    obtain rfl : c = '!' := hmarks c (by simp [hxy])
    refine h.2.1 x _ hxy hy (hp.marked (hedit.plains y ?_) hm)
    cases hy' : y.getLast? with
    | none => rfl
    | some c =>
      rw [hmarks c (by simp [hxy, List.mem_of_getLast? hy'])]
      decide

end Tracks

end Crosswalk.Pattern
