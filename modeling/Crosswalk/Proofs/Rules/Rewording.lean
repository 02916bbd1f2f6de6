import Crosswalk.Proofs.Pattern.Following

namespace Crosswalk

open Text Pattern

namespace Rule

/-- Behind some text, a word and what is taken behind it are replaced. The written word is none that
the rule looks for or passes over, and no match starts in what is written behind it. -/
structure Swap (e : Edits) (ws targets : List String) (p : Pattern) (last : Option Char)
    (rest x : List Char) (w v : String) (b b' : List Char) : Prop where
  phrase : Phrase ws x
  outside : (lastOf last x).any isWord = false
  passed : v ∉ ws
  sought : v ∉ targets
  edit : ((w, v) ∈ e.words ∧ b = b') ∨ ((w, v) ∈ e.openers ∧ b ≠ [] ∧ (∀ c ∈ b, e.gap c = true) ∧
    b' ≠ [] ∧ ∀ c ∈ b', e.gap' c = true)
  opens : Opens (b ++ rest)
  quiet : ∀ y z, b' = y ++ z → z ≠ [] → ∀ last rest, last.any isWord = true →
    ¬p.Matches (lastOf last y) (z ++ rest)

/-- A rule whose matches pass over words of one list to a word of another one, and replace that. -/
structure Rewords (e : Edits) (ws targets : List String) (r : Rule) : Prop where
  takes : r.pattern.takes = true
  tracks : Tracks e r.pattern
  swaps : ∀ {last s m}, r.pattern.matchAt (.behind last s) = some m → ∃ x w v b b',
    m.text = x ++ (w.toList ++ b) ∧ r.replacement m = x ++ (v.toList ++ b') ∧
      Swap e ws targets r.pattern last m.stop.after x w v b b'
  reads : ∀ {last s}, r.pattern.Matches last s → ∃ y w rest, s = y ++ (w.toList ++ rest) ∧
    Phrase ws y ∧ w ∈ targets ∧ Opens rest
  targets : ∀ w ∈ targets, Word w.toList ∧ w ∉ ws

variable {e : Edits} {ws targets : List String} {r : Rule}

section Swap

variable {p : Pattern} {last last' : Option Char} {rest x b b' : List Char} {w v : String}

theorem Swap.words (he : e.Sound) (h : Swap e ws targets p last rest x w v b b') :
    Word w.toList ∧ Word v.toList := by
  rcases h.edit with ⟨hmem, -⟩ | ⟨hmem, -⟩
  · exact he.word hmem
  · exact he.opener hmem

theorem Swap.opens' (he : e.Sound) (h : Swap e ws targets p last rest x w v b b') {t : List Char}
    (hrest : Opens rest → Opens t) : Opens (b' ++ t) := by
  have hopens := h.opens
  rcases h.edit with ⟨-, rfl⟩ | ⟨-, -, -, hb', hgap'⟩
  · cases b with
    | nil => exact hrest hopens
    | cons c b => exact hopens
  · obtain ⟨c, b', rfl⟩ := List.exists_cons_of_ne_nil hb'
    exact not_isWord_of_blank (he.gap' c (hgap' c List.mem_cons_self))

theorem Swap.alike (he : e.Sound) (hshrinks : Shrinks e)
    (h : Swap e ws targets p last rest x w v b b') :
    Alike p (lastOf last' (x ++ (v.toList ++ b'))) (lastOf last (x ++ (w.toList ++ b))) := by
  obtain ⟨hw, hv⟩ := h.words he
  simp only [lastOf_append]
  rcases h.edit with ⟨-, rfl⟩ | ⟨-, hb, hgap, hb', hgap'⟩
  · exact (alike_words hw hv _ _).passed b
  · obtain ⟨c, hc, hlastc⟩ := lastOf_mem hb (lastOf (lastOf last x) w.toList)
    obtain ⟨d, hd, hlastd⟩ := lastOf_mem hb' (lastOf (lastOf last' x) v.toList)
    rw [hlastc, hlastd]
    refine ⟨?_, fun _ hline => ?_⟩
    · simp [not_isWord_of_blank (he.gap c (hgap c hc)),
        not_isWord_of_blank (he.gap' d (hgap' d hd))]
    · exact absurd (by simpa using hline) (hshrinks.gap d (hgap' d hd))

theorem Swap.edited (he : e.Sound) (h : Swap e ws targets p last rest x w v b b')
    (hlast : last'.any isWord = last.any isWord) {t : List Char}
    (hrest : Edited e ((lastOf last (x ++ (w.toList ++ b))).any isWord) rest t) :
    Edited e (last'.any isWord) (x ++ (w.toList ++ b) ++ rest) (x ++ (v.toList ++ b') ++ t) := by
  obtain ⟨hw, hv⟩ := h.words he
  have hend : x.getLast?.elim (last'.any isWord) isWord = false := by
    rw [hlast, ← lastOf_word]
    exact h.outside
  have hopens' : Opens (b' ++ t) := h.opens' he fun hopens => by
    rw [Opens, ← hrest.head he]
    exact hopens
  simp only [List.append_assoc]
  refine Edited.plains ?_ x hend
  rw [lastOf_append, lastOf_append] at hrest
  rcases h.edit with ⟨hmem, rfl⟩ | ⟨hmem, hb, hgap, hb', hgap'⟩
  · refine .word hmem h.opens hopens' (hrest.plains b ?_)
    rw [lastOf_word, lastOf_of_word hw]
  · refine .opener hmem hb hgap hb' hgap' ?_
    obtain ⟨c, hc, hlastc⟩ := lastOf_mem hb (lastOf (lastOf last x) w.toList)
    rw [hlastc, Option.any_some, not_isWord_of_blank (he.gap c (hgap c hc))] at hrest
    exact hrest

end Swap

section Scans

variable {last last' : Option Char} {s : List Char} {pieces : List Piece}

theorem Rewords.scans (he : e.Sound) (hr : r.Rewords e ws targets)
    (h : r.pattern.Scans last s pieces) (hlast : last'.any isWord = last.any isWord) :
    Edited e (last'.any isWord) s (patched r.replacement pieces) := by
  induction h generalizing last' with
  | nil => exact .nil
  | @plain last c s pieces _ _ ih => exact .plain (ih (show (some c).any isWord = _ from rfl))
  | @hit last s m pieces hm _ _ ih =>
    obtain ⟨x, w, v, b, b', htext, hreplaced, hswap⟩ := hr.swaps hm
    have hrest : s = m.stop.after := List.append_cancel_left (matchAt_matches hm).1
    change Edited e _ _ (r.replacement m ++ patched r.replacement pieces)
    have hlater := ih (show (lastOf last m.text).any isWord = _ from rfl)
    rw [← hrest] at hswap
    rw [htext] at hlater ⊢
    rw [hreplaced]
    exact hswap.edited he hlast hlater

theorem Rewords.written (he : e.Sound) (hr : r.Rewords e ws targets) {rest x b b' : List Char}
    {w v : String} (h : Swap e ws targets r.pattern last rest x w v b b') {t y z : List Char}
    (ht : Opens rest → Opens t) (hyz : x ++ (v.toList ++ b') = y ++ z) (hz : z ≠ []) :
    ¬r.pattern.Matches (lastOf last' y) (z ++ t) := by
  obtain ⟨-, hv⟩ := h.words he
  have hbefore {x' : List Char} (hx' : Phrase ws x') (last : Option Char) :
      ¬r.pattern.Matches last (x' ++ (v.toList ++ (b' ++ t))) := by
    intro hm
    obtain ⟨y', u, rest', hsame, hy', hu, hrest'⟩ := hr.reads hm
    obtain ⟨hword, hpassed⟩ := hr.targets u hu
    obtain ⟨rfl, -⟩ := hx'.unique hy' hv hword h.passed hpassed (h.opens' he ht) hrest' hsame
    exact h.sought hu
  intro hm
  rcases List.append_eq_append_iff.1 hyz with ⟨y', rfl, hy'⟩ | ⟨x', rfl, rfl⟩
  · rcases List.append_eq_append_iff.1 hy' with ⟨b₁, rfl, rfl⟩ | ⟨v', hv', rfl⟩
    · -- Behind the written word.
      rw [lastOf_append, lastOf_append] at hm
      exact h.quiet b₁ z rfl hz _ t (lastOf_of_word hv _) hm
    · rw [lastOf_append, List.append_assoc] at hm
      by_cases hv'ne : v' = []
      · subst hv'ne
        rw [List.append_nil] at hv'
        subst hv'
        exact h.quiet [] b' rfl hz _ t (lastOf_of_word hv _) hm
      · by_cases hy'ne : y' = []
        · subst hy'ne
          rw [List.nil_append] at hv'
          subst hv'
          exact hbefore .nil _ hm
        · exact hr.tracks.inside hv hv' hy'ne hv'ne hm
  · refine hbefore (h.phrase.behind fun hword => ?_) _ (by simpa using hm)
    have hlast : (lastOf last' y).any isWord = true := by
      cases hy : y.getLast? with
      | none =>
        rw [hy] at hword
        cases hword
      | some c =>
        rw [hy] at hword
        rwa [lastOf, hy, Option.some_or]
    exact opens_of_append (opens_of_append (hr.tracks.fresh hm hlast))

theorem Rewords.settles (he : e.Sound) (hshrinks : Shrinks e) (hr : r.Rewords e ws targets)
    (h : r.pattern.Scans last s pieces) (hlast : Alike r.pattern last' last) :
    r.pattern.findFrom last' (patched r.replacement pieces) = none := by
  have hadvances := hr.tracks.advances
  induction h generalizing last' with
  | nil last =>
    refine Option.eq_none_iff_forall_ne_some.2 fun m hm => ?_
    exact text_ne_nil hr.takes hm (List.append_eq_nil_iff.1 (matchAt_matches hm).1.symm).1
  | @plain last c s pieces hnone hscans ih =>
    change r.pattern.findFrom last' (c :: patched r.replacement pieces) = none
    rw [matchAt_none hadvances] at hnone
    rw [findFrom_cons_none hadvances]
    have hedit := hr.scans he hscans (show (some c).any isWord = _ from rfl)
    exact ⟨fun hm => hnone (hr.tracks.plain hedit hlast hm), ih (.refl _ _)⟩
  | @hit last s m pieces hm _ hscans ih =>
    obtain ⟨x, w, v, b, b', htext, hreplaced, hswap⟩ := hr.swaps hm
    have hrest : s = m.stop.after := List.append_cancel_left (matchAt_matches hm).1
    change r.pattern.findFrom last' (r.replacement m ++ patched r.replacement pieces) = none
    rw [findFrom_append_none hadvances, hreplaced]
    refine ⟨fun y z hyz hz => hr.written he hswap ?_ hyz hz, ih ?_⟩
    · have hedit := hr.scans he hscans (show (lastOf last m.text).any isWord = _ from rfl)
      rw [← hrest, Opens, hedit.head he]
      exact id
    · rw [htext]
      exact hswap.alike he hshrinks

end Scans

end Rule

end Crosswalk
