import Crosswalk.Proofs.Rules.Settling
import Crosswalk.Proofs.Text.Trim

namespace Crosswalk

namespace Text

/-- There is no blank at the ends of the text, and it is not empty. -/
structure Solid (s : List Char) : Prop where
  head : s.head?.any (!isBlank ·) = true
  last : s.getLast?.any (!isBlank ·) = true

instance (s : List Char) : Decidable (Solid s) :=
  decidable_of_iff (s.head?.any (!isBlank ·) = true ∧ s.getLast?.any (!isBlank ·) = true)
    ⟨fun h => ⟨h.1, h.2⟩, fun h => ⟨h.head, h.last⟩⟩

theorem Solid.around {x y : List Char} (hx : Solid x) (hy : Solid y) (z : List Char) :
    Solid (x ++ (z ++ y)) where
  head := by
    cases x with
    | nil => cases hx.head
    | cons c x => exact hx.head
  last := by
    have hne : y ≠ [] := by
      rintro rfl
      cases hy.last
    rw [List.getLast?_append_of_ne_nil _ (List.append_ne_nil_of_right_ne_nil z hne),
      List.getLast?_append_of_ne_nil _ hne]
    exact hy.last

theorem solid_singleton {c : Char} (hc : isBlank c = false) : Solid [c] :=
  ⟨by simp [hc], by simp [hc]⟩

theorem Solid.trim {k : List Char} (hk : Solid k) {b : List Char} (hb : ∀ c ∈ b, isBlank c = true)
    (rest : List Char) : trim (b ++ (k ++ rest)) = k ++ trimEnd rest := by
  have hhead : (k ++ rest).head?.any isBlank = false := by
    have hfirst := hk.head
    cases k with
    | nil => cases hfirst
    | cons c k => simpa using hfirst
  have hlast : (k ++ trimEnd rest).getLast?.any isBlank = false := by
    rw [List.getLast?_append]
    cases hrest : (trimEnd rest).getLast? with
    | some c =>
      rw [Option.some_or, ← hrest, trimEnd, List.getLast?_reverse]
      exact head?_trimStart _
    | none =>
      have hend := hk.last
      cases hk' : k.getLast? with
      | none => rfl
      | some c => simpa [hk'] using hend
  obtain ⟨b', hrest, hb'⟩ := trimEnd_append rest
  rw [Text.trim, trimStart, List.dropWhile_append_of_pos hb, ← trimStart, trimStart_self hhead]
  conv_lhs => rw [hrest, ← List.append_assoc]
  exact trimEnd_blanks hlast hb'

end Text

namespace Pattern

open Text

variable {p q : Pattern} {last : Option Char} {z rest b b' s : List Char}

theorem takes_trailing (hp : p.sees = true) (hb : ∀ c ∈ b, isBlank c = true) :
    p.Takes last z (rest ++ b) ↔ p.Takes last z rest := by
  have hhead : (rest ++ b).head?.any isWord = rest.head?.any isWord := by
    cases rest with
    | cons c rest => rfl
    | nil =>
      cases b with
      | nil => rfl
      | cons c b => exact not_isWord_of_blank (hb c List.mem_cons_self)
  exact ⟨fun h => h.elsewhere hp (.refl p last) hhead,
    fun h => h.elsewhere hp (.refl p last) hhead.symm⟩

/-- Whatever the pattern takes at the start of a text may be indented. -/
def Indents (p : Pattern) : Prop :=
  ∀ c z rest, Rules.isIndent c = true → p.Takes none z rest → p.Takes none (c :: z) rest

theorem Indents.indent : Indents Rules.indent :=
  fun _ _ _ hc hz => List.forall_mem_cons.2 ⟨hc, hz⟩

theorem Indents.group {i : Nat} (hp : Indents p) : Indents (.group i p) := hp

theorem Indents.lineStart (hp : Indents p) : Indents (.seq .lineStart p) := by
  rintro c _ rest hc ⟨_, z, rfl, ⟨rfl, hstart⟩, hz⟩
  exact ⟨[], c :: z, rfl, ⟨rfl, hstart⟩, hp c z rest hc hz⟩

theorem isBlank_of_isIndent {c : Char} (hc : Rules.isIndent c = true) : isBlank c = true := by
  rw [Rules.isIndent, Bool.or_eq_true, beq_iff_eq, beq_iff_eq] at hc
  rcases hc with rfl | rfl <;> decide

theorem Alike.other {last' : Option Char} (hp : p.linewise = false)
    (hlast : last.any isWord = false) (hlast' : last'.any isWord = false) : Alike p last last' where
  word := hlast.trans hlast'.symm
  line := fun hline => by
    rw [hp] at hline
    cases hline

theorem lastOf_blanks (hb : ∀ c ∈ b, isBlank c = true) : (lastOf none b).any isWord = false :=
  lastOf_phrase (show Phrase [] b from .blanks hb) rfl

theorem lastOf_of_ne_nil {x : List Char} (hx : x ≠ []) (last last' : Option Char) :
    lastOf last x = lastOf last' x := by
  rw [lastOf, lastOf, List.getLast?_eq_some_getLast hx, Option.some_or, Option.some_or]

theorem Indents.seq (hp : Indents p) (hsees : q.sees = true) (hq : q.linewise = false) :
    Indents (.seq p q) := by
  rintro c _ rest hc ⟨x, y, rfl, hx, hy⟩
  refine ⟨c :: x, y, rfl, hp c x _ hc hx, ?_⟩
  by_cases hnil : x = []
  · subst hnil
    have hc : ∀ d ∈ [c], isBlank d = true := List.forall_mem_singleton.2 (isBlank_of_isIndent hc)
    exact hy.elsewhere hsees (.other hq rfl (lastOf_blanks hc)) rfl
  · rw [lastOf_cons, lastOf_of_ne_nil hnil (some c) none]
    exact hy

theorem Indents.takes (hp : Indents p) (hb : ∀ c ∈ b, Rules.isIndent c = true)
    (h : p.Takes none z rest) : p.Takes none (b ++ z) rest := by
  induction b with
  | nil => exact h
  | cons c b ih =>
    obtain ⟨hc, hb⟩ := List.forall_mem_cons.1 hb
    exact hp c _ _ hc (ih hb)

theorem not_isWord_of_lineStart (h : last.all (· == '\n') = true) : last.any isWord = false := by
  cases last with
  | none => rfl
  | some c =>
    obtain rfl : c = '\n' := by simpa using h
    decide

theorem unmatched_behind (hadvances : p.advances = true) (hsees : p.sees = true)
    (hline : (lastOf none b).all (· == '\n') = true) (h : p.find? (b ++ s) = none) :
    p.find? s = none := by
  have hbehind := ((findFrom_append_none hadvances).1 h).2
  rw [findFrom_none hadvances] at hbehind
  rw [find?, findFrom_none hadvances]
  rintro x _ rfl ⟨z, rest, rfl, hz⟩
  have hlast : Alike p none (lastOf none b) :=
    ⟨(not_isWord_of_lineStart hline).symm, fun _ _ => hline⟩
  exact hbehind x (z ++ rest) rfl ⟨z, rest, rfl, hz.elsewhere hsees (hlast.passed x) rfl⟩

theorem unmatched_between (hadvances : p.advances = true) (hsees : p.sees = true)
    (hline : p.linewise = false) (hb : ∀ c ∈ b, isBlank c = true) (hb' : ∀ c ∈ b', isBlank c = true)
    (h : p.find? (b ++ (s ++ b')) = none) : p.find? s = none := by
  rw [find?, findFrom_none hadvances] at h ⊢
  rintro x _ rfl ⟨z, rest, rfl, hz⟩
  rw [← takes_trailing hsees hb'] at hz
  have hlast : Alike p none (lastOf none b) := .other hline rfl (lastOf_blanks hb)
  refine h (b ++ x) (z ++ (rest ++ b')) (by simp) ⟨z, rest ++ b', rfl, ?_⟩
  rw [lastOf_append]
  exact hz.elsewhere hsees (hlast.passed x) rfl

theorem unmatched_inside (hadvances : p.advances = true) (hsees : p.sees = true)
    (hp : p.linewise = false ∨ Indents p) (hb : ∀ c ∈ b, Rules.isIndent c = true)
    (hb' : ∀ c ∈ b', isBlank c = true) (h : p.find? (b ++ (s ++ b')) = none) :
    p.find? s = none := by
  rcases hp with hline | hindents
  · exact unmatched_between hadvances hsees hline (fun c hc => isBlank_of_isIndent (hb c hc)) hb' h
  · rw [find?, findFrom_none hadvances] at h ⊢
    rintro x _ rfl ⟨z, rest, rfl, hz⟩
    rw [← takes_trailing hsees hb'] at hz
    by_cases hnil : x = []
    · subst hnil
      exact h [] _ rfl ⟨b ++ z, rest ++ b', by simp, hindents.takes hb hz⟩
    · refine h (b ++ x) (z ++ (rest ++ b')) (by simp) ⟨z, rest ++ b', rfl, ?_⟩
      rwa [lastOf_append, lastOf_of_ne_nil hnil (lastOf none b) none]

def TakesSolid (p : Pattern) : Prop := ∀ last z rest, p.Takes last z rest → Solid z

theorem TakesSolid.seq (hp : TakesSolid p) (hq : TakesSolid q) : TakesSolid (.seq p q) := by
  rintro last _ rest ⟨x, y, rfl, hx, hy⟩
  exact (hp _ _ _ hx).around (hq _ _ _ hy) []

theorem TakesSolid.around {r : Pattern} (hp : TakesSolid p) (hq : TakesSolid q) :
    TakesSolid (.seq p (.seq r q)) := by
  rintro last _ rest ⟨x, _, rfl, hx, z, y, rfl, -, hy⟩
  exact (hp _ _ _ hx).around (hq _ _ _ hy) z

theorem TakesSolid.boundary (hp : TakesSolid p) : TakesSolid (.seq p .boundary) := by
  rintro last _ rest ⟨x, _, rfl, hx, rfl, -⟩
  rw [List.append_nil]
  exact hp _ _ _ hx

theorem TakesSolid.texts {ws : List String} (hws : ∀ w ∈ ws, Solid w.toList) :
    TakesSolid (.texts ws) := by
  intro last z rest hz
  obtain ⟨w, hw, rfl⟩ := takes_texts.1 hz
  exact hws w hw

theorem TakesSolid.text {w : String} (hw : Solid w.toList) : TakesSolid (.text w) :=
  fun _ _ _ hz => takes_text.1 hz ▸ hw

theorem TakesSolid.anyOf {ps : List Pattern} (hps : ∀ p ∈ ps, TakesSolid p) :
    TakesSolid (.anyOf ps) := by
  intro last z rest hz
  obtain ⟨p, hp, hz⟩ := takes_anyOf.1 hz
  exact hps p hp _ _ _ hz

theorem TakesSolid.star {r : Pattern} (hp : TakesSolid p) (hq : TakesSolid q) :
    TakesSolid (.seq (.star (.seq p r)) q) := by
  rintro last _ rest ⟨x, y, rfl, hx, hy⟩
  change Rounds _ _ _ _ at hx
  have hlast := hq _ _ _ hy
  cases hx with
  | stop => exact hlast
  | @again _ round x _ hround _ =>
    obtain ⟨w, z, rfl, hw, -⟩ := hround
    rw [List.append_assoc, List.append_assoc, ← List.append_assoc z]
    exact (hp _ _ _ hw).around hlast _

/-- Where a line of a solid pattern starts the text, it starts the trimmed text, and there are only
indents before it. -/
theorem matches_trim (hsees : p.sees = true) (hline : p.linewise = false) (hp : TakesSolid p)
    (h : (Rules.lineOf p).Matches none s) : (Rules.lineOf p).Matches none (trim s) ∧
      ∃ b b', s = b ++ (trim s ++ b') ∧ (∀ c ∈ b, Rules.isIndent c = true) ∧
        ∀ c ∈ b', isBlank c = true := by
  obtain ⟨_, rest, rfl, _, _, rfl, ⟨rfl, -⟩, b, k, rfl, hb, hk⟩ := h
  have hb : ∀ c ∈ b, Rules.isIndent c = true := hb
  have hk : p.Takes (lastOf none b) k rest := hk
  have hblank : ∀ c ∈ b, isBlank c = true := fun c hc => isBlank_of_isIndent (hb c hc)
  have htrim := (hp _ _ _ hk).trim hblank rest
  obtain ⟨b', hrest, hb'⟩ := trimEnd_append rest
  rw [List.nil_append, List.append_assoc, htrim]
  refine ⟨⟨k, trimEnd rest, rfl, [], k, rfl, ⟨rfl, rfl⟩, [], k, rfl, List.forall_mem_nil _, ?_⟩,
    b, b', ?_, hb, hb'⟩
  · rw [hrest, takes_trailing hsees hb'] at hk
    exact hk.elsewhere hsees (.other hline (lastOf_blanks hblank) rfl) rfl
  · rw [List.append_assoc, ← hrest]

end Pattern

namespace Rules

open Pattern

theorem keywordThenWord_solid {ws : List String} (hws : ∀ w ∈ ws, Text.Solid w.toList) :
    TakesSolid (keywordThenWord ws) := by
  refine .around (.texts hws) ?_
  rintro last _ rest ⟨c, rfl, hc⟩
  refine Text.solid_singleton (Bool.eq_false_iff.2 fun hblank => ?_)
  rw [Text.not_isWord_of_blank hblank] at hc
  cases hc

theorem swiftAnchor_solid : ∃ body, swiftAnchor = lineOf body ∧ body.sees = true ∧
    body.linewise = false ∧ TakesSolid body := by
  refine ⟨_, rfl, by decide, by decide, .anyOf ?_⟩
  refine List.forall_mem_cons.2 ⟨?_, List.forall_mem_cons.2 ⟨?_, List.forall_mem_cons.2 ⟨?_,
    List.forall_mem_cons.2 ⟨?_, List.forall_mem_cons.2 ⟨?_, List.forall_mem_cons.2 ⟨?_,
      List.forall_mem_nil _⟩⟩⟩⟩⟩⟩
  · exact keywordThenWord_solid (by decide)
  · exact .around (.text (by decide)) (.boundary (.text (by decide)))
  · exact .boundary (.text (by decide))
  · exact .boundary (.text (by decide))
  · exact .boundary (.text (by decide))
  · exact .star (.texts (by decide)) (keywordThenWord_solid (by decide))

theorem kotlinAnchor_solid : ∃ body, kotlinAnchor = lineOf body ∧ body.sees = true ∧
    body.linewise = false ∧ TakesSolid body := by
  refine ⟨_, rfl, by decide, by decide, .anyOf ?_⟩
  refine List.forall_mem_cons.2 ⟨?_, List.forall_mem_cons.2 ⟨?_, List.forall_mem_cons.2 ⟨?_,
    List.forall_mem_cons.2 ⟨?_, List.forall_mem_nil _⟩⟩⟩⟩
  · exact keywordThenWord_solid (by decide)
  · exact keywordThenWord_solid (by decide)
  · refine .seq ?_ (.boundary (.texts (by decide)))
    rintro last _ rest ⟨c, rfl, hc⟩
    exact Text.solid_singleton (eq_of_beq hc ▸ by decide)
  · exact .star (.texts (by decide)) (keywordThenWord_solid (by decide))

theorem line_indents {p q : Pattern} (hp : p.sees = true ∧ p.linewise = false)
    (hq : q.sees = true ∧ q.linewise = false) : Indents (.seq (lineOf p) q) :=
  .seq (.lineStart (.seq .indent hp.1 hp.2)) hq.1 hq.2

theorem keywordRule_indents {name keyword keyword' : String} {before : Pattern}
    (hbefore : before.sees = true ∧ before.linewise = false)
    (hkeyword : (text keyword).sees = true ∧ (text keyword).linewise = false) :
    Indents (keywordRule name before keyword keyword').pattern := by
  refine .lineStart (.seq (.group (.seq .indent hbefore.1 hbefore.2)) ?_ ?_)
  · exact Bool.and_eq_true_iff.2 ⟨hkeyword.1, rfl⟩
  · exact Bool.or_eq_false_iff.2 ⟨hkeyword.2, rfl⟩

end Rules

namespace Direction

open Pattern Rules

theorem codeAnchor_solid (d : Direction) : ∃ body, d.rules.codeAnchor = lineOf body ∧
    body.sees = true ∧ body.linewise = false ∧ TakesSolid body := by
  cases d with
  | kotlinToSwift => exact swiftAnchor_solid
  | swiftToKotlin => exact kotlinAnchor_solid

theorem cleanup_sees (d : Direction) : ∀ r ∈ d.rules.cleanup,
    r.pattern.advances = true ∧ r.pattern.sees = true := by
  cases d <;> decide

theorem cleanup_indents (d : Direction) : ∀ r ∈ d.rules.cleanup,
    r.pattern.linewise = false ∨ Indents r.pattern := by
  cases d with
  | kotlinToSwift =>
    refine List.forall_mem_cons.2 ⟨.inr ?_, List.forall_mem_cons.2 ⟨.inr ?_,
      List.forall_mem_cons.2 ⟨.inr ?_, List.forall_mem_cons.2 ⟨.inr ?_, ?_⟩⟩⟩⟩
    · exact line_indents (by decide) (by decide)
    · exact line_indents (by decide) (by decide)
    · exact keywordRule_indents (by decide) (by decide)
    · exact keywordRule_indents (by decide) (by decide)
    · exact fun r hr => .inl (by revert r; decide)
  | swiftToKotlin =>
    refine List.forall_mem_cons.2 ⟨.inr ?_, List.forall_mem_cons.2 ⟨.inr ?_,
      List.forall_mem_cons.2 ⟨.inr ?_, ?_⟩⟩⟩
    · exact line_indents (by decide) (by decide)
    · exact keywordRule_indents (by decide) (by decide)
    · exact keywordRule_indents (by decide) (by decide)
    · exact fun r hr => .inl (by revert r; decide)

end Direction

end Crosswalk
