import Crosswalk.Candidate
import Crosswalk.Proofs.Rules.Settling
import Crosswalk.Proofs.Text.Trim

namespace Crosswalk

open Text Pattern

theorem Text.exists_cons_of_head {f : Char → Bool} {s : List Char} (h : s.head?.any f = true) :
    ∃ c rest, s = c :: rest ∧ f c = true := by
  cases s with
  | nil => cases h
  | cons c rest => exact ⟨c, rest, rfl, h⟩

namespace Rules

def openings : List String := ["//", "/*", "*", "@", "#"]

def isSign (c : Char) : Bool := c == '-' || c == '+' || c == '*' || c == '/'

def Named (s : List Char) : Prop :=
  ∃ x b, s = x ++ b ∧ x.head?.any isIdentifierStart = true ∧ (∀ c ∈ x, isDotted c = true) ∧
    ∀ c ∈ b, isBlank c = true

def Typed (s : List Char) : Prop :=
  ∃ b x b', s = b ++ (x ++ b') ∧ (∀ c ∈ b, isBlank c = true) ∧ x ≠ [] ∧
    (∀ c ∈ x, isTypeChar c = true) ∧ ∀ c ∈ b', isBlank c = true

/-- What may stand before an equals sign: a name, maybe its type, and maybe a sign. -/
def Assignee (s : List Char) : Prop :=
  ∃ p sign, s = p ++ sign ∧ (sign = [] ∨ ∃ c, sign = [c] ∧ isSign c = true) ∧
    (Named p ∨ ∃ name type, p = name ++ ':' :: type ∧ Named name ∧ Typed type)

theorem isDotted_of_start {c : Char} (h : isIdentifierStart c = true) : isDotted c = true := by
  have hchar : isIdentifierChar c = true := by
    rw [isIdentifierStart, Bool.or_eq_true] at h
    rw [isIdentifierChar, Bool.or_eq_true]
    exact h.imp_left fun h => by rw [Char.isAlphanum, h, Bool.true_or]
  rw [isDotted, isWord_of_identifierChar hchar, Bool.true_or]

theorem matches_assignment {line : List Char} : assignment.Matches none line ↔
    ∃ a d rest, line = a ++ '=' :: d :: rest ∧ Assignee a ∧ d ≠ '=' := by
  constructor
  · rintro ⟨_, rest, rfl, _, _, rfl, ⟨rfl, -⟩, _, _, rfl, ⟨c, rfl, hc⟩, x, _, rfl, hx, type, _, rfl,
      htype, b, _, rfl, hb, sign, _, rfl, hone, _, _, rfl, heq, d, rfl, hd⟩
    obtain rfl := takes_char.1 heq
    have hsign : sign = [] ∨ ∃ c, sign = [c] ∧ isSign c = true := hone.symm
    have hdotted : ∀ c' ∈ c :: x, isDotted c' = true :=
      List.forall_mem_cons.2 ⟨isDotted_of_start hc, hx⟩
    rcases htype with ⟨b₁, _, rfl, hb₁, _, _, rfl, hcolon, b₂, y, rfl, hb₂, hy⟩ | rfl
    · obtain rfl := takes_char.1 hcolon
      obtain ⟨hne, hy⟩ := takes_atLeastOne.1 hy
      refine ⟨c :: x ++ b₁ ++ ':' :: (b₂ ++ (y ++ b)) ++ sign, d, rest, by simp,
        ⟨_, sign, rfl, hsign, .inr ⟨c :: x ++ b₁, _, rfl, ?_, ?_⟩⟩, by simpa using hd⟩
      · exact ⟨c :: x, b₁, rfl, hc, hdotted, hb₁⟩
      · exact ⟨b₂, y, b, rfl, hb₂, hne, hy, hb⟩
    · exact ⟨c :: x ++ b ++ sign, d, rest, by simp,
        ⟨_, sign, rfl, hsign, .inl ⟨c :: x, b, rfl, hc, hdotted, hb⟩⟩, by simpa using hd⟩
  · rintro ⟨_, d, rest, rfl, ⟨_, sign, rfl, hsign, hp⟩, hd⟩
    have hlast : (one (· != '=')).Takes (some '=') [d] rest := ⟨d, rfl, by simpa using hd⟩
    rcases hp with ⟨x, b, rfl, hc, hx, hb⟩ | ⟨_, _, rfl, ⟨x, b₁, rfl, hc, hx, hb₁⟩,
      b₂, y, b, rfl, hb₂, hne, hy, hb⟩
    · obtain ⟨c, x, rfl, hc⟩ := exists_cons_of_head hc
      exact ⟨[] ++ ([c] ++ (x ++ ([] ++ (b ++ (sign ++ (['='] ++ [d])))))), rest, by simp,
        [], _, rfl, ⟨rfl, rfl⟩, [c], _, rfl, ⟨c, rfl, hc⟩, x, _, rfl,
        fun c hc => hx c (List.mem_cons_of_mem _ hc), [], _, rfl, .inr rfl, b, _, rfl, hb,
        sign, _, rfl, hsign.symm, ['='], [d], rfl, takes_char.2 rfl, hlast⟩
    · obtain ⟨c, x, rfl, hc⟩ := exists_cons_of_head hc
      exact ⟨[] ++ ([c] ++ (x ++ (b₁ ++ ([':'] ++ (b₂ ++ y)) ++ (b ++ (sign ++ (['='] ++ [d])))))),
        rest, by simp, [], _, rfl, ⟨rfl, rfl⟩, [c], _, rfl, ⟨c, rfl, hc⟩, x, _, rfl,
        fun c hc => hx c (List.mem_cons_of_mem _ hc), _, _, rfl,
        .inl ⟨b₁, _, rfl, hb₁, [':'], _, rfl, takes_char.2 rfl, b₂, y, rfl, hb₂,
          takes_atLeastOne.2 ⟨hne, hy⟩⟩, b, _, rfl, hb, sign, _, rfl, hsign.symm,
        ['='], [d], rfl, takes_char.2 rfl, hlast⟩

theorem nil_of_lastOf_none {x : List Char} (h : lastOf none x = none) : x = [] := by
  rw [lastOf, Option.or_none] at h
  exact List.getLast?_eq_none_iff.1 h

theorem occursIn_codeLikeLine {line : List Char} : codeLikeLine.occursIn line = true ↔
    (∃ w ∈ openings, w.toList <+: line) ∨
    (∃ kw ∈ lineKeywords, ∃ rest, line = kw.toList ++ rest ∧ Opens rest) ∨
    (∃ x c, line = x ++ [c] ∧ isClosing c = true) ∨ assignment.Matches none line := by
  have hwords : ∀ kw ∈ lineKeywords, Word kw.toList := by decide
  have hend {kw : String} (hkw : kw ∈ lineKeywords) (last : Option Char) (rest : List Char) :
      isBoundary (lastOf last kw.toList) rest.head? = true ↔ Opens rest :=
    boundary_iff_opens (lastOf_of_word (hwords kw hkw) last)
  have hadvances : codeLikeLine.advances = true := by decide
  rw [occursIn, Option.isSome_iff_ne_none, find?, Ne, findFrom_none hadvances]
  push Not
  constructor
  · rintro ⟨x, _, rfl, z, rest, rfl, hz | hz | hz⟩
    · obtain ⟨_, y, rfl, ⟨rfl, hstart⟩, hy⟩ := hz
      obtain rfl := nil_of_lastOf_none hstart
      rcases hy with hy | ⟨_, _, rfl, hkw, rfl, hboundary⟩
      · obtain ⟨w, hw, rfl⟩ := takes_texts.1 hy
        exact .inl ⟨w, hw, ⟨rest, rfl⟩⟩
      · obtain ⟨kw, hmem, rfl⟩ := takes_texts.1 hkw
        exact .inr (.inl ⟨kw, hmem, rest, by simp, (hend hmem _ _).1 hboundary⟩)
    · obtain ⟨_, _, rfl, ⟨c, rfl, hc⟩, rfl, rfl⟩ := hz
      exact .inr (.inr (.inl ⟨x, c, by simp, hc⟩))
    · obtain ⟨_, _, -, ⟨-, hstart⟩, -⟩ := id hz
      obtain rfl := nil_of_lastOf_none hstart
      exact .inr (.inr (.inr ⟨z, rest, rfl, hz⟩))
  · rintro (⟨w, hw, rest, rfl⟩ | ⟨kw, hkw, rest, rfl, hrest⟩ | ⟨x, c, rfl, hc⟩ | ⟨z, rest, rfl, hz⟩)
    · exact ⟨[], _, rfl, w.toList, rest, rfl,
        .inl ⟨[], _, rfl, ⟨rfl, rfl⟩, .inl (takes_texts.2 ⟨w, hw, rfl⟩)⟩⟩
    · exact ⟨[], _, rfl, kw.toList, rest, rfl, .inl ⟨[], _, rfl, ⟨rfl, rfl⟩,
        .inr ⟨_, [], (List.append_nil _).symm, takes_texts.2 ⟨kw, hkw, rfl⟩, rfl,
          (hend hkw _ _).2 hrest⟩⟩⟩
    · exact ⟨x, [c], rfl, [c], [], rfl, .inr (.inl ⟨[c], [], rfl, ⟨c, rfl, hc⟩, rfl, rfl⟩)⟩
    · exact ⟨[], _, rfl, z, rest, rfl, .inr (.inr hz)⟩

section Edited

variable {d : Direction} {inside : Bool} {s t : List Char}

theorem edits_keywords (d : Direction) : ∀ edit ∈ d.edits.words ++ d.edits.openers,
    edit.1 ∈ lineKeywords → edit.2 ∈ lineKeywords := by
  cases d <;> decide

theorem edits_named (d : Direction) : ∀ v ∈ d.edits.products,
    v.toList.head?.any isIdentifierStart = true := by
  cases d <;> decide

theorem edits_gap (d : Direction) {c : Char} (hc : d.edits.gap' c = true) : c = ' ' := by
  cases d <;> exact eq_of_beq hc

theorem start_of_edited (h : Edited d.edits inside s t)
    (hs : s.head?.any isIdentifierStart = true) : t.head?.any isIdentifierStart = true := by
  have he := d.edits_sound
  have hnamed {edit : String × String} (hmem : edit ∈ d.edits.words ++ d.edits.openers)
      (t : List Char) : (edit.2.toList ++ t).head?.any isIdentifierStart = true := by
    have hhead := edits_named d edit.2 (List.mem_map_of_mem hmem)
    rwa [List.head?_append_of_ne_nil _ (he.words edit hmem).2.nonempty]
  cases h with
  | nil | plain => exact hs
  | word hmem => exact hnamed (List.mem_append_left _ hmem) _
  | opener hmem => exact hnamed (List.mem_append_right _ hmem) _
  | mark hmem =>
    obtain ⟨⟨w', hw⟩, -⟩ := he.mark hmem
    rw [hw] at hs
    cases hs

theorem Named.edited (h : Edited d.edits inside s t) (hs : Named s) : Named t := by
  obtain ⟨x, b, rfl, hstart, hx, hb⟩ := hs
  have hne : x ≠ [] := by
    rintro rfl
    cases hstart
  have hdotted : ∀ c, isBlank c = true → isDotted c = false := by
    intro c hc
    rw [isDotted, not_isWord_of_blank hc, Bool.false_or]
    exact beq_false_of_ne (by rintro rfl; cases hc)
  obtain ⟨x', b', rfl, hx', hb', hne'⟩ := h.spaced d.edits_sound
    (fun c hc => by rw [isDotted, hc, Bool.true_or]) (by decide) (.inr hdotted) rfl hx hb
  have hstart' := start_of_edited h (by rwa [List.head?_append_of_ne_nil _ hne])
  rw [List.head?_append_of_ne_nil _ (hne' hne)] at hstart'
  exact ⟨x', b', rfl, hstart', hx', hb'⟩

theorem Typed.edited (h : Edited d.edits inside s t) (hs : Typed s) : Typed t := by
  obtain ⟨b, x, b', rfl, hb, hne, hx, hb'⟩ := hs
  obtain ⟨t', _, rfl, hrest, -⟩ := h.behind_blanks d.edits_sound hb
  obtain ⟨x', b'', rfl, hx', hb'', hne'⟩ := hrest.spaced d.edits_sound
    (fun c hc => by simp [isTypeChar, hc]) (by decide)
    (.inl fun c hc => by rw [edits_gap d hc]; decide) rfl hx hb'
  exact ⟨b, x', b'', rfl, hb, hne' hne, hx', hb''⟩

theorem Assignee.edited (h : Edited d.edits inside s t) (hs : Assignee s) : Assignee t := by
  have he := d.edits_sound
  obtain ⟨p, sign, rfl, hsign, hp⟩ := hs
  have hend : ∃ p', t = p' ++ sign ∧ Edited d.edits inside p p' := by
    rcases hsign with rfl | ⟨c, rfl, hc⟩
    · exact ⟨t, (List.append_nil t).symm, by rwa [List.append_nil] at h⟩
    · have hother : isWord c = false ∧ c ≠ '!' ∧ d.edits.gap c = false := by
        simp only [isSign, Bool.or_eq_true, beq_iff_eq] at hc
        rcases hc with ((rfl | rfl) | rfl) | rfl <;> cases d <;> decide
      obtain ⟨p', t', rfl, hp, hrest⟩ := h.parts he hother.1 hother.2.1 hother.2.2
      obtain rfl := hrest.flip.nil_of_edited he.flip
      exact ⟨p', rfl, hp⟩
  obtain ⟨p', rfl, hp'⟩ := hend
  refine ⟨p', sign, rfl, hsign, ?_⟩
  rcases hp with hname | ⟨name, type, rfl, hname, htype⟩
  · exact .inl (hname.edited hp')
  · have hgap : d.edits.gap ':' = false := by cases d <;> decide
    obtain ⟨name', type', rfl, hn, ht⟩ := hp'.parts he (by decide) (by decide) hgap
    exact .inr ⟨name', type', rfl, hname.edited hn, htype.edited ht⟩

theorem newline_of_edited (h : Edited d.edits inside s t) (hs : '\n' ∉ s) : '\n' ∉ t := by
  intro hin
  obtain ⟨x, y, rfl⟩ := List.append_of_mem hin
  have hgap : d.edits.gap' '\n' = false := by cases d <;> decide
  obtain ⟨x', y', rfl, -⟩ := h.apart d.edits_sound (by decide) (by decide) hgap
  exact hs (List.mem_append_right x' List.mem_cons_self)

theorem blank_of_edited (h : Edited d.edits inside s t) :
    s.head?.any isBlank = t.head?.any isBlank := by
  have hword {s : List Char} (hs : s.head?.any isWord = true) : s.head?.any isBlank = false := by
    obtain ⟨c, s, rfl, hc⟩ := exists_cons_of_head hs
    exact Bool.eq_false_iff.2 fun hblank => by
      rw [not_isWord_of_blank (by simpa using hblank)] at hc
      cases hc
  rcases h.heads d.edits_sound with heq | ⟨hs, ht⟩
  · rw [heq]
  · rw [hword hs, hword ht]

variable (hs : s.head?.any isBlank = false) (h : Edited d.edits inside s t)
include hs h

theorem firstLine_opening {w : String} (hw : w ∈ openings) (hline : w.toList <+: firstLine s) :
    w.toList <+: firstLine t := by
  have hopening : ∀ w ∈ openings,
      (w.toList.all fun c => !isWord c && c != '!' && c != '\n') = true ∧
        w.toList.getLast?.any isBlank = false := by decide
  obtain ⟨hall, hlast⟩ := hopening w hw
  simp only [List.all_eq_true, Bool.and_eq_true, Bool.not_eq_true', bne_iff_ne] at hall
  obtain ⟨b, more, hmore, -⟩ := firstLine_append hs
  obtain ⟨rest, hrest⟩ := hline
  rw [← hrest, List.append_assoc] at hmore
  rw [hmore] at h
  obtain ⟨t', _, rfl, -⟩ := h.behind_others d.edits_sound (fun c hc => (hall c hc).1.1)
    fun hin => (hall _ hin).1.2 rfl
  refine prefix_firstLine ?_ (List.prefix_append _ _) (fun hin => (hall _ hin).2 rfl) hlast
  rw [← blank_of_edited h, ← hmore, hs]

theorem firstLine_keyword {kw : String} {rest : List Char} (hkw : kw ∈ lineKeywords)
    (hline : firstLine s = kw.toList ++ rest) (hrest : Opens rest) :
    ∃ kw ∈ lineKeywords, ∃ rest, firstLine t = kw.toList ++ rest ∧ Opens rest := by
  have he := d.edits_sound
  have hwords : ∀ kw ∈ lineKeywords, Word kw.toList := by decide
  obtain ⟨b, more, hmore, hb, -, hmore'⟩ := firstLine_append hs
  have hopens : Opens (rest ++ (b ++ more)) := by
    cases rest with
    | cons c rest => exact hrest
    | nil =>
      cases b with
      | cons c b => exact not_isWord_of_blank (hb c List.mem_cons_self)
      | nil =>
        rcases hmore' with rfl | ⟨r, rfl⟩
        · rfl
        · exact opens_cons.2 (by decide)
  rw [hline, List.append_assoc] at hmore
  have ht := blank_of_edited h
  rw [hs] at ht
  rw [hmore] at h
  obtain ⟨v, t', rfl, ht', hv⟩ := h.replaced he (hwords kw hkw) hopens
  have hmem : v ∈ lineKeywords := by
    rcases hv with rfl | hv
    · exact hkw
    · exact edits_keywords d _ hv hkw
  obtain ⟨rest', hline'⟩ := prefix_firstLine ht.symm (List.prefix_append _ t')
    ((hwords v hmem).free (by decide)) (hwords v hmem).getLast?
  obtain ⟨b', more', hmore', -⟩ := firstLine_append ht.symm
  rw [← hline', List.append_assoc] at hmore'
  rw [List.append_cancel_left hmore'] at ht'
  exact ⟨v, hmem, rest', hline'.symm, opens_of_append ht'⟩

theorem firstLine_closing {x : List Char} {c : Char} (hline : firstLine s = x ++ [c])
    (hc : isClosing c = true) : ∃ x c, firstLine t = x ++ [c] ∧ isClosing c = true := by
  have he := d.edits_sound
  have hother : isWord c = false ∧ c ≠ '!' ∧ isBlank c = false := by
    simp only [isClosing, Bool.or_eq_true, beq_iff_eq] at hc
    rcases hc with (((rfl | rfl) | rfl) | rfl) | rfl <;> decide
  have hgap : d.edits.gap c = false := by cases d <;> exact hother.2.2
  have hnewline := firstLine_newline hs
  obtain ⟨b, rest, hmore, hb, hbline, hrest⟩ := firstLine_append hs
  have ht := blank_of_edited h
  rw [hs] at ht
  rw [hline] at hnewline hmore
  rw [hmore, List.append_assoc, List.singleton_append] at h
  obtain ⟨x', t', rfl, hx, htail⟩ := h.parts he hother.1 hother.2.1 hgap
  obtain ⟨rest', _, rfl, hmoved, -⟩ := htail.behind_blanks he hb
  have hx' : '\n' ∉ x' := newline_of_edited hx fun hin => hnewline (List.mem_append_left _ hin)
  have hrest' : rest' = [] ∨ ∃ r, rest' = '\n' :: r := by
    rcases hrest with rfl | ⟨r, rfl⟩
    · exact .inl (hmoved.flip.nil_of_edited he.flip)
    · obtain ⟨r', hr', -⟩ := hmoved.flip.other he.flip (by decide) (by decide)
      exact .inr ⟨r', hr'⟩
  refine ⟨x', c, firstLine_of (p := x' ++ [c]) ht.symm (by simp) ?_ ?_ hb hbline hrest', hc⟩
  · rw [List.mem_append, not_or]
    refine ⟨hx', fun hin => ?_⟩
    exact hnewline (List.mem_append_right x hin)
  · rw [List.getLast?_concat]
    exact hother.2.2

theorem firstLine_assignment (hline : assignment.Matches none (firstLine s)) :
    assignment.Matches none (firstLine t) := by
  have he := d.edits_sound
  obtain ⟨a, c, rest, heq, ha, hc⟩ := matches_assignment.1 hline
  have hnewline := firstLine_newline hs
  have hlast : (c :: rest).getLast?.any isBlank = false := by
    have hend := firstLine_getLast? (s := s)
    rwa [heq, List.append_cons, List.getLast?_append_of_ne_nil _ (List.cons_ne_nil c rest)] at hend
  obtain ⟨b, f, rest', hbf, hb, hf⟩ := exists_nonblank (List.cons_ne_nil c rest) hlast
  obtain ⟨b', more, hmore, -⟩ := firstLine_append hs
  have ht := blank_of_edited h
  rw [hs] at ht
  rw [heq, hbf] at hnewline hmore
  rw [hmore, List.append_assoc, List.cons_append, List.append_assoc] at h
  have hgap : d.edits.gap '=' = false := by cases d <;> decide
  obtain ⟨a', t', rfl, ha', htail⟩ := h.parts he (by decide) (by decide) hgap
  obtain ⟨t', _, rfl, hmoved, -⟩ := htail.behind_blanks he hb
  -- The first character behind the sign that is no blank is kept, or it starts a word.
  obtain ⟨f', t', rfl, hf', hfeq⟩ : ∃ f' t'', t' = f' :: t'' ∧ isBlank f' = false ∧
      (f ≠ '=' → f' ≠ '=') := by
    rcases hmoved.flip.heads he.flip with hsame | ⟨hword, -⟩
    · obtain ⟨t'', rfl⟩ := List.head?_eq_some_iff.1 hsame
      exact ⟨f, t'', rfl, hf, id⟩
    · cases t' with
      | nil => cases hword
      | cons f' t'' =>
        have hf' : isWord f' = true := hword
        refine ⟨f', t'', rfl, Bool.eq_false_iff.2 fun hblank => ?_, fun _ => ?_⟩
        · rw [not_isWord_of_blank hblank] at hf'
          cases hf'
        · rintro rfl
          exact absurd hf' (by decide)
  have hp : '\n' ∉ a' ++ '=' :: b ++ [f'] := by
    simp only [List.mem_append, List.mem_cons, not_or] at hnewline ⊢
    refine ⟨⟨newline_of_edited ha' hnewline.1, by decide, hnewline.2.2.1⟩, ?_, List.not_mem_nil⟩
    rintro rfl
    exact absurd hf' (by decide)
  obtain ⟨r, hr⟩ := prefix_firstLine (p := a' ++ '=' :: b ++ [f']) ht.symm
    ⟨t', by simp⟩ hp (by rwa [List.getLast?_concat])
  refine matches_assignment.2 ?_
  cases b with
  | nil =>
    obtain ⟨rfl, rfl⟩ := List.cons.inj hbf
    exact ⟨a', f', r, hr.symm.trans (by simp), ha.edited ha', hfeq hc⟩
  | cons g b =>
    obtain ⟨rfl, -⟩ := List.cons.inj hbf
    exact ⟨a', c, b ++ f' :: r, hr.symm.trans (by simp), ha.edited ha', hc⟩

end Edited

end Rules

namespace Candidate

open Rules

theorem readsAsCode_iff {tail : List Char} : readsAsCode tail = true ↔
    firstLine tail ≠ [] ∧ codeLikeLine.occursIn (firstLine tail) = true := by
  rw [readsAsCode, find?_lines]
  cases h : firstLine tail <;> simp

variable {d : Direction} {s t : List Char}

/-- Edits leave a line that reads as code one that reads as code. -/
theorem readsAsCode_edited (h : Edited d.edits false s t) (hs : readsAsCode s = true) :
    readsAsCode t = true := by
  have hblank : ∀ c ∈ s.takeWhile isBlank, isBlank c = true := fun c hc => List.mem_takeWhile_imp hc
  have hbody : s.takeWhile isBlank ++ trimStart s = s := List.takeWhile_append_dropWhile
  rw [← hbody] at h
  obtain ⟨t', _, rfl, hmoved, hinside⟩ := h.behind_blanks d.edits_sound hblank
  rw [hinside rfl] at hmoved
  rw [readsAsCode_iff, ← hbody, firstLine_blanks hblank] at hs
  rw [readsAsCode_iff, firstLine_blanks hblank]
  have hhead := head?_trimStart s
  have hline : codeLikeLine.occursIn (firstLine t') = true := by
    rw [occursIn_codeLikeLine] at hs ⊢
    rcases hs.2 with ⟨w, hw, hbegins⟩ | ⟨kw, hkw, rest, hkwline, hrest⟩ | ⟨x, c, hend, hc⟩ | hassign
    · exact .inl ⟨w, hw, firstLine_opening hhead hmoved hw hbegins⟩
    · exact .inr (.inl (firstLine_keyword hhead hmoved hkw hkwline hrest))
    · exact .inr (.inr (.inl (firstLine_closing hhead hmoved hend hc)))
    · exact .inr (.inr (.inr (firstLine_assignment hhead hmoved hassign)))
  refine ⟨fun hnil => ?_, hline⟩
  rw [hnil] at hline
  exact absurd hline (by decide)

theorem dropEpilogue_self : dropEpilogue s = s ↔ ∀ x tail, s = x ++ '\x7d' :: tail →
    '\x7d' ∉ tail → allBlank tail = true ∨ readsAsCode tail = true := by
  constructor
  · rintro h x tail rfl htail
    simp only [dropEpilogue, splitAfterLast?_append x htail] at h
    split at h
    · next hkept => exact Bool.or_eq_true_iff.1 hkept
    · obtain rfl : tail = [] := by simpa using h
      exact .inl rfl
  · intro h
    by_cases hin : '\x7d' ∈ s
    · obtain ⟨x, tail, rfl, htail⟩ := exists_last hin
      simp only [dropEpilogue, splitAfterLast?_append x htail]
      exact if_pos (Bool.or_eq_true_iff.2 (h x tail rfl htail))
    · simp only [dropEpilogue, splitAfterLast?_free hin]

theorem dropEpilogue_edited (h : Edited d.edits false s t) (hs : dropEpilogue s = s) :
    dropEpilogue t = t := by
  have he := d.edits_sound
  have hgap : d.edits.gap '\x7d' = false ∧ d.edits.gap' '\x7d' = false := by
    cases d <;> decide
  rw [dropEpilogue_self] at hs ⊢
  rintro x tail rfl htail
  obtain ⟨x', tail', rfl, -, hedit⟩ := h.apart he (by decide) (by decide) hgap.2
  have hfree : '\x7d' ∉ tail' := fun hin => by
    obtain ⟨y, z, rfl⟩ := List.append_of_mem hin
    obtain ⟨y', z', rfl, -⟩ := hedit.parts he (by decide) (by decide) hgap.1
    exact htail (List.mem_append_right y' List.mem_cons_self)
  rcases hs x' tail' rfl hfree with hblank | hcode
  · rw [hedit.blanks he (List.all_eq_true.1 hblank)]
    exact .inl hblank
  · exact .inr (readsAsCode_edited hedit hcode)

end Candidate

end Crosswalk
