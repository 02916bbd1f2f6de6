import Crosswalk.Proofs.Pattern.Scanning

namespace Crosswalk.Pattern

open Text

inductive Rounds (taken : Option Char → List Char → List Char → Prop) :
    Option Char → List Char → List Char → Prop
  | stop {last : Option Char} {rest : List Char} : Rounds taken last [] rest
  | again {last : Option Char} {x y rest : List Char} (h : taken last x (y ++ rest))
      (hrest : Rounds taken (lastOf last x) y rest) : Rounds taken last (x ++ y) rest

/-- Between a character and the rest of the text, the pattern can take a piece of text. -/
def Takes : Pattern → (last : Option Char) → (taken rest : List Char) → Prop
  | .empty, _, z, _ => z = []
  | .one member, _, z, _ => ∃ c, z = [c] ∧ member c = true
  | .seq a b, last, z, rest =>
    ∃ x y, z = x ++ y ∧ a.Takes last x (y ++ rest) ∧ b.Takes (lastOf last x) y rest
  | .alt a b, last, z, rest => a.Takes last z rest ∨ b.Takes last z rest
  | .many member, _, z, _ => ∀ c ∈ z, member c = true
  | .star a, last, z, rest => Rounds a.Takes last z rest
  | .group _ a, last, z, rest => a.Takes last z rest
  | .boundary, last, z, rest => z = [] ∧ isBoundary last rest.head? = true
  | .lineStart, last, z, _ => z = [] ∧ last.all (· == '\n') = true
  | .textStart, last, z, _ => z = [] ∧ last = none
  | .textEnd, _, z, rest => z = [] ∧ rest = []

def Matches (p : Pattern) (last : Option Char) (s : List Char) : Prop :=
  ∃ z rest, s = z ++ rest ∧ p.Takes last z rest

variable {p q : Pattern} {last last' : Option Char} {s z rest : List Char}

theorem head?_passed (before z : List Char) :
    (z.reverse ++ before).head? = lastOf before.head? z := by
  rw [List.head?_append, List.head?_reverse, lastOf]

theorem Leads.takes {start stop : Place} {caps caps' : Captures}
    (h : p.Leads start caps stop caps') : ∃ z, start.after = z ++ stop.after ∧
      stop.before = z.reverse ++ start.before ∧ p.Takes start.before.head? z stop.after := by
  induction h with
  | empty => exact ⟨[], rfl, rfl, rfl⟩
  | stop => exact ⟨[], rfl, rfl, .stop⟩
  | @one member before after c caps hc => exact ⟨[c], rfl, rfl, c, rfl, hc⟩
  | @many member before taken after caps htaken => exact ⟨taken, rfl, rfl, htaken⟩
  | seq _ _ iha ihb =>
    obtain ⟨x, hafter, hbefore, ha⟩ := iha
    obtain ⟨y, hafter', hbefore', hb⟩ := ihb
    rw [hbefore, head?_passed] at hb
    rw [hafter'] at ha
    exact ⟨x ++ y, by simp [hafter, hafter'], by simp [hbefore, hbefore'], x, y, rfl, ha, hb⟩
  | again _ _ iha ihrest =>
    obtain ⟨x, hafter, hbefore, ha⟩ := iha
    obtain ⟨y, hafter', hbefore', hrest⟩ := ihrest
    rw [hbefore, head?_passed] at hrest
    rw [hafter'] at ha
    exact ⟨x ++ y, by simp [hafter, hafter'], by simp [hbefore, hbefore'], .again ha hrest⟩
  | left _ ih =>
    obtain ⟨z, hafter, hbefore, ha⟩ := ih
    exact ⟨z, hafter, hbefore, .inl ha⟩
  | right _ ih =>
    obtain ⟨z, hafter, hbefore, hb⟩ := ih
    exact ⟨z, hafter, hbefore, .inr hb⟩
  | group _ ih => exact ih
  | boundary hb => exact ⟨[], rfl, rfl, rfl, hb⟩
  | lineStart hstart => exact ⟨[], rfl, rfl, rfl, hstart⟩
  | textStart hstart => exact ⟨[], rfl, rfl, rfl, by rw [hstart]; rfl⟩
  | textEnd hend => exact ⟨[], rfl, rfl, rfl, hend⟩

theorem Takes.leads {before : List Char} (h : p.Takes before.head? z rest) (caps : Captures) :
    ∃ caps', p.Leads ⟨before, z ++ rest⟩ caps ⟨z.reverse ++ before, rest⟩ caps' := by
  induction p generalizing before z rest caps with
  | empty =>
    obtain rfl := h
    exact ⟨caps, .empty⟩
  | one member =>
    obtain ⟨c, rfl, hc⟩ := h
    exact ⟨caps, .one hc⟩
  | seq a b iha ihb =>
    obtain ⟨x, y, rfl, ha, hb⟩ := h
    rw [← head?_passed] at hb
    obtain ⟨caps', ha⟩ := iha ha caps
    obtain ⟨caps'', hb⟩ := ihb hb caps'
    rw [List.append_assoc, List.reverse_append, List.append_assoc]
    exact ⟨caps'', ha.seq hb⟩
  | alt a b iha ihb =>
    rcases h with h | h
    · obtain ⟨caps', ha⟩ := iha h caps
      exact ⟨caps', ha.left⟩
    · obtain ⟨caps', hb⟩ := ihb h caps
      exact ⟨caps', hb.right⟩
  | many member => exact ⟨caps, .many h⟩
  | star a ih =>
    -- The rounds see only the last character before them, the places of a match all of them.
    change Rounds a.Takes before.head? z rest at h
    generalize hlast : before.head? = last at h
    induction h generalizing before caps with
    | stop => exact ⟨caps, .stop⟩
    | again ha _ ihrest =>
      subst hlast
      obtain ⟨caps', ha⟩ := ih ha caps
      obtain ⟨caps'', hrest⟩ := ihrest caps' (head?_passed ..)
      rw [List.append_assoc, List.reverse_append, List.append_assoc]
      exact ⟨caps'', ha.again hrest⟩
  | group i a ih =>
    obtain ⟨caps', ha⟩ := ih h caps
    exact ⟨_, ha.group⟩
  | boundary =>
    obtain ⟨rfl, hb⟩ := h
    exact ⟨caps, .boundary hb⟩
  | lineStart =>
    obtain ⟨rfl, hstart⟩ := h
    exact ⟨caps, .lineStart hstart⟩
  | textStart =>
    obtain ⟨rfl, hstart⟩ := h
    exact ⟨caps, .textStart (List.head?_eq_none_iff.1 hstart)⟩
  | textEnd =>
    obtain ⟨rfl, hend⟩ := h
    exact ⟨caps, .textEnd hend⟩

theorem matchAt_matches {m : Match} (h : p.matchAt (.behind last s) = some m) :
    s = m.text ++ m.stop.after ∧ p.Takes last m.text m.stop.after := by
  obtain ⟨z, hafter, -, htakes⟩ := (matchAt_leads h).2.takes
  have htext := matchAt_text h
  rw [htext] at hafter
  rw [← List.append_cancel_right hafter] at htakes
  exact ⟨htext, by simpa [Place.behind] using htakes⟩

theorem matchAt_none (hp : p.advances = true) (last : Option Char) (s : List Char) :
    p.matchAt (.behind last s) = none ↔ ¬p.Matches last s := by
  rw [← Option.not_isSome_iff_eq_none, not_iff_not]
  constructor
  · intro h
    obtain ⟨m, hm⟩ := Option.isSome_iff_exists.1 h
    exact ⟨m.text, m.stop.after, matchAt_matches hm⟩
  · rintro ⟨z, rest, rfl, htakes⟩
    have hbehind : p.Takes last.toList.head? z rest := by simpa using htakes
    obtain ⟨caps, hleads⟩ := hbehind.leads []
    exact (matchAt_isSome hp _).2 ⟨_, caps, hleads⟩

theorem findFrom_none (hp : p.advances = true) (last : Option Char) (s : List Char) :
    p.findFrom last s = none ↔ ∀ x y, s = x ++ y → ¬p.Matches (lastOf last x) y := by
  induction s generalizing last with
  | nil =>
    rw [findFrom, matchAt_none hp]
    constructor
    · intro h x y hxy
      obtain ⟨rfl, rfl⟩ := List.append_eq_nil_iff.1 hxy.symm
      exact h
    · exact fun h => h [] [] rfl
  | cons c s ih =>
    rw [findFrom, Option.orElse_eq_none, matchAt_none hp, ih]
    constructor
    · rintro ⟨hhere, hlater⟩ x y hxy
      cases x with
      | nil =>
        rw [List.nil_append] at hxy
        exact hxy ▸ hhere
      | cons d x =>
        obtain ⟨rfl, rfl⟩ := List.cons.inj hxy
        rw [lastOf_cons]
        exact hlater x y rfl
    · intro h
      refine ⟨h [] _ rfl, fun x y hxy => ?_⟩
      rw [← lastOf_cons last]
      exact h (c :: x) y (by rw [hxy]; rfl)

theorem findFrom_append_none {last : Option Char} {s t : List Char} (hp : p.advances = true) :
    p.findFrom last (s ++ t) = none ↔
      (∀ x y, s = x ++ y → y ≠ [] → ¬p.Matches (lastOf last x) (y ++ t)) ∧
        p.findFrom (lastOf last s) t = none := by
  rw [findFrom_none hp, findFrom_none hp]
  constructor
  · intro h
    refine ⟨fun x y hxy _ => h x (y ++ t) (by rw [hxy, List.append_assoc]), fun x y hxy => ?_⟩
    rw [← lastOf_append]
    exact h (s ++ x) y (by rw [hxy, List.append_assoc])
  · rintro ⟨hinside, hlater⟩ x y hxy
    rcases List.append_eq_append_iff.1 hxy with ⟨x', rfl, hx'⟩ | ⟨y', rfl, rfl⟩
    · rw [lastOf_append]
      exact hlater x' y hx'
    · by_cases hy : y' = []
      · subst hy
        simpa using hlater [] t rfl
      · exact hinside x y' rfl hy

theorem findFrom_cons_none {c : Char} (hp : p.advances = true) :
    p.findFrom last (c :: s) = none ↔
      ¬p.Matches last (c :: s) ∧ p.findFrom (some c) s = none := by
  rw [findFrom, Option.orElse_eq_none, matchAt_none hp]

theorem findFrom_start {m : Match} (h : p.findFrom last s = some m) :
    ∃ x y, s = x ++ y ∧ m.start = .behind (lastOf last x) y ∧
      p.matchAt (.behind (lastOf last x) y) = some m := by
  induction s generalizing last with
  | nil => exact ⟨[], [], rfl, (matchAt_leads h).1, h⟩
  | cons c s ih =>
    rcases (Option.orElse_eq_some ..).1 h with hhere | ⟨-, hlater⟩
    · exact ⟨[], c :: s, rfl, (matchAt_leads hhere).1, hhere⟩
    · obtain ⟨x, y, rfl, hstart, hm⟩ := ih hlater
      rw [← lastOf_cons last] at hstart hm
      exact ⟨c :: x, y, rfl, hstart, hm⟩

theorem takes_sequence {ps : List Pattern} : (sequence (p :: ps)).Takes last z rest ↔
    ∃ x y, z = x ++ y ∧ p.Takes last x (y ++ rest) ∧
      (sequence ps).Takes (lastOf last x) y rest := by
  cases ps with
  | cons q ps => rfl
  | nil =>
    constructor
    · exact fun h => ⟨z, [], (List.append_nil z).symm, h, rfl⟩
    · rintro ⟨x, y, rfl, h, rfl⟩
      rwa [List.append_nil]

theorem takes_anyOf {ps : List Pattern} :
    (anyOf ps).Takes last z rest ↔ ∃ p ∈ ps, p.Takes last z rest := by
  induction ps with
  | nil =>
    simp only [List.not_mem_nil, false_and, exists_false, iff_false]
    rintro ⟨c, -, hc⟩
    cases hc
  | cons p ps ih =>
    rw [List.exists_mem_cons_iff]
    cases ps with
    | nil => simp [anyOf]
    | cons q ps => exact or_congr_right ih

theorem takes_text {w : String} : (text w).Takes last z rest ↔ z = w.toList := by
  rw [text]
  generalize w.toList = cs
  induction cs generalizing last z with
  | nil => rfl
  | cons c cs ih =>
    rw [List.map_cons, takes_sequence]
    constructor
    · rintro ⟨x, y, rfl, ⟨d, rfl, hd⟩, hrest⟩
      rw [ih.1 hrest, eq_of_beq hd]
      rfl
    · rintro rfl
      exact ⟨[c], cs, rfl, ⟨c, rfl, beq_self_eq_true c⟩, ih.2 rfl⟩

theorem takes_texts {ws : List String} :
    (texts ws).Takes last z rest ↔ ∃ w ∈ ws, z = w.toList := by
  rw [texts, takes_anyOf]
  constructor
  · rintro ⟨_, hp, h⟩
    obtain ⟨w, hw, rfl⟩ := List.mem_map.1 hp
    exact ⟨w, hw, takes_text.1 h⟩
  · rintro ⟨w, hw, rfl⟩
    exact ⟨text w, List.mem_map_of_mem hw, takes_text.2 rfl⟩

theorem takes_char {c : Char} : (char c).Takes last z rest ↔ z = [c] := by
  constructor
  · rintro ⟨d, rfl, hd⟩
    rw [eq_of_beq hd]
  · rintro rfl
    exact ⟨c, rfl, beq_self_eq_true c⟩

theorem takes_atLeastOne {member : Char → Bool} :
    (atLeastOne member).Takes last z rest ↔ z ≠ [] ∧ ∀ c ∈ z, member c = true := by
  constructor
  · rintro ⟨_, y, rfl, ⟨c, rfl, hc⟩, hy⟩
    exact ⟨List.cons_ne_nil c y, List.forall_mem_cons.2 ⟨hc, hy⟩⟩
  · rintro ⟨hne, hall⟩
    obtain ⟨c, y, rfl⟩ := List.exists_cons_of_ne_nil hne
    obtain ⟨hc, hy⟩ := List.forall_mem_cons.1 hall
    exact ⟨[c], y, rfl, ⟨c, rfl, hc⟩, hy⟩

theorem takes_assoc {a b c : Pattern} : (Pattern.seq a (.seq b c)).Takes last z rest ↔
    (Pattern.seq (.seq a b) c).Takes last z rest := by
  constructor
  · rintro ⟨x, _, rfl, ha, y, w, rfl, hb, hc⟩
    rw [List.append_assoc] at ha
    exact ⟨x ++ y, w, (List.append_assoc ..).symm, ⟨x, y, rfl, ha, hb⟩, by rwa [lastOf_append]⟩
  · rintro ⟨_, w, rfl, ⟨x, y, rfl, ha, hb⟩, hc⟩
    rw [lastOf_append] at hc
    exact ⟨x, y ++ w, List.append_assoc .., by rwa [List.append_assoc], y, w, rfl, hb, hc⟩

theorem Takes.avoids {c : Char} (h : p.Takes last z rest) (hp : p.avoids c = true) : c ∉ z := by
  have hbehind : p.Takes last.toList.head? z rest := by rwa [Option.head?_toList]
  obtain ⟨caps, hleads⟩ := hbehind.leads []
  obtain ⟨taken, hbefore, hfree⟩ := (hleads.clear hp).taken
  rwa [List.reverse_inj.1 (List.append_cancel_right hbefore)]

def opensLine : Pattern → Bool
  | .lineStart => true
  | .seq a _ => a.opensLine
  | _ => false

theorem Leads.atLineStart {start stop : Place} {caps caps' : Captures}
    (h : p.Leads start caps stop caps') (hp : p.opensLine = true) : start.atLineStart = true := by
  induction h with
  | lineStart hstart => exact hstart
  | seq _ _ iha _ => exact iha hp
  | _ => cases hp

theorem Matches.atLineStart (h : p.Matches last s) (hp : p.opensLine = true) :
    last.all (· == '\n') = true := by
  obtain ⟨z, rest, rfl, htakes⟩ := h
  have hbehind : p.Takes last.toList.head? z rest := by rwa [Option.head?_toList]
  obtain ⟨caps, hleads⟩ := hbehind.leads []
  simpa [Place.atLineStart] using hleads.atLineStart hp

theorem Takes.ne_nil (h : p.Takes last z rest) (hp : p.takes = true) : z ≠ [] := by
  rintro rfl
  have hbehind : p.Takes last.toList.head? [] rest := by rwa [Option.head?_toList]
  obtain ⟨caps, hleads⟩ := hbehind.leads []
  exact absurd (hleads.length_lt hp) (Nat.lt_irrefl _)

theorem not_matches_avoided {c : Char} (htakes : p.takes = true) (hp : p.avoids c = true) :
    ¬p.Matches last (c :: s) := by
  rintro ⟨z, rest, hs, hz⟩
  obtain ⟨d, z, rfl⟩ := List.exists_cons_of_ne_nil (hz.ne_nil htakes)
  obtain ⟨rfl, -⟩ := List.cons.inj hs
  exact hz.avoids hp List.mem_cons_self

/-- What is captured of a match that starts with a group, and what the parts take. -/
theorem Leads.grouped {i : Nat} {k : Pattern} {start stop : Place} {caps : Captures}
    (h : (Pattern.seq (.group i q) k).Leads start [] stop caps) (hq : q.groupless = true)
    (hk : k.groupless = true) : ∃ x y, start.after = x ++ (y ++ stop.after) ∧
      q.Takes start.before.head? x (y ++ stop.after) ∧
      k.Takes (lastOf start.before.head? x) y stop.after ∧
      ∀ start', Match.group? ⟨start', stop, caps⟩ i = some x := by
  cases h with
  | @seq _ _ _ next _ _ _ _ hgroup hrest =>
    cases hgroup with
    | group hfirst =>
      obtain rfl := hfirst.captures_eq hq
      obtain rfl := hrest.captures_eq hk
      obtain ⟨x, hafter, hbefore, hx⟩ := hfirst.takes
      obtain ⟨y, hafter', -, hy⟩ := hrest.takes
      rw [hbefore, head?_passed] at hy
      rw [hafter'] at hx hafter
      refine ⟨x, y, hafter, hx, hy, fun start' => ?_⟩
      obtain ⟨before, after⟩ := start
      obtain ⟨before', after'⟩ := next
      obtain rfl : before' = x.reverse ++ before := hbefore
      have hsince := since_append x before after after'
      simp [Match.group?, hsince]

def sees : Pattern → Bool
  | .seq a b | .alt a b => a.sees && b.sees
  | .star a | .group _ a => a.sees
  | .textStart | .textEnd => false
  | .empty | .one _ | .many _ | .boundary | .lineStart => true

def linewise : Pattern → Bool
  | .seq a b | .alt a b => a.linewise || b.linewise
  | .star a | .group _ a => a.linewise
  | .lineStart => true
  | .empty | .one _ | .many _ | .boundary | .textStart | .textEnd => false

/-- A character before a match can stand for another one if it is as much of a word, and for a
pattern that looks for the start of a line, if that is there as well. -/
structure Alike (p : Pattern) (last last' : Option Char) : Prop where
  word : last.any isWord = last'.any isWord
  line : p.linewise = true → last.all (· == '\n') = true → last'.all (· == '\n') = true

theorem Alike.refl (p : Pattern) (last : Option Char) : Alike p last last := ⟨rfl, fun _ => id⟩

theorem Alike.passed (h : Alike p last last') (z : List Char) :
    Alike p (lastOf last z) (lastOf last' z) := by
  rw [lastOf, lastOf]
  cases z.getLast? with
  | none => exact h
  | some c => exact .refl p _

theorem Alike.part (h : Alike p last last') (hq : q.linewise = true → p.linewise = true) :
    Alike q last last' :=
  ⟨h.word, fun hline => h.line (hq hline)⟩

theorem head?_any_append (y : List Char) {rest rest' : List Char}
    (h : rest.head?.any isWord = rest'.head?.any isWord) :
    (y ++ rest).head?.any isWord = (y ++ rest').head?.any isWord := by
  cases y with
  | nil => exact h
  | cons c y => rfl

/-- What a pattern takes, it takes in other surroundings, too, if they look the same to it. -/
theorem Takes.elsewhere {rest' : List Char} (h : p.Takes last z rest) (hp : p.sees = true)
    (hlast : Alike p last last') (hrest : rest.head?.any isWord = rest'.head?.any isWord) :
    p.Takes last' z rest' := by
  induction p generalizing last last' z rest rest' with
  | empty | one | many => exact h
  | seq a b iha ihb =>
    rw [sees, Bool.and_eq_true] at hp
    obtain ⟨x, y, rfl, ha, hb⟩ := h
    have hlasta : Alike a last last' := hlast.part fun h => by rw [linewise, h, Bool.true_or]
    have hlastb : Alike b last last' := hlast.part fun h => by rw [linewise, h, Bool.or_true]
    exact ⟨x, y, rfl, iha ha hp.1 hlasta (head?_any_append y hrest),
      ihb hb hp.2 (hlastb.passed x) hrest⟩
  | alt a b iha ihb =>
    rw [sees, Bool.and_eq_true] at hp
    rcases h with h | h
    · exact .inl (iha h hp.1 (hlast.part fun h => by rw [linewise, h, Bool.true_or]) hrest)
    · exact .inr (ihb h hp.2 (hlast.part fun h => by rw [linewise, h, Bool.or_true]) hrest)
  | star a ih =>
    change Rounds a.Takes last z rest at h
    change Rounds a.Takes last' z rest'
    induction h generalizing last' rest' with
    | stop => exact .stop
    | again ha _ ihrest =>
      exact .again (ih ha hp (hlast.part id) (head?_any_append _ hrest))
        (ihrest (hlast.passed _) hrest)
  | group i a ih => exact ih h hp (hlast.part id) hrest
  | boundary =>
    obtain ⟨rfl, hb⟩ := h
    refine ⟨rfl, ?_⟩
    rwa [isBoundary, ← hlast.word, ← hrest]
  | lineStart =>
    obtain ⟨rfl, hline⟩ := h
    exact ⟨rfl, hlast.line rfl hline⟩
  | textStart | textEnd => cases hp

end Crosswalk.Pattern
