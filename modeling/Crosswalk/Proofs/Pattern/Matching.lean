import Mathlib
import Crosswalk.Pattern.Scan

namespace Crosswalk.Pattern

/-- From a place the pattern can end at another one, with these captures added. -/
inductive Leads : Pattern → Place → Captures → Place → Captures → Prop
  | empty {p : Place} {caps : Captures} : Leads .empty p caps p caps
  | one {member : Char → Bool} {before after : List Char} {c : Char} {caps : Captures}
      (h : member c = true) :
      Leads (.one member) ⟨before, c :: after⟩ caps ⟨c :: before, after⟩ caps
  | seq {a b : Pattern} {p q r : Place} {caps caps' caps'' : Captures} (ha : Leads a p caps q caps')
      (hb : Leads b q caps' r caps'') : Leads (.seq a b) p caps r caps''
  | left {a b : Pattern} {p q : Place} {caps caps' : Captures} (h : Leads a p caps q caps') :
      Leads (.alt a b) p caps q caps'
  | right {a b : Pattern} {p q : Place} {caps caps' : Captures} (h : Leads b p caps q caps') :
      Leads (.alt a b) p caps q caps'
  | many {member : Char → Bool} {before taken after : List Char} {caps : Captures}
      (h : ∀ c ∈ taken, member c = true) :
      Leads (.many member) ⟨before, taken ++ after⟩ caps ⟨taken.reverse ++ before, after⟩ caps
  | stop {a : Pattern} {p : Place} {caps : Captures} : Leads (.star a) p caps p caps
  | again {a : Pattern} {p q r : Place} {caps caps' caps'' : Captures} (ha : Leads a p caps q caps')
      (hrest : Leads (.star a) q caps' r caps'') : Leads (.star a) p caps r caps''
  | group {i : Nat} {a : Pattern} {p q : Place} {caps caps' : Captures}
      (h : Leads a p caps q caps') : Leads (.group i a) p caps q ((i, p, q) :: caps')
  | boundary {p : Place} {caps : Captures} (h : p.atBoundary = true) :
      Leads .boundary p caps p caps
  | lineStart {p : Place} {caps : Captures} (h : p.atLineStart = true) :
      Leads .lineStart p caps p caps
  | textStart {p : Place} {caps : Captures} (h : p.before = []) : Leads .textStart p caps p caps
  | textEnd {p : Place} {caps : Captures} (h : p.after = []) : Leads .textEnd p caps p caps

theorem Leads.taken {p : Pattern} {start stop : Place} {caps caps' : Captures}
    (h : p.Leads start caps stop caps') :
    ∃ taken, start.after = taken ++ stop.after ∧ stop.before = taken.reverse ++ start.before := by
  induction h with
  | empty | stop | boundary | lineStart | textStart | textEnd => exact ⟨[], rfl, rfl⟩
  | @one member before after c caps h => exact ⟨[c], rfl, rfl⟩
  | @many member before taken after caps h => exact ⟨taken, rfl, rfl⟩
  | seq _ _ iha ihb | again _ _ iha ihb =>
    obtain ⟨first, hafter, hbefore⟩ := iha
    obtain ⟨second, hafter', hbefore'⟩ := ihb
    exact ⟨first ++ second, by rw [hafter, hafter', List.append_assoc],
      by rw [hbefore', hbefore, List.reverse_append, List.append_assoc]⟩
  | left _ ih | right _ ih | group _ ih => exact ih

theorem since_append (taken before after rest : List Char) :
    Place.since ⟨before, after⟩ ⟨taken.reverse ++ before, rest⟩ = taken := by
  have hlength : (taken.reverse ++ before).length - before.length = taken.reverse.length := by simp
  rw [Place.since, hlength, List.take_left, List.reverse_reverse]

section Matcher

variable {α : Type} {a : α}

theorem runMany_leads {member : Char → Bool} {k : Place → Option α} {before after : List Char}
    (h : runMany member k before after = some a) :
    ∃ taken rest, after = taken ++ rest ∧ (∀ c ∈ taken, member c = true) ∧
      k ⟨taken.reverse ++ before, rest⟩ = some a := by
  induction after generalizing before with
  | nil => exact ⟨[], [], rfl, by simp, h⟩
  | cons c after ih =>
    unfold runMany at h
    split at h
    · next hc =>
      rcases (Option.orElse_eq_some ..).1 h with hmore | ⟨-, hstop⟩
      · obtain ⟨taken, rest, rfl, htaken, hk⟩ := ih hmore
        refine ⟨c :: taken, rest, rfl, ?_, by simpa using hk⟩
        intro x hx
        rcases List.mem_cons.1 hx with rfl | hx
        · exact hc
        · exact htaken x hx
      · exact ⟨[], c :: after, rfl, by simp, hstop⟩
    · exact ⟨[], c :: after, rfl, by simp, h⟩

/-- What the matcher finds is led to: its answer is one that the continuation gave at the end of a
match. -/
theorem run_leads {p : Pattern} {start : Place} {caps : Captures} {k : Place → Captures → Option α}
    (h : p.run start caps k = some a) :
    ∃ stop caps', p.Leads start caps stop caps' ∧ k stop caps' = some a := by
  induction p generalizing start caps k with
  | empty => exact ⟨start, caps, .empty, h⟩
  | one member =>
    obtain ⟨before, after⟩ := start
    cases after with
    | nil => cases h
    | cons c after =>
      simp only [run] at h
      split at h
      · next hc => exact ⟨_, caps, .one hc, h⟩
      · cases h
  | seq x y ihx ihy =>
    obtain ⟨q, caps', hx, hrest⟩ := ihx h
    obtain ⟨r, caps'', hy, hk⟩ := ihy hrest
    exact ⟨r, caps'', hx.seq hy, hk⟩
  | alt x y ihx ihy =>
    rcases (Option.orElse_eq_some ..).1 h with hx | ⟨-, hy⟩
    · obtain ⟨q, caps', hx, hk⟩ := ihx hx
      exact ⟨q, caps', hx.left, hk⟩
    · obtain ⟨q, caps', hy, hk⟩ := ihy hy
      exact ⟨q, caps', hy.right, hk⟩
  | many member =>
    obtain ⟨before, after⟩ := start
    obtain ⟨taken, rest, rfl, htaken, hk⟩ := runMany_leads h
    exact ⟨_, caps, .many htaken, hk⟩
  | star x ih =>
    simp only [run] at h
    -- How many rounds are left does not matter, since each of them is led to.
    generalize start.after.length = n at h
    induction n generalizing start caps with
    | zero => exact ⟨start, caps, .stop, h⟩
    | succ n ihn =>
      rcases (Option.orElse_eq_some ..).1 h with hx | ⟨-, hstop⟩
      · obtain ⟨q, caps', hx, hrest⟩ := ih hx
        obtain ⟨r, caps'', hmore, hk⟩ := ihn hrest
        exact ⟨r, caps'', hx.again hmore, hk⟩
      · exact ⟨start, caps, .stop, hstop⟩
  | group i x ih =>
    obtain ⟨q, caps', hx, hk⟩ := ih h
    exact ⟨q, _, hx.group, hk⟩
  | boundary =>
    simp only [run] at h
    split at h
    · next hb => exact ⟨start, caps, .boundary hb, h⟩
    · cases h
  | lineStart =>
    simp only [run] at h
    split at h
    · next hb => exact ⟨start, caps, .lineStart hb, h⟩
    · cases h
  | textStart =>
    simp only [run] at h
    split at h
    · next hb => exact ⟨start, caps, .textStart (List.isEmpty_iff.1 hb), h⟩
    · cases h
  | textEnd =>
    simp only [run] at h
    split at h
    · next hb => exact ⟨start, caps, .textEnd (List.isEmpty_iff.1 hb), h⟩
    · cases h

end Matcher

theorem matchAt_leads {p : Pattern} {start : Place} {m : Match} (h : p.matchAt start = some m) :
    m.start = start ∧ p.Leads start [] m.stop m.captures := by
  obtain ⟨stop, caps, hleads, hm⟩ := run_leads h
  cases hm
  exact ⟨rfl, hleads⟩

theorem findFrom_leads {p : Pattern} {last : Option Char} {s : List Char} {m : Match}
    (h : p.findFrom last s = some m) :
    m.start.after <:+ s ∧ p.Leads m.start [] m.stop m.captures := by
  induction s generalizing last with
  | nil =>
    obtain ⟨hstart, hleads⟩ := matchAt_leads h
    rw [← hstart] at hleads
    exact ⟨by rw [hstart]; exact List.suffix_rfl, hleads⟩
  | cons c s ih =>
    rcases (Option.orElse_eq_some ..).1 h with hhere | ⟨-, hlater⟩
    · obtain ⟨hstart, hleads⟩ := matchAt_leads hhere
      rw [← hstart] at hleads
      exact ⟨by rw [hstart]; exact List.suffix_rfl, hleads⟩
    · obtain ⟨hsuffix, hleads⟩ := ih hlater
      exact ⟨hsuffix.trans (List.suffix_cons c s), hleads⟩

def groupless : Pattern → Bool
  | .seq a b | .alt a b => a.groupless && b.groupless
  | .star a => a.groupless
  | .group _ _ => false
  | .empty | .one _ | .many _ | .boundary | .lineStart | .textStart | .textEnd => true

theorem Leads.captures_eq {p : Pattern} {start stop : Place} {caps caps' : Captures}
    (h : p.Leads start caps stop caps') (hp : p.groupless = true) : caps' = caps := by
  induction h with
  | seq _ _ iha ihb =>
    rw [groupless, Bool.and_eq_true] at hp
    rw [ihb hp.2, iha hp.1]
  | left _ ih =>
    rw [groupless, Bool.and_eq_true] at hp
    exact ih hp.1
  | right _ ih =>
    rw [groupless, Bool.and_eq_true] at hp
    exact ih hp.2
  | again _ _ iha ihrest => rw [ihrest hp, iha hp]
  | group => cases hp
  | _ => rfl

theorem Leads.sequence {p : Pattern} {ps : List Pattern} {start stop : Place} {caps caps' : Captures}
    (h : (sequence (p :: ps)).Leads start caps stop caps') : ∃ next caps'',
      p.Leads start caps next caps'' ∧ (Pattern.sequence ps).Leads next caps'' stop caps' := by
  cases ps with
  | nil => exact ⟨stop, caps', h, .empty⟩
  | cons q ps =>
    cases h with
    | seq ha hb => exact ⟨_, _, ha, hb⟩

/-- To match, the pattern has to take a character that is outside of the set. -/
def TakesOutside (set : Char → Bool) : Pattern → Prop
  | .one member => ∀ c, set c = true → member c = false
  | .seq a b => a.TakesOutside set ∨ b.TakesOutside set
  | .alt a b => a.TakesOutside set ∧ b.TakesOutside set
  | .group _ a => a.TakesOutside set
  | .empty | .many _ | .star _ | .boundary | .lineStart | .textStart | .textEnd => False

section TakesOutside

variable {set : Char → Bool}

theorem Leads.outside {p : Pattern} {start stop : Place} {caps caps' : Captures}
    (h : p.Leads start caps stop caps') (hp : p.TakesOutside set) :
    ∃ c ∈ start.after, set c = false := by
  induction h with
  | @one member before after c caps hc =>
    refine ⟨c, List.mem_cons_self, ?_⟩
    cases hset : set c with
    | false => rfl
    | true => rw [hp c hset] at hc; cases hc
  | seq ha _ iha ihb =>
    rcases hp with hp | hp
    · exact iha hp
    · obtain ⟨taken, hafter, -⟩ := ha.taken
      obtain ⟨c, hc, hset⟩ := ihb hp
      exact ⟨c, hafter ▸ List.mem_append_right _ hc, hset⟩
  | left _ ih => exact ih hp.1
  | right _ ih => exact ih hp.2
  | group _ ih => exact ih hp
  | _ => cases hp

theorem sequence_takesOutside {ps : List Pattern} {p : Pattern} (hmem : p ∈ ps)
    (hp : p.TakesOutside set) : (sequence ps).TakesOutside set := by
  induction ps with
  | nil => cases hmem
  | cons q rest ih =>
    cases rest with
    | nil => exact List.mem_singleton.1 hmem ▸ hp
    | cons r rest =>
      rcases List.mem_cons.1 hmem with rfl | hmem
      · exact .inl hp
      · exact .inr (ih hmem)

theorem anyOf_takesOutside {ps : List Pattern} (hps : ∀ p ∈ ps, p.TakesOutside set) :
    (anyOf ps).TakesOutside set := by
  induction ps with
  | nil => exact fun _ _ => rfl
  | cons q rest ih =>
    cases rest with
    | nil => exact hps q List.mem_cons_self
    | cons r rest =>
      exact ⟨hps q List.mem_cons_self, ih fun p hp => hps p (List.mem_cons_of_mem _ hp)⟩

theorem char_takesOutside {c : Char} (hc : set c = false) : (char c).TakesOutside set := by
  intro x hx
  refine beq_false_of_ne ?_
  rintro rfl
  rw [hc] at hx
  cases hx

theorem text_takesOutside {s : String} (hs : s.toList.all set = false) :
    (text s).TakesOutside set := by
  rw [List.all_eq_false] at hs
  obtain ⟨c, hc, hset⟩ := hs
  exact sequence_takesOutside (List.mem_map_of_mem hc) (char_takesOutside (by simpa using hset))

theorem texts_takesOutside {alternatives : List String}
    (hs : (alternatives.all fun s => !s.toList.all set) = true) :
    (texts alternatives).TakesOutside set := by
  refine anyOf_takesOutside fun p hp => ?_
  obtain ⟨s, hmem, rfl⟩ := List.mem_map.1 hp
  exact text_takesOutside (by simpa using List.all_eq_true.1 hs s hmem)

end TakesOutside

end Crosswalk.Pattern
