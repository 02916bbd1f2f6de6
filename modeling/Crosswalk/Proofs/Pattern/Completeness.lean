import Mathlib
import Crosswalk.Proofs.Pattern.Matching

namespace Crosswalk.Pattern

def takes : Pattern → Bool
  | .one _ => true
  | .seq a b => a.takes || b.takes
  | .alt a b => a.takes && b.takes
  | .group _ a => a.takes
  | .empty | .many _ | .star _ | .boundary | .lineStart | .textStart | .textEnd => false

/-- Every round of a repetition takes a character. -/
def advances : Pattern → Bool
  | .seq a b | .alt a b => a.advances && b.advances
  | .star a => a.takes && a.advances
  | .group _ a => a.advances
  | .empty | .one _ | .many _ | .boundary | .lineStart | .textStart | .textEnd => true

theorem Leads.length_le {p : Pattern} {start stop : Place} {caps caps' : Captures}
    (h : p.Leads start caps stop caps') : stop.after.length ≤ start.after.length := by
  obtain ⟨taken, hafter, -⟩ := h.taken
  rw [hafter, List.length_append]
  omega

theorem Leads.length_lt {p : Pattern} {start stop : Place} {caps caps' : Captures}
    (h : p.Leads start caps stop caps') (hp : p.takes = true) :
    stop.after.length < start.after.length := by
  induction h with
  | one hc => exact Nat.lt_succ_self _
  | seq ha hb iha ihb =>
    rw [takes, Bool.or_eq_true] at hp
    rcases hp with hp | hp
    · exact hb.length_le.trans_lt (iha hp)
    · exact (ihb hp).trans_le ha.length_le
  | left _ ih =>
    rw [takes, Bool.and_eq_true] at hp
    exact ih hp.1
  | right _ ih =>
    rw [takes, Bool.and_eq_true] at hp
    exact ih hp.2
  | group _ ih => exact ih hp
  | _ => cases hp

section Matcher

variable {α : Type}

theorem isSome_orElse {x y : Option α} :
    (x <|> y).isSome = true ↔ x.isSome = true ∨ y.isSome = true := by
  cases x <;> simp

theorem runMany_isSome {member : Char → Bool} {k : Place → Option α} {before taken after : List Char}
    (htaken : ∀ c ∈ taken, member c = true)
    (hk : (k ⟨taken.reverse ++ before, after⟩).isSome = true) :
    (runMany member k before (taken ++ after)).isSome = true := by
  induction taken generalizing before with
  | nil =>
    cases after with
    | nil => exact hk
    | cons c after =>
      rw [List.nil_append, runMany]
      split
      · exact isSome_orElse.2 (.inr hk)
      · exact hk
  | cons c taken ih =>
    have hmore : (runMany member k (c :: before) (taken ++ after)).isSome = true :=
      ih (fun x hx => htaken x (List.mem_cons_of_mem _ hx)) (by simpa using hk)
    rw [List.cons_append, runMany, if_pos (htaken c List.mem_cons_self)]
    exact isSome_orElse.2 (.inl hmore)

theorem runStar_isSome {a : Pattern} (ha : a.takes = true) {k : Place → Captures → Option α}
    (hbody : ∀ {start stop : Place} {caps caps' : Captures} {k' : Place → Captures → Option α},
      a.Leads start caps stop caps' → (k' stop caps').isSome = true →
        (a.run start caps k').isSome = true)
    {start stop : Place} {caps caps' : Captures} (h : (star a).Leads start caps stop caps')
    (hk : (k stop caps').isSome = true) {rounds : Nat} (hrounds : start.after.length ≤ rounds) :
    (runStar (run a) k rounds start caps).isSome = true := by
  generalize hp : star a = p at h
  induction h generalizing rounds with
  | stop =>
    cases rounds with
    | zero => exact hk
    | succ rounds => exact isSome_orElse.2 (.inr hk)
  | again hfirst hrest _ ih =>
    cases hp
    have hlength := hfirst.length_lt ha
    cases rounds with
    | zero => omega
    | succ rounds =>
      have hlater : (runStar (run a) k rounds _ _).isSome = true := ih hk (by omega) rfl
      exact isSome_orElse.2 (.inl (hbody hfirst hlater))
  | _ => cases hp

theorem run_isSome {p : Pattern} (hp : p.advances = true) {start stop : Place}
    {caps caps' : Captures} {k : Place → Captures → Option α} (h : p.Leads start caps stop caps')
    (hk : (k stop caps').isSome = true) : (p.run start caps k).isSome = true := by
  induction p generalizing start stop caps caps' k with
  | empty => cases h; exact hk
  | one member =>
    cases h with
    | one hc => simpa only [run, hc, if_true] using hk
  | seq a b iha ihb =>
    rw [advances, Bool.and_eq_true] at hp
    cases h with
    | seq ha hb => exact iha hp.1 ha (ihb hp.2 hb hk)
  | alt a b iha ihb =>
    rw [advances, Bool.and_eq_true] at hp
    cases h with
    | left ha => exact isSome_orElse.2 (.inl (iha hp.1 ha hk))
    | right hb => exact isSome_orElse.2 (.inr (ihb hp.2 hb hk))
  | many member =>
    cases h with
    | many htaken => exact runMany_isSome htaken hk
  | star a ih =>
    rw [advances, Bool.and_eq_true] at hp
    exact runStar_isSome hp.1 (fun hlead hk' => ih hp.2 hlead hk') h hk le_rfl
  | group i a ih =>
    cases h with
    | group ha => exact ih hp ha hk
  | boundary =>
    cases h with
    | boundary hb => rwa [run, if_pos hb]
  | lineStart =>
    cases h with
    | lineStart hb => rwa [run, if_pos hb]
  | textStart =>
    cases h with
    | textStart hb => rwa [run, hb, List.isEmpty_nil, if_pos rfl]
  | textEnd =>
    cases h with
    | textEnd hb => rwa [run, hb, List.isEmpty_nil, if_pos rfl]

end Matcher

/-- A pattern matches at a place just if it leads somewhere from there. -/
theorem matchAt_isSome {p : Pattern} (hp : p.advances = true) (start : Place) :
    (p.matchAt start).isSome = true ↔ ∃ stop caps, p.Leads start [] stop caps := by
  constructor
  · intro h
    obtain ⟨m, hm⟩ := Option.isSome_iff_exists.1 h
    exact ⟨m.stop, m.captures, (matchAt_leads hm).2⟩
  · rintro ⟨stop, caps, h⟩
    exact run_isSome hp h rfl

end Crosswalk.Pattern
