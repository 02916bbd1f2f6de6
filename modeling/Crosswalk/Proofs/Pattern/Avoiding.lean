import Crosswalk.Proofs.Pattern.Completeness
import Crosswalk.Proofs.Pattern.Words

namespace Crosswalk.Pattern

def avoids (c : Char) : Pattern → Bool
  | .one member | .many member => !member c
  | .seq a b | .alt a b => a.avoids c && b.avoids c
  | .star a | .group _ a => a.avoids c
  | .empty | .boundary | .lineStart | .textStart | .textEnd => true

variable {p : Pattern} {c : Char}

/-- A match that starts before the character ends before it, and it is a match, too, if another
text follows the character. -/
theorem Leads.beyond {start stop : Place} {caps caps' : Captures}
    (h : p.Leads start caps stop caps') (hp : p.avoids c = true) {s rest : List Char}
    (rest' : List Char) (hs : start.after = s ++ c :: rest) (caps₁ : Captures) :
    ∃ s' caps₂, stop.after = s' ++ c :: rest ∧
      p.Leads ⟨start.before, s ++ c :: rest'⟩ caps₁ ⟨stop.before, s' ++ c :: rest'⟩ caps₂ := by
  induction h generalizing s caps₁ with
  | empty => exact ⟨s, caps₁, hs, .empty⟩
  | stop => exact ⟨s, caps₁, hs, .stop⟩
  | @one member before after d caps hd =>
    cases s with
    | nil =>
      obtain ⟨rfl, -⟩ := List.cons.inj hs
      rw [avoids, hd] at hp
      cases hp
    | cons d' s =>
      obtain ⟨rfl, rfl⟩ := List.cons.inj hs
      exact ⟨s, caps₁, rfl, .one hd⟩
  | @many member before taken after caps htaken =>
    have hc : c ∉ taken := fun hc => by
      rw [avoids, htaken c hc] at hp
      cases hp
    obtain ⟨s', rfl, hafter⟩ | ⟨taken', rfl, hrest⟩ := List.append_eq_append_iff.1 hs
    · rw [List.append_assoc]
      exact ⟨s', caps₁, hafter, .many htaken⟩
    · cases taken' with
      | nil =>
        rw [List.append_nil] at htaken hc ⊢
        exact ⟨[], caps₁, hrest.symm, .many htaken⟩
      | cons d taken' =>
        obtain ⟨rfl, -⟩ := List.cons.inj hrest
        exact absurd (List.mem_append_right _ List.mem_cons_self) hc
  | seq _ _ iha ihb =>
    rw [avoids, Bool.and_eq_true] at hp
    obtain ⟨s', caps₂, hs', ha⟩ := iha hp.1 hs caps₁
    obtain ⟨s'', caps₃, hs'', hb⟩ := ihb hp.2 hs' caps₂
    exact ⟨s'', caps₃, hs'', ha.seq hb⟩
  | left _ ih =>
    rw [avoids, Bool.and_eq_true] at hp
    obtain ⟨s', caps₂, hs', ha⟩ := ih hp.1 hs caps₁
    exact ⟨s', caps₂, hs', ha.left⟩
  | right _ ih =>
    rw [avoids, Bool.and_eq_true] at hp
    obtain ⟨s', caps₂, hs', hb⟩ := ih hp.2 hs caps₁
    exact ⟨s', caps₂, hs', hb.right⟩
  | again _ _ iha ihrest =>
    obtain ⟨s', caps₂, hs', ha⟩ := iha hp hs caps₁
    obtain ⟨s'', caps₃, hs'', hrest⟩ := ihrest hp hs' caps₂
    exact ⟨s'', caps₃, hs'', ha.again hrest⟩
  | group _ ih =>
    obtain ⟨s', caps₂, hs', ha⟩ := ih hp hs caps₁
    exact ⟨s', _, hs', ha.group⟩
  | boundary hb =>
    refine ⟨s, caps₁, hs, .boundary ?_⟩
    rw [Place.atBoundary, hs] at hb
    cases s <;> exact hb
  | lineStart hl => exact ⟨s, caps₁, hs, .lineStart hl⟩
  | textStart ht => exact ⟨s, caps₁, hs, .textStart ht⟩
  | textEnd ht =>
    -- The character is still to come.
    rw [hs] at ht
    exact absurd ht (List.append_ne_nil_of_right_ne_nil s (List.cons_ne_nil c rest))

theorem matchAt_beyond (hadvances : p.advances = true) (hp : p.avoids c = true)
    (last : Option Char) (s rest rest' : List Char) :
    (p.matchAt (.behind last (s ++ c :: rest))).isSome
      = (p.matchAt (.behind last (s ++ c :: rest'))).isSome := by
  have hone {rest rest' : List Char}
      (h : (p.matchAt (.behind last (s ++ c :: rest))).isSome = true) :
      (p.matchAt (.behind last (s ++ c :: rest'))).isSome = true := by
    obtain ⟨stop, caps, hleads⟩ := (matchAt_isSome hadvances _).1 h
    obtain ⟨s', caps', -, hleads'⟩ := hleads.beyond hp rest' rfl []
    exact (matchAt_isSome hadvances _).2 ⟨_, caps', hleads'⟩
  exact Bool.eq_iff_iff.2 ⟨hone, hone⟩

theorem matchAt_beyond_none (hadvances : p.advances = true) (hp : p.avoids c = true)
    {last : Option Char} {s rest : List Char} (rest' : List Char)
    (h : p.matchAt (.behind last (s ++ c :: rest)) = none) :
    p.matchAt (.behind last (s ++ c :: rest')) = none := by
  rw [← Option.not_isSome_iff_eq_none, matchAt_beyond hadvances hp last s rest' rest, h]
  exact Bool.false_ne_true

theorem matchAt_beyond_some (hadvances : p.advances = true) (hp : p.avoids c = true)
    {last : Option Char} {s found rest : List Char} {m : Match} (rest' : List Char)
    (h : p.matchAt (.behind last (s ++ c :: rest)) = some m)
    (hfound : m.start.after = found ++ c :: rest) :
    ∃ m', p.matchAt (.behind last (s ++ c :: rest')) = some m' ∧
      m'.start.after = found ++ c :: rest' := by
  have hstart : s ++ c :: rest = found ++ c :: rest :=
    (congrArg Place.after (matchAt_leads h).1).symm.trans hfound
  obtain rfl : s = found := List.append_cancel_right hstart
  have hsome := matchAt_beyond hadvances hp last s rest rest'
  rw [h] at hsome
  obtain ⟨m', hm'⟩ := Option.isSome_iff_exists.1 hsome.symm
  exact ⟨m', hm', congrArg Place.after (matchAt_leads hm').1⟩

/-- The first match stays the first one when another text follows a character that no match
takes. -/
theorem findFrom_beyond (hadvances : p.advances = true) (hp : p.avoids c = true) {last : Option Char}
    {s found rest : List Char} (rest' : List Char)
    (h : (p.findFrom last (s ++ c :: rest)).map (·.start.after) = some (found ++ c :: rest)) :
    (p.findFrom last (s ++ c :: rest')).map (·.start.after) = some (found ++ c :: rest') := by
  induction s generalizing last with
  | nil =>
    rw [List.nil_append, findFrom] at h ⊢
    cases hm : p.matchAt (.behind last (c :: rest)) with
    | some m =>
      rw [hm] at h
      obtain ⟨m', hm', hstart'⟩ :=
        matchAt_beyond_some hadvances hp (s := []) rest' hm (Option.some.inj h)
      rw [List.nil_append] at hm'
      rw [hm']
      exact congrArg some hstart'
    | none =>
      rw [hm] at h
      obtain ⟨m, hlater, hstart⟩ := Option.map_eq_some_iff.1 h
      have hlength := (findFrom_leads hlater).1.length_le
      rw [hstart, List.length_append, List.length_cons] at hlength
      omega
  | cons d s ih =>
    rw [List.cons_append, findFrom] at h ⊢
    cases hm : p.matchAt (.behind last (d :: (s ++ c :: rest))) with
    | some m =>
      rw [hm] at h
      obtain ⟨m', hm', hstart'⟩ :=
        matchAt_beyond_some hadvances hp (s := d :: s) rest' hm (Option.some.inj h)
      rw [List.cons_append] at hm'
      rw [hm']
      exact congrArg some hstart'
    | none =>
      have hnone := matchAt_beyond_none hadvances hp (s := d :: s) rest' hm
      rw [List.cons_append] at hnone
      rw [hm] at h
      rw [hnone]
      exact ih h

/-- What is left of a text when the matches of a scan are replaced. -/
def patched (f : Match → List Char) (pieces : List Piece) : List Char :=
  pieces.flatMap fun
    | .plain c => [c]
    | .hit m => f m

theorem replaceAll_eq (p : Pattern) (f : Match → List Char) (s : List Char) :
    p.replaceAll f s = patched f (p.scanFrom 0 false none s) := rfl

theorem patched_plain (f : Match → List Char) (s : List Char) (pieces : List Piece) :
    patched f (s.map .plain ++ pieces) = s ++ patched f pieces := by
  rw [patched, List.flatMap_append, List.flatMap_map, List.flatMap_singleton']
  rfl

theorem scanFrom_unmatched (closed : Bool) {last : Option Char} {s : List Char}
    (h : p.findFrom last s = none) : p.scanFrom 0 closed last s = s.map .plain := by
  induction s generalizing closed last with
  | nil =>
    rw [findFrom] at h
    rw [scanFrom, h]
    rfl
  | cons d s ih =>
    obtain ⟨hhere, hlater⟩ := (Option.orElse_eq_none ..).1 h
    rw [Spelling.scanFrom_plain closed hhere, ih false hlater]
    rfl

theorem scanFrom_untouched (hadvances : p.advances = true) (hp : p.avoids c = true) (closed : Bool)
    {last : Option Char} {s : List Char} (h : p.findFrom last (s ++ [c]) = none)
    (rest : List Char) : p.scanFrom 0 closed last (s ++ c :: rest)
      = (s ++ [c]).map .plain ++ p.scanFrom 0 false (some c) rest := by
  induction s generalizing closed last with
  | nil =>
    obtain ⟨hhere, -⟩ := (Option.orElse_eq_none ..).1 h
    exact Spelling.scanFrom_plain closed (matchAt_beyond_none hadvances hp (s := []) rest hhere)
  | cons d s ih =>
    obtain ⟨hhere, hlater⟩ := (Option.orElse_eq_none ..).1 h
    have hnone := matchAt_beyond_none hadvances hp (s := d :: s) rest hhere
    rw [List.cons_append] at hnone ⊢
    rw [Spelling.scanFrom_plain closed hnone, ih false hlater]
    rfl

theorem matchAt_text {start : Place} {m : Match} (h : p.matchAt start = some m) :
    start.after = m.text ++ m.stop.after := by
  obtain ⟨hstart, hleads⟩ := matchAt_leads h
  obtain ⟨taken, hafter, hbefore⟩ := hleads.taken
  have htext : m.text = taken := by
    rw [Match.text, hstart, Place.since, hbefore, List.length_append, Nat.add_sub_cancel,
      List.take_left, List.reverse_reverse]
  rw [htext, hafter]

theorem matchAt_avoided (htakes : p.takes = true) (hp : p.avoids c = true) {last : Option Char}
    {s rest : List Char} {m : Match} (h : p.matchAt (.behind last (s ++ c :: rest)) = some m) :
    ∃ s', s = m.text ++ s' ∧ m.text ≠ [] := by
  have htext := matchAt_text h
  have hleads := (matchAt_leads h).2
  have hshorter := hleads.length_lt htakes
  obtain ⟨s', -, hstop, -⟩ := hleads.beyond hp rest rfl []
  refine ⟨s', ?_, fun hnil => ?_⟩
  · rw [hstop, ← List.append_assoc] at htext
    exact List.append_cancel_right htext
  · rw [hnil, List.nil_append] at htext
    rw [htext] at hshorter
    exact absurd hshorter (Nat.lt_irrefl _)

/-- A scan takes what stands before the character and what stands behind it one after the other. -/
theorem scanFrom_avoided (htakes : p.takes = true) (hp : p.avoids c = true) (closed : Bool)
    (last : Option Char) (s rest : List Char) : ∃ pieces,
      p.scanFrom 0 closed last (s ++ c :: rest)
        = pieces ++ .plain c :: p.scanFrom 0 false (some c) rest := by
  induction hlength : s.length using Nat.strong_induction_on generalizing s closed last with
  | _ n ih =>
    cases s with
    | nil =>
      refine ⟨[], Spelling.scanFrom_plain closed (Option.eq_none_iff_forall_ne_some.2 ?_)⟩
      intro m hm
      obtain ⟨s', hs', hne⟩ := matchAt_avoided htakes hp (s := []) hm
      exact hne (List.append_eq_nil_iff.1 hs'.symm).1
    | cons d s =>
      cases hm : p.matchAt (.behind last (d :: s ++ c :: rest)) with
      | none =>
        obtain ⟨pieces, hpieces⟩ := ih s.length (by simp [← hlength]) false (some d) s rfl
        refine ⟨.plain d :: pieces, ?_⟩
        rw [List.cons_append] at hm ⊢
        rw [Spelling.scanFrom_plain closed hm, hpieces]
        rfl
      | some m =>
        obtain ⟨s', hs', hne⟩ := matchAt_avoided htakes hp hm
        obtain ⟨d', taken, htext⟩ := List.exists_cons_of_ne_nil hne
        rw [htext, List.cons_append] at hs'
        obtain ⟨rfl, rfl⟩ := List.cons.inj hs'
        obtain ⟨last', hskip⟩ := Spelling.scanFrom_skip p d taken (s' ++ c :: rest)
        obtain ⟨pieces, hpieces⟩ := ih s'.length (by simp [← hlength]) true (some last') s' rfl
        refine ⟨.hit m :: pieces, ?_⟩
        rw [List.cons_append] at hm ⊢
        rw [Spelling.scanFrom_hit closed hm htext, List.append_assoc, hskip, hpieces]
        rfl

theorem replaceAll_untouched (hadvances : p.advances = true) (htakes : p.takes = true)
    (hp : p.avoids c = true) (f : Match → List Char) {s : List Char}
    (h : p.findFrom (some c) (s ++ [c]) = none) (before after : List Char) :
    ∃ before' after', p.replaceAll f (before ++ c :: (s ++ c :: after))
      = before' ++ c :: (s ++ c :: after') := by
  obtain ⟨pieces, hpieces⟩ := scanFrom_avoided htakes hp false none before (s ++ c :: after)
  have hkept := patched_plain f (c :: (s ++ [c])) (p.scanFrom 0 false (some c) after)
  refine ⟨patched f pieces, patched f (p.scanFrom 0 false (some c) after), ?_⟩
  rw [replaceAll_eq, hpieces, scanFrom_untouched hadvances hp false h after, patched,
    List.flatMap_append]
  refine congrArg (patched f pieces ++ ·) (hkept.trans ?_)
  simp

structure Clear (c : Char) (start : Place) (caps : Captures) (stop : Place) (caps' : Captures) :
    Prop where
  taken : ∃ taken : List Char, stop.before = taken.reverse ++ start.before ∧ c ∉ taken
  captured : ∀ capture ∈ caps', capture ∈ caps ∨ c ∉ capture.2.1.since capture.2.2

theorem Clear.trans {start next stop : Place} {caps caps' caps'' : Captures}
    (h : Clear c start caps next caps') (h' : Clear c next caps' stop caps'') :
    Clear c start caps stop caps'' := by
  obtain ⟨first, hfirst, hfree⟩ := h.taken
  obtain ⟨second, hsecond, hfree'⟩ := h'.taken
  refine ⟨⟨first ++ second, by simp [hfirst, hsecond], by simp [hfree, hfree']⟩, ?_⟩
  intro capture hcapture
  exact (h'.captured capture hcapture).elim (h.captured capture) .inr

theorem Clear.group {i : Nat} {start stop : Place} {caps caps' : Captures}
    (h : Clear c start caps stop caps') : Clear c start caps stop ((i, start, stop) :: caps') := by
  refine ⟨h.taken, fun capture hcapture => ?_⟩
  rcases List.mem_cons.1 hcapture with rfl | hcapture
  · obtain ⟨taken, hbefore, htaken⟩ := h.taken
    have hsince : start.since stop = taken := by
      rw [Place.since, hbefore, List.length_append, Nat.add_sub_cancel, List.take_left,
        List.reverse_reverse]
    exact .inr (hsince ▸ htaken)
  · exact h.captured capture hcapture

theorem Leads.clear {start stop : Place} {caps caps' : Captures}
    (h : p.Leads start caps stop caps') (hp : p.avoids c = true) :
    Clear c start caps stop caps' := by
  induction h with
  | empty | stop | boundary | lineStart | textStart | textEnd =>
    exact ⟨⟨[], rfl, List.not_mem_nil⟩, fun _ => .inl⟩
  | @one member before after d caps hd =>
    refine ⟨⟨[d], rfl, fun hmem => ?_⟩, fun _ => .inl⟩
    obtain rfl := List.mem_singleton.1 hmem
    rw [avoids, hd] at hp
    cases hp
  | @many member before taken after caps htaken =>
    refine ⟨⟨taken, rfl, fun hmem => ?_⟩, fun _ => .inl⟩
    rw [avoids, htaken c hmem] at hp
    cases hp
  | seq _ _ iha ihb =>
    rw [avoids, Bool.and_eq_true] at hp
    exact (iha hp.1).trans (ihb hp.2)
  | again _ _ iha ihrest => exact (iha hp).trans (ihrest hp)
  | left _ ih =>
    rw [avoids, Bool.and_eq_true] at hp
    exact ih hp.1
  | right _ ih =>
    rw [avoids, Bool.and_eq_true] at hp
    exact ih hp.2
  | group _ ih => exact (ih hp).group

end Crosswalk.Pattern
