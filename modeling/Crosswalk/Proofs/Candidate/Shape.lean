import Crosswalk.Proofs.Candidate.Wrapped
import Crosswalk.Proofs.Pattern.Taking
import Crosswalk.Proofs.Text.Search
import Crosswalk.Proofs.Text.Trim

namespace Crosswalk

namespace Rules

open Pattern

theorem ticks_apart {k : Nat} {c : Char} {s : List Char} (hk : k ≤ 2) (hc : c ≠ '\x60') :
    fence <:+: List.replicate k '\x60' ++ c :: s ↔ fence <:+: s := by
  rw [Text.infix_apart (by simpa [fence] using hc), List.infix_replicate_iff]
  constructor
  · rintro (⟨hlength, -⟩ | h)
    · exact absurd (hlength.trans hk) (by decide)
    · exact h
  · exact .inr

theorem free_apart {s t : List Char} (hs : '\x60' ∉ s) : fence <:+: s ++ t ↔ fence <:+: t := by
  induction s with
  | nil => rfl
  | cons c s ih =>
    rw [List.mem_cons, not_or] at hs
    have happart := ticks_apart (s := s ++ t) (Nat.zero_le 2) (Ne.symm hs.1)
    rw [List.replicate_zero, List.nil_append] at happart
    exact happart.trans (ih hs.2)

theorem not_fence_of_unmatched {last : Option Char} {s : List Char}
    (h : codeFence.matchAt (.behind last s) = none) : ¬fence <+: s := by
  rintro ⟨rest, rfl⟩
  have htag : (Pattern.many isFenceTag).Leads ⟨fence.reverse ++ last.toList, [] ++ rest⟩ []
      ⟨[].reverse ++ (fence.reverse ++ last.toList), rest⟩ [] := .many (List.forall_mem_nil _)
  have hleads : ∃ stop caps, codeFence.Leads (.behind last (fence ++ rest)) [] stop caps :=
    ⟨_, _, .seq (.seq (.one rfl) (.seq (.one rfl) (.one rfl))) htag⟩
  have hsome := (matchAt_isSome (by decide) _).2 hleads
  rw [h] at hsome
  cases hsome

/-- Back-ticks that are already there never join what is left of the text to a fence. -/
theorem unfenced_scans {last : Option Char} {s : List Char} {pieces : List Piece}
    (h : codeFence.Scans last s pieces) {k : Nat} (hk : k ≤ 2)
    (hs : k = 0 ∨ ¬fence <+: List.replicate k '\x60' ++ s) :
    ¬fence <:+: List.replicate k '\x60' ++ patched (fun _ => []) pieces := by
  induction h generalizing k with
  | nil last =>
    rw [patched, List.flatMap_nil, List.append_nil, List.infix_replicate_iff]
    exact fun h => absurd (h.1.trans hk) (by decide)
  | @plain last c s pieces hnone _ ih =>
    change ¬fence <:+: List.replicate k '\x60' ++ c :: patched _ pieces
    by_cases hc : c = '\x60'
    · subst hc
      have hopen : ¬fence <+: List.replicate (k + 1) '\x60' ++ s := by
        rw [List.replicate_succ', List.append_assoc]
        rcases hs with rfl | hs
        · exact not_fence_of_unmatched hnone
        · exact hs
      have hk' : k + 1 ≤ 2 := by
        by_contra hlarge
        obtain rfl : k = 2 := by omega
        exact hopen ⟨s, rfl⟩
      have hlater := ih hk' (.inr hopen)
      rwa [List.replicate_succ', List.append_assoc] at hlater
    · rw [ticks_apart hk hc]
      simpa using ih (Nat.zero_le 2) (.inl rfl)
  | @hit last s m pieces hm _ _ ih =>
    have hopens : fence <+: m.text ++ s := by
      cases (matchAt_leads hm).2 with
      | seq hfence _ => exact ⟨_, hfence.text.symm⟩
    rcases hs with rfl | hs
    · exact ih hk (.inl rfl)
    · obtain ⟨rest, hrest⟩ := hopens
      have hticks : List.replicate k '\x60' ++ fence = fence ++ List.replicate k '\x60' := by
        rw [show fence = List.replicate 3 '\x60' from rfl, List.replicate_append_replicate,
          List.replicate_append_replicate, Nat.add_comm]
      refine absurd ⟨List.replicate k '\x60' ++ rest, ?_⟩ hs
      rw [← hrest, ← List.append_assoc, ← List.append_assoc, hticks]

theorem dropFences_unfenced (s : List Char) : ¬fence <:+: Candidate.dropFences s :=
  unfenced_scans (scanFrom_scans (by decide) false none s) (Nat.zero_le 2) (.inl rfl)

end Rules

def TemplatePart.fixed : TemplatePart → List Char
  | .text s => s.toList
  | .group _ => []

namespace Rule

open Pattern Rules

def parts (r : Rule) : List TemplatePart :=
  match r.action with
  | .remove => []
  | .replace template => template

theorem replacement_eq (r : Rule) (m : Match) :
    r.replacement m = r.parts.flatMap (·.expand m) := by
  rw [replacement, parts]
  cases r.action <;> rfl

/-- A rule that neither takes nor writes back-ticks. Unless it takes from the start of a line on, it
writes something for what it takes, so that the text around a match is not joined. -/
structure Unticking (r : Rule) : Prop where
  takes : r.pattern.takes = true
  avoids : r.pattern.avoids '\x60' = true
  writes : ∀ part ∈ r.parts, '\x60' ∉ part.fixed
  apart : r.pattern.opensLine = true ∨ ∃ part ∈ r.parts, part.fixed ≠ []

variable {r : Rule}

theorem Unticking.replacement_free (h : r.Unticking) {start : Place} {m : Match}
    (hm : r.pattern.matchAt start = some m) : '\x60' ∉ r.replacement m := by
  rw [replacement_eq, List.mem_flatMap]
  rintro ⟨part, hpart, htick⟩
  have hwrites := h.writes part hpart
  cases part with
  | text s => exact hwrites htick
  | group i =>
    rw [TemplatePart.expand, Match.group?] at htick
    cases hfind : m.captures.find? (·.1 == i) with
    | none =>
      rw [hfind] at htick
      cases htick
    | some capture =>
      rw [hfind] at htick
      rcases ((matchAt_leads hm).2.clear h.avoids).captured capture (List.mem_of_find?_eq_some hfind)
        with hnone | hfree
      · cases hnone
      · exact hfree htick

theorem Unticking.replacement_ne_nil (h : r.Unticking) {last : Option Char} {s : List Char}
    {m : Match} (hm : r.pattern.matchAt (.behind last s) = some m) (hlast : last = some '\x60') :
    r.replacement m ≠ [] := by
  rcases h.apart with hline | ⟨part, hpart, hfixed⟩
  · have hstart := (matchAt_leads hm).2.atLineStart hline
    rw [hlast] at hstart
    cases hstart
  · rw [replacement_eq, Ne, List.flatMap_eq_nil_iff]
    intro hnil
    cases part with
    | text s => exact hfixed (hnil _ hpart)
    | group i => exact hfixed rfl

theorem Unticking.patched_scans (h : r.Unticking) {last : Option Char} {s : List Char}
    {pieces : List Piece} (hscans : r.pattern.Scans last s pieces) {k : Nat} (hk : k ≤ 2)
    (hlast : k = 0 ∨ last = some '\x60') (hs : ¬fence <:+: List.replicate k '\x60' ++ s) :
    ¬fence <:+: List.replicate k '\x60' ++ patched r.replacement pieces := by
  induction hscans generalizing k with
  | nil last => exact hs
  | @plain last c s pieces _ _ ih =>
    change ¬fence <:+: List.replicate k '\x60' ++ c :: patched _ pieces
    by_cases hc : c = '\x60'
    · subst hc
      have hticks (t : List Char) : List.replicate k '\x60' ++ '\x60' :: t
          = List.replicate (k + 1) '\x60' ++ t := by
        rw [List.replicate_succ', List.append_assoc]
        rfl
      rw [hticks] at hs ⊢
      have hk' : k + 1 ≤ 2 := by
        by_contra hlarge
        obtain rfl : k = 2 := by omega
        exact hs ⟨[], s, rfl⟩
      exact ih hk' (.inr rfl) hs
    · rw [ticks_apart hk hc] at hs ⊢
      exact ih (Nat.zero_le 2) (.inl rfl) hs
  | @hit last s m pieces hm _ _ ih =>
    change ¬fence <:+: List.replicate k '\x60' ++ (r.replacement m ++ patched _ pieces)
    have hrest : ¬fence <:+: s := fun hin => hs (hin.trans
      ((List.suffix_append m.text s).trans (List.suffix_append _ _)).isInfix)
    have hlater := ih (Nat.zero_le 2) (.inl rfl) hrest
    rw [List.replicate_zero, List.nil_append] at hlater
    have hfree := h.replacement_free hm
    cases hreplaced : r.replacement m with
    | nil =>
      rcases hlast with rfl | hlast
      · exact hlater
      · exact absurd hreplaced (h.replacement_ne_nil hm hlast)
    | cons c rest =>
      rw [hreplaced, List.mem_cons, not_or] at hfree
      rw [List.cons_append, ticks_apart hk (Ne.symm hfree.1), free_apart hfree.2]
      exact hlater

end Rule

theorem Direction.cleanup_unticking (d : Direction) : ∀ r ∈ d.rules.cleanup, r.Unticking := by
  have hall : ∀ r ∈ d.rules.cleanup, r.pattern.takes = true ∧ r.pattern.avoids '\x60' = true ∧
      (∀ part ∈ r.parts, '\x60' ∉ part.fixed) ∧
      (r.pattern.opensLine = true ∨ ∃ part ∈ r.parts, part.fixed ≠ []) := by
    cases d <;> decide
  intro r hr
  obtain ⟨htakes, havoids, hwrites, hapart⟩ := hall r hr
  exact ⟨htakes, havoids, hwrites, hapart⟩

namespace Rule

open Pattern Rules

variable {r : Rule}

theorem Unticking.apply_unfenced (h : r.Unticking) {s : List Char}
    (hs : ¬fence <:+: s) : ¬fence <:+: r.apply s :=
  h.patched_scans (scanFrom_scans h.takes false none s) (Nat.zero_le 2) (.inl rfl) hs

theorem applyAll_unfenced {rules : List Rule} (hrules : ∀ r ∈ rules, r.Unticking) {s : List Char}
    (hs : ¬fence <:+: s) : ¬fence <:+: applyAll rules s := by
  induction rules generalizing s with
  | nil => exact hs
  | cons r rules ih =>
    exact ih (fun r hr => hrules r (List.mem_cons_of_mem _ hr))
      ((hrules r List.mem_cons_self).apply_unfenced hs)

end Rule

namespace Candidate

open Rules

theorem fromAnchor?_suffix {rules : RuleSet} {s body : List Char}
    (h : fromAnchor? rules s = some body) : body <:+ s := by
  obtain ⟨m, hm, rfl⟩ := Option.map_eq_some_iff.1 h
  exact (Pattern.findFrom_leads hm).1

theorem dropEpilogue_begins (s : List Char) : dropEpilogue s <+: s := by
  unfold dropEpilogue
  split
  · exact List.prefix_rfl
  · next code tail hsplit =>
    split
    · exact List.prefix_rfl
    · exact ⟨tail, Text.append_of_splitAfterLast? hsplit⟩

theorem ofChars_unfenced (d : Direction) (answer : List Char) :
    ¬fence <:+: ofChars d.rules answer := by
  unfold ofChars
  split
  · decide
  · next body hbody =>
    have hinfix : dropEpilogue body <:+: dropFences answer :=
      (dropEpilogue_begins body).isInfix.trans (fromAnchor?_suffix hbody).isInfix
    have hclean := Rule.applyAll_unfenced d.cleanup_unticking
      fun h => dropFences_unfenced answer (h.trans hinfix)
    exact fun h => hclean (h.trans (Text.trim_infix _))

theorem ofChars_trimmed (rules : RuleSet) (answer : List Char) :
    (ofChars rules answer).head?.any Text.isBlank = false ∧
      (ofChars rules answer).getLast?.any Text.isBlank = false := by
  unfold ofChars
  split
  · exact ⟨rfl, rfl⟩
  · exact ⟨Text.head?_trim _, Text.getLast?_trim _⟩

/-- A candidate has no white space at its ends and no code fence in it, and there is none where the
text between the fences of the answer never starts code. -/
theorem ofAnswer_shape (d : Direction) (answer : String) :
    ((ofAnswer d answer).toList.head?.any Text.isBlank = false ∧
      (ofAnswer d answer).toList.getLast?.any Text.isBlank = false) ∧
    ¬fence <:+: (ofAnswer d answer).toList ∧
    (d.rules.codeAnchor.occursIn (dropFences answer.toList) = false → ofAnswer d answer = "") := by
  rw [ofAnswer, String.toList_ofList]
  refine ⟨ofChars_trimmed d.rules _, ofChars_unfenced d _, fun hanchor => ?_⟩
  rw [Pattern.occursIn, Option.isSome_eq_false_iff, Option.isNone_iff_eq_none] at hanchor
  rw [ofChars, fromAnchor?, hanchor]
  rfl

theorem ofAnswer_refusal :
    Rules.swiftAnchor.occursIn (dropFences "\x60\x60\x60text\nNo import.\n\x60\x60\x60".toList)
        = false ∧
      ofAnswer .kotlinToSwift "\x60\x60\x60text\nNo import.\n\x60\x60\x60" = "" := by
  have hanchor : Rules.swiftAnchor.occursIn
      (dropFences "\x60\x60\x60text\nNo import.\n\x60\x60\x60".toList) = false := by decide +kernel
  exact ⟨hanchor, (ofAnswer_shape .kotlinToSwift _).2.2 hanchor⟩

end Candidate

end Crosswalk
