import Crosswalk.Candidate
import Crosswalk.Proofs.Pattern.Matching

namespace Crosswalk

namespace Pattern

theorem plain_of_scanFrom {p : Pattern} {skip : Nat} {closed : Bool} {last : Option Char}
    {s : List Char} {c : Char} (h : .plain c ∈ p.scanFrom skip closed last s) : c ∈ s := by
  induction skip, closed, last, s using scanFrom.induct p with
  | case1 last m hm => simp [scanFrom, hm] at h
  | case2 closed last m hm hclosed => simp [scanFrom, hm, hclosed] at h
  | case3 closed last hm => simp [scanFrom, hm] at h
  | case4 skip closed last => simp [scanFrom] at h
  | case5 skip closed last d after ih =>
    rw [scanFrom] at h
    exact List.mem_cons_of_mem _ (ih h)
  | case6 closed last d after hm ih =>
    rw [scanFrom, hm] at h
    rcases List.mem_cons.1 h with heq | h
    · cases heq
      exact List.mem_cons_self
    · exact List.mem_cons_of_mem _ (ih h)
  | case7 closed last d after m hm hlen ih =>
    rw [scanFrom, hm] at h
    simp only [hlen] at h
    have hplain : .plain c ∈ Piece.plain d :: p.scanFrom 0 false (some d) after := by
      rcases List.mem_append.1 h with h | h
      · split at h <;> simp at h
      · exact h
    rcases List.mem_cons.1 hplain with heq | h
    · cases heq
      exact List.mem_cons_self
    · exact List.mem_cons_of_mem _ (ih h)
  | case8 closed last d after m hm n hlen ih =>
    rw [scanFrom, hm] at h
    simp only [hlen] at h
    rcases List.mem_cons.1 h with heq | h
    · cases heq
    · exact List.mem_cons_of_mem _ (ih h)

theorem mem_of_replaceAll_nil {p : Pattern} {s : List Char} {c : Char}
    (h : c ∈ p.replaceAll (fun _ => []) s) : c ∈ s := by
  obtain ⟨piece, hpiece, hc⟩ := List.mem_flatMap.1 h
  cases piece with
  | plain d => exact List.mem_singleton.1 hc ▸ plain_of_scanFrom hpiece
  | hit m => cases hc

end Pattern

namespace Rules

open Pattern

theorem swiftAnchor_takesOutside : swiftAnchor.TakesOutside Text.isBlank := by
  refine .inr (.inr ?_)
  refine anyOf_takesOutside fun p hp => ?_
  simp only [List.mem_cons, List.not_mem_nil, or_false] at hp
  rcases hp with rfl | rfl | rfl | rfl | rfl | rfl
  · exact .inl (texts_takesOutside (by decide))
  · exact .inl (text_takesOutside (by decide))
  · exact .inl (text_takesOutside (by decide))
  · exact .inl (text_takesOutside (by decide))
  · exact .inl (text_takesOutside (by decide))
  · exact .inr (.inl (texts_takesOutside (by decide)))

theorem kotlinAnchor_takesOutside : kotlinAnchor.TakesOutside Text.isBlank := by
  refine .inr (.inr ?_)
  refine anyOf_takesOutside fun p hp => ?_
  simp only [List.mem_cons, List.not_mem_nil, or_false] at hp
  rcases hp with rfl | rfl | rfl | rfl
  · exact .inl (texts_takesOutside (by decide))
  · exact .inl (texts_takesOutside (by decide))
  · exact .inl (char_takesOutside (by decide))
  · exact .inr (.inl (texts_takesOutside (by decide)))

end Rules

theorem Direction.codeAnchor_takesOutside (d : Direction) :
    d.rules.codeAnchor.TakesOutside Text.isBlank := by
  cases d with
  | kotlinToSwift => exact Rules.swiftAnchor_takesOutside
  | swiftToKotlin => exact Rules.kotlinAnchor_takesOutside

namespace Candidate

theorem fromAnchor?_blank (d : Direction) {s : List Char} (hs : ∀ c ∈ s, Text.isBlank c = true) :
    fromAnchor? d.rules s = none := by
  rw [fromAnchor?, Option.map_eq_none_iff, Option.eq_none_iff_forall_ne_some]
  intro m hm
  obtain ⟨hsuffix, hleads⟩ := Pattern.findFrom_leads hm
  obtain ⟨c, hc, hblank⟩ := hleads.outside d.codeAnchor_takesOutside
  rw [hs c (hsuffix.mem hc)] at hblank
  cases hblank

theorem ofAnswer_blank (d : Direction) {answer : String} (h : Text.allBlank answer.toList = true) :
    ofAnswer d answer = "" := by
  have hanswer : ∀ c ∈ answer.toList, Text.isBlank c = true := List.all_eq_true.1 h
  have hfences : ∀ c ∈ dropFences answer.toList, Text.isBlank c = true :=
    fun c hc => hanswer c (Pattern.mem_of_replaceAll_nil hc)
  simp only [ofAnswer, ofChars, fromAnchor?_blank d hfences]

end Candidate

end Crosswalk
