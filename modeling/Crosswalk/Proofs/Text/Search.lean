import Mathlib
import Crosswalk.Text.Search

namespace Crosswalk.Text

variable {piece s t : List Char} {c : Char}

theorem startsWith_iff : startsWith piece s = true ↔ piece <+: s := by
  unfold startsWith
  fun_induction afterStart? piece s with
  | case1 s => simp
  | case2 a start => simp
  | case3 a start s ih => simpa using ih
  | case4 a start c s hne => simp [hne]

theorem contains_iff : contains piece s = true ↔ piece <:+: s := by
  induction s with
  | nil => rw [contains, List.isEmpty_iff, List.infix_nil]
  | cons c s ih => rw [contains, Bool.or_eq_true, startsWith_iff, ih, List.infix_cons_iff]

theorem infix_apart (hc : c ∉ piece) : piece <:+: s ++ c :: t ↔ piece <:+: s ∨ piece <:+: t := by
  constructor
  · intro h
    rcases List.infix_append_iff.1 h with h | h | ⟨first, second, rfl, hfirst, hsecond⟩
    · exact .inl h
    · rcases List.infix_cons_iff.1 h with h | h
      · rcases List.prefix_cons_iff.1 h with rfl | ⟨piece, rfl, -⟩
        · exact .inl List.nil_infix
        · exact absurd List.mem_cons_self hc
      · exact .inr h
    · rcases List.prefix_cons_iff.1 hsecond with rfl | ⟨second, rfl, -⟩
      · exact .inl (by simpa using hfirst.isInfix)
      · exact absurd (List.mem_append_right _ List.mem_cons_self) hc
  · rintro (h | h)
    · exact h.trans (List.prefix_append s _).isInfix
    · exact h.trans ((List.suffix_cons c t).trans (List.suffix_append s _)).isInfix

theorem contains_apart (hc : c ∉ piece) :
    contains piece (s ++ c :: t) = (contains piece s || contains piece t) := by
  rw [Bool.eq_iff_iff, Bool.or_eq_true, contains_iff, contains_iff, contains_iff, infix_apart hc]

end Crosswalk.Text
