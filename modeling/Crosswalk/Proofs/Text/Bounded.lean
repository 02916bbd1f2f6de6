import Crosswalk.Text.Bounded
import Crosswalk.Proofs.Text.Lines

namespace Crosswalk.Text

variable {n : Nat} {s t l line : List Char} {ls ls' : List (List Char)}

theorem byteLength_append (s t : List Char) : byteLength (s ++ t) = byteLength s + byteLength t := by
  induction s with
  | nil => rw [List.nil_append, byteLength, Nat.zero_add]
  | cons c s ih => rw [List.cons_append, byteLength, byteLength, ih, Nat.add_assoc]

theorem takeBytes_isPrefix (n : Nat) (s : List Char) : takeBytes n s <+: s := by
  induction s generalizing n with
  | nil => exact List.nil_prefix
  | cons c s ih =>
    rw [takeBytes]
    split
    · exact List.cons_prefix_cons.2 ⟨rfl, ih _⟩
    · exact List.nil_prefix

theorem byteLength_takeBytes_le (n : Nat) (s : List Char) : byteLength (takeBytes n s) ≤ n := by
  induction s generalizing n with
  | nil => exact Nat.zero_le n
  | cons c s ih =>
    rw [takeBytes]
    split
    · next hc =>
      have htail := ih (n - c.utf8Size)
      rw [byteLength]
      omega
    · exact Nat.zero_le n

theorem takeBytes_append (h : byteLength s ≤ n) (t : List Char) :
    takeBytes n (s ++ t) = s ++ takeBytes (n - byteLength s) t := by
  induction s generalizing n with
  | nil => rw [List.nil_append, byteLength, Nat.sub_zero, List.nil_append]
  | cons c s ih =>
    rw [byteLength] at h
    rw [List.cons_append, takeBytes, if_pos (by omega), ih (by omega), byteLength, Nat.sub_sub,
      List.cons_append]

theorem takeBytes_of_fits (h : byteLength s ≤ n) : takeBytes n s = s := by
  have happend := takeBytes_append h []
  rwa [takeBytes, List.append_nil] at happend

theorem takeBytes_of_over (h : n < byteLength s) (t : List Char) :
    takeBytes n (s ++ t) = takeBytes n s := by
  induction s generalizing n with
  | nil => exact absurd h (Nat.not_lt_zero n)
  | cons c s ih =>
    rw [byteLength] at h
    rw [List.cons_append, takeBytes, takeBytes]
    split
    · rw [ih (by omega)]
    · rfl

theorem bounded_append (h : byteLength s ≤ n) (t : List Char) :
    bounded n (s ++ t) = s ++ bounded (n - byteLength s) t := by
  rw [bounded_eq, bounded_eq, byteLength_append]
  by_cases hfits : byteLength s + byteLength t ≤ n
  · rw [if_pos hfits, if_pos (by omega)]
  · rw [if_neg hfits, if_neg (by omega), takeBytes_append h, List.append_assoc]

theorem bounded_line (h : n < byteLength l + 1) (t : List Char) :
    bounded n (l ++ '\n' :: t) = takeBytes n l ++ '\n' :: "...".toList := by
  have hover : ¬byteLength (l ++ '\n' :: t) ≤ n := by
    rw [byteLength_append, byteLength, show '\n'.utf8Size = 1 from rfl]
    omega
  have htake : takeBytes n (l ++ '\n' :: t) = takeBytes n l := by
    rcases Nat.lt_succ_iff_lt_or_eq.1 h with hlt | rfl
    · exact takeBytes_of_over hlt _
    · rw [takeBytes_append le_rfl, takeBytes_of_fits le_rfl, Nat.sub_self]
      exact List.append_nil l
  rw [bounded_eq, if_neg hover, htake]
  rfl

def closed (ls : List (List Char)) : List Char := ls.flatMap (· ++ ['\n'])

theorem closed_cons (l : List Char) (ls : List (List Char)) :
    closed (l :: ls) = l ++ '\n' :: closed ls := by
  rw [closed, List.flatMap_cons, List.append_assoc]
  rfl

theorem closed_append (ls ls' : List (List Char)) : closed (ls ++ ls') = closed ls ++ closed ls' :=
  List.flatMap_append

theorem byteLength_closed_cons (l : List Char) (ls : List (List Char)) :
    byteLength (closed (l :: ls)) = byteLength l + 1 + byteLength (closed ls) := by
  rw [closed_cons, byteLength_append, byteLength, ← Nat.add_assoc]
  rfl

/-- The line is one of these, or the part of it that a text of so many bytes has room for. -/
def Shown (n : Nat) (ls : List (List Char)) (line : List Char) : Prop :=
  ∃ before l after, ls = before ++ l :: after ∧ byteLength (closed before) ≤ n ∧
    line = takeBytes (n - byteLength (closed before)) l

theorem not_shown_nil : ¬Shown n [] line := by
  rintro ⟨before, l, after, hnil, -⟩
  exact List.append_ne_nil_of_right_ne_nil before (List.cons_ne_nil l after) hnil.symm

theorem shown_cons : Shown n (l :: ls) line ↔ line = takeBytes n l ∨
    byteLength l + 1 ≤ n ∧ Shown (n - (byteLength l + 1)) ls line := by
  constructor
  · rintro ⟨before, l', after, hls, hfits, hline⟩
    cases before with
    | nil =>
      obtain ⟨rfl, -⟩ := List.cons.inj hls
      exact .inl hline
    | cons first before =>
      obtain ⟨rfl, rfl⟩ := List.cons.inj hls
      rw [byteLength_closed_cons] at hfits hline
      exact .inr ⟨by omega, before, l', after, rfl, by omega, by rw [hline, Nat.sub_sub]⟩
  · rintro (rfl | ⟨hfits, before, l', after, rfl, hbefore, rfl⟩)
    · exact ⟨[], l, ls, rfl, Nat.zero_le n, rfl⟩
    · refine ⟨l :: before, l', after, rfl, ?_, ?_⟩
      · rw [byteLength_closed_cons]
        omega
      · rw [byteLength_closed_cons, Nat.sub_sub]

theorem shown_append : Shown n (ls ++ ls') line ↔ Shown n ls line ∨
    byteLength (closed ls) ≤ n ∧ Shown (n - byteLength (closed ls)) ls' line := by
  induction ls generalizing n with
  | nil => simp [not_shown_nil, closed, byteLength]
  | cons l ls ih =>
    rw [List.cons_append, shown_cons, shown_cons, ih, or_assoc, byteLength_closed_cons, and_or_left,
      ← and_assoc, Nat.sub_sub]
    refine or_congr_right (or_congr_right (and_congr_left fun _ => ?_))
    omega

theorem mem_lines_bounded (hls : ∀ l ∈ ls, '\n' ∉ l ∧ '\r' ∉ l) :
    line ∈ lines (bounded n (closed ls)) ↔
      Shown n ls line ∨ n < byteLength (closed ls) ∧ line = "...".toList := by
  induction ls generalizing n with
  | nil => simp [not_shown_nil, closed, bounded_eq, byteLength, lines, splitAtChar, unterminated]
  | cons l ls ih =>
    obtain ⟨⟨hfeed, hreturn⟩, hls⟩ := List.forall_mem_cons.1 hls
    rw [closed_cons, shown_cons]
    by_cases hfits : byteLength l + 1 ≤ n
    · have hclosed : byteLength (l ++ ['\n']) = byteLength l + 1 := byteLength_append l ['\n']
      rw [List.append_cons, bounded_append (by omega), hclosed, ← List.append_cons,
        lines_closed hfeed, dropReturn_free hreturn, List.mem_cons, ih hls,
        takeBytes_of_fits (by omega), byteLength_append, hclosed, and_iff_right hfits, or_assoc]
      refine or_congr_right (or_congr_right (and_congr_left fun _ => ?_))
      omega
    · have hpart := takeBytes_isPrefix n l
      have hover : n < byteLength (l ++ '\n' :: closed ls) := by
        rw [← closed_cons, byteLength_closed_cons]
        omega
      rw [bounded_line (by omega), lines_closed fun hmem => hfeed (hpart.subset hmem),
        dropReturn_free fun hmem => hreturn (hpart.subset hmem), and_iff_right hover]
      have hdots : lines "...".toList = ["...".toList] := by decide
      rw [hdots]
      simp [hfits]

end Crosswalk.Text
