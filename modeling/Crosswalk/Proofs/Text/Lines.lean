import Mathlib
import Crosswalk.Text.Blank
import Crosswalk.Text.Search

namespace Crosswalk.Text

theorem splitAtChar_ne_nil (sep : Char) (s : List Char) : splitAtChar sep s ≠ [] := by
  cases s with
  | nil => exact List.cons_ne_nil _ _
  | cons c s =>
    rw [splitAtChar]
    split
    · exact List.cons_ne_nil _ _
    · split <;> exact List.cons_ne_nil _ _

theorem splitAtChar_append (sep : Char) (s rest : List Char) :
    splitAtChar sep (s ++ sep :: rest) = splitAtChar sep s ++ splitAtChar sep rest := by
  induction s with
  | nil => simp [splitAtChar]
  | cons c s ih =>
    obtain ⟨piece, pieces, hpieces⟩ := List.exists_cons_of_ne_nil (splitAtChar_ne_nil sep s)
    rw [List.cons_append, splitAtChar, splitAtChar, ih, hpieces]
    split <;> rfl

theorem splitAtChar_free {sep : Char} {s : List Char} (h : sep ∉ s) : splitAtChar sep s = [s] := by
  induction s with
  | nil => rfl
  | cons c s ih =>
    rw [List.mem_cons, not_or] at h
    rw [splitAtChar, if_neg (Ne.symm h.1), ih h.2]

/-- Two texts joined by another character share one piece: the last one of the first text and the
first one of the second. -/
theorem splitAtChar_join {sep c : Char} (hc : c ≠ sep) (s t : List Char) :
    ∃ before last first after, splitAtChar sep s = before ++ [last] ∧
      splitAtChar sep t = first :: after ∧
      splitAtChar sep (s ++ c :: t) = before ++ (last ++ c :: first) :: after := by
  induction s with
  | nil =>
    obtain ⟨first, after, ht⟩ := List.exists_cons_of_ne_nil (splitAtChar_ne_nil sep t)
    exact ⟨[], [], first, after, rfl, ht, by simp [splitAtChar, hc, ht]⟩
  | cons d s ih =>
    obtain ⟨before, last, first, after, hs, ht, hst⟩ := ih
    by_cases hd : d = sep
    · exact ⟨[] :: before, last, first, after, by simp [splitAtChar, hd, hs], ht,
        by simp [splitAtChar, hd, hst]⟩
    · cases before with
      | nil =>
        exact ⟨[], d :: last, first, after, by simp [splitAtChar, hd, hs], ht,
          by simp [splitAtChar, hd, hst]⟩
      | cons piece before =>
        exact ⟨(d :: piece) :: before, last, first, after, by simp [splitAtChar, hd, hs], ht,
          by simp [splitAtChar, hd, hst]⟩

theorem intercalate_splitAtChar (sep : Char) (s : List Char) :
    [sep].intercalate (splitAtChar sep s) = s := by
  induction s with
  | nil => rfl
  | cons c s ih =>
    obtain ⟨piece, pieces, hpieces⟩ := List.exists_cons_of_ne_nil (splitAtChar_ne_nil sep s)
    rw [hpieces] at ih
    rw [splitAtChar, hpieces]
    split
    · next hsep =>
      rw [List.intercalate_cons_cons, ih, hsep]
      rfl
    · rw [← ih]
      cases pieces <;> simp [List.intercalate_cons_cons]

theorem splitAtChar_injective (sep : Char) : Function.Injective (splitAtChar sep) :=
  Function.LeftInverse.injective (intercalate_splitAtChar sep)

theorem not_mem_of_mem_splitAtChar {sep : Char} {s piece : List Char}
    (h : piece ∈ splitAtChar sep s) : sep ∉ piece := by
  induction s generalizing piece with
  | nil =>
    rw [List.mem_singleton.1 h]
    exact List.not_mem_nil
  | cons c s ih =>
    obtain ⟨first, rest, hrest⟩ := List.exists_cons_of_ne_nil (splitAtChar_ne_nil sep s)
    rw [hrest] at ih
    rw [splitAtChar, hrest] at h
    split at h
    · rcases List.mem_cons.1 h with rfl | h
      · exact List.not_mem_nil
      · exact ih h
    · next hc =>
      rcases List.mem_cons.1 h with rfl | h
      · rw [List.mem_cons, not_or]
        exact ⟨Ne.symm hc, ih List.mem_cons_self⟩
      · exact ih (List.mem_cons_of_mem first h)

theorem splitAtChar_intercalate {sep : Char} {pieces : List (List Char)} (hne : pieces ≠ [])
    (h : ∀ piece ∈ pieces, sep ∉ piece) : splitAtChar sep ([sep].intercalate pieces) = pieces := by
  induction pieces with
  | nil => exact absurd rfl hne
  | cons piece pieces ih =>
    obtain ⟨hpiece, hpieces⟩ := List.forall_mem_cons.1 h
    cases pieces with
    | nil => rw [List.intercalate_singleton, splitAtChar_free hpiece]
    | cons next pieces =>
      rw [List.intercalate_cons_cons, List.append_assoc, List.singleton_append, splitAtChar_append,
        splitAtChar_free hpiece, ih (List.cons_ne_nil _ _) hpieces, List.singleton_append]

theorem unterminated_behind (pieces : List (List Char)) {rest : List (List Char)}
    (hne : rest ≠ []) : unterminated (pieces ++ rest)
      = (pieces ++ (unterminated rest).1, (unterminated rest).2) := by
  induction pieces with
  | nil => rfl
  | cons piece pieces ih =>
    obtain ⟨next, more, hmore⟩ := List.exists_cons_of_ne_nil
      (List.append_ne_nil_of_right_ne_nil pieces hne)
    rw [hmore] at ih
    simp only [List.cons_append, hmore, unterminated, ih]

theorem lines_append (s rest : List Char) :
    lines (s ++ '\n' :: rest) = (splitAtChar '\n' s).map dropReturn ++ lines rest := by
  simp only [lines, splitAtChar_append, unterminated_behind _ (splitAtChar_ne_nil '\n' rest),
    List.map_append, List.append_assoc]

theorem lines_newline (s : List Char) : lines ('\n' :: s) = [] :: lines s := lines_append [] s

theorem lines_line {s : List Char} (hs : '\n' ∉ s) :
    lines s = if s.isEmpty then [] else [s] := by
  rw [lines, splitAtChar_free hs]
  rfl

theorem lines_closed {s : List Char} (hs : '\n' ∉ s) (t : List Char) :
    lines (s ++ '\n' :: t) = dropReturn s :: lines t := by
  rw [lines_append, splitAtChar_free hs]
  rfl

theorem dropReturn_free {line : List Char} (h : '\r' ∉ line) : dropReturn line = line := by
  rw [dropReturn]
  split
  · next hlast => exact absurd (List.mem_of_getLast? hlast) h
  · rfl

theorem mem_splitAtChar {sep c : Char} {s piece : List Char} (hpiece : piece ∈ splitAtChar sep s)
    (hc : c ∈ piece) : c ∈ s := by
  induction s generalizing piece with
  | nil =>
    obtain rfl := List.mem_singleton.1 hpiece
    exact hc
  | cons d s ih =>
    obtain ⟨first, rest, hrest⟩ := List.exists_cons_of_ne_nil (splitAtChar_ne_nil sep s)
    rw [splitAtChar, hrest] at hpiece
    rw [hrest] at ih
    split at hpiece
    · rcases List.mem_cons.1 hpiece with rfl | hpiece
      · cases hc
      · exact List.mem_cons_of_mem d (ih hpiece hc)
    · rcases List.mem_cons.1 hpiece with rfl | hpiece
      · rcases List.mem_cons.1 hc with rfl | hc
        · exact List.mem_cons_self
        · exact List.mem_cons_of_mem d (ih List.mem_cons_self hc)
      · exact List.mem_cons_of_mem d (ih (List.mem_cons_of_mem _ hpiece) hc)

theorem splitAfterLast?_append {sep : Char} {tail : List Char} (s : List Char)
    (htail : sep ∉ tail) : splitAfterLast? sep (s ++ sep :: tail) = some (s ++ [sep], tail) := by
  have hreverse : (s ++ sep :: tail).reverse = tail.reverse ++ sep :: s.reverse := by simp
  have htake : ((s ++ sep :: tail).reverse.takeWhile (· != sep)).reverse = tail := by
    rw [hreverse, List.takeWhile_append_of_pos, List.takeWhile_cons_of_neg (by simp),
      List.append_nil, List.reverse_reverse]
    intro c hc
    exact bne_iff_ne.2 fun heq => htail (heq ▸ List.mem_reverse.1 hc)
  have hlength : (s ++ sep :: tail).length - tail.length = (s ++ [sep]).length := by simp; omega
  have hother : tail.length ≠ (s ++ sep :: tail).length := by simp; omega
  rw [splitAfterLast?, htake, if_neg hother, hlength, List.append_cons s sep tail, List.take_left]

theorem splitAfterLast?_free {sep : Char} {s : List Char} (h : sep ∉ s) :
    splitAfterLast? sep s = none := by
  have htake : s.reverse.takeWhile (· != sep) = s.reverse :=
    List.takeWhile_eq_self_iff.2 fun c hc =>
      bne_iff_ne.2 fun heq => h (heq ▸ List.mem_reverse.1 hc)
  rw [splitAfterLast?, htake, if_pos (by simp)]

theorem exists_last {c : Char} {s : List Char} (h : c ∈ s) :
    ∃ x tail, s = x ++ c :: tail ∧ c ∉ tail := by
  obtain ⟨tail, x, hs, htail⟩ := List.eq_append_cons_of_mem (List.mem_reverse.2 h)
  refine ⟨x.reverse, tail.reverse, ?_, by simpa using htail⟩
  rw [← List.reverse_reverse s, hs]
  simp

theorem append_of_splitAfterLast? {sep : Char} {s upTo tail : List Char}
    (h : splitAfterLast? sep s = some (upTo, tail)) : upTo ++ tail = s := by
  have hsuffix : (s.reverse.takeWhile (· != sep)).reverse <:+ s := by
    rw [← List.reverse_prefix, List.reverse_reverse]
    exact List.takeWhile_prefix _
  rw [splitAfterLast?] at h
  split at h
  · cases h
  · cases h
    exact List.suffix_iff_eq_append.1 hsuffix

theorem mem_unterminated {pieces : List (List Char)} {piece : List Char}
    (h : piece ∈ (unterminated pieces).1 ∨ piece = (unterminated pieces).2) (hne : pieces ≠ []) :
    piece ∈ pieces := by
  induction pieces with
  | nil => exact absurd rfl hne
  | cons first rest ih =>
    cases rest with
    | nil =>
      rcases h with h | rfl
      · cases h
      · exact List.mem_cons_self
    | cons second rest =>
      rcases h with h | h
      · rcases List.mem_cons.1 h with rfl | h
        · exact List.mem_cons_self
        · exact List.mem_cons_of_mem _ (ih (.inl h) (List.cons_ne_nil _ _))
      · exact List.mem_cons_of_mem _ (ih (.inr h) (List.cons_ne_nil _ _))

theorem mem_dropReturn {line : List Char} {c : Char} (h : c ∈ dropReturn line) : c ∈ line := by
  unfold dropReturn at h
  split at h
  · exact List.mem_of_mem_dropLast h
  · exact h

theorem mem_of_mem_lines {s line : List Char} {c : Char} (hline : line ∈ lines s) (hc : c ∈ line) :
    c ∈ s := by
  have hne := splitAtChar_ne_nil '\n' s
  rw [lines] at hline
  rcases List.mem_append.1 hline with hclosed | hlast
  · obtain ⟨piece, hmem, rfl⟩ := List.mem_map.1 hclosed
    exact mem_splitAtChar (mem_unterminated (.inl hmem) hne) (mem_dropReturn hc)
  · split at hlast
    · cases hlast
    · rw [List.mem_singleton.1 hlast] at hc
      exact mem_splitAtChar (mem_unterminated (.inr rfl) hne) hc

end Crosswalk.Text
