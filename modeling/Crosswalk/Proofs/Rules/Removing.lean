import Crosswalk.Proofs.Pattern.Opening
import Crosswalk.Proofs.Rules.Settling
import Crosswalk.Proofs.Text.Lines

namespace Crosswalk

namespace Text

variable {whole : Prop} {s t v w : List Char}

/-- A text without some lines and without the starts of others, if not only whole lines are cut. -/
inductive Cropped (whole : Prop) : List Char → List Char → Prop
  | last {w v : List Char} (hw : '\n' ∉ w) (hv : '\n' ∉ v) (hwhole : whole → w = [] ∨ v = []) :
      Cropped whole (w ++ v) v
  | line {w v s t : List Char} (hw : '\n' ∉ w) (hv : '\n' ∉ v) (hwhole : whole → w = [])
      (h : Cropped whole s t) : Cropped whole (w ++ (v ++ '\n' :: s)) (v ++ '\n' :: t)
  | drop {s t : List Char} (x : List Char) (h : Cropped whole s t) :
      Cropped whole (x ++ '\n' :: s) t

theorem dropReturn_suffix (h : v <:+ w) : dropReturn v <:+ dropReturn w := by
  obtain ⟨u, rfl⟩ := h
  cases v using List.reverseRecOn with
  | nil => exact List.nil_suffix
  | append_singleton v c =>
    rw [← List.append_assoc]
    unfold dropReturn
    by_cases hc : c = '\r' <;> simp [hc]

theorem Cropped.lines (h : Cropped whole s t) :
    (lines t).SublistForall₂ (fun left line => left <:+ line ∧ (whole → left = line))
      (lines s) := by
  induction h with
  | @last w v hw hv hwhole =>
    have hwv : '\n' ∉ w ++ v := by simp [hw, hv]
    rw [lines_line hwv, lines_line hv]
    cases v with
    | nil => exact .nil
    | cons c v =>
      rw [if_neg (by simp), if_neg (by simp)]
      refine .cons ⟨List.suffix_append w (c :: v), fun h => ?_⟩ .nil
      rw [(hwhole h).resolve_right (List.cons_ne_nil c v), List.nil_append]
  | @line w v s t hw hv hwhole _ ih =>
    have hwv : '\n' ∉ w ++ v := by simp [hw, hv]
    rw [← List.append_assoc, lines_closed hwv, lines_closed hv]
    refine .cons ⟨dropReturn_suffix (List.suffix_append w v), fun h => ?_⟩ ih
    rw [hwhole h, List.nil_append]
  | @drop s t x _ ih =>
    obtain ⟨l, hl, hsub⟩ := List.sublistForall₂_iff.1 ih
    rw [lines_append]
    exact List.sublistForall₂_iff.2 ⟨l, hl, hsub.trans (List.sublist_append_right _ _)⟩

end Text

def Match.endsLine (m : Match) : Bool := m.text.getLast? == some '\n' || m.stop.after.isEmpty

namespace Pattern

open Text

variable {p : Pattern} {last : Option Char} {s v w : List Char} {pieces : List Piece} {whole : Prop}

/-- Matches at the starts of lines crop the text when they are removed. Of the line before the rest
of the text, some is removed already, and some is kept. -/
theorem Scans.cropped (h : p.Scans last s pieces) (hopens : p.opensLine = true)
    (hends : whole → ∀ m ∈ pieces.filterMap Piece.match?, m.endsLine = true)
    (hw : '\n' ∉ w) (hv : '\n' ∉ v)
    (hstart : last.all (· == '\n') = true → w = [] ∧ v = [])
    (hwhole : whole → w = [] ∨ v = [] ∧ s = []) :
    Cropped whole (w ++ (v ++ s)) (v ++ patched (fun _ => []) pieces) := by
  induction h generalizing w v with
  | nil last =>
    simp only [patched, List.flatMap_nil, List.append_nil]
    exact .last hw hv fun h => (hwhole h).imp_right And.left
  | @plain last c s pieces hnone hscans ih =>
    have hkept (h : whole) : w = [] := (hwhole h).resolve_right fun h => List.cons_ne_nil c s h.2
    change Cropped whole _ (v ++ c :: patched _ pieces)
    by_cases hc : c = '\n'
    · subst hc
      exact .line hw hv hkept (ih hends List.not_mem_nil List.not_mem_nil (fun _ => ⟨rfl, rfl⟩)
        (fun _ => .inl rfl))
    · have hvc : '\n' ∉ v ++ [c] := by simp [hv, Ne.symm hc]
      rw [List.append_cons v c s, List.append_cons v c (patched _ pieces)]
      refine ih hends hw hvc (fun hline => ?_) fun h => .inl (hkept h)
      exact absurd (eq_of_beq hline) hc
  | @hit last s m pieces hm hne hscans ih =>
    obtain ⟨htext, htakes⟩ := matchAt_matches hm
    have hs : s = m.stop.after := List.append_cancel_left htext
    obtain ⟨rfl, rfl⟩ := hstart (Matches.atLineStart ⟨m.text, m.stop.after, htext, htakes⟩ hopens)
    -- Of the line that the match ends in, it removes a start without a line feed.
    have hrest {x w : List Char} (hxw : m.text = x ++ w) (hw : '\n' ∉ w) :
        Cropped whole (w ++ s) (patched (fun _ => []) pieces) := by
      refine ih (fun h m hm => hends h m (List.mem_cons_of_mem _ hm)) hw List.not_mem_nil
        (fun hline => ?_) fun h => ?_
      · rw [hxw, lastOf_append] at hline
        exact ⟨lastOf_line hw hline, rfl⟩
      · rcases Bool.or_eq_true_iff.1 (hends h m List.mem_cons_self) with hlast | hafter
        · have hline : (lastOf (lastOf last x) w).all (· == '\n') = true := by
            rw [← lastOf_append, ← hxw, lastOf, eq_of_beq hlast]
            rfl
          exact .inl (lastOf_line hw hline)
        · exact .inr ⟨rfl, hs.trans (List.isEmpty_iff.1 hafter)⟩
    change Cropped whole (m.text ++ s) (patched (fun _ => []) pieces)
    by_cases hline : '\n' ∈ m.text
    · obtain ⟨x, w, hxw, hw⟩ := exists_last hline
      rw [hxw, List.append_assoc]
      exact .drop x (hrest (hxw.trans (List.append_cons x _ w)) hw)
    · exact hrest (List.nil_append _).symm hline

end Pattern

theorem Rule.removes_replacement {r : Rule} (h : r.removes = true) :
    r.replacement = fun _ => [] := by
  funext m
  cases haction : r.action with
  | remove => rw [replacement, haction]
  | replace template =>
    rw [removes, haction] at h
    cases h

open Text Pattern in
/-- What a removing rule leaves of a text are lines of the text, each of them to its end and in the
same order, so that no two lines are joined. They are whole lines, unless a match leaves the rest of
its line. -/
theorem removing_lines {d : Direction} {r : Rule} (hr : r ∈ d.removing) (s : List Char) :
    (lines (r.apply s)).SublistForall₂ (· <:+ ·) (lines s) ∧
      ((∀ m ∈ r.pattern.findAll s, m.endsLine = true) →
        (lines (r.apply s)).Sublist (lines s)) := by
  have hpattern : ∀ r ∈ d.removing, r.pattern.takes = true ∧ r.pattern.opensLine = true := by
    cases d <;> decide
  obtain ⟨htakes, hopens⟩ := hpattern r hr
  have happly : r.apply s = patched (fun _ => []) (r.pattern.scan s) := by
    rw [Rule.apply, Rule.removes_replacement (List.mem_filter.1 hr).2, replaceAll_eq, scan]
  have hlines (whole : Prop) (hends : whole → ∀ m ∈ r.pattern.findAll s, m.endsLine = true) :
      (lines (r.apply s)).SublistForall₂ (fun left line => left <:+ line ∧ (whole → left = line))
        (lines s) := by
    rw [happly]
    exact ((scanFrom_scans htakes false none s).cropped (w := []) (v := []) hopens hends
      List.not_mem_nil List.not_mem_nil (fun _ => ⟨rfl, rfl⟩) fun _ => .inl rfl).lines
  constructor
  · obtain ⟨kept, hkept, hsub⟩ := List.sublistForall₂_iff.1 (hlines False False.elim)
    exact List.sublistForall₂_iff.2 ⟨kept, hkept.imp fun _ _ h => h.1, hsub⟩
  · intro hends
    obtain ⟨kept, hkept, hsub⟩ := List.sublistForall₂_iff.1 (hlines True fun _ => hends)
    have heq : lines (r.apply s) = kept := by
      rw [← List.forall₂_eq_eq_eq]
      exact hkept.imp fun _ _ h => h.2 trivial
    rwa [heq]

open Text in
theorem removing_lines_package : ∃ r ∈ Direction.kotlinToSwift.removing, r.name = "package-line" ∧
    (∀ m ∈ r.pattern.findAll "package a.b; \nlet a\n".toList, m.endsLine = true) ∧
    (lines (r.apply "package a.b; \nlet a\n".toList)).Sublist
      (lines "package a.b; \nlet a\n".toList) := by
  have hends : ∀ m ∈ (Direction.kotlinToSwift.removing.head (by decide)).pattern.findAll
      "package a.b; \nlet a\n".toList, m.endsLine = true := by decide
  exact ⟨_, List.mem_cons_self, rfl, hends,
    (removing_lines (d := .kotlinToSwift) List.mem_cons_self _).2 hends⟩

open Text in
/-- The semicolon of an import stays behind as a line. -/
theorem removing_left : ∃ r ∈ Direction.kotlinToSwift.removing, r.name = "android-import" ∧
    ¬(lines (r.apply "import java.util;\nlet a\n".toList)).Sublist
      (lines "import java.util;\nlet a\n".toList) := by
  refine ⟨_, List.mem_cons_of_mem _ List.mem_cons_self, rfl, ?_⟩
  decide

end Crosswalk
