import Crosswalk.Checker.Basic
import Crosswalk.Proofs.Rules.Complaint
import Crosswalk.Proofs.Text.Search

namespace Crosswalk

open Text

namespace Tolerance

variable {s t : List Char} {d : String}

theorem isErrorLine_apart {c : Char} (hc : asciiLower c ∉ "error".toList) :
    isErrorLine (s ++ c :: t) = (isErrorLine s || isErrorLine t) := by
  rw [isErrorLine, List.map_append, List.map_cons, contains_apart hc]
  rfl

theorem asciiLower_blank {c : Char} (hc : isBlank c = true) : asciiLower c ∉ "error".toList := by
  intro hmem
  have hnone : "error".toList.all (!isBlank ·) = true := by decide
  have hlower := List.all_eq_true.1 hnone _ hmem
  rw [asciiLower, isBlank_toLower, hc] at hlower
  cases hlower

theorem isErrorLine_behind {b : List Char} (hb : ∀ c ∈ b, isBlank c = true) (s : List Char) :
    isErrorLine (b ++ s) = isErrorLine s := by
  induction b with
  | nil => rfl
  | cons c b ih =>
    obtain ⟨hc, hb⟩ := List.forall_mem_cons.1 hb
    have hapart := isErrorLine_apart (s := []) (t := b ++ s) (asciiLower_blank hc)
    rw [ih hb] at hapart
    exact hapart

theorem isErrorLine_blanks {b : List Char} (hb : ∀ c ∈ b, isBlank c = true) :
    isErrorLine b = false := by
  have hbehind := isErrorLine_behind hb []
  rwa [List.append_nil] at hbehind

theorem isErrorLine_before {b : List Char} (hb : ∀ c ∈ b, isBlank c = true) (s : List Char) :
    isErrorLine (s ++ b) = isErrorLine s := by
  cases b with
  | nil => rw [List.append_nil]
  | cons c b =>
    obtain ⟨hc, hb⟩ := List.forall_mem_cons.1 hb
    rw [isErrorLine_apart (asciiLower_blank hc), isErrorLine_blanks hb, Bool.or_false]

theorem isErrorLine_trim (line : List Char) : isErrorLine (trim line) = isErrorLine line := by
  obtain ⟨b, b', hline, hb, hb'⟩ := trim_append line
  conv_rhs => rw [hline, isErrorLine_behind hb, isErrorLine_before hb']

/-- The line is no error, or just one about a missing module. -/
def Excused (line : List Char) : Prop :=
  isErrorLine line = true → Rules.moduleNotFound.occursIn line = true

theorem excused_trim (line : List Char) : Excused (trim line) ↔ Excused line := by
  rw [Excused, Excused, isErrorLine_trim, Rules.moduleNotFound_trim]

def SpeaksOfError (d : String) : Prop := ∃ line ∈ lines d.toList, isErrorLine line = true

instance (d : String) : Decidable (SpeaksOfError d) :=
  inferInstanceAs (Decidable (∃ line ∈ lines d.toList, _))

theorem forall_lines {P : List Char → Prop} (htrim : ∀ line, P (trim line) ↔ P line) (hnil : P [])
    (s : List Char) : (∀ line ∈ lines s, P line) ↔ ∀ piece ∈ splitAtChar '\n' s, P piece := by
  have hsaid (l : List (List Char)) :
      (∀ line ∈ l, P line) ↔ ∀ line ∈ (l.map trim).filter (!·.isEmpty), P line := by
    simp only [List.mem_filter, List.mem_map, and_imp, forall_exists_index,
      forall_apply_eq_imp_iff₂, htrim]
    refine forall₂_congr fun line _ => ⟨fun h _ => h, fun h => ?_⟩
    by_cases hempty : trim line = []
    · rwa [← htrim, hempty]
    · exact h (by simpa using hempty)
  rw [hsaid, filter_lines_pieces, ← hsaid]

theorem speaksOfError_iff : SpeaksOfError d ↔
    ∃ piece ∈ splitAtChar '\n' d.toList, isErrorLine piece = true := by
  have hnone := forall_lines (P := (isErrorLine · = false))
    (fun line => by rw [isErrorLine_trim]) rfl d.toList
  rw [SpeaksOfError, ← not_iff_not]
  simpa using hnone

theorem relevantLines_eq (h : SpeaksOfError d) :
    relevantLines d.toList = ((lines d.toList).filter isErrorLine).map trim := by
  have herrors : (saidLines d.toList).filter isErrorLine
      = ((lines d.toList).filter isErrorLine).map trim := by
    rw [saidLines, List.filter_filter, List.filter_map]
    refine congrArg (List.map trim) (List.filter_congr fun line _ => ?_)
    rw [Function.comp_apply, isErrorLine_trim]
    cases hline : isErrorLine line with
    | false => rfl
    | true =>
      cases htrim : trim line with
      | nil =>
        rw [← isErrorLine_trim, htrim] at hline
        cases hline
      | cons c s => rfl
  obtain ⟨line, hline, herror⟩ := h
  have hmem : trim line ∈ ((lines d.toList).filter isErrorLine).map trim :=
    List.mem_map_of_mem (List.mem_filter.2 ⟨hline, herror⟩)
  rw [relevantLines, herrors]
  exact if_neg (by simpa using List.ne_nil_of_mem hmem)

/-- A diagnostic with errors is judged by them alone, and by each of them. -/
theorem moduleOnly_iff (h : SpeaksOfError d) :
    moduleOnly d = true ↔ ∀ line ∈ lines d.toList, Excused line := by
  have hsome : relevantLines d.toList ≠ [] := by
    obtain ⟨line, hline, herror⟩ := h
    rw [relevantLines_eq ⟨line, hline, herror⟩]
    exact List.ne_nil_of_mem (List.mem_map_of_mem (List.mem_filter.2 ⟨hline, herror⟩))
  rw [moduleOnly, Bool.and_eq_true, and_iff_right (by simpa using hsome), relevantLines_eq h,
    List.all_map]
  simp only [List.all_eq_true, List.mem_filter, and_imp, Function.comp_apply,
    Rules.moduleNotFound_trim, Excused]

theorem moduleOnly_pieces (h : SpeaksOfError d) :
    moduleOnly d = true ↔ ∀ piece ∈ splitAtChar '\n' d.toList, Excused piece := by
  rw [moduleOnly_iff h, forall_lines excused_trim fun hnil => by cases hnil]

theorem splitAtChar_joined (a b : String) : splitAtChar '\n' (a ++ "\n" ++ b).toList
    = splitAtChar '\n' a.toList ++ splitAtChar '\n' b.toList := by
  rw [← splitAtChar_append]
  simp

theorem moduleOnly_joined {a b : String} (ha : SpeaksOfError a) (hb : SpeaksOfError b) :
    moduleOnly (a ++ "\n" ++ b) = true ↔ moduleOnly a = true ∧ moduleOnly b = true := by
  have hjoined : SpeaksOfError (a ++ "\n" ++ b) := by
    obtain ⟨piece, hpiece, herror⟩ := speaksOfError_iff.1 ha
    rw [speaksOfError_iff, splitAtChar_joined]
    exact ⟨piece, List.mem_append_left _ hpiece, herror⟩
  rw [moduleOnly_pieces hjoined, moduleOnly_pieces ha, moduleOnly_pieces hb, splitAtChar_joined,
    List.forall_mem_append]

/-- A line as it is written: its indent, what it says, and whether a carriage return ends it. -/
structure WrittenLine where
  indent : List Char
  text : List Char
  returns : Bool
  blank : ∀ c ∈ indent, isBlank c = true
  single : '\n' ∉ indent ++ text

namespace WrittenLine

def chars (l : WrittenLine) : List Char :=
  l.indent ++ (l.text ++ if l.returns then ['\r'] else [])

theorem trim_chars (l : WrittenLine) : trim l.chars = trim l.text := by
  rw [chars, trim_blanks l.blank]
  cases l.returns with
  | false => rw [if_neg Bool.false_ne_true, List.append_nil]
  | true => exact trim_append_blank l.text (by decide)

theorem excused_chars (l : WrittenLine) : Excused l.chars ↔ Excused l.text := by
  rw [← excused_trim, trim_chars, excused_trim]

theorem isErrorLine_chars (l : WrittenLine) : isErrorLine l.chars = isErrorLine l.text := by
  rw [← isErrorLine_trim, trim_chars, isErrorLine_trim]

theorem newline_chars (l : WrittenLine) : '\n' ∉ l.chars := by
  have hsingle := l.single
  rw [chars, ← List.append_assoc, List.mem_append, not_or]
  refine ⟨hsingle, ?_⟩
  cases l.returns <;> simp

end WrittenLine

def written (ls : List WrittenLine) : String :=
  String.ofList (['\n'].intercalate (ls.map WrittenLine.chars))

/-- The second lines are the first ones and more that speak of no error, in any order, indented and
ended in any way. -/
def Restyled (ls ls' : List WrittenLine) : Prop :=
  ∃ added : List (List Char), (∀ text ∈ added, isErrorLine text = false) ∧
    (ls'.map (·.text)).Perm (ls.map (·.text) ++ added)

theorem exists_written (d : String) : ∃ ls, written ls = d := by
  let line (piece : { p // p ∈ splitAtChar '\n' d.toList }) : WrittenLine :=
    ⟨[], piece.1, false, List.forall_mem_nil _, not_mem_of_mem_splitAtChar piece.2⟩
  refine ⟨(splitAtChar '\n' d.toList).attach.map line, ?_⟩
  have hchars : WrittenLine.chars ∘ line = Subtype.val :=
    funext fun piece => List.append_nil piece.1
  rw [written, List.map_map, hchars, List.attach_map_subtype_val, intercalate_splitAtChar,
    String.ofList_toList]

theorem pieces_written {ls : List WrittenLine} (hne : ls ≠ []) :
    splitAtChar '\n' (written ls).toList = ls.map WrittenLine.chars := by
  rw [written, String.toList_ofList, splitAtChar_intercalate (by simpa using hne)]
  intro piece hpiece
  obtain ⟨l, -, rfl⟩ := List.mem_map.1 hpiece
  exact l.newline_chars

theorem speaksOfError_written {ls : List WrittenLine} :
    SpeaksOfError (written ls) ↔ ∃ text ∈ ls.map (·.text), isErrorLine text = true := by
  cases ls with
  | nil => exact iff_of_false (by rintro ⟨_, ⟨⟩, -⟩) (by simp)
  | cons l ls =>
    rw [speaksOfError_iff, pieces_written (List.cons_ne_nil l ls)]
    simp only [List.mem_map, exists_exists_and_eq_and, WrittenLine.isErrorLine_chars]

theorem moduleOnly_written {ls : List WrittenLine} (h : SpeaksOfError (written ls)) :
    moduleOnly (written ls) = true ↔ ∀ text ∈ ls.map (·.text), Excused text := by
  have hne : ls ≠ [] := by
    rintro rfl
    obtain ⟨_, ⟨⟩, -⟩ := h
  rw [moduleOnly_pieces h, pieces_written hne]
  simp only [List.forall_mem_map, WrittenLine.excused_chars]

/-- However the lines are arranged, and whatever stands between them, the judgement is the same. -/
theorem moduleOnly_restyled {ls ls' : List WrittenLine} (h : SpeaksOfError (written ls))
    (hstyle : Restyled ls ls') : moduleOnly (written ls') = moduleOnly (written ls) := by
  obtain ⟨added, hadded, hperm⟩ := hstyle
  have h' : SpeaksOfError (written ls') := by
    obtain ⟨text, htext, herror⟩ := speaksOfError_written.1 h
    exact speaksOfError_written.2 ⟨text, hperm.mem_iff.2 (List.mem_append_left _ htext), herror⟩
  have hquiet : ∀ text ∈ added, Excused text := by
    intro text htext herror
    rw [hadded text htext] at herror
    cases herror
  have hall : (∀ text ∈ ls'.map (·.text), Excused text) ↔
      ∀ text ∈ ls.map (·.text) ++ added, Excused text :=
    forall_congr' fun _ => imp_congr_left hperm.mem_iff
  rw [Bool.eq_iff_iff, moduleOnly_written h, moduleOnly_written h', hall, List.forall_mem_append,
    and_iff_left hquiet]

theorem tolerated_failed_eq (d : String) :
    (Verdict.failed d).tolerated = if moduleOnly d = true then .passed else .failed d := by
  cases h : moduleOnly d <;> simp [Verdict.tolerated, Verdict.failed, h]

/-- What is forgiven, and what does not count for it. -/
structure Linewise : Prop where
  joined : ∀ a b : String, SpeaksOfError a → SpeaksOfError b →
    (moduleOnly (a ++ "\n" ++ b) = true ↔ moduleOnly a = true ∧ moduleOnly b = true)
  written : ∀ d : String, ∃ ls, written ls = d
  restyled : ∀ ls ls' : List WrittenLine, SpeaksOfError (Tolerance.written ls) → Restyled ls ls' →
    moduleOnly (Tolerance.written ls') = moduleOnly (Tolerance.written ls)
  forgiven : ∀ d : String, SpeaksOfError d → (∀ line ∈ lines d.toList, Excused line) →
    (Verdict.failed d).tolerated = .passed
  /-- One error of another kind, wherever it stands, and the failure is not forgiven. -/
  upheld : ∀ (d : String), ∀ line ∈ lines d.toList, ¬Excused line →
    (Verdict.failed d).tolerated = .failed d
  passed : ∀ v : Verdict, v.success = true → v.tolerated = v

theorem tolerated_linewise : Linewise where
  joined _ _ := moduleOnly_joined
  written := exists_written
  restyled _ _ := moduleOnly_restyled
  forgiven d h hexcused := by
    rw [tolerated_failed_eq, if_pos ((moduleOnly_iff h).2 hexcused)]
  upheld d line hline hother := by
    have herror : isErrorLine line = true := (Classical.not_imp.1 hother).1
    rw [tolerated_failed_eq, if_neg]
    exact fun hmodule => hother ((moduleOnly_iff ⟨line, hline, herror⟩).1 hmodule line hline)
  passed v hv := by
    rw [Verdict.tolerated, hv]
    cases v.diagnostic <;> rfl

theorem twoModules_joined :
    moduleOnly ("error: no such module 'A'" ++ "\n" ++ "note: b\r\n\tERROR: Unresolved import c")
      = true := by
  refine (tolerated_linewise.joined _ _ ?_ ?_).2 ⟨?_, ?_⟩ <;> decide +kernel

end Tolerance

end Crosswalk
