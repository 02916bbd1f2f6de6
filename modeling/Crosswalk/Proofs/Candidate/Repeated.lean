import Crosswalk.Proofs.Candidate.Shape
import Crosswalk.Proofs.Candidate.Tail
import Crosswalk.Proofs.Rules.Trimming

namespace Crosswalk

open Text Pattern Rules

namespace Pattern

variable {p : Pattern} {last : Option Char} {s : List Char}

theorem findFrom_here (hp : p.advances = true) (h : p.Matches last s) :
    ∃ m, p.findFrom last s = some m ∧ m.start.after = s := by
  have hsome : p.matchAt (.behind last s) ≠ none := fun hnone => (matchAt_none hp last s).1 hnone h
  obtain ⟨m, hm⟩ := Option.ne_none_iff_exists'.1 hsome
  refine ⟨m, ?_, by rw [(matchAt_leads hm).1]; rfl⟩
  cases s with
  | nil => exact hm
  | cons c s => exact (Option.orElse_eq_some ..).2 (.inl hm)

end Pattern

theorem Rule.apply_unmatched {r : Rule} {s : List Char} (h : r.pattern.find? s = none) :
    r.apply s = s := by
  have hkept := patched_plain r.replacement s []
  rw [Rule.apply, replaceAll_eq, scanFrom_unmatched false h, ← List.append_nil (s.map _), hkept]
  exact List.append_nil s

theorem Rule.applyAll_unmatched {rules : List Rule} {s : List Char}
    (h : ∀ r ∈ rules, r.pattern.find? s = none) : applyAll rules s = s := by
  induction rules with
  | nil => rfl
  | cons r rules ih =>
    obtain ⟨hr, hrules⟩ := List.forall_mem_cons.1 h
    change applyAll rules (r.apply s) = s
    rw [apply_unmatched hr, ih hrules]

namespace Candidate

variable {d : Direction} {s t : List Char}

theorem codeAnchor_advances (d : Direction) : d.rules.codeAnchor.advances = true := by
  cases d <;> decide

/-- No step of sanitizing finds anything to do in the text. -/
structure Clean (d : Direction) (s : List Char) : Prop where
  unfenced : ¬fence <:+: s
  anchored : d.rules.codeAnchor.Matches none s
  closed : dropEpilogue s = s
  unmatched : ∀ r ∈ d.rules.cleanup, r.pattern.find? s = none
  trimmed : s.head?.any isBlank = false ∧ s.getLast?.any isBlank = false

theorem Clean.ofChars_self (h : Clean d s) : ofChars d.rules s = s := by
  have hfences : dropFences s = s := unfenced_free h.unfenced none
  obtain ⟨m, hm, hafter⟩ := findFrom_here (codeAnchor_advances d) h.anchored
  have hanchor : fromAnchor? d.rules s = some s := Option.map_eq_some_iff.2 ⟨m, hm, hafter⟩
  simp only [ofChars, hfences, hanchor, h.closed, Rule.applyAll_unmatched h.unmatched]
  exact trim_self h.trimmed.1 h.trimmed.2

theorem dropEpilogue_trim (h : dropEpilogue s = s) : dropEpilogue (trim s) = trim s := by
  obtain ⟨b, b', hs, -, hb'⟩ := trim_append s
  rw [dropEpilogue_self] at h ⊢
  rintro x tail htrim htail
  have hfree : '\x7d' ∉ tail ++ b' := by
    rw [List.mem_append, not_or]
    exact ⟨htail, fun hin => absurd (hb' _ hin) (by decide)⟩
  rcases h (b ++ x) (tail ++ b') (by rw [hs, htrim]; simp) hfree with hblank | hcode
  · rw [allBlank, List.all_append, Bool.and_eq_true] at hblank
    exact .inl hblank.1
  · rw [readsAsCode_iff, firstLine_trailing tail hb', ← readsAsCode_iff] at hcode
    exact .inr hcode

/-- What is left of an answer when everything but its code is gone and lines of the source language
are removed. Only words of it are replaced. -/
def left? (d : Direction) (answer : List Char) : Option (List Char) :=
  (fromAnchor? d.rules (dropFences answer)).map fun body =>
    Rule.applyAll d.removing (dropEpilogue body)

theorem ofChars_eq (d : Direction) (answer : List Char) : ofChars d.rules answer
    = (left? d answer).elim [] fun left => trim (Rule.applyAll d.replacing left) := by
  rw [ofChars, left?]
  cases fromAnchor? d.rules (dropFences answer) with
  | none => rfl
  | some body =>
    change trim (Rule.applyAll d.rules.cleanup _) = trim _
    rw [d.cleanup_eq, Rule.applyAll, List.foldl_append]
    rfl

/-- Removing lines has come to an end: but for blanks the text still starts with code, its tail
stays, and there is nothing more to remove. Nor are there three exclamation marks, of which two would
be left. -/
structure Settled (d : Direction) (left : List Char) : Prop where
  anchored : ∃ blanks code, left = blanks ++ code ∧ allBlank blanks = true ∧
    fromAnchor? d.rules left = some code
  closed : dropEpilogue left = left
  unmatched : ∀ r ∈ d.removing, r.pattern.find? left = none
  unmarked : d = .kotlinToSwift → ¬"!!!".toList <:+: left

theorem matches_of_anchor {code : List Char} (h : fromAnchor? d.rules s = some code) :
    ∃ x, s = x ++ code ∧ d.rules.codeAnchor.Matches (lastOf none x) code := by
  obtain ⟨m, hfind, hafter⟩ := Option.map_eq_some_iff.1 h
  obtain ⟨x, y, rfl, hstart, hm⟩ := findFrom_start hfind
  obtain rfl : y = code := by rw [← hafter, hstart]; rfl
  obtain ⟨htext, htakes⟩ := matchAt_matches hm
  exact ⟨x, rfl, _, _, htext, htakes⟩

theorem codeAnchor_atLineStart {last : Option Char} (h : d.rules.codeAnchor.Matches last s) :
    last.all (· == '\n') = true :=
  h.atLineStart (by cases d <;> rfl)

theorem matches_alone {last : Option Char} (h : d.rules.codeAnchor.Matches last s) :
    d.rules.codeAnchor.Matches none s := by
  have hword := not_isWord_of_lineStart (codeAnchor_atLineStart h)
  obtain ⟨z, rest, rfl, hz⟩ := h
  have hsees : d.rules.codeAnchor.sees = true := by cases d <;> decide
  exact ⟨z, rest, rfl, hz.elsewhere hsees ⟨hword, fun _ _ => rfl⟩ rfl⟩

def StartsAt (d : Direction) (blanks s : List Char) : Prop :=
  ∃ code, s = blanks ++ code ∧ d.rules.codeAnchor.Matches (lastOf none blanks) code

theorem StartsAt.edited {blanks : List Char} (hblanks : ∀ c ∈ blanks, isBlank c = true)
    (h : Edited d.edits false s t) (hs : StartsAt d blanks s) : StartsAt d blanks t := by
  obtain ⟨code, rfl, hmatches⟩ := hs
  obtain ⟨code', _, rfl, hedit, hinside⟩ := h.behind_blanks d.edits_sound hblanks
  have hlast := lastOf_blanks hblanks
  rw [hinside rfl, ← hlast] at hedit
  refine ⟨code', rfl, d.codeAnchor_follows hedit.flip (.refl _ _) (fun hword => ?_) hmatches⟩
  rw [hlast] at hword
  cases hword

theorem StartsAt.trim {blanks : List Char} (hblanks : ∀ c ∈ blanks, isBlank c = true)
    (hs : StartsAt d blanks s) : d.rules.codeAnchor.Matches none (trim s) ∧
      ∃ b b', s = blanks ++ (b ++ (Text.trim s ++ b')) ∧ (∀ c ∈ b, isIndent c = true) ∧
        ∀ c ∈ b', isBlank c = true := by
  obtain ⟨code, rfl, hmatches⟩ := hs
  have hfirst := matches_alone hmatches
  obtain ⟨body, hanchor, hsees, hline, hsolid⟩ := d.codeAnchor_solid
  rw [hanchor] at hfirst ⊢
  obtain ⟨hmatches, b, b', heq, hb, hb'⟩ := matches_trim hsees hline hsolid hfirst
  rw [trim_blanks hblanks]
  exact ⟨hmatches, b, b', congrArg (blanks ++ ·) heq, hb, hb'⟩

theorem hazards_unmatched (h : d = .kotlinToSwift → ¬"!!!".toList <:+: s) :
    ∀ p ∈ d.hazards, p.find? s = none := by
  cases d with
  | swiftToKotlin => exact List.forall_mem_nil _
  | kotlinToSwift =>
    refine List.forall_mem_singleton.2 ?_
    rw [find?, findFrom_none (by decide)]
    rintro x y rfl hmatches
    exact h rfl ((matches_text.1 hmatches).isInfix.trans (List.suffix_append x y).isInfix)

theorem Settled.unmatched_replaced {left : List Char} (h : Settled d left) :
    ∀ r ∈ d.rules.cleanup, r.pattern.find? (Rule.applyAll d.replacing left) = none := by
  have hps : ∀ p ∈ d.removing.map (·.pattern), Tracks d.edits p ∧ p.find? left = none := by
    intro p hp
    obtain ⟨r, hr, rfl⟩ := List.mem_map.1 hp
    exact ⟨d.removing_tracks r hr, h.unmatched r hr⟩
  intro r hr
  refine Rule.applyAll_settles d.edits_sound d.edits_shrinks d.replacing_fits d.hazards_track hps
    (hazards_unmatched h.unmarked) r.pattern ?_
  rw [← List.map_append, ← d.cleanup_eq]
  exact List.mem_map_of_mem hr

theorem Settled.clean {left : List Char} (h : Settled d left)
    (hfence : ¬fence <:+: trim (Rule.applyAll d.replacing left)) :
    Clean d (trim (Rule.applyAll d.replacing left)) := by
  have hunmatched := h.unmatched_replaced
  have hclosed : dropEpilogue (Rule.applyAll d.replacing left) = Rule.applyAll d.replacing left :=
    Rule.applyAll_keeps (P := fun s => dropEpilogue s = s) (fun _ _ => dropEpilogue_edited)
      d.replacing_fits h.closed
  obtain ⟨blanks, code, rfl, hblank, hanchor⟩ := h.anchored
  have hblanks : ∀ c ∈ blanks, isBlank c = true := List.all_eq_true.1 hblank
  obtain ⟨x, hx, hmatches⟩ := matches_of_anchor hanchor
  obtain rfl := List.append_cancel_right hx
  have hline := codeAnchor_atLineStart hmatches
  have hreplaced : StartsAt d blanks (Rule.applyAll d.replacing (blanks ++ code)) :=
    Rule.applyAll_keeps (fun _ _ => StartsAt.edited hblanks) d.replacing_fits
      ⟨code, rfl, hmatches⟩
  obtain ⟨hanchored, b, b', heq, hb, hb'⟩ := hreplaced.trim hblanks
  refine ⟨hfence, hanchored, dropEpilogue_trim hclosed, fun r hr => ?_,
    head?_trim _, getLast?_trim _⟩
  obtain ⟨hadvances, hsees⟩ := d.cleanup_sees r hr
  have hnone := hunmatched r hr
  rw [heq] at hnone
  exact unmatched_inside hadvances hsees (d.cleanup_indents r hr) hb hb'
    (unmatched_behind hadvances hsees hline hnone)

/-- Of four exclamation marks two are left, and of these one is left the next time. -/
theorem ofAnswer_unsettled :
    ofAnswer .kotlinToSwift (ofAnswer .kotlinToSwift "class A \x7b\n    let b = c!!!!\n\x7d")
      ≠ ofAnswer .kotlinToSwift "class A \x7b\n    let b = c!!!!\n\x7d" := by
  decide +kernel

/-- A candidate stays as it is when it is taken for an answer, if removing lines had come to an
end. -/
theorem ofAnswer_again (d : Direction) (answer : String)
    (h : ∀ left, left? d answer.toList = some left → Settled d left) :
    ofAnswer d (ofAnswer d answer) = ofAnswer d answer := by
  have hfence := ofChars_unfenced d answer.toList
  have hagain : ofChars d.rules (ofChars d.rules answer.toList)
      = ofChars d.rules answer.toList := by
    rw [ofChars_eq d answer.toList] at hfence ⊢
    cases hleft : left? d answer.toList with
    | none =>
      have hnone := fromAnchor?_blank d (s := []) (List.forall_mem_nil _)
      change ofChars d.rules [] = []
      rw [ofChars, show dropFences [] = [] from rfl, hnone]
    | some left =>
      rw [hleft] at hfence
      exact ((h left hleft).clean hfence).ofChars_self
  rw [ofAnswer, ofAnswer, String.toList_ofList, hagain]

def imported : String :=
  "Sure:\n\x60\x60\x60swift\nimport java.util.Date\n\nclass A \x7b\n    fun b() = c!!\n\x7d\n"
    ++ "\x60\x60\x60\nDone."

theorem ofAnswer_again_imported :
    (∀ left, left? .kotlinToSwift imported.toList = some left → Settled .kotlinToSwift left) ∧
      ofAnswer .kotlinToSwift (ofAnswer .kotlinToSwift imported)
        = ofAnswer .kotlinToSwift imported := by
  have hsettled : ∀ left, left? .kotlinToSwift imported.toList = some left →
      Settled .kotlinToSwift left := by
    have hleft : left? .kotlinToSwift imported.toList
        = some "\nclass A \x7b\n    fun b() = c!!\n\x7d".toList := by decide +kernel
    intro left h
    rw [hleft, Option.some_inj] at h
    subst h
    exact {
      anchored := ⟨['\n'], "class A \x7b\n    fun b() = c!!\n\x7d".toList, by decide +kernel,
        by decide +kernel, by decide +kernel⟩
      closed := by decide +kernel
      unmatched := by decide +kernel
      unmarked := by decide +kernel }
  exact ⟨hsettled, ofAnswer_again .kotlinToSwift imported hsettled⟩

end Candidate

end Crosswalk
