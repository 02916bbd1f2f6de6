import Crosswalk.Proofs.Checker.Tolerance

namespace Crosswalk

open Text

namespace Pattern

theorem occursIn_of_takes {p : Pattern} (hp : p.advances = true) {x z rest : List Char}
    (h : p.Takes (lastOf none x) z rest) : p.occursIn (x ++ (z ++ rest)) = true := by
  rw [occursIn, find?, Option.isSome_iff_ne_none, Ne, findFrom_none hp]
  exact fun hnone => hnone x (z ++ rest) rfl ⟨z, rest, rfl, h⟩

end Pattern

namespace Rules

open Pattern

theorem moduleNotFound_missing (before rest : List Char) :
    moduleNotFound.occursIn (before ++ ("no such module".toList ++ rest)) = true := by
  refine occursIn_of_takes (by decide) (takes_anyOf.2 ⟨_, List.mem_cons_self, ?_⟩)
  rw [takes_caselessText, List.forall₂_same]
  exact fun letter _ => by simp [foldsTo]

theorem caselessText_takesOutside {w : String} (hw : w.toList.any isBlank = true) :
    (caselessText w).TakesOutside (!isBlank ·) := by
  obtain ⟨letter, hletter, hblank⟩ := List.any_eq_true.1 hw
  refine sequence_takesOutside (List.mem_map_of_mem hletter) fun c hc => ?_
  refine Bool.eq_false_iff.2 fun hfolds => ?_
  rw [isBlank_folded hfolds, hblank] at hc
  cases hc

theorem moduleNotFound_takesOutside : moduleNotFound.TakesOutside (!isBlank ·) := by
  unfold moduleNotFound
  refine anyOf_takesOutside ?_
  simp only [List.forall_mem_cons]
  refine ⟨?_, sequence_takesOutside List.mem_cons_self ?_, ?_, ?_, ?_,
    sequence_takesOutside List.mem_cons_self ?_, List.forall_mem_nil _⟩
  all_goals
    refine caselessText_takesOutside ?_
    decide +kernel

theorem moduleNotFound_import {name : List Char} (h : ∀ c ∈ name, isBlank c = false) :
    moduleNotFound.occursIn ("import ".toList ++ name) = false := by
  -- No complaint starts in the word before the name, whatever the name is.
  have hbehind : moduleNotFound.find? ("import ".toList ++ name)
      = moduleNotFound.findFrom (some ' ') name := rfl
  rw [occursIn, hbehind, Option.isSome_eq_false_iff, Option.isNone_iff_eq_none]
  refine Option.eq_none_iff_forall_ne_some.2 fun m hm => ?_
  obtain ⟨hsuffix, hleads⟩ := findFrom_leads hm
  obtain ⟨c, hc, hblank⟩ := hleads.outside moduleNotFound_takesOutside
  rw [h c (hsuffix.subset hc)] at hblank
  cases hblank

end Rules

namespace Tolerance

/-- What is said of one module. -/
def missingModule (name : String) : List String :=
  ["Candidate.swift:1:8: error: no such module '" ++ name ++ "'", "import " ++ name, "       ^"]

def missingModules (names : List String) : String :=
  "\n".intercalate (names.flatMap missingModule)

theorem isErrorLine_import (name : List Char) :
    isErrorLine ("import ".toList ++ name) = isErrorLine name :=
  isErrorLine_apart (s := "import".toList) (c := ' ') (by decide)

variable {name : String} {names : List String}

theorem newline_missingModule (h : ∀ c ∈ name.toList, isBlank c = false) :
    ∀ line ∈ missingModule name, '\n' ∉ line.toList := by
  have hname : '\n' ∉ name.toList := fun hmem => absurd (h _ hmem) (by decide)
  simp [missingModule, hname]

theorem complaint_missingModule (name : String) :
    ("Candidate.swift:1:8: error: no such module '" ++ name ++ "'").toList
      = "Candidate.swift:1:8: error:".toList ++ ' ' ::
        ("no such module".toList ++ (" '".toList ++ (name.toList ++ "'".toList))) := by
  have hliteral : "Candidate.swift:1:8: error: no such module '".toList
      = "Candidate.swift:1:8: error:".toList ++ ' ' :: ("no such module".toList ++ " '".toList) :=
    rfl
  rw [String.toList_append, String.toList_append, hliteral]
  simp only [List.append_assoc, List.cons_append]

theorem isErrorLine_missingModule (name : String) :
    isErrorLine ("Candidate.swift:1:8: error: no such module '" ++ name ++ "'").toList = true := by
  have hword : isErrorLine "Candidate.swift:1:8: error:".toList = true := by decide +kernel
  rw [complaint_missingModule, isErrorLine_apart (by decide), hword, Bool.true_or]

theorem excused_missingModule (h : ∀ c ∈ name.toList, isBlank c = false) :
    (∀ line ∈ missingModule name, Excused line.toList) ↔ isErrorLine name.toList = false := by
  have herror : Excused
      ("Candidate.swift:1:8: error: no such module '" ++ name ++ "'").toList := by
    rw [complaint_missingModule, ← List.singleton_append, ← List.append_assoc]
    exact fun _ => Rules.moduleNotFound_missing _ _
  have himport : Excused ("import " ++ name).toList ↔ isErrorLine name.toList = false := by
    rw [String.toList_append, Excused, isErrorLine_import, Rules.moduleNotFound_import h]
    simp only [Bool.false_eq_true, imp_false, Bool.not_eq_true]
  have hmark : isErrorLine "       ^".toList = false := by decide +kernel
  have hexcused : Excused "       ^".toList := fun herror => by
    rw [hmark] at herror
    cases herror
  simp only [missingModule, List.forall_mem_cons, herror, himport, hexcused, true_and]
  exact and_iff_left (List.forall_mem_nil _)

section Names

variable (hnames : ∀ name ∈ names, ∀ c ∈ name.toList, isBlank c = false) (hne : names ≠ [])
include hnames hne

theorem pieces_missingModules : splitAtChar '\n' (missingModules names).toList
    = (names.flatMap missingModule).map String.toList := by
  rw [missingModules, String.toList_intercalate]
  refine splitAtChar_intercalate ?_ ?_
  · obtain ⟨name, names, rfl⟩ := List.exists_cons_of_ne_nil hne
    simp [missingModule]
  · simp only [List.forall_mem_map, List.forall_mem_flatMap]
    exact fun name hname => newline_missingModule (hnames name hname)

theorem speaksOfError_missingModules : SpeaksOfError (missingModules names) := by
  obtain ⟨name, hname⟩ := List.exists_mem_of_ne_nil names hne
  have hmem : "Candidate.swift:1:8: error: no such module '" ++ name ++ "'"
      ∈ names.flatMap missingModule := List.mem_flatMap.2 ⟨name, hname, List.mem_cons_self⟩
  rw [speaksOfError_iff, pieces_missingModules hnames hne]
  exact ⟨_, List.mem_map_of_mem hmem, isErrorLine_missingModule name⟩

theorem moduleOnly_missingModules : moduleOnly (missingModules names) = true ↔
    ∀ name ∈ names, isErrorLine name.toList = false := by
  rw [moduleOnly_pieces (speaksOfError_missingModules hnames hne),
    pieces_missingModules hnames hne, List.forall_mem_map, List.forall_mem_flatMap]
  exact forall₂_congr fun name hname => excused_missingModule (hnames name hname)

/-- Missing modules are forgiven just if none of them has "error" in its name. -/
theorem missingModules_tolerated :
    (Verdict.failed (missingModules names)).tolerated = .passed ↔
      ∀ name ∈ names, isErrorLine name.toList = false := by
  rw [← moduleOnly_missingModules hnames hne, tolerated_failed_eq]
  split <;> simp [Verdict.passed, Verdict.failed, *]

end Names

theorem missingModules_tolerated_twice :
    (∀ name ∈ ["Alamofire", "Kingfisher"], ∀ c ∈ name.toList, isBlank c = false) ∧
      (Verdict.failed (missingModules ["Alamofire", "Kingfisher"])).tolerated = .passed := by
  have hnames : ∀ name ∈ ["Alamofire", "Kingfisher"], ∀ c ∈ name.toList, isBlank c = false := by
    simp [isBlank, blankRanges]
  exact ⟨hnames, (missingModules_tolerated hnames (List.cons_ne_nil _ _)).2 (by decide)⟩

theorem missingModules_upheld :
    moduleOnly (missingModules ["ErrorKit"]) = false ∧
      (Verdict.failed (missingModules ["ErrorKit"])).tolerated ≠ .passed := by
  decide +kernel

end Tolerance

end Crosswalk
