import Crosswalk.Proofs.Pattern.Avoiding
import Crosswalk.Proofs.Wordwise

namespace Crosswalk

open Text

def quoted (s : String) : String := "\"" ++ s ++ "\""

theorem toList_quoted (before s after : String) : (before ++ quoted s ++ after).toList
    = before.toList ++ '"' :: (s.toList ++ '"' :: after.toList) := by
  simp [quoted]

/-- A rule that takes some text at each match, and never a quotation mark. -/
structure Rule.Unquoting (r : Rule) : Prop where
  advances : r.pattern.advances = true
  takes : r.pattern.takes = true
  avoids : r.pattern.avoids '"' = true

theorem Direction.cleanup_unquoting (d : Direction) : ∀ r ∈ d.rules.cleanup, r.Unquoting := by
  have hall : ∀ r ∈ d.rules.cleanup, (r.pattern.advances && r.pattern.takes
      && r.pattern.avoids '"') = true := by
    cases d <;> decide
  intro r hr
  have hr := hall r hr
  simp only [Bool.and_eq_true] at hr
  exact ⟨hr.1.1, hr.1.2, hr.2⟩

namespace Rule

theorem Unquoting.apply_quoted {r : Rule} (h : r.Unquoting) {s : List Char}
    (hs : r.pattern.occursIn ('"' :: (s ++ ['"'])) = false) (before after : List Char) :
    ∃ before' after', r.apply (before ++ '"' :: (s ++ '"' :: after))
      = before' ++ '"' :: (s ++ '"' :: after') := by
  have hnone : r.pattern.findFrom none ('"' :: (s ++ ['"'])) = none := by
    simpa [Pattern.occursIn, Pattern.find?] using hs
  have hinside := ((Option.orElse_eq_none ..).1 hnone).2
  exact Pattern.replaceAll_untouched h.advances h.takes h.avoids r.replacement hinside before after

theorem applyAll_quoted {rules : List Rule} {s : List Char} (hrules : ∀ r ∈ rules, r.Unquoting)
    (hs : ∀ r ∈ rules, r.pattern.occursIn ('"' :: (s ++ ['"'])) = false)
    (before after : List Char) :
    ∃ before' after', applyAll rules (before ++ '"' :: (s ++ '"' :: after))
      = before' ++ '"' :: (s ++ '"' :: after') := by
  induction rules generalizing before after with
  | nil => exact ⟨before, after, rfl⟩
  | cons r rules ih =>
    obtain ⟨before', after', happly⟩ := (hrules r List.mem_cons_self).apply_quoted
      (hs r List.mem_cons_self) before after
    obtain ⟨before'', after'', hrest⟩ := ih (fun r hr => hrules r (List.mem_cons_of_mem _ hr))
      (fun r hr => hs r (List.mem_cons_of_mem _ hr)) before' after'
    refine ⟨before'', after'', ?_⟩
    rw [← hrest, ← happly]
    rfl

end Rule

namespace Unified

variable {m : Manifest}

theorem content_quoted (hm : m.NamesTypes) (d : Direction) (before s after : String) :
    content d m (before ++ quoted s ++ after)
      = content d m before ++ quoted (content d m s) ++ content d m after := by
  have hmark : isWord '"' = false := by decide
  rw [content_eq hm, toList_quoted, mapWords_apart hmark, mapWords_apart hmark]
  simp [content_eq hm, quoted, String.append_assoc]

theorem content_same (hm : m.NamesTypes) (d : Direction) {s : String}
    (h : ∀ w ∈ words s.toList, renamed? d.rules m w = none ∧
      Spelling.native? d.rules.primitives w = none) : content d m s = s := by
  rw [content_eq hm, mapWords_self, String.ofList_toList]
  intro w hw
  rw [standIn, (h w hw).1, (h w hw).2]
  rfl

end Unified

/-- Clean-up keeps a literal in which no rule matches, and agreement on names keeps one that has no
name to be replaced, wherever in the code it stands. -/
theorem Direction.keeps_quoted (d : Direction) (notes : List Note) (before s after : String) :
    ((∀ r ∈ d.rules.cleanup, r.pattern.occursIn (quoted s).toList = false) →
      (quoted s).toList <:+: Rule.applyAll d.rules.cleanup (before ++ quoted s ++ after).toList) ∧
    ((∀ w ∈ words s.toList, Unified.renamed? d.rules (Manifest.ofNotes notes) w = none ∧
        Spelling.native? d.rules.primitives w = none) →
      Unified.content d (Manifest.ofNotes notes) (before ++ quoted s ++ after)
        = Unified.content d (Manifest.ofNotes notes) before ++ quoted s
          ++ Unified.content d (Manifest.ofNotes notes) after) := by
  have hm := (Manifest.ofNotes_wellNamed notes).namesTypes
  have hquoted : (quoted s).toList = '"' :: (s.toList ++ ['"']) := by simp [quoted]
  constructor
  · intro hrules
    rw [hquoted] at hrules ⊢
    obtain ⟨before', after', happly⟩ := Rule.applyAll_quoted d.cleanup_unquoting hrules
      before.toList after.toList
    refine ⟨before', after', ?_⟩
    rw [toList_quoted, happly]
    simp
  · intro hwords
    rw [Unified.content_quoted hm, Unified.content_same hm d hwords]

def userNote : Note := ⟨"class User", "struct UserModel", "a.swift"⟩

/-- The literal says what the rule for calls and the rule for missing values replace, but not where
they replace it, and names that are longer than those of basic types. -/
theorem keeps_lookalikes :
    (quoted "null, Unity: myprintln(x)").toList <:+: Rule.applyAll Rules.swiftCleanup
      ("println(" ++ quoted "null, Unity: myprintln(x)" ++ ", null)").toList ∧
    Unified.content .kotlinToSwift (Manifest.ofNotes [userNote])
        ("val u: User = User(" ++ quoted "null, Unity: myprintln(x)" ++ ")")
      = Unified.content .kotlinToSwift (Manifest.ofNotes [userNote]) "val u: User = User("
        ++ quoted "null, Unity: myprintln(x)"
        ++ Unified.content .kotlinToSwift (Manifest.ofNotes [userNote]) ")" :=
  ⟨(Direction.keeps_quoted .kotlinToSwift [] "println(" "null, Unity: myprintln(x)" ", null)").1
      (by decide +kernel),
    (Direction.keeps_quoted .kotlinToSwift [userNote] "val u: User = User("
      "null, Unity: myprintln(x)" ")").2 (by decide +kernel)⟩

/-- The rules do not look for quotation marks: they replace what they find between them as well. -/
theorem quoted_rewritten :
    ¬(quoted "Done!!").toList <:+: Rule.applyAll Rules.swiftCleanup
      ("print(" ++ quoted "Done!!" ++ ")").toList ∧
    ¬(quoted "Unit 7").toList <:+: (Unified.content .kotlinToSwift (Manifest.ofNotes [])
      ("print(" ++ quoted "Unit 7" ++ ")")).toList := by
  decide +kernel

end Crosswalk
