import Crosswalk.Proofs.Renaming

namespace Crosswalk

open Text

namespace RuleSet

variable {rules : RuleSet} {w : String}

def foreignNames (rules : RuleSet) : List String := rules.primitives.map (·.foreign)

theorem spelled_other (h : w ∉ rules.foreignNames) : rules.spelled w = w := by
  refine Spelling.foldl_native fun sp hsp heq => h ?_
  rw [heq]
  exact List.mem_map_of_mem hsp

theorem SpellsApart.spellPrimitives_eq (h : rules.SpellsApart) (s : List Char) :
    rules.spellPrimitives s = mapWords rules.spelled s := Spelling.applyAll_eq h.words s

end RuleSet

namespace Direction

def opposite : Direction → Direction
  | .kotlinToSwift => .swiftToKotlin
  | .swiftToKotlin => .kotlinToSwift

/-- Words that do not survive a direction and the way back. -/
def oneWay : Direction → List String
  | .kotlinToSwift => ["Bool", "Void", "Int64", "Int32", "Int16", "Int8", "Character"]
  | .swiftToKotlin => ["Boolean", "Unit", "Long", "Short", "Byte", "Char", "Int32"]

def returned (d : Direction) (w : String) : String := d.opposite.rules.spelled (d.rules.spelled w)

theorem returned_eq_self (d : Direction) (w : String) : d.returned w = w ↔ w ∉ d.oneWay := by
  -- Both ways leave every word alone that neither of them looks for.
  have hnames : ∀ v ∈ d.rules.foreignNames ++ d.opposite.rules.foreignNames,
      d.returned v = v ↔ v ∉ d.oneWay := by
    cases d <;> decide
  have hlooked : d.oneWay ⊆ d.rules.foreignNames ++ d.opposite.rules.foreignNames := by
    cases d <;> decide
  by_cases hw : w ∈ d.rules.foreignNames ++ d.opposite.rules.foreignNames
  · exact hnames w hw
  · have hother := hw
    rw [List.mem_append, not_or] at hother
    have hkept : d.returned w = w := by
      rw [returned, RuleSet.spelled_other hother.1, RuleSet.spelled_other hother.2]
    exact iff_of_true hkept fun hmem => hw (hlooked hmem)

theorem returned_keeps (d : Direction) : KeepsWords d.returned :=
  d.opposite.rules_spellsApart.spelled_keeps.comp d.rules_spellsApart.spelled_keeps

/-- A text comes back as it was just if none of its words is lost on the way. -/
theorem spellPrimitives_opposite (d : Direction) (s : List Char) :
    d.opposite.rules.spellPrimitives (d.rules.spellPrimitives s) = s ↔
      ∀ w ∈ words s, w ∉ d.oneWay := by
  have hways : d.opposite.rules.spellPrimitives (d.rules.spellPrimitives s)
      = mapWords d.returned s := by
    rw [d.rules_spellsApart.spellPrimitives_eq, d.opposite.rules_spellsApart.spellPrimitives_eq,
      mapWords_mapWords _ d.rules_spellsApart.spelled_keeps]
    rfl
  rw [hways, mapWords_eq_self d.returned_keeps]
  exact forall₂_congr fun w _ => d.returned_eq_self w

example : Direction.swiftToKotlin.opposite.rules.spellPrimitives
    (Direction.swiftToKotlin.rules.spellPrimitives "Int8 + Int32".toList)
      = "Int8 + Int".toList := by decide +kernel

end Direction

end Crosswalk
