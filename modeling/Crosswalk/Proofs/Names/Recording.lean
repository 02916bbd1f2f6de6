import Crosswalk.Manifest
import Crosswalk.Proofs.Names.Table

namespace Crosswalk.Manifest

theorem ext_get? {m n : Manifest} (hsymbols : ∀ k, m.symbols.get? k = n.symbols.get? k)
    (hdefinitions : ∀ k, m.definitions.get? k = n.definitions.get? k)
    (hexports : ∀ k, m.exports.get? k = n.exports.get? k) : m = n := by
  obtain ⟨s, d, e⟩ := m
  obtain ⟨s', d', e'⟩ := n
  obtain rfl : s = s' := Table.ext_get? hsymbols
  obtain rfl : d = d' := Table.ext_get? hdefinitions
  obtain rfl : e = e' := Table.ext_get? hexports
  rfl

theorem record_symbols (m : Manifest) (source candidate path k : String) :
    (m.record source candidate path).1.symbols.get? k = (m.symbols.get? k).or
      (if Rules.declaredType? source = some k then Rules.declaredType? candidate else none) := by
  unfold record
  cases Rules.declaredType? candidate with
  | none => simp
  | some target =>
    cases Rules.declaredType? source with
    | none => simp
    | some name =>
      simp only [Option.some.injEq]
      cases hold : m.symbols.get? name with
      | some existing =>
        by_cases hk : name = k
        · subst hk
          simp [hold]
        · simp [hk]
      | none =>
        simp only [Table.get?_put]
        by_cases hk : name = k
        · subst hk
          simp [hold]
        · simp [hk]

theorem record_none (m : Manifest) (source path : String) {candidate : String}
    (h : Rules.declaredType? candidate = none) : (m.record source candidate path).1 = m := by
  simp only [record, h]

theorem record_some (m : Manifest) (source path : String) {candidate target : String}
    (h : Rules.declaredType? candidate = some target) :
    (m.record source candidate path).1.definitions = m.definitions.insert target ∧
      (m.record source candidate path).1.exports = m.exports.insertNew target path := by
  simp only [record, h]
  cases Rules.declaredType? source with
  | none => exact ⟨rfl, rfl⟩
  | some name =>
    simp only
    cases m.symbols.get? name <;> exact ⟨rfl, rfl⟩

theorem record_definitions (m : Manifest) (source candidate path k : String) :
    (m.record source candidate path).1.definitions.get? k = (m.definitions.get? k).or
      (if Rules.declaredType? candidate = some k then some () else none) := by
  cases hcandidate : Rules.declaredType? candidate with
  | none => simp [record_none m source path hcandidate]
  | some target =>
    rw [(record_some m source path hcandidate).1, NameSet.insert, Table.get?_put]
    by_cases hk : target = k
    · cases m.definitions.get? k <;> simp [hk]
    · simp [hk]

theorem record_exports (m : Manifest) (source candidate path k : String) :
    (m.record source candidate path).1.exports.get? k = (m.exports.get? k).or
      (if Rules.declaredType? candidate = some k then some path else none) := by
  cases hcandidate : Rules.declaredType? candidate with
  | none => simp [record_none m source path hcandidate]
  | some target =>
    rw [(record_some m source path hcandidate).2, Table.get?_insertNew]
    simp only [Option.some.injEq]

theorem isDefined_record (m : Manifest) (source candidate path k : String) :
    (m.record source candidate path).1.isDefined k = true ↔
      m.isDefined k = true ∨ Rules.declaredType? candidate = some k := by
  simp only [isDefined, NameSet.contains, record_definitions]
  cases m.definitions.get? k <;> simp

/-- The texts do not declare the same type first. -/
def DeclareApart (a b : String) : Prop :=
  ∀ name, Rules.declaredType? a = some name → Rules.declaredType? b ≠ some name

theorem DeclareApart.symm {a b : String} (h : DeclareApart a b) : DeclareApart b a :=
  fun name hb ha => h name ha hb

/-- Records that share no name commute. -/
theorem record_comm (m : Manifest) {source source' candidate candidate' : String} (path path' : String)
    (hsource : DeclareApart source source') (hcandidate : DeclareApart candidate candidate') :
    ((m.record source candidate path).1.record source' candidate' path').1
      = ((m.record source' candidate' path').1.record source candidate path).1 := by
  have hswap {β : Type} (x a b : Option β) (h : a = none ∨ b = none) :
      (x.or a).or b = (x.or b).or a := by
    rcases h with rfl | rfl <;> simp
  have hone {β : Type} {s t : String} (h : DeclareApart s t) (k : String) (a b : Option β) :
      (if Rules.declaredType? s = some k then a else none) = none ∨
        (if Rules.declaredType? t = some k then b else none) = none := by
    by_cases hs : Rules.declaredType? s = some k
    · exact .inr (if_neg (h k hs))
    · exact .inl (if_neg hs)
  apply ext_get?
  · intro k
    simp only [record_symbols]
    exact hswap _ _ _ (hone hsource k _ _)
  · intro k
    simp only [record_definitions]
    exact hswap _ _ _ (hone hcandidate k _ _)
  · intro k
    simp only [record_exports]
    exact hswap _ _ _ (hone hcandidate k _ _)

end Crosswalk.Manifest
