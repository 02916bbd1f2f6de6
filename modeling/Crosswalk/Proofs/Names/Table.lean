import Mathlib
import Crosswalk.Names.Table

namespace Crosswalk

variable {α β : Type}

theorem lookup_of_mem {entries : List (String × α)} {e : String × α}
    (hnodup : (entries.map (·.1)).Nodup) (hmem : e ∈ entries) : entries.lookup e.1 = some e.2 := by
  induction entries with
  | nil => cases hmem
  | cons d rest ih =>
    obtain ⟨name, a⟩ := d
    rw [List.map_cons, List.nodup_cons] at hnodup
    rcases List.mem_cons.1 hmem with rfl | hmem
    · exact List.lookup_cons_self
    · have hne : e.1 ≠ name := fun heq => hnodup.1 (List.mem_map.2 ⟨e, hmem, heq⟩)
      rw [List.lookup_cons, beq_false_of_ne hne]
      exact ih hnodup.2 hmem

theorem lookup_none_of_not_mem {entries : List (String × α)} {name : String}
    (h : name ∉ entries.map (·.1)) : entries.lookup name = none :=
  List.lookup_eq_none_iff.2 fun _ he => bne_iff_ne.2 fun heq => h (heq ▸ List.mem_map_of_mem he)

theorem lookup_map (g : α → β) (entries : List (String × α)) (name : String) :
    (entries.map fun e => (e.1, g e.2)).lookup name = (entries.lookup name).map g := by
  induction entries with
  | nil => rfl
  | cons e entries ih =>
    obtain ⟨k, a⟩ := e
    rw [List.map_cons, List.lookup_cons, List.lookup_cons, ih]
    cases name == k <;> rfl

theorem lookup_eq_some {entries : List (String × α)} {name : String} {a : α}
    (h : (entries.map (·.1)).Nodup) : entries.lookup name = some a ↔ (name, a) ∈ entries := by
  refine ⟨fun hlookup => ?_, fun hmem => lookup_of_mem h hmem⟩
  obtain ⟨front, back, rfl, -⟩ := List.lookup_eq_some_iff.1 hlookup
  exact List.mem_append_right _ List.mem_cons_self

namespace Entries

theorem get?_put (name k : String) (value : α) (entries : List (String × α)) :
    get? k (put name value entries) = if name = k then some value else get? k entries := by
  induction entries with
  | nil => simp [put, get?]
  | cons e rest ih =>
    obtain ⟨n, v⟩ := e
    unfold put
    split
    · simp only [get?]
    · split
      · next heq =>
        subst heq
        by_cases hk : n = k <;> simp [get?, hk]
      · next hne =>
        by_cases hk : n = k
        · subst hk
          simp [get?, Ne.symm hne]
        · simp only [get?, hk, if_false, ih]

theorem mem_of_get? {name : String} {value : α} {entries : List (String × α)}
    (h : get? name entries = some value) : (name, value) ∈ entries := by
  induction entries with
  | nil => cases h
  | cons e rest ih =>
    obtain ⟨k, v⟩ := e
    simp only [get?] at h
    split at h
    · next heq =>
      cases h
      exact heq ▸ List.mem_cons_self
    · exact List.mem_cons_of_mem _ (ih h)

theorem get?_eq_some {name : String} {value : α} {entries : List (String × α)}
    (h : Ascending entries) : get? name entries = some value ↔ (name, value) ∈ entries := by
  refine ⟨mem_of_get?, fun hmem => ?_⟩
  induction entries with
  | nil => cases hmem
  | cons e rest ih =>
    obtain ⟨hbelow, hrest⟩ := List.pairwise_cons.1 h
    rcases List.mem_cons.1 hmem with rfl | hmem
    · simp [get?]
    · have hlt : e.1 < name := hbelow _ hmem
      have hne : e.1 ≠ name := fun heq => String.lt_irrefl name (heq ▸ hlt)
      simp only [get?, hne, if_false]
      exact ih hrest hmem

end Entries

namespace Table

theorem get?_put (t : Table α) (name k : String) (value : α) :
    (t.put name value).get? k = if name = k then some value else t.get? k :=
  Entries.get?_put name k value t.entries

theorem get?_insertNew (t : Table α) (name k : String) (value : α) :
    (t.insertNew name value).get? k = (t.get? k).or (if name = k then some value else none) := by
  unfold insertNew
  split
  · next hsome =>
    obtain ⟨v, hv⟩ := Option.isSome_iff_exists.1 hsome
    by_cases hk : name = k
    · subst hk
      simp [hv]
    · simp [hk]
  · next hnone =>
    rw [Option.not_isSome_iff_eq_none] at hnone
    rw [get?_put]
    by_cases hk : name = k
    · subst hk
      simp [hnone]
    · simp [hk]

theorem ext_get? {s t : Table α} (h : ∀ name, s.get? name = t.get? name) : s = t := by
  have hnodup (u : Table α) : u.entries.Nodup := by
    refine u.ascending.imp fun hlt heq => ?_
    rw [heq] at hlt
    exact String.lt_irrefl _ hlt
  have hmem : ∀ e, e ∈ s.entries ↔ e ∈ t.entries := by
    rintro ⟨name, value⟩
    rw [← Entries.get?_eq_some s.ascending, ← Entries.get?_eq_some t.ascending]
    exact Eq.congr_left (h name)
  have hperm : s.entries.Perm t.entries :=
    (List.perm_ext_iff_of_nodup (hnodup s) (hnodup t)).2 hmem
  refine ext (hperm.eq_of_pairwise (fun a b _ _ hab hba => ?_) s.ascending t.ascending)
  exact absurd (String.lt_trans hab hba) (String.lt_irrefl _)

theorem mem_keys {t : Table α} {name : String} : name ∈ t.keys ↔ (t.get? name).isSome = true := by
  simp only [keys, List.mem_map, Prod.exists, exists_and_right, exists_eq_right,
    Option.isSome_iff_exists, get?, Entries.get?_eq_some t.ascending]

theorem keys_ascending (t : Table α) : t.keys.Pairwise (· < ·) := List.pairwise_map.2 t.ascending

theorem keys_eq {β : Type} {s : Table α} {t : Table β}
    (h : ∀ name, (s.get? name).isSome = (t.get? name).isSome) : s.keys = t.keys := by
  have hnodup {γ : Type} (u : Table γ) : u.keys.Nodup := by
    refine u.keys_ascending.imp fun hlt heq => ?_
    rw [heq] at hlt
    exact String.lt_irrefl _ hlt
  have hperm : s.keys.Perm t.keys :=
    (List.perm_ext_iff_of_nodup (hnodup s) (hnodup t)).2 fun name => by rw [mem_keys, mem_keys, h]
  refine hperm.eq_of_pairwise (fun a b _ _ hab hba => ?_) s.keys_ascending t.keys_ascending
  exact absurd (String.lt_trans hab hba) (String.lt_irrefl _)

end Table

namespace NameSet

theorem contains_insertAll (s : NameSet) (names : List String) (name : String) :
    (s.insertAll names).contains name = (s.contains name || names.contains name) := by
  unfold insertAll
  induction names generalizing s with
  | nil => simp
  | cons n names ih =>
    have hinsert : (s.insert n).contains name = (s.contains name || name == n) := by
      rw [contains, insert, Table.get?_put, contains]
      by_cases h : n = name
      · simp [h]
      · simp [h, Ne.symm h]
    rw [List.foldl_cons, ih, hinsert, List.contains_cons, Bool.or_assoc]

theorem ext_contains {s t : NameSet} (h : ∀ name, s.contains name = t.contains name) : s = t := by
  refine Table.ext_get? fun name => ?_
  have hname := h name
  unfold contains at hname
  cases hs : s.get? name <;> cases ht : t.get? name <;> simp_all

end NameSet

end Crosswalk
