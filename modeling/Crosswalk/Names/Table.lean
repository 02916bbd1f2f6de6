namespace Crosswalk

variable {α : Type}

abbrev Ascending (entries : List (String × α)) : Prop := entries.Pairwise (fun a b => a.1 < b.1)

namespace Entries

def get? (name : String) : List (String × α) → Option α
  | [] => none
  | (k, v) :: rest => if k = name then some v else get? name rest

def put (name : String) (value : α) : List (String × α) → List (String × α)
  | [] => [(name, value)]
  | (k, v) :: rest =>
    if name < k then (name, value) :: (k, v) :: rest
    else if k = name then (name, value) :: rest
    else (k, v) :: put name value rest

theorem mem_put {name : String} {value : α} {entries : List (String × α)} {e : String × α}
    (h : e ∈ put name value entries) : e = (name, value) ∨ e ∈ entries := by
  induction entries with
  | nil => simpa [put] using h
  | cons e' rest ih =>
    obtain ⟨k, v⟩ := e'
    unfold put at h
    split at h
    · simpa using h
    · split at h
      · rcases List.mem_cons.1 h with h | h
        · exact .inl h
        · exact .inr (List.mem_cons_of_mem _ h)
      · rcases List.mem_cons.1 h with h | h
        · exact .inr (h ▸ List.mem_cons_self)
        · exact (ih h).imp id (List.mem_cons_of_mem _)

theorem ascending_put {entries : List (String × α)} (name : String) (value : α)
    (h : Ascending entries) : Ascending (put name value entries) := by
  induction entries with
  | nil => simp [put]
  | cons e rest ih =>
    obtain ⟨k, v⟩ := e
    obtain ⟨hk, hrest⟩ := List.pairwise_cons.1 h
    unfold put
    split
    · rename_i hlt
      refine List.pairwise_cons.2 ⟨fun e he => ?_, h⟩
      rcases List.mem_cons.1 he with he | he
      · exact he ▸ hlt
      · exact String.lt_trans hlt (hk e he)
    · split
      · rename_i heq
        exact List.pairwise_cons.2 ⟨fun e he => heq ▸ hk e he, hrest⟩
      · rename_i hle hne
        refine List.pairwise_cons.2 ⟨fun e he => ?_, ih hrest⟩
        rcases mem_put he with he | he
        · subst he
          rcases String.le_total k name with h1 | h1
          · exact Decidable.byContradiction fun h2 =>
              hne (String.le_antisymm h1 (String.not_lt.1 h2))
          · exact Decidable.byContradiction fun h2 =>
              hne (String.le_antisymm (String.not_lt.1 hle) h1)
        · exact hk e he

end Entries

/-- Entries in ascending order of their names, so that two tables with the same entries are the same
table. -/
structure Table (α : Type) where
  entries : List (String × α)
  ascending : Ascending entries

namespace Table

@[ext]
theorem ext {s t : Table α} (h : s.entries = t.entries) : s = t := by
  cases s; cases t; cases h; rfl

instance [DecidableEq α] : DecidableEq (Table α) := fun s t =>
  if h : s.entries = t.entries then isTrue (ext h) else isFalse fun e => h (e ▸ rfl)

def empty : Table α := ⟨[], .nil⟩

instance : Inhabited (Table α) := ⟨empty⟩

def get? (t : Table α) (name : String) : Option α := Entries.get? name t.entries

def put (t : Table α) (name : String) (value : α) : Table α :=
  ⟨Entries.put name value t.entries, Entries.ascending_put name value t.ascending⟩

/-- An existing entry wins. -/
def insertNew (t : Table α) (name : String) (value : α) : Table α :=
  if (t.get? name).isSome then t else t.put name value

def size (t : Table α) : Nat := t.entries.length

def isEmpty (t : Table α) : Bool := t.entries.isEmpty

def keys (t : Table α) : List String := t.entries.map (·.1)

def ofList (entries : List (String × α)) : Table α :=
  entries.foldl (fun t e => t.put e.1 e.2) empty

end Table

abbrev NameSet := Table Unit

namespace NameSet

def insert (s : NameSet) (name : String) : NameSet := s.put name ()

def contains (s : NameSet) (name : String) : Bool := (s.get? name).isSome

def toList (s : NameSet) : List String := s.keys

def insertAll (s : NameSet) (names : List String) : NameSet := names.foldl insert s

def ofList (names : List String) : NameSet := insertAll Table.empty names

end NameSet

end Crosswalk
