import Crosswalk.Proofs.Names.Declared

namespace Crosswalk

namespace Table

variable {α : Type}

def Within (s t : Table α) : Prop :=
  ∀ name value, s.get? name = some value → t.get? name = some value

theorem Within.of_or {s t : Table α} {added : String → Option α}
    (h : ∀ name, t.get? name = (s.get? name).or (added name)) : s.Within t := by
  intro name value hvalue
  rw [h, hvalue, Option.some_or]

end Table

namespace Note

def sourceType? (n : Note) : Option String := Rules.declaredType? n.source

def targetType? (n : Note) : Option String := Rules.declaredType? n.candidate

/-- What a record has to say about a source name. -/
def symbol? (n : Note) (name : String) : Option String :=
  if n.sourceType? = some name then n.targetType? else none

def export? (n : Note) (name : String) : Option String :=
  if n.targetType? = some name then some n.path else none

theorem symbol?_eq_some {n : Note} {name target : String} (h : n.symbol? name = some target) :
    n.sourceType? = some name ∧ n.targetType? = some target := by
  rw [symbol?] at h
  split at h
  · next hsource => exact ⟨hsource, h⟩
  · cases h

theorem export?_eq_some {n : Note} {name path : String} (h : n.export? name = some path) :
    n.targetType? = some name := by
  rw [export?] at h
  split at h
  · next htarget => exact htarget
  · cases h

end Note

/-- What the answer to a record says about the symbols before and after it. -/
def Recorded.Tells (n : Note) (old new : Table String) : Recorded → Prop
  | .mapped source target =>
    n.sourceType? = some source ∧ n.targetType? = some target ∧ old.get? source = none ∧
      ∀ name, new.get? name = if source = name then some target else old.get? name
  | .alreadyMapped source existing proposed =>
    n.sourceType? = some source ∧ n.targetType? = some proposed ∧
      old.get? source = some existing ∧ new = old
  | .definitionOnly target => n.sourceType? = none ∧ n.targetType? = some target ∧ new = old
  | .unchanged => n.targetType? = none ∧ new = old

namespace Manifest

def note (m : Manifest) (n : Note) : Manifest := (m.record n.source n.candidate n.path).1

def noteAll (m : Manifest) (notes : List Note) : Manifest := notes.foldl note m

theorem note_symbols (name : String) (m : Manifest) (n : Note) :
    (m.note n).symbols.get? name = (m.symbols.get? name).or (n.symbol? name) :=
  record_symbols m n.source n.candidate n.path name

theorem note_definitions (name : String) (m : Manifest) (n : Note) :
    (m.note n).definitions.get? name = (m.definitions.get? name).or
      ((n.export? name).map fun _ => ()) := by
  rw [note, record_definitions, Note.export?, Note.targetType?]
  split <;> rfl

theorem note_exports (name : String) (m : Manifest) (n : Note) :
    (m.note n).exports.get? name = (m.exports.get? name).or (n.export? name) :=
  record_exports m n.source n.candidate n.path name

theorem record_tells (m : Manifest) (n : Note) :
    (m.record n.source n.candidate n.path).2.Tells n m.symbols (m.note n).symbols := by
  unfold note record
  cases htarget : Rules.declaredType? n.candidate with
  | none => exact ⟨htarget, rfl⟩
  | some target =>
    cases hsource : Rules.declaredType? n.source with
    | none => exact ⟨hsource, htarget, rfl⟩
    | some name =>
      simp only
      cases hold : m.symbols.get? name with
      | some existing => exact ⟨hsource, htarget, hold, rfl⟩
      | none => exact ⟨hsource, htarget, hold, fun k => Table.get?_put ..⟩

section View

variable {β : Type} (view : Manifest → Option β) {entry : Note → Option β}

theorem noteAll_view (h : ∀ m n, view (m.note n) = (view m).or (entry n)) (m : Manifest)
    (notes : List Note) : view (m.noteAll notes) = (view m).or (notes.findSome? entry) := by
  induction notes generalizing m with
  | nil => rw [List.findSome?_nil, Option.or_none, noteAll, List.foldl_nil]
  | cons n notes ih =>
    have hrest : m.noteAll (n :: notes) = (m.note n).noteAll notes := rfl
    rw [hrest, ih, h, Option.or_assoc, List.findSome?_cons]
    cases entry n <;> rfl

theorem ofNotes_view (h : ∀ m n, view (m.note n) = (view m).or (entry n))
    (hempty : view empty = none) (notes : List Note) :
    view (ofNotes notes) = notes.findSome? entry := by
  have hview := noteAll_view view h empty notes
  rwa [hempty, Option.none_or] at hview

theorem noteAll_view_again (h : ∀ m n, view (m.note n) = (view m).or (entry n))
    (hempty : view empty = none) {notes again : List Note} (hagain : ∀ n ∈ again, n ∈ notes) :
    view ((ofNotes notes).noteAll again) = view (ofNotes notes) := by
  rw [noteAll_view view h, ofNotes_view view h hempty]
  cases hfirst : notes.findSome? entry with
  | some b => rfl
  | none =>
    rw [Option.none_or, List.findSome?_eq_none_iff]
    exact fun n hn => List.findSome?_eq_none_iff.1 hfirst n (hagain n hn)

end View

theorem ofNotes_symbols (notes : List Note) (name : String) :
    (ofNotes notes).symbols.get? name = notes.findSome? (·.symbol? name) :=
  ofNotes_view (·.symbols.get? name) (note_symbols name) rfl notes

theorem ofNotes_exports (notes : List Note) (name : String) :
    (ofNotes notes).exports.get? name = notes.findSome? (·.export? name) :=
  ofNotes_view (·.exports.get? name) (note_exports name) rfl notes

theorem ofNotes_definitions (notes : List Note) (name : String) :
    (ofNotes notes).definitions.get? name
      = notes.findSome? fun n => (n.export? name).map fun _ => () :=
  ofNotes_view (·.definitions.get? name) (note_definitions name) rfl notes

theorem ofNotes_keys (notes : List Note) :
    (ofNotes notes).exports.keys = (ofNotes notes).definitions.toList := by
  refine Table.keys_eq fun name => ?_
  have hdefinitions : (notes.findSome? (·.export? name)).map (fun _ => ())
      = notes.findSome? fun n => (n.export? name).map fun _ => () := List.map_findSome?
  rw [ofNotes_exports, ofNotes_definitions, ← hdefinitions, Option.isSome_map]

theorem mem_definitions {notes : List Note} {name : String} :
    name ∈ (ofNotes notes).definitions.toList ↔ ∃ n ∈ notes, n.targetType? = some name := by
  rw [← ofNotes_keys, Table.mem_keys, ofNotes_exports, List.findSome?_isSome_iff]
  refine exists_congr fun n => and_congr_right fun _ => ?_
  rw [Note.export?]
  split <;> simp [*]

theorem noteAll_again {notes again : List Note} (hagain : ∀ n ∈ again, n ∈ notes) :
    (ofNotes notes).noteAll again = ofNotes notes :=
  ext_get? (fun name => noteAll_view_again (·.symbols.get? name) (note_symbols name) rfl hagain)
    (fun name => noteAll_view_again (·.definitions.get? name) (note_definitions name) rfl hagain)
    (fun name => noteAll_view_again (·.exports.get? name) (note_exports name) rfl hagain)

theorem renames_append_conflicts (m : Manifest) :
    (m.renames ++ m.conflicts).Perm (m.symbols.entries.filter fun e => e.1 != e.2) := by
  have hsplit := List.filter_append_perm (fun e => !m.isDefined e.1)
    (m.symbols.entries.filter fun e => e.1 != e.2)
  simp only [List.filter_filter, Bool.not_not, Bool.and_comm] at hsplit
  exact hsplit

theorem renames_disjoint_conflicts (m : Manifest) : m.renames.Disjoint m.conflicts := by
  intro e hrename hconflict
  have hfree := (List.mem_filter.1 hrename).2
  have hdefined := (List.mem_filter.1 hconflict).2
  simp only [Bool.and_eq_true, Bool.not_eq_true'] at hfree hdefined
  rw [hdefined.2] at hfree
  cases hfree.2

theorem WellNamed.renames_once {m : Manifest} (h : m.WellNamed) {e e' : String × String}
    (he : e ∈ m.renames) (he' : e' ∈ m.renames) : e.2 ≠ e'.1 := by
  intro heq
  have hdefined := h.defined e.1 e.2
    ((Entries.get?_eq_some m.symbols.ascending).2 (List.mem_filter.1 he).1)
  have hfree := (List.mem_filter.1 he').2
  simp only [Bool.and_eq_true, Bool.not_eq_true'] at hfree
  rw [heq, hfree.2] at hdefined
  cases hdefined

/-- What a history of records has made of the empty manifest. -/
structure History (notes : List Note) : Prop where
  symbols : ∀ name, (ofNotes notes).symbols.get? name = notes.findSome? (·.symbol? name)
  definitions : ∀ name,
    name ∈ (ofNotes notes).definitions.toList ↔ ∃ n ∈ notes, n.targetType? = some name
  exports : ∀ name, (ofNotes notes).exports.get? name = notes.findSome? (·.export? name)
  keys : (ofNotes notes).exports.keys = (ofNotes notes).definitions.toList
  targets : ∀ e ∈ (ofNotes notes).symbols.entries, e.2 ∈ (ofNotes notes).definitions.toList
  grows : ∀ (before : List Note) (n : Note) (after : List Note), notes = before ++ n :: after →
    (ofNotes before).symbols.Within (ofNotes (before ++ [n])).symbols ∧
      (ofNotes before).definitions.Within (ofNotes (before ++ [n])).definitions ∧
      (ofNotes before).exports.Within (ofNotes (before ++ [n])).exports ∧
      ((ofNotes before).record n.source n.candidate n.path).2.Tells n (ofNotes before).symbols
        (ofNotes (before ++ [n])).symbols
  /-- Some of the records, made again in any order, change nothing. -/
  again : ∀ again : List Note, (∀ n ∈ again, n ∈ notes) →
    (ofNotes notes).noteAll again = ofNotes notes
  split : ((ofNotes notes).renames ++ (ofNotes notes).conflicts).Perm
    ((ofNotes notes).symbols.entries.filter fun e => e.1 != e.2)
  apart : (ofNotes notes).renames.Disjoint (ofNotes notes).conflicts
  once : ∀ e ∈ (ofNotes notes).renames, ∀ e' ∈ (ofNotes notes).renames, e.2 ≠ e'.1

theorem ofNotes_history (notes : List Note) : History notes := by
  have hnamed := ofNotes_wellNamed notes
  refine {
    symbols := ofNotes_symbols notes
    definitions := fun _ => mem_definitions
    exports := ofNotes_exports notes
    keys := ofNotes_keys notes
    targets := fun e he => ?_
    grows := fun before n _ _ => ?_
    again := fun _ => noteAll_again
    split := renames_append_conflicts _
    apart := renames_disjoint_conflicts _
    once := fun _ he _ he' => hnamed.renames_once he he' }
  · exact Table.mem_keys.2
      (hnamed.defined e.1 e.2 ((Entries.get?_eq_some (ofNotes notes).symbols.ascending).2 he))
  · have hnext : ofNotes (before ++ [n]) = (ofNotes before).note n := List.foldl_append
    rw [hnext]
    exact ⟨.of_or fun name => note_symbols name _ n, .of_or fun name => note_definitions name _ n,
      .of_or fun name => note_exports name _ n, record_tells _ n⟩

end Manifest

end Crosswalk
