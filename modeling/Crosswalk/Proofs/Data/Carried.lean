import Mathlib
import Crosswalk.Data.Decode
import Crosswalk.Proofs.Names.Table
import Crosswalk.Toml.Plain
import Crosswalk.Toml.Writer

namespace Crosswalk

variable {α β : Type}

theorem Table.get?_ofList {entries : List (String × α)} (h : (entries.map (·.1)).Nodup)
    (name : String) : (ofList entries).get? name = entries.lookup name := by
  have hfoldl (t : Table α) : (entries.foldl (fun t e => t.put e.1 e.2) t).get? name
      = (entries.lookup name).or (t.get? name) := by
    induction entries generalizing t with
    | nil => rfl
    | cons e entries ih =>
      obtain ⟨k, a⟩ := e
      rw [List.map_cons, List.nodup_cons] at h
      rw [List.foldl_cons, ih h.2, get?_put, List.lookup_cons]
      by_cases hk : name = k
      · subst hk
        rw [lookup_none_of_not_mem h.1]
        simp
      · rw [beq_false_of_ne hk, if_neg (Ne.symm hk)]
  rw [ofList, hfoldl]
  exact Option.or_none

namespace Value

mutual

/-- The second tree says what the first one says. -/
def Carried : Value → Value → Prop
  | .array items, v' => ∃ items', v' = .array items' ∧ CarriedItems items items'
  | .object members, v' => ∃ members', v' = .object members' ∧ (members'.map (·.1)).Nodup ∧
      (∀ e ∈ members', e.1 ∈ members.map (·.1)) ∧ CarriedMembers members members'
  | v, v' => v' = v

def CarriedItems : List Value → List Value → Prop
  | [], items' => items' = []
  | v :: items, items' => ∃ v' rest, items' = v' :: rest ∧ Carried v v' ∧ CarriedItems items rest

/-- Every member arrives, unless it has no value. -/
def CarriedMembers : List (String × Value) → List (String × Value) → Prop
  | [], _ => True
  | (name, v) :: members, members' =>
    (match members'.lookup name with
      | some v' => Carried v v'
      | none => v = .null) ∧ CarriedMembers members members'

end

def Arrives (v : Value) : Option Value → Prop
  | some v' => Carried v v'
  | none => v = .null

variable {v v' : Value} {items items' : List Value} {members members' : List (String × Value)}

theorem CarriedItems.forall₂ (h : CarriedItems items items') : List.Forall₂ Carried items items' := by
  induction items generalizing items' with
  | nil =>
    obtain rfl : items' = [] := by simpa only [CarriedItems] using h
    exact .nil
  | cons v items ih =>
    rw [CarriedItems] at h
    obtain ⟨v', rest, rfl, hv, hrest⟩ := h
    exact .cons hv (ih hrest)

theorem CarriedMembers.arrives (h : CarriedMembers members members') :
    ∀ e ∈ members, e.2.Arrives (members'.lookup e.1) := by
  induction members with
  | nil => exact List.forall_mem_nil _
  | cons e members ih =>
    obtain ⟨name, v⟩ := e
    rw [CarriedMembers] at h
    refine List.forall_mem_cons.2 ⟨?_, ih h.2⟩
    have hfirst := h.1
    unfold Arrives
    split <;> simp_all

theorem Carried.null (h : Carried .null v') : v' = .null := by simpa only [Carried] using h

theorem Carried.string {s : String} (h : Carried (.string s) v') : v' = .string s := by
  simpa only [Carried] using h

theorem Carried.bool {b : Bool} (h : Carried (.bool b) v') : v' = .bool b := by
  simpa only [Carried] using h

theorem Carried.number {n : Number} (h : Carried (.number n) v') : v' = .number n := by
  simpa only [Carried] using h

theorem Carried.array (h : Carried (.array items) v') :
    ∃ items', v' = .array items' ∧ List.Forall₂ Carried items items' := by
  rw [Carried] at h
  obtain ⟨items', rfl, hitems⟩ := h
  exact ⟨items', rfl, hitems.forall₂⟩

structure MembersArrive (members members' : List (String × Value)) : Prop where
  names : (members'.map (·.1)).Nodup
  written : ∀ e ∈ members, e.2.Arrives (members'.lookup e.1)
  absent : ∀ name, name ∉ members.map (·.1) → members'.lookup name = none

theorem Carried.object (h : Carried (.object members) v') :
    ∃ members', v' = .object members' ∧ MembersArrive members members' := by
  rw [Carried] at h
  obtain ⟨members', rfl, hnodup, hnames, hmembers⟩ := h
  refine ⟨members', rfl, hnodup, hmembers.arrives, fun name hname => ?_⟩
  refine lookup_none_of_not_mem fun hmem => ?_
  obtain ⟨e, he, rfl⟩ := List.mem_map.1 hmem
  exact hname (hnames e he)

theorem Carried.set (h : Carried v v') (hv : v ≠ .null) : v' ≠ .null := by
  rintro rfl
  cases v <;> simp_all [Carried]

end Value

namespace Value

mutual

def carries : Value → Value → Bool
  | .null, .null => true
  | .bool b, .bool b' => b == b'
  | .number n, .number n' => n = n'
  | .string s, .string s' => s == s'
  | .array items, .array items' => carriesItems items items'
  | .object members, .object members' =>
    decide (members'.map (·.1)).Nodup && members'.all (fun e => members.any (·.1 == e.1))
      && carriesMembers members members'
  | _, _ => false

def carriesItems : List Value → List Value → Bool
  | [], [] => true
  | v :: items, v' :: items' => carries v v' && carriesItems items items'
  | _, _ => false

def carriesMembers : List (String × Value) → List (String × Value) → Bool
  | [], _ => true
  | (name, v) :: members, members' =>
    (match members'.lookup name with
      | some v' => carries v v'
      | none => Toml.isUnset v) && carriesMembers members members'

end

mutual

theorem carried_of_carries {v v' : Value} (h : carries v v' = true) : Carried v v' := by
  cases v with
  | null => cases v' <;> simp_all [carries, Carried]
  | bool b => cases v' <;> simp_all [carries, Carried]
  | number n => cases v' <;> simp_all [carries, Carried]
  | string s => cases v' <;> simp_all [carries, Carried]
  | array items =>
    cases v' with
    | array items' => exact ⟨items', rfl, carriedItems_of_carries h⟩
    | _ => cases h
  | object members =>
    cases v' with
    | object members' =>
      rw [carries, Bool.and_eq_true, Bool.and_eq_true, decide_eq_true_eq] at h
      obtain ⟨⟨hnodup, hnames⟩, hmembers⟩ := h
      refine ⟨members', rfl, hnodup, fun e he => ?_, carriedMembers_of_carries hmembers⟩
      obtain ⟨d, hd, heq⟩ := List.any_eq_true.1 (List.all_eq_true.1 hnames e he)
      exact List.mem_map.2 ⟨d, hd, eq_of_beq heq⟩
    | _ => cases h
  | unreadable => cases h

theorem carriedItems_of_carries {items items' : List Value} (h : carriesItems items items' = true) :
    CarriedItems items items' := by
  cases items with
  | nil =>
    cases items' with
    | nil => rfl
    | cons v' items' => cases h
  | cons v items =>
    cases items' with
    | nil => cases h
    | cons v' items' =>
      rw [carriesItems, Bool.and_eq_true] at h
      exact ⟨v', items', rfl, carried_of_carries h.1, carriedItems_of_carries h.2⟩

theorem carriedMembers_of_carries {members members' : List (String × Value)}
    (h : carriesMembers members members' = true) : CarriedMembers members members' := by
  cases members with
  | nil => trivial
  | cons e members =>
    obtain ⟨name, v⟩ := e
    rw [carriesMembers, Bool.and_eq_true] at h
    refine ⟨?_, carriedMembers_of_carries h.2⟩
    have hfirst := h.1
    split at hfirst
    · exact carried_of_carries hfirst
    · cases v with
      | null => rfl
      | _ => cases hfirst

end

mutual

/-- Reals are finite, and natural numbers do not pass the bound of the format. -/
def within (bound : Nat) : Value → Bool
  | .number (.natural n) => n ≤ bound
  | .number (.real x) => x.isFinite
  | .array items => withinItems bound items
  | .object members => withinMembers bound members
  | .unreadable => false
  | _ => true

def withinItems (bound : Nat) : List Value → Bool
  | [] => true
  | v :: items => within bound v && withinItems bound items

def withinMembers (bound : Nat) : List (String × Value) → Bool
  | [] => true
  | (_, v) :: members => within bound v && withinMembers bound members

end

section Within

variable {bound : Nat}

theorem within_array : (Value.array items).within bound = true
    ↔ ∀ v ∈ items, v.within bound = true := by
  rw [within]
  induction items with
  | nil => exact iff_of_true rfl (List.forall_mem_nil _)
  | cons v items ih => rw [withinItems, Bool.and_eq_true, List.forall_mem_cons, ih]

theorem within_object : (Value.object members).within bound = true
    ↔ ∀ e ∈ members, e.2.within bound = true := by
  rw [within]
  induction members with
  | nil => exact iff_of_true rfl (List.forall_mem_nil _)
  | cons e members ih => rw [withinMembers, Bool.and_eq_true, List.forall_mem_cons, ih]

theorem within_string (s : String) : (Value.string s).within bound = true := rfl

theorem within_bool (b : Bool) : (Value.bool b).within bound = true := rfl

theorem within_nat {n : Nat} (h : n ≤ bound) : (nat n).within bound = true := decide_eq_true h

theorem within_ofOption {g : α → Value} {o : Option α} (h : ∀ a ∈ o, (g a).within bound = true) :
    (ofOption g o).within bound = true := by
  cases o with
  | none => rfl
  | some a => exact h a rfl

end Within

end Value

namespace Toml

open Value

mutual

theorem fits_of_within {v : Value} (h : v.within 0x7FFFFFFFFFFFFFFF = true) : fits v = true := by
  cases v with
  | number n =>
    cases n with
    | natural n =>
      rw [within, decide_eq_true_eq] at h
      exact decide_eq_true (by omega)
    | _ => rfl
  | array items => exact fitsAll_of_within h
  | object members => exact fitsMembers_of_within h
  | _ => rfl

theorem fitsAll_of_within {items : List Value}
    (h : withinItems 0x7FFFFFFFFFFFFFFF items = true) : fitsAll items = true := by
  cases items with
  | nil => rfl
  | cons v items =>
    rw [withinItems, Bool.and_eq_true] at h
    rw [fitsAll, fits_of_within h.1, fitsAll_of_within h.2]
    rfl

theorem fitsMembers_of_within {members : List (String × Value)}
    (h : withinMembers 0x7FFFFFFFFFFFFFFF members = true) : fitsMembers members = true := by
  cases members with
  | nil => rfl
  | cons e members =>
    rw [withinMembers, Bool.and_eq_true] at h
    rw [fitsMembers, fits_of_within h.1, fitsMembers_of_within h.2]
    rfl

end

end Toml

namespace Decode

open Value

variable {f : Value → Option α} {v : Value} {a : α} {fs : Fields} {name : String}

/-- However the value was carried, the reader finds this in it. -/
structure Reads (f : Value → Option α) (v : Value) (a : α) : Prop where
  set : v ≠ .null
  same : ∀ v', Carried v v' → f v' = some a

theorem reads_string (s : String) : Reads string? (.string s) s :=
  ⟨nofun, fun v' h => by rw [h.string]; rfl⟩

theorem reads_bool (b : Bool) : Reads bool? (.bool b) b :=
  ⟨nofun, fun v' h => by rw [h.bool]; rfl⟩

theorem reads_natUpTo {bound n : Nat} (h : n ≤ bound) : Reads (natUpTo? bound) (.nat n) n :=
  ⟨nofun, fun v' hv => by rw [hv.number]; exact if_pos h⟩

theorem reads_word32 {n : Nat} (h : n ≤ 0xFFFFFFFF) : Reads word32? (.nat n) n := reads_natUpTo h

theorem reads_word64 {n : Nat} (h : n ≤ 0xFFFFFFFFFFFFFFFF) : Reads word64? (.nat n) n :=
  reads_natUpTo h

theorem reads_real (x : Float) : Reads real? (.real x) x :=
  ⟨nofun, fun v' h => by rw [h.number]; rfl⟩

theorem reads_choice {choices : List (String × α)} {s : String} (h : choices.lookup s = some a) :
    Reads (choice? choices) (.string s) a :=
  ⟨nofun, fun v' hv => by rw [hv.string]; exact h⟩

theorem reads_list {g : α → Value} (h : ∀ a, Reads f (g a) a) (as : List α) :
    Reads (list? f) (.array (as.map g)) as := by
  refine ⟨nofun, fun v' hv => ?_⟩
  obtain ⟨items, rfl, hitems⟩ := hv.array
  clear hv
  rw [list?]
  rw [List.forall₂_map_left_iff] at hitems
  induction hitems with
  | nil => rfl
  | @cons a v' as items ha _ ih => rw [List.mapM_cons, (h a).same v' ha, ih]; rfl

theorem strings_arrive {t : Table String}
    (h : MembersArrive (t.entries.map fun e => (e.1, .string e.2)) fs) :
    ∃ entries : List (String × String), entries.map (fun e => (e.1, .string e.2)) = fs ∧
      Table.ofList entries = t := by
  have hstrings : ∀ e ∈ fs, ∃ d : String × String, (d.1, Value.string d.2) = e := by
    intro e he
    have hlookup := lookup_of_mem h.names he
    by_cases hname : e.1 ∈ t.entries.map (·.1)
    · obtain ⟨d, hd, hde⟩ := List.mem_map.1 hname
      have harrives := h.written _ (List.mem_map_of_mem hd)
      rw [hde, hlookup] at harrives
      exact ⟨d, Prod.ext hde (Carried.string harrives).symm⟩
    · rw [h.absent e.1 (by simpa using hname)] at hlookup
      cases hlookup
  obtain ⟨entries, rfl⟩ :
      fs ∈ Set.range (List.map fun e : String × String => (e.1, Value.string e.2)) := by
    rw [Set.range_list_map]
    exact hstrings
  refine ⟨entries, rfl, Table.ext_get? fun name => ?_⟩
  have hnodup : (entries.map (·.1)).Nodup := by simpa [Function.comp_def] using h.names
  rw [Table.get?_ofList hnodup]
  cases hget : t.get? name with
  | none =>
    have hname : name ∉ t.entries.map (·.1) := by
      intro hmem
      obtain ⟨e, he, rfl⟩ := List.mem_map.1 hmem
      rw [Table.get?, (Entries.get?_eq_some t.ascending).2 he] at hget
      cases hget
    have habsent := h.absent name (by simpa using hname)
    rwa [lookup_map, Option.map_eq_none_iff] at habsent
  | some s =>
    have harrives := h.written _ (List.mem_map_of_mem (Entries.mem_of_get? hget))
    rw [lookup_map] at harrives
    cases hlookup : entries.lookup name with
    | none =>
      rw [hlookup] at harrives
      cases harrives
    | some s' =>
      rw [hlookup] at harrives
      cases Carried.string harrives
      rfl

theorem reads_table (t : Table String) :
    Reads (table? string?) (.object (t.entries.map fun e => (e.1, .string e.2))) t := by
  refine ⟨nofun, fun v' hv => ?_⟩
  obtain ⟨members, rfl, harrive⟩ := hv.object
  obtain ⟨entries, rfl, rfl⟩ := strings_arrive harrive
  have hmapM : (entries.map fun e => (e.1, Value.string e.2)).mapM
      (fun e : String × Value => (string? e.2).map fun s => (e.1, s)) = some entries := by
    clear hv harrive
    induction entries with
    | nil => rfl
    | cons e entries ih => rw [List.map_cons, List.mapM_cons, ih]; rfl
  rw [table?, hmapM]
  rfl

theorem Reads.defaulted (h : Reads f v a) (harrives : v.Arrives (fs.lookup name)) (default : α) :
    defaulted fs name default f = some a := by
  rw [Decode.defaulted]
  split
  · next hnone =>
    rw [hnone] at harrives
    exact absurd harrives h.set
  · next v' hsome =>
    rw [hsome] at harrives
    exact h.same v' harrives

theorem Reads.optional (h : Reads f v a) : Reads (optional? f) v (some a) := by
  refine ⟨h.set, fun v' hv => ?_⟩
  have hset := hv.set h.set
  rw [optional?, h.same v' hv]
  · rfl
  · exact hset

theorem defaulted_unset (harrives : Value.null.Arrives (fs.lookup name)) :
    Decode.defaulted fs name none (optional? f) = some none := by
  rw [Decode.defaulted]
  split
  · rfl
  · next v' hsome =>
    rw [hsome] at harrives
    rw [Carried.null harrives]
    rfl

theorem defaulted_ofOption {g : α → Value} {o : Option α} (h : ∀ a ∈ o, Reads f (g a) a)
    (harrives : (ofOption g o).Arrives (fs.lookup name)) :
    Decode.defaulted fs name none (optional? f) = some o := by
  cases o with
  | none => exact defaulted_unset harrives
  | some a => exact (h a rfl).optional.defaulted harrives none

theorem defaulted_member {g : α → Value} {o : Option α} {members : List (String × Value)}
    (harrive : MembersArrive members fs) (h : ∀ a ∈ o, Reads f (g a) a)
    (hset : ∀ a ∈ o, (name, g a) ∈ members) (hunset : o = none → name ∉ members.map (·.1)) :
    Decode.defaulted fs name none (optional? f) = some o := by
  cases o with
  | none => rw [Decode.defaulted, harrive.absent name (hunset rfl)]
  | some a => exact (h a rfl).optional.defaulted (harrive.written _ (hset a rfl)) none

theorem fields?_arrive {members : List (String × Value)} (h : MembersArrive members fs)
    (names : List String) : fields? names (.object fs) = some fs := by
  have honce (name : String) : (fs.filter (·.1 == name)).length ≤ 1 := by
    have hcount := List.nodup_iff_count_le_one.1 h.names name
    rwa [List.count, List.countP_map, List.countP_eq_length_filter] at hcount
  rw [fields?, if_neg]
  simpa using fun name _ => honce name

theorem reads_record {members : List (String × Value)}
    (h : ∀ fs, MembersArrive members fs → f (.object fs) = some a) :
    Reads f (.object members) a := by
  refine ⟨nofun, fun v' hv => ?_⟩
  obtain ⟨fs, rfl, harrive⟩ := hv.object
  exact h fs harrive

end Decode

namespace Toml

open Value

mutual

theorem plain_any (v : Value) : plain .any v = v := by
  cases v with
  | array items => rw [plain, plainItems_any]
  | object members => rw [plain, plainMembers_any]; rfl
  | _ => rfl

theorem plainItems_any (i : Nat) (items : List Value) : plainItems .any i items = items := by
  cases items with
  | nil => rfl
  | cons v rest =>
    rw [plainItems]
    exact congrArg₂ List.cons (plain_any v) (plainItems_any (i + 1) rest)

theorem plainMembers_any (members : List (String × Value)) : plainMembers .any members = members := by
  cases members with
  | nil => rfl
  | cons e rest =>
    obtain ⟨name, v⟩ := e
    rw [plainMembers, plainMembers_any rest]
    exact congrArg (fun v => (name, v) :: rest) (plain_any v)

end

/-- However the value was carried, its spelling is the usual one already. -/
def Usual (shape : Shape) (v : Value) : Prop := ∀ v', Carried v v' → plain shape v' = v'

theorem usual_any (v : Value) : Usual .any v := fun v' _ => plain_any v'

theorem usual_string (shape : Shape) (s : String) : Usual shape (.string s) := by
  intro v' hv
  rw [hv.string]
  rfl

theorem usual_list {shape : Shape} {items : List Value} (h : ∀ v ∈ items, Usual shape v) :
    Usual (.list shape) (.array items) := by
  intro v' hv
  obtain ⟨items', rfl, hitems⟩ := hv.array
  have hplain (i : Nat) : plainItems (.list shape) i items' = items' := by
    clear hv
    induction hitems generalizing i with
    | nil => rfl
    | cons hv _ ih =>
      rw [plainItems]
      exact congrArg₂ List.cons (h _ List.mem_cons_self _ hv)
        (ih (fun v hv => h v (List.mem_cons_of_mem _ hv)) (i + 1))
  rw [plain, hplain]

theorem usual_record {fields : List (String × Shape)} {members : List (String × Value)}
    (h : ∀ e ∈ members, Usual ((Shape.record fields).member e.1) e.2) :
    Usual (.record fields) (.object members) := by
  intro v' hv
  obtain ⟨members', rfl, harrive⟩ := hv.object
  have hmember : ∀ e ∈ members', plain ((Shape.record fields).member e.1) e.2 = e.2 := by
    intro e he
    have hlookup := lookup_of_mem harrive.names he
    by_cases hname : e.1 ∈ members.map (·.1)
    · obtain ⟨d, hd, hde⟩ := List.mem_map.1 hname
      have harrives := harrive.written d hd
      rw [hde, hlookup] at harrives
      exact hde ▸ h d hd e.2 harrives
    · rw [harrive.absent e.1 hname] at hlookup
      cases hlookup
  have hplain : plainMembers (.record fields) members' = members' := by
    clear hv harrive
    induction members' with
    | nil => rfl
    | cons e rest ih =>
      obtain ⟨name, v⟩ := e
      rw [plainMembers, ih fun e he => hmember e (List.mem_cons_of_mem _ he),
        hmember (name, v) List.mem_cons_self]
  rw [plain, hplain]
  rfl

end Toml

end Crosswalk
