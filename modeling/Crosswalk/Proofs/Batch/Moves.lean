import Mathlib
import Crosswalk.Batch.Hall
import Crosswalk.Proofs.Conversion.Progress

namespace Crosswalk.Hall

variable {σ : Type} {services : Services σ} {terms : Terms}

theorem ready?_eq_some {h : Hall σ} {i : Nat} {p : Desk} :
    h.ready? i = some p ↔ h.desks[i]? = some p ∧ p.seat.report? = none ∧
      (atWork p.seat = true ∨ h.permits ≠ 0) := by
  simp only [ready?, Option.filter_eq_some_iff, Bool.and_eq_true, Option.isNone_iff_eq_none,
    Bool.or_eq_true, bne_iff_ne]

def worked (services : Services σ) (terms : Terms) (h : Hall σ) (i : Nat) (p : Desk) : Hall σ :=
  { h with
    desks := h.desks.set i { p with seat := (p.seat.step services terms p.job h.shared).1 }
    permits := permitsAfter h.permits p.seat (p.seat.step services terms p.job h.shared).1
    shared := (p.seat.step services terms p.job h.shared).2 }

theorem step_none {h : Hall σ} {i : Nat} (hi : h.ready? i = none) :
    h.step services terms i = h := by
  simp only [step, hi]

theorem step_ready {h : Hall σ} {i : Nat} {p : Desk} (hi : h.ready? i = some p) :
    h.step services terms i = h.worked services terms i p := by
  simp only [step, hi, worked]

theorem isPending_iff {h : Hall σ} {index : Nat} :
    h.isPending index = true ↔ ∃ path, (index, path) ∈ h.pending := by
  simp only [isPending, List.any_eq_true, beq_iff_eq]
  constructor
  · rintro ⟨⟨_, path⟩, he, rfl⟩
    exact ⟨path, he⟩
  · rintro ⟨path, he⟩
    exact ⟨_, he, rfl⟩

def collected (h : Hall σ) (p : Desk) (r : Report) : Hall σ :=
  { h with
    pending := h.pending.filter (·.1 != p.index)
    book := h.book.settle p.index p.job.source.path r }

theorem collect_cases (h : Hall σ) (i : Nat) :
    h.collect i = h ∨ ∃ p r path, h.desks[i]? = some p ∧ p.seat = .settled r ∧
      (p.index, path) ∈ h.pending ∧ h.collect i = h.collected p r := by
  unfold collect
  split
  · next index j r hp =>
    split
    · next hpending =>
      obtain ⟨path, hpath⟩ := isPending_iff.1 hpending
      exact .inr ⟨_, r, path, hp, rfl, hpath, rfl⟩
    · exact .inl rfl
  · exact .inl rfl

/-- What a step of a ready file and a collected report keep, a run keeps. -/
theorem follow_induct {P : Hall σ → Prop}
    (work : ∀ h i p, P h → h.ready? i = some p → P (h.worked services terms i p))
    (collect : ∀ h (i : Nat) (p : Desk) r path, P h → h.desks[i]? = some p → p.seat = .settled r →
      (p.index, path) ∈ h.pending → P (h.collected p r))
    {h : Hall σ} (hP : P h) (moves : List Move) : P (h.follow services terms moves) := by
  induction moves generalizing h with
  | nil => exact hP
  | cons m moves ih =>
    refine ih ?_
    cases m with
    | work i =>
      cases hi : h.ready? i with
      | none => simpa only [move, step_none hi] using hP
      | some p => simpa only [move, step_ready hi] using work h i p hP hi
    | collect i =>
      obtain heq | ⟨p, r, path, hp, hr, hpath, heq⟩ := collect_cases h i
      · simpa only [move, heq] using hP
      · simpa only [move, heq] using collect h i p r path hP hp hr hpath

theorem follow_nil (h : Hall σ) : h.follow services terms [] = h := rfl

theorem follow_cons (h : Hall σ) (m : Move) (moves : List Move) :
    h.follow services terms (m :: moves) = (h.move services terms m).follow services terms moves := rfl

theorem follow_append (h : Hall σ) (moves moves' : List Move) :
    h.follow services terms (moves ++ moves') =
      (h.follow services terms moves).follow services terms moves' :=
  List.foldl_append

/-- The desk whose report a move enters into the book. -/
def filed? (h : Hall σ) : Move → Option Desk
  | .work _ => none
  | .collect position => h.desks[position]?.filter fun p =>
    p.seat.report?.isSome && h.isPending p.index

theorem filed?_collect {h : Hall σ} {i : Nat} {p : Desk} :
    h.filed? (.collect i) = some p ↔
      h.desks[i]? = some p ∧ (∃ r, p.seat = .settled r) ∧ ∃ path, (p.index, path) ∈ h.pending := by
  simp only [filed?, Option.filter_eq_some_iff, Bool.and_eq_true, isPending_iff,
    Option.isSome_iff_exists, Seat.report?_eq_some]

/-- No file can take a step, and no report can be entered. -/
structure Idle (h : Hall σ) : Prop where
  steps : ∀ i, h.ready? i = none
  reports : ∀ m, h.filed? m = none

theorem Idle.move {h : Hall σ} (hi : h.Idle) (m : Move) : h.move services terms m = h := by
  cases m with
  | work i => exact step_none (hi.steps i)
  | collect i =>
    obtain heq | ⟨p, r, path, hp, hr, hpath, -⟩ := collect_cases h i
    · exact heq
    · have hfiled := filed?_collect.2 ⟨hp, ⟨r, hr⟩, path, hpath⟩
      rw [hi.reports] at hfiled
      cases hfiled

theorem Idle.follow {h : Hall σ} (hi : h.Idle) (moves : List Move) :
    h.follow services terms moves = h := by
  induction moves with
  | nil => rfl
  | cons m moves ih => rw [follow_cons, hi.move, ih]

theorem mem_worked {h : Hall σ} {i : Nat} {p q : Desk}
    (hq : q ∈ (h.worked services terms i p).desks) :
    q ∈ h.desks ∨ q = { p with seat := (p.seat.step services terms p.job h.shared).1 } :=
  (List.mem_or_eq_of_mem_set hq)

theorem worked_perm (services : Services σ) (terms : Terms) {h : Hall σ} {i : Nat} {p : Desk}
    (hp : h.desks[i]? = some p) :
    ∃ rest, h.desks.Perm (p :: rest) ∧ (h.worked services terms i p).desks.Perm
      ({ p with seat := (p.seat.step services terms p.job h.shared).1 } :: rest) := by
  obtain ⟨hi, rfl⟩ := List.getElem?_eq_some_iff.1 hp
  exact ⟨_, (List.getElem_cons_eraseIdx_perm hi).symm, List.set_perm_cons_eraseIdx hi _⟩

theorem worked_getElem? (services : Services σ) (terms : Terms) {h : Hall σ} {i : Nat} {p : Desk}
    (hp : h.desks[i]? = some p) (k : Nat) :
    (h.worked services terms i p).desks[k]? =
      if i = k then some { p with seat := (p.seat.step services terms p.job h.shared).1 }
      else h.desks[k]? := by
  have hi := (List.getElem?_eq_some_iff.1 hp).1
  simp only [worked, List.getElem?_set, hi, if_true]

theorem worked_self {h : Hall σ} {i : Nat} {p : Desk} (hp : h.desks[i]? = some p) :
    { p with seat := (p.seat.step services terms p.job h.shared).1 }
      ∈ (h.worked services terms i p).desks :=
  List.mem_of_getElem? ((worked_getElem? services terms hp i).trans (if_pos rfl))

theorem mem_worked_of_ne {h : Hall σ} {i : Nat} {p q : Desk} (hp : h.desks[i]? = some p)
    (hq : q ∈ h.desks) (hne : q ≠ p) : q ∈ (h.worked services terms i p).desks := by
  obtain ⟨rest, hold, hnew⟩ := worked_perm services terms hp
  rcases List.mem_cons.1 (hold.mem_iff.1 hq) with heq | hrest
  · exact absurd heq hne
  · exact hnew.mem_iff.2 (List.mem_cons_of_mem _ hrest)

/-- What of a desk never changes. -/
def card (p : Desk) : Nat × Job := (p.index, p.job)

theorem indices_of_cards {desks desks' : List Desk} (h : desks.map card = desks'.map card) :
    desks.map (·.index) = desks'.map (·.index) := by
  have hindices := congrArg (List.map Prod.fst) h
  rwa [List.map_map, List.map_map] at hindices

theorem worked_cards {h : Hall σ} {i : Nat} {p : Desk} (hp : h.desks[i]? = some p) :
    (h.worked services terms i p).desks.map card = h.desks.map card := by
  obtain ⟨hi, rfl⟩ := List.getElem?_eq_some_iff.1 hp
  have hlen : i < (h.desks.map card).length := by rwa [List.length_map]
  have hcard (seat : Seat) : card { h.desks[i] with seat } = (h.desks.map card)[i] := by
    rw [List.getElem_map]
    rfl
  rw [worked, List.map_set, hcard, List.set_getElem_self]

theorem worked_indices {h : Hall σ} {i : Nat} {p : Desk} (hp : h.desks[i]? = some p) :
    (h.worked services terms i p).desks.map (·.index) = h.desks.map (·.index) :=
  indices_of_cards (worked_cards hp)

theorem follow_cards (h : Hall σ) (moves : List Move) :
    (h.follow services terms moves).desks.map card = h.desks.map card :=
  follow_induct (P := fun h' => h'.desks.map card = h.desks.map card)
    (fun _ _ _ heq hp => (worked_cards (ready?_eq_some.1 hp).1).trans heq)
    (fun _ _ _ _ _ heq _ _ _ => heq) rfl moves

theorem follow_indices (h : Hall σ) (moves : List Move) :
    (h.follow services terms moves).desks.map (·.index) = h.desks.map (·.index) :=
  indices_of_cards (follow_cards h moves)

end Crosswalk.Hall
