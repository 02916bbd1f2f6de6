import Crosswalk.Proofs.Conversion.Progress

namespace Crosswalk

variable {σ : Type}

namespace Seat

/-- The states of a file after each of its steps, at most so many. -/
def trail (services : Services σ) (terms : Terms) (j : Job) : Nat → Seat → Shared σ → List Seat
  | 0, _, _ => []
  | n + 1, seat, s =>
    match seat.report? with
    | some _ => []
    | none =>
      let (seat, s) := seat.step services terms j s
      seat :: trail services terms j n seat s

variable (services : Services σ) (terms : Terms) (j : Job)

theorem trail_open (n : Nat) {seat : Seat} (hopen : seat.report? = none) (s : Shared σ) :
    trail services terms j (n + 1) seat s = (seat.step services terms j s).1 ::
      trail services terms j n (seat.step services terms j s).1 (seat.step services terms j s).2 := by
  simp only [trail, hopen]

theorem trail_over (n : Nat) (r : Report) (s : Shared σ) :
    trail services terms j n (.settled r) s = [] := by
  cases n <;> rfl

theorem trail_report {n : Nat} {seat : Seat} {s : Shared σ} {r : Report}
    (hopen : seat.report? = none) (hover : (steps services terms j n seat s).1 = .settled r) :
    (trail services terms j n seat s).filter (·.report?.isSome) = [.settled r] := by
  induction n generalizing seat s with
  | zero =>
    obtain rfl : seat = .settled r := hover
    cases hopen
  | succ n ih =>
    rw [steps_open services terms j n hopen] at hover
    rw [trail_open services terms j n hopen]
    cases hnext : (seat.step services terms j s).1.report? with
    | none =>
      rw [List.filter_cons_of_neg (by simp [hnext])]
      exact ih hnext hover
    | some r' =>
      have hsettled := report?_eq_some.1 hnext
      rw [hsettled, steps_over] at hover
      rw [hsettled, trail_over, List.filter_cons_of_pos rfl, List.filter_nil]
      exact congrArg ([·]) hover

theorem steps_snoc (n : Nat) {seat : Seat} {s : Shared σ}
    (hopen : (steps services terms j n seat s).1.report? = none) :
    steps services terms j (n + 1) seat s = (steps services terms j n seat s).1.step services terms j
        (steps services terms j n seat s).2 ∧
      trail services terms j (n + 1) seat s = trail services terms j n seat s
        ++ [(steps services terms j (n + 1) seat s).1] := by
  induction n generalizing seat s with
  | zero =>
    change seat.report? = none at hopen
    rw [steps_open services terms j 0 hopen, trail_open services terms j 0 hopen]
    exact ⟨rfl, rfl⟩
  | succ n ih =>
    cases hseat : seat.report? with
    | some r =>
      rw [report?_eq_some.1 hseat, steps_over] at hopen
      cases hopen
    | none =>
      rw [steps_open services terms j n hseat] at hopen ⊢
      obtain ⟨hsteps, htrail⟩ := ih hopen
      rw [steps_open services terms j (n + 1) hseat, trail_open services terms j (n + 1) hseat,
        trail_open services terms j n hseat, htrail]
      exact ⟨hsteps, rfl⟩

theorem steps_stay {n m : Nat} (hle : n ≤ m) {seat : Seat} {s : Shared σ} {r : Report}
    (hover : (steps services terms j n seat s).1 = .settled r) :
    steps services terms j m seat s = steps services terms j n seat s ∧
      trail services terms j m seat s = trail services terms j n seat s := by
  induction n generalizing m seat s with
  | zero =>
    obtain rfl : seat = .settled r := hover
    rw [steps_over, trail_over]
    exact ⟨rfl, rfl⟩
  | succ n ih =>
    obtain ⟨m, rfl⟩ := Nat.exists_eq_add_of_le' (Nat.one_le_of_lt hle)
    cases hseat : seat.report? with
    | some r' =>
      rw [report?_eq_some.1 hseat, steps_over, steps_over, trail_over, trail_over]
      exact ⟨rfl, rfl⟩
    | none =>
      rw [steps_open services terms j n hseat] at hover ⊢
      rw [steps_open services terms j m hseat, trail_open services terms j m hseat,
        trail_open services terms j n hseat]
      obtain ⟨hsteps, htrail⟩ := ih (Nat.le_of_succ_le_succ hle) hover
      exact ⟨hsteps, by rw [htrail]⟩

theorem steps_unique {n m : Nat} {seat : Seat} {s : Shared σ} {r r' : Report}
    (hn : (steps services terms j n seat s).1 = .settled r)
    (hm : (steps services terms j m seat s).1 = .settled r') :
    steps services terms j n seat s = steps services terms j m seat s ∧
      trail services terms j n seat s = trail services terms j m seat s := by
  rcases Nat.le_total n m with hle | hle
  · obtain ⟨hsteps, htrail⟩ := steps_stay services terms j hle hn
    exact ⟨hsteps.symm, htrail.symm⟩
  · exact steps_stay services terms j hle hm

/-- What a step keeps of a state and of those before it, a whole trail keeps. -/
theorem trail_induct {P : List Seat → Seat → Shared σ → Prop}
    (step : ∀ past seat s, P past seat s → seat.report? = none →
      P (past ++ [(seat.step services terms j s).1]) (seat.step services terms j s).1
        (seat.step services terms j s).2)
    (n : Nat) (past : List Seat) (seat : Seat) (s : Shared σ) (hP : P past seat s) :
    P (past ++ trail services terms j n seat s) (steps services terms j n seat s).1
      (steps services terms j n seat s).2 := by
  induction n generalizing past seat s with
  | zero => rwa [trail, List.append_nil]
  | succ n ih =>
    cases hopen : seat.report? with
    | some r =>
      obtain rfl := report?_eq_some.1 hopen
      rwa [trail_over, steps_over, List.append_nil]
    | none =>
      have hnext := ih _ _ _ (step past seat s hP hopen)
      rwa [List.append_assoc, List.singleton_append, ← trail_open services terms j n hopen,
        ← steps_open services terms j n hopen] at hnext

end Seat

end Crosswalk
