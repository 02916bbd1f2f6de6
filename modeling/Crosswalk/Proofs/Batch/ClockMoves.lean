import Crosswalk.Batch.Clock
import Crosswalk.Proofs.Batch.Moves
import Crosswalk.Proofs.Conversion.Progress

namespace Crosswalk

variable {σ : Type} (services : Services σ) (terms : Terms)

/-- One turn for each step that is left, and one for the report. -/
def Desk.due (p : Desk) : Nat := if p.seat.report?.isSome then 0 else p.seat.left p.job + 1

theorem Desk.due_open {p : Desk} (h : p.seat.report? = none) : p.due = p.seat.left p.job + 1 := by
  simp [due, h]

theorem Desk.due_settled {p : Desk} {r : Report} (h : p.seat = .settled r) : p.due = 0 := by
  simp [due, h, Seat.report?]

namespace Hall

def working (h : Hall σ) : Nat := h.desks.countP fun p => atWork p.seat

def queuedAt (h : Hall σ) (i : Nat) : Bool := h.desks[i]?.any fun p => p.seat matches .queued

theorem worked_permits {h : Hall σ} {i : Nat} {p : Desk} (hp : h.ready? i = some p) :
    (h.worked services terms i p).permits + (h.worked services terms i p).working
      = h.permits + h.working := by
  obtain ⟨hdesk, hopen, hroom⟩ := ready?_eq_some.1 hp
  obtain ⟨rest, hold, hnew⟩ := worked_perm services terms hdesk
  unfold working
  rw [hold.countP_eq, hnew.countP_eq, List.countP_cons, List.countP_cons]
  simp only [worked, permitsAfter]
  cases hwas : atWork p.seat <;>
    cases his : atWork (p.seat.step services terms p.job h.shared).1 <;> simp_all <;> omega

/-- The files of the coming turns and the blocked files are those that are not over. -/
structure Clocked (h : Hall σ) (turns blocked : List Nat) : Prop where
  fits : ∀ p ∈ h.desks, p.seat.Fits p.job
  nodup : (turns ++ blocked).Nodup
  files : ∀ i, i ∈ turns ++ blocked ↔ ∃ p, h.desks[i]? = some p ∧ p.seat.report? = none
  queued : ∀ i ∈ blocked, h.queuedAt i = true
  room : 0 < h.permits + h.working
  pending : ∀ e ∈ h.pending, ∃ p ∈ h.desks, p.index = e.1 ∧ p.seat.report? = none

def budget (h : Hall σ) (turns : List Nat) : Nat :=
  (h.desks.map Desk.due).sum + turns.countP h.queuedAt

theorem Clocked.perm {h : Hall σ} {turns turns' blocked : List Nat} (hc : h.Clocked turns blocked)
    (hp : turns'.Perm turns) : h.Clocked turns' blocked :=
  { hc with
    nodup := ((hp.append_right blocked).nodup_iff).2 hc.nodup
    files := fun i => ((hp.append_right blocked).mem_iff).trans (hc.files i) }

theorem budget_perm {h : Hall σ} {turns turns' : List Nat} (hp : turns'.Perm turns) :
    h.budget turns' = h.budget turns := by
  simp only [budget, hp.countP_eq]

theorem Clocked.not_ready {h : Hall σ} {file : Nat} {turns blocked : List Nat}
    (hc : h.Clocked (file :: turns) blocked) (hnot : h.ready? file = none) :
    h.queuedAt file = true ∧ h.permits = 0 := by
  obtain ⟨p, hp, hopen⟩ := (hc.files file).1 (by simp)
  have hno : ¬ (atWork p.seat = true ∨ h.permits ≠ 0) := fun hroom => by
    rw [ready?_eq_some.2 ⟨hp, hopen, hroom⟩] at hnot
    cases hnot
  rw [not_or, not_not] at hno
  refine ⟨?_, hno.2⟩
  cases hseat : p.seat with
  | queued => simp [queuedAt, hp, hseat]
  | asking d call | checking d answer candidate call => simp [hseat, atWork] at hno
  | settled r => simp [hseat, Seat.report?] at hopen

theorem Clocked.block {h : Hall σ} {file : Nat} {turns blocked : List Nat}
    (hc : h.Clocked (file :: turns) blocked) (hnot : h.ready? file = none) :
    h.Clocked turns (blocked ++ [file]) ∧ h.budget turns < h.budget (file :: turns) ∧ turns ≠ [] := by
  obtain ⟨hqueued, hpermits⟩ := hc.not_ready hnot
  have hperm : (turns ++ (blocked ++ [file])).Perm (file :: turns ++ blocked) := by
    rw [← List.append_assoc]
    exact List.perm_append_comm
  refine ⟨{ hc with nodup := ?_, files := ?_, queued := ?_ }, ?_, ?_⟩
  · exact hperm.nodup_iff.2 hc.nodup
  · exact fun i => hperm.mem_iff.trans (hc.files i)
  · intro i hi
    rcases List.mem_append.1 hi with hi | hi
    · exact hc.queued i hi
    · exact List.mem_singleton.1 hi ▸ hqueued
  · simp [budget, hqueued]
  · -- Somebody holds a permit, and whoever works has a turn.
    have hworking : 0 < h.desks.countP fun p => atWork p.seat := by
      have hroom := hc.room
      rw [hpermits, Nat.zero_add] at hroom
      exact hroom
    obtain ⟨q, hq, hwork⟩ := List.countP_pos_iff.1 hworking
    obtain ⟨i, hi, rfl⟩ := List.mem_iff_getElem.1 hq
    have hget : h.desks[i]? = some h.desks[i] := List.getElem?_eq_getElem hi
    have hnq : h.queuedAt i = false := by
      simp only [queuedAt, hget, Option.any_some]
      split
      · next heq => simp [heq, atWork] at hwork
      · rfl
    have hopen : h.desks[i].seat.report? = none := by
      cases hseat : h.desks[i].seat with
      | settled r => simp [hseat, atWork] at hwork
      | _ => rfl
    have hmem := (hc.files i).2 ⟨_, hget, hopen⟩
    rintro rfl
    rcases List.mem_append.1 hmem with hmem | hmem
    · rw [List.mem_singleton.1 hmem, hqueued] at hnq
      cases hnq
    · rw [hc.queued i hmem] at hnq
      cases hnq

theorem Clocked.unblock {h : Hall σ} {file : Nat} {turns blocked : List Nat}
    (hc : h.Clocked turns (file :: blocked)) :
    h.Clocked (file :: turns) blocked ∧ h.budget (file :: turns) ≤ h.budget turns + 1 := by
  have hperm : (file :: turns ++ blocked).Perm (turns ++ file :: blocked) := List.perm_middle.symm
  refine ⟨{ hc with nodup := ?_, files := ?_, queued := ?_ }, ?_⟩
  · exact hperm.nodup_iff.2 hc.nodup
  · exact fun i => hperm.mem_iff.trans (hc.files i)
  · exact fun i hi => hc.queued i (List.mem_cons_of_mem _ hi)
  · simp only [budget, List.countP_cons]
    split <;> omega

theorem worked_queuedAt {h : Hall σ} {i : Nat} {p : Desk} (hp : h.desks[i]? = some p) (k : Nat) :
    (h.worked services terms i p).queuedAt k = (i != k && h.queuedAt k) := by
  simp only [queuedAt, worked_getElem? services terms hp]
  by_cases hk : i = k
  · subst hk
    simp [Seat.step_ne_queued]
  · simp [hk]

theorem worked_budget {h : Hall σ} {i : Nat} {p : Desk} {turns : List Nat}
    (hp : h.desks[i]? = some p) (hi : i ∉ turns) :
    (h.worked services terms i p).budget turns + p.due = h.budget turns +
      Desk.due { p with seat := (p.seat.step services terms p.job h.shared).1 } := by
  obtain ⟨rest, hold, hnew⟩ := worked_perm services terms hp
  have hcount : turns.countP (h.worked services terms i p).queuedAt = turns.countP h.queuedAt := by
    refine List.countP_congr fun k hk => ?_
    have hne : i ≠ k := fun heq => hi (heq ▸ hk)
    simp [worked_queuedAt services terms hp, hne]
  simp only [budget, (hold.map _).sum_eq, (hnew.map _).sum_eq, hcount, List.map_cons, List.sum_cons]
  omega

theorem worked_fits {h : Hall σ} {i : Nat} {p : Desk} (hp : h.desks[i]? = some p)
    (hfits : ∀ q ∈ h.desks, q.seat.Fits q.job) :
    ∀ q ∈ (h.worked services terms i p).desks, q.seat.Fits q.job := by
  intro q hq
  rcases mem_worked hq with hq | rfl
  · exact hfits q hq
  · exact Seat.step_fits services terms _ _ (hfits p (List.mem_of_getElem? hp))

theorem Clocked.work_on {h : Hall σ} {file : Nat} {p : Desk} {turns blocked : List Nat}
    (hc : h.Clocked (file :: turns) blocked) (hp : h.ready? file = some p)
    (hon : (p.seat.step services terms p.job h.shared).1.report? = none) :
    (h.worked services terms file p).Clocked (file :: turns) blocked ∧
      (h.worked services terms file p).budget (file :: turns) < h.budget (file :: turns) := by
  obtain ⟨hdesk, hopen, -⟩ := ready?_eq_some.1 hp
  have hnodup := hc.nodup
  rw [List.cons_append, List.nodup_cons, List.mem_append, not_or] at hnodup
  obtain ⟨⟨hturns, hblocked⟩, -⟩ := hnodup
  refine ⟨⟨worked_fits services terms hdesk hc.fits, hc.nodup, fun i => ?_, fun i hi => ?_, ?_,
    fun e he => ?_⟩, ?_⟩
  · rw [hc.files i, worked_getElem? services terms hdesk]
    by_cases hi : file = i
    · subst hi
      simp [hdesk, hopen, hon]
    · simp [hi]
  · have hne : file ≠ i := fun heq => hblocked (heq ▸ hi)
    simp [worked_queuedAt services terms hdesk, hne, hc.queued i hi]
  · rw [worked_permits services terms hp]
    exact hc.room
  · obtain ⟨q, hq, hindex, hqopen⟩ := hc.pending e he
    by_cases hqp : q = p
    · subst hqp
      exact ⟨_, worked_self hdesk, hindex, hon⟩
    · exact ⟨q, mem_worked_of_ne hdesk hq hqp, hindex, hqopen⟩
  · have hbudget := worked_budget services terms hdesk hturns
    have hleft := (Seat.step_fits_left services terms p.job h.shared
      (hc.fits p (List.mem_of_getElem? hdesk)) hopen).2
    have hself : (h.worked services terms file p).queuedAt file = false := by
      simp [worked_queuedAt services terms hdesk]
    rw [Desk.due_open hopen, Desk.due_open hon] at hbudget
    simp only [budget, List.countP_cons, hself, Bool.false_eq_true, if_false] at hbudget ⊢
    omega

theorem collect_settled {h : Hall σ} {i : Nat} {p : Desk} {r : Report} (hp : h.desks[i]? = some p)
    (hr : p.seat = .settled r) :
    (h.collect i).desks = h.desks ∧ (h.collect i).permits = h.permits ∧
      (h.collect i).pending = h.pending.filter (·.1 != p.index) := by
  obtain ⟨index, j, seat⟩ := p
  subst hr
  simp only [collect, hp]
  split
  · exact ⟨rfl, rfl, rfl⟩
  · next hnot =>
    refine ⟨rfl, rfl, (List.filter_eq_self.2 fun e he => bne_iff_ne.2 fun heq => hnot ?_).symm⟩
    exact isPending_iff.2 ⟨e.2, heq ▸ he⟩

theorem Clocked.work_out {h : Hall σ} {file : Nat} {p : Desk} {turns blocked : List Nat} {r : Report}
    (hc : h.Clocked (file :: turns) blocked) (hp : h.ready? file = some p)
    (hout : (p.seat.step services terms p.job h.shared).1 = .settled r) :
    ((h.worked services terms file p).collect file).Clocked turns blocked ∧
      ((h.worked services terms file p).collect file).budget turns + 1
        < h.budget (file :: turns) := by
  obtain ⟨hdesk, hopen, -⟩ := ready?_eq_some.1 hp
  have hnodup := hc.nodup
  rw [List.cons_append, List.nodup_cons, List.mem_append, not_or] at hnodup
  obtain ⟨⟨hturns, hblocked⟩, hrest⟩ := hnodup
  obtain ⟨hdesks, hpermits, hpending⟩ := collect_settled
    ((worked_getElem? services terms hdesk file).trans (if_pos rfl)) hout
  have hqueued (k : Nat) : ((h.worked services terms file p).collect file).queuedAt k
      = (h.worked services terms file p).queuedAt k := by
    simp only [queuedAt, hdesks]
  refine ⟨⟨?_, hrest, fun i => ?_, fun i hi => ?_, ?_, fun e he => ?_⟩, ?_⟩
  · rw [hdesks]
    exact worked_fits services terms hdesk hc.fits
  · rw [hdesks, worked_getElem? services terms hdesk]
    by_cases hi : file = i
    · subst hi
      simp [hturns, hblocked, hout, Seat.report?]
    · have hfiles := hc.files i
      rw [List.cons_append, List.mem_cons] at hfiles
      simpa [hi, Ne.symm hi] using hfiles
  · have hne : file ≠ i := fun heq => hblocked (heq ▸ hi)
    simp [hqueued, worked_queuedAt services terms hdesk, hne, hc.queued i hi]
  · unfold working
    rw [hpermits, hdesks]
    exact (worked_permits services terms hp).symm ▸ hc.room
  · rw [hpending, List.mem_filter, bne_iff_ne] at he
    obtain ⟨q, hq, hindex, hqopen⟩ := hc.pending e he.1
    have hqp : q ≠ p := fun heq => he.2 (by rw [← hindex, heq])
    exact ⟨q, by rw [hdesks]; exact mem_worked_of_ne hdesk hq hqp, hindex, hqopen⟩
  · -- The step and the report pay for the turn that a blocked file may get.
    have hbudget := worked_budget services terms hdesk hturns
    have hleft := Seat.left_pos (hc.fits p (List.mem_of_getElem? hdesk)) hopen
    have hsame : ((h.worked services terms file p).collect file).budget turns
        = (h.worked services terms file p).budget turns := by
      simp only [budget, hdesks, funext hqueued]
    rw [Desk.due_open hopen, Desk.due_settled hout] at hbudget
    rw [hsame]
    simp only [budget, List.countP_cons] at hbudget ⊢
    omega

namespace Agenda

theorem insert_perm (t : Turn) (turns : List Turn) : (insert t turns).Perm (t :: turns) := by
  induction turns with
  | nil => exact .rfl
  | cons u rest ih =>
    unfold insert
    split
    · exact .rfl
    · exact (ih.cons u).trans (.swap t u rest)

def files (a : Agenda) : List Nat := a.turns.map (·.file)

theorem note_files (file : Nat) (waits : List Nat) (a : Agenda) :
    (a.note file waits).files.Perm (file :: a.files) := by
  unfold note
  split
  · exact .rfl
  · exact (insert_perm _ _).map _

theorem note_blocked (file : Nat) (waits : List Nat) (a : Agenda) :
    (a.note file waits).blocked = a.blocked := by
  unfold note
  split <;> rfl

end Agenda

theorem turn_clocked {h : Hall σ} {a : Agenda} {file : Nat}
    (hc : h.Clocked (file :: a.files) a.blocked) :
    ∃ h' a' moves, turn services terms h a file = (h', a') ∧ h' = h.follow services terms moves ∧
      h'.Clocked a'.files a'.blocked ∧ h'.budget a'.files < h.budget (file :: a.files) ∧
      (a'.files = [] → a'.blocked = []) := by
  cases hready : h.ready? file with
  | none =>
    -- Every permit is out: the turn is used up without a move.
    obtain ⟨hblock, hbudget, hne⟩ := hc.block hready
    exact ⟨h, { a with blocked := a.blocked ++ [file] }, [], by simp only [turn, hready], rfl, hblock,
      hbudget, fun hnil => absurd hnil hne⟩
  | some p =>
    have hdesk := (ready?_eq_some.1 hready).1
    have hself := (worked_getElem? services terms hdesk file).trans (if_pos rfl)
    cases hopen : (p.seat.step services terms p.job h.shared).1.report? with
    | none =>
      have hturn : turn services terms h a file = (h.worked services terms file p,
          a.note file (p.seat.step services terms p.job h.shared).1.waits) := by
        simp only [turn, hready, step_ready hready, hself]
        split
        · next heq =>
          simp only [Option.some.injEq, Desk.mk.injEq] at heq
          simp [heq.2.2, Seat.report?] at hopen
        · next heq => cases heq; rfl
        · next heq => cases heq
      obtain ⟨hclocked, hbudget⟩ := hc.work_on services terms hready hopen
      refine ⟨_, _, [.work file], hturn, ?_, ?_, ?_, fun hnil => ?_⟩
      · simp only [follow_cons, follow_nil, move, step_ready hready]
      · rw [Agenda.note_blocked]
        exact hclocked.perm (Agenda.note_files _ _ _)
      · rwa [budget_perm (Agenda.note_files _ _ _)]
      · have hperm := Agenda.note_files file (p.seat.step services terms p.job h.shared).1.waits a
        rw [hnil] at hperm
        exact absurd hperm.length_eq (by simp)
    | some r =>
      -- The permit that comes back goes to the file that has been blocked longest.
      have hout := Seat.report?_eq_some.1 hopen
      have hturn : turn services terms h a file
          = ((h.worked services terms file p).collect file, a.unblock) := by
        simp only [turn, hready, step_ready hready, hself, hout]
      obtain ⟨hclocked, hbudget⟩ := hc.work_out services terms hready hout
      refine ⟨_, _, [.work file, .collect file], hturn, ?_, ?_⟩
      · simp only [follow_cons, follow_nil, move, step_ready hready]
      · unfold Agenda.unblock
        split
        · next hnil => exact ⟨hclocked, by omega, fun _ => hnil⟩
        · next f rest hblocked =>
          have hperm : (Agenda.insert ⟨a.now, f, []⟩ a.turns |>.map (·.file)).Perm (f :: a.files) :=
            (Agenda.insert_perm _ _).map _
          rw [hblocked] at hclocked
          obtain ⟨hunblock, hmore⟩ := hclocked.unblock
          refine ⟨hunblock.perm hperm, ?_, fun hnil => ?_⟩
          · simp only [Agenda.files, budget_perm hperm] at hbudget hmore ⊢
            omega
          · simp only [Agenda.files] at hnil
            rw [hnil] at hperm
            exact absurd hperm.length_eq (by simp)

theorem runFor_follows (left : Nat) (h : Hall σ) (a : Agenda) (hc : h.Clocked a.files a.blocked)
    (hleft : h.budget a.files ≤ left) (hawake : a.files = [] → a.blocked = []) :
    ∃ moves, runFor services terms left h a = h.follow services terms moves ∧
      (runFor services terms left h a).isDone = true := by
  induction left, h, a using runFor.induct services terms with
  | case1 left h now blocked =>
    refine ⟨[], by rw [runFor]; rfl, ?_⟩
    rw [runFor]
    -- Whose report is to come has a turn or is blocked, and nobody is.
    have hnobody : ∀ e ∈ h.pending, False := fun e he => by
      obtain ⟨p, hp, -, hopen⟩ := hc.pending e he
      obtain ⟨i, hi, rfl⟩ := List.mem_iff_getElem.1 hp
      have hmem := (hc.files i).2 ⟨_, List.getElem?_eq_getElem hi, hopen⟩
      rw [show blocked = [] from hawake rfl] at hmem
      cases hmem
    exact List.isEmpty_iff.2 (List.eq_nil_iff_forall_not_mem.2 hnobody)
  | case2 left h now due file w waits turns blocked ih =>
    rw [runFor]
    have hperm : ((Agenda.insert ⟨due + w, file, waits⟩ turns).map (·.file)).Perm
        (file :: turns.map (·.file)) := (Agenda.insert_perm _ _).map _
    refine ih (hc.perm hperm) ((budget_perm hperm).trans_le hleft) fun hnil => ?_
    simp only [Agenda.files] at hnil
    rw [hnil] at hperm
    exact absurd hperm.length_eq (by simp)
  | case3 h now due file turns blocked =>
    -- A turn uses up some of the budget, so there is some left.
    obtain ⟨h', a', moves, -, -, -, hbudget, -⟩ :=
      turn_clocked services terms (a := ⟨due, turns, blocked⟩) hc
    exact absurd (hbudget.trans_le hleft) (Nat.not_lt_zero _)
  | case4 h now due file turns blocked left h' a' hturn ih =>
    obtain ⟨h'', a'', moves, hturn', hfollow, hclocked, hbudget, hawake'⟩ :=
      turn_clocked services terms (a := ⟨due, turns, blocked⟩) hc
    rw [hturn', Prod.mk.injEq] at hturn
    obtain ⟨rfl, rfl⟩ := hturn
    obtain ⟨moves', hmoves', hdone⟩ := ih hclocked (by
      have hlt : h''.budget a''.files < left + 1 := hbudget.trans_le hleft
      omega) hawake'
    rw [runFor, hturn']
    exact ⟨moves ++ moves', by rw [follow_append, ← hfollow]; exact hmoves', hdone⟩

theorem opened_desk {jobs : List (Nat × Job)} {permits : Nat} {s : Shared σ} {b : Book} {i : Nat}
    {p : Desk} (hp : (opened jobs permits s b).desks[i]? = some p) :
    ∃ e, jobs[i]? = some e ∧ p = ⟨e.1, e.2, .queued⟩ := by
  simp only [opened, List.getElem?_map, Option.map_eq_some_iff] at hp
  obtain ⟨e, he, rfl⟩ := hp
  exact ⟨e, he, rfl⟩

theorem opened_clocked (jobs : List (Nat × Job)) {permits : Nat} (hpermits : 0 < permits)
    (s : Shared σ) (b : Book) :
    (opened jobs permits s b).Clocked (List.range (opened jobs permits s b).desks.length) [] := by
  refine ⟨fun p hp => ?_, by simpa using List.nodup_range, fun i => ?_, by simp, ?_, fun e he => ?_⟩
  · obtain ⟨i, hi⟩ := List.getElem?_of_mem hp
    obtain ⟨e, -, rfl⟩ := opened_desk hi
    trivial
  · rw [List.append_nil, List.mem_range]
    constructor
    · intro hi
      obtain ⟨e, -, hp⟩ := opened_desk (List.getElem?_eq_getElem hi)
      exact ⟨_, List.getElem?_eq_getElem hi, by rw [hp]; rfl⟩
    · rintro ⟨p, hp, -⟩
      exact (List.getElem?_eq_some_iff.1 hp).1
  · exact Nat.add_pos_left hpermits _
  · simp only [opened, List.mem_map] at he ⊢
    obtain ⟨⟨index, j⟩, hmem, rfl⟩ := he
    exact ⟨_, ⟨_, hmem, rfl⟩, rfl, rfl⟩

theorem opened_budget (jobs : List (Nat × Job)) (permits : Nat) (s : Shared σ) (b : Book) :
    (opened jobs permits s b).budget (List.range (opened jobs permits s b).desks.length)
      ≤ (opened jobs permits s b).turnBound := by
  have hdue : ((opened jobs permits s b).desks.map Desk.due).sum
      + (opened jobs permits s b).desks.length
      = (opened jobs permits s b).turnBound := by
    simp only [opened, turnBound, List.map_map, List.length_map, List.foldr_map]
    induction jobs with
    | nil => rfl
    | cons e jobs ih =>
      have hdue : Desk.due ⟨e.1, e.2, .queued⟩ = Seat.stepBound e.2 + 1 := rfl
      simp only [List.map_cons, List.sum_cons, List.foldr_cons, Function.comp_apply,
        List.length_cons, hdue] at ih ⊢
      omega
  have hcount : (List.range (opened jobs permits s b).desks.length).countP
      (opened jobs permits s b).queuedAt ≤ _ := List.countP_le_length
  rw [List.length_range] at hcount
  unfold budget
  omega

/-- By the clock, a hall that opens with a permit gets every file done. -/
theorem run_follows (jobs : List (Nat × Job)) {permits : Nat} (hpermits : 0 < permits)
    (s : Shared σ) (b : Book) :
    ∃ moves, (opened jobs permits s b).run services terms
        = (opened jobs permits s b).follow services terms moves ∧
      ((opened jobs permits s b).run services terms).isDone = true := by
  have hfiles : (Agenda.mk 0 ((List.range (opened jobs permits s b).desks.length).map
      fun i => ⟨0, i, []⟩) []).files = List.range (opened jobs permits s b).desks.length := by
    simp [Agenda.files, Function.comp_def]
  refine runFor_follows _ _ _ _ _ ?_ ?_ fun _ => rfl
  · rw [hfiles]
    exact opened_clocked jobs hpermits s b
  · rw [hfiles]
    exact opened_budget jobs permits s b

end Hall
end Crosswalk
