import Crosswalk.Batch.Hall

namespace Crosswalk

namespace Hall

variable {σ : Type}

/-- The next turn of a file: when it is due, and what the file waits for after that. -/
structure Turn where
  due : Nat
  file : Nat
  waits : List Nat

structure Agenda where
  now : Nat
  turns : List Turn
  blocked : List Nat

namespace Agenda

/-- Turns that are due earlier, or equally early but noted before, come first. -/
def insert (t : Turn) : List Turn → List Turn
  | [] => [t]
  | u :: rest => if t.due < u.due then t :: u :: rest else u :: insert t rest

def note (file : Nat) (waits : List Nat) (a : Agenda) : Agenda :=
  match waits.filter (· != 0) with
  | [] => { a with turns := ⟨a.now, file, []⟩ :: a.turns }
  | w :: rest => { a with turns := insert ⟨a.now + w, file, rest⟩ a.turns }

/-- The file that has been blocked longest gets a turn behind all that are due now. -/
def unblock (a : Agenda) : Agenda :=
  match a.blocked with
  | [] => a
  | file :: rest => { a with turns := insert ⟨a.now, file, []⟩ a.turns, blocked := rest }

end Agenda

/-- Who has waited longest goes first, a file that found no permit waits until another one settles,
and every report is collected at once. -/
def turn (services : Services σ) (terms : Terms) (h : Hall σ) (a : Agenda) (file : Nat) :
    Hall σ × Agenda :=
  match h.ready? file with
  | none => (h, { a with blocked := a.blocked ++ [file] })
  | some _ =>
    let h := h.step services terms file
    match h.desks[file]? with
    | some ⟨_, _, .settled _⟩ => (h.collect file, a.unblock)
    | some p => (h, a.note file p.seat.waits)
    | none => (h, a)

def waitsLeft : List Turn → Nat
  | [] => 0
  | t :: turns => t.waits.length + waitsLeft turns

theorem waitsLeft_insert (t : Turn) (turns : List Turn) :
    waitsLeft (Agenda.insert t turns) = t.waits.length + waitsLeft turns := by
  induction turns with
  | nil => rfl
  | cons u rest ih =>
    unfold Agenda.insert
    split
    · rfl
    · simp only [waitsLeft, ih]
      omega

/-- Turns by the clock until none is left. A turn either passes one wait of a file or uses up one of
the turns that are left. -/
def runFor (services : Services σ) (terms : Terms) (left : Nat) (h : Hall σ) (a : Agenda) :
    Hall σ :=
  match a with
  | ⟨_, [], _⟩ => h
  | ⟨_, ⟨due, file, w :: waits⟩ :: turns, blocked⟩ =>
    runFor services terms left h ⟨due, Agenda.insert ⟨due + w, file, waits⟩ turns, blocked⟩
  | ⟨_, ⟨due, file, []⟩ :: turns, blocked⟩ =>
    match left with
    | 0 => h
    | left + 1 =>
      let (h, a) := turn services terms h ⟨due, turns, blocked⟩ file
      runFor services terms left h a
termination_by (left, waitsLeft a.turns)
decreasing_by
  · apply Prod.Lex.right
    simp only [waitsLeft, waitsLeft_insert, List.length_cons]
    omega
  · exact Prod.Lex.left _ _ (Nat.lt_succ_self _)

/-- A file may find no permit when the hall opens, and once more after each file that settles. -/
def turnBound (h : Hall σ) : Nat := h.desks.foldr (fun p n => Seat.stepBound p.job + 2 + n) 0

def run (services : Services σ) (terms : Terms) (h : Hall σ) : Hall σ :=
  runFor services terms h.turnBound h
    ⟨0, (List.range h.desks.length).map fun i => ⟨0, i, []⟩, []⟩

end Hall

end Crosswalk
