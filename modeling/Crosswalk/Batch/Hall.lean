import Crosswalk.Batch.Book

namespace Crosswalk

/-- Files that are converted at the same time. -/
structure Hall (σ : Type) where
  desks : List Desk
  permits : Nat
  shared : Shared σ
  /-- Numbers and paths of the files whose reports are still to come. -/
  pending : List (Nat × String)
  book : Book

/-- The file at a position takes its next step, or its report is entered into the book. -/
inductive Move where
  | work (position : Nat)
  | collect (position : Nat)
deriving DecidableEq, Repr

namespace Hall

variable {σ : Type}

def opened (jobs : List (Nat × Job)) (permits : Nat) (s : Shared σ) (b : Book) : Hall σ where
  desks := jobs.map fun (index, j) => ⟨index, j, .queued⟩
  permits
  shared := s
  pending := jobs.map fun (index, j) => (index, j.source.path)
  book := b

def atWork : Seat → Bool
  | .asking _ _ | .checking _ _ _ _ => true
  | .queued | .settled _ => false

/-- A file that starts takes a permit, one that settles gives it back. -/
def permitsAfter (permits : Nat) (old new : Seat) : Nat :=
  match atWork old, atWork new with
  | false, true => permits - 1
  | true, false => permits + 1
  | _, _ => permits

/-- The file that can take a step: it is not settled, and does not wait while every permit is out. -/
def ready? (h : Hall σ) (position : Nat) : Option Desk :=
  h.desks[position]?.filter fun p =>
    p.seat.report?.isNone && (atWork p.seat || h.permits != 0)

def step (services : Services σ) (terms : Terms) (h : Hall σ) (position : Nat) : Hall σ :=
  match h.ready? position with
  | none => h
  | some p =>
    let (seat, shared) := p.seat.step services terms p.job h.shared
    { h with
      desks := h.desks.set position { p with seat }
      permits := permitsAfter h.permits p.seat seat
      shared }

def isPending (h : Hall σ) (index : Nat) : Bool := h.pending.any (·.1 == index)

def collect (h : Hall σ) (position : Nat) : Hall σ :=
  match h.desks[position]? with
  | some ⟨index, j, .settled r⟩ =>
    if h.isPending index then
      { h with
        pending := h.pending.filter (·.1 != index)
        book := h.book.settle index j.source.path r }
    else h
  | _ => h

def move (services : Services σ) (terms : Terms) (h : Hall σ) : Move → Hall σ
  | .work position => h.step services terms position
  | .collect position => h.collect position

def follow (services : Services σ) (terms : Terms) (h : Hall σ) (moves : List Move) : Hall σ :=
  moves.foldl (move services terms) h

def isDone (h : Hall σ) : Bool := h.pending.isEmpty

/-- The book when nothing more happens: a file whose report did not come is a failure. -/
def close (h : Hall σ) : Book :=
  h.pending.foldl (fun b e => b.settle e.1 e.2 (.broken "task cancelled")) h.book

end Hall

end Crosswalk
