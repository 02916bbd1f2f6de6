import Crosswalk.Conversion.Seat

namespace Crosswalk

abbrev Entry := Except Failed Converted

namespace Entry

def result? : Entry → Option Converted
  | .ok c => some c
  | .error _ => none

def failure? : Entry → Option Failed
  | .ok _ => none
  | .error f => some f

end Entry

structure Tally where
  totalFiles : Nat := 0
  sequentialFiles : Nat := 0
  parallelFiles : Nat := 0
  verified : Nat := 0
  exhausted : Nat := 0
  placeholders : Nat := 0
  errors : Nat := 0
  totalAttempts : Nat := 0
deriving DecidableEq, Repr

namespace Tally

/-- A placeholder is not counted as exhausted. -/
def add (t : Tally) (o : Outcome) : Tally :=
  { t with
    totalAttempts := t.totalAttempts + o.result.attempts
    verified := t.verified + if o.result.verified then 1 else 0
    placeholders := t.placeholders + if o.result.placeholder then 1 else 0
    exhausted := t.exhausted + if !o.result.placeholder && o.exhausted then 1 else 0 }

def addReport (t : Tally) : Report → Tally
  | .converted o => t.add o
  | .escaped _ | .broken _ => t

def encode (t : Tally) : Value :=
  .object [
    ("total_files", .nat t.totalFiles),
    ("sequential_files", .nat t.sequentialFiles),
    ("parallel_files", .nat t.parallelFiles),
    ("verified", .nat t.verified),
    ("exhausted", .nat t.exhausted),
    ("placeholders", .nat t.placeholders),
    ("errors", .nat t.errors),
    ("total_attempts", .nat t.totalAttempts)]

end Tally

def Failed.ofTask (path reason : String) : Failed :=
  ⟨path, (RunFault.taskFailed path reason).message⟩

def Report.settle (path : String) : Report → Entry
  | .converted o => .ok o.result
  | .escaped fault => .error ⟨path, (RunFault.oracle fault).message⟩
  | .broken reason => .error (.ofTask path reason)

/-- A file with its number among the inputs and the state of its work. -/
structure Desk where
  index : Nat
  job : Job
  seat : Seat

/-- A slot for every input, filled when the file has its report, and the counts. -/
structure Book where
  slots : List (Option Entry)
  tally : Tally

namespace Book

def blank (inputs sequential parallel : Nat) : Book where
  slots := List.replicate inputs none
  tally := {
    totalFiles := inputs
    sequentialFiles := sequential
    parallelFiles := parallel }

def settle (b : Book) (index : Nat) (path : String) (r : Report) : Book where
  slots := b.slots.set index (some (r.settle path))
  tally := b.tally.addReport r

def enter (b : Book) (p : Desk) : Book :=
  match p.seat with
  | .settled r => b.settle p.index p.job.source.path r
  | _ => b

/-- An input with an empty slot is a failure, too. -/
def entries (b : Book) (files : List Source) : List Entry :=
  (files.zip b.slots).map fun f =>
    f.2.getD ((Report.broken "no outcome recorded").settle f.1.path)

end Book

end Crosswalk
