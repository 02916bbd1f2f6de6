namespace Crosswalk

/-- What a piece of work does next: it ends, breaks down, lets time pass, or looks at the world or
changes it. -/
inductive Work (σ α : Type) where
  | done (a : α)
  | broken (reason : String)
  | never
  | wait (ms : Nat) (rest : Work σ α)
  | look (next : σ → Work σ α)
  | change (world : σ) (rest : Work σ α)

inductive Ending (α : Type) where
  | finished (a : α)
  | broken (reason : String)
deriving DecidableEq

structure Call (α : Type) where
  waits : List Nat
  ending : Ending α

namespace Work

variable {σ α β : Type}

def bind : Work σ α → (α → Work σ β) → Work σ β
  | done a, f => f a
  | broken reason, _ => broken reason
  | never, _ => never
  | wait ms rest, f => wait ms (rest.bind f)
  | look next, f => look fun s => (next s).bind f
  | change s rest, f => change s (rest.bind f)

instance : Monad (Work σ) where
  pure := done
  bind := bind

/-- After `limit` milliseconds the work is dropped and `late` is the result. Work that ends at the
limit is not late. -/
def within (limit : Nat) (late : α) : Work σ α → Work σ α
  | wait ms rest =>
    if ms ≤ limit then wait ms (within (limit - ms) late rest) else wait limit (done late)
  | never => wait limit (done late)
  | look next => look fun s => within limit late (next s)
  | change s rest => change s (within limit late rest)
  | done a => done a
  | broken reason => broken reason

def call (limit : Nat) (late : α) : Work σ α → σ → Call α × σ
  | done a, s => (⟨[], .finished a⟩, s)
  | broken reason, s => (⟨[], .broken reason⟩, s)
  | never, s => (⟨[limit], .finished late⟩, s)
  | wait ms rest, s =>
    if ms ≤ limit then
      let (c, s) := call (limit - ms) late rest s
      (⟨ms :: c.waits, c.ending⟩, s)
    else (⟨[limit], .finished late⟩, s)
  | look next, s => call limit late (next s) s
  | change s rest, _ => call limit late rest s

/-- The ending of work without a limit. `none` is work that never ends. -/
def ending? : Work σ α → σ → Option (Ending α) × σ
  | done a, s => (some (.finished a), s)
  | broken reason, s => (some (.broken reason), s)
  | never, s => (none, s)
  | wait _ rest, s => ending? rest s
  | look next, s => ending? (next s) s
  | change s rest, _ => ending? rest s

end Work

end Crosswalk
