import Crosswalk.Pattern.Basic

namespace Crosswalk

abbrev Captures := List (Nat × Place × Place)

namespace Pattern

variable {α : Type}

def runMany (member : Char → Bool) (k : Place → Option α) : List Char → List Char → Option α
  | before, [] => k ⟨before, []⟩
  | before, c :: after =>
    if member c then runMany member k (c :: before) after <|> k ⟨before, c :: after⟩
    else k ⟨before, c :: after⟩

def runStar (body : Place → Captures → (Place → Captures → Option α) → Option α)
    (k : Place → Captures → Option α) : Nat → Place → Captures → Option α
  | 0, p, caps => k p caps
  | n + 1, p, caps => body p caps (runStar body k n) <|> k p caps

/-- Every place where the pattern can end is handed to the continuation, in order of preference, and
the first answer is kept. A repetition cannot go round more often than there are characters left. -/
def run : Pattern → Place → Captures → (Place → Captures → Option α) → Option α
  | .empty, p, caps, k => k p caps
  | .one member, p, caps, k =>
    match p.after with
    | [] => none
    | c :: after => if member c then k ⟨c :: p.before, after⟩ caps else none
  | .seq a b, p, caps, k => run a p caps fun q caps => run b q caps k
  | .alt a b, p, caps, k => run a p caps k <|> run b p caps k
  | .many member, p, caps, k => runMany member (fun q => k q caps) p.before p.after
  | .star a, p, caps, k => runStar (run a) k p.after.length p caps
  | .group i a, p, caps, k => run a p caps fun q caps => k q ((i, p, q) :: caps)
  | .boundary, p, caps, k => if p.atBoundary then k p caps else none
  | .lineStart, p, caps, k => if p.atLineStart then k p caps else none
  | .textStart, p, caps, k => if p.before.isEmpty then k p caps else none
  | .textEnd, p, caps, k => if p.after.isEmpty then k p caps else none

end Pattern

structure Match where
  start : Place
  stop : Place
  captures : Captures

namespace Match

def text (m : Match) : List Char := m.start.since m.stop

def group? (m : Match) (i : Nat) : Option (List Char) :=
  (m.captures.find? (·.1 == i)).map fun c => c.2.1.since c.2.2

def firstGroup? (m : Match) : Option (List Char) :=
  (m.captures.map (·.1)).min?.bind m.group?

end Match

namespace Pattern

def matchAt (p : Pattern) (start : Place) : Option Match :=
  p.run start [] fun stop caps => some ⟨start, stop, caps⟩

/-- The first match at or after a place. A match looks back at one character at most. -/
def findFrom (p : Pattern) : (last : Option Char) → List Char → Option Match
  | last, [] => p.matchAt (.behind last [])
  | last, c :: after => p.matchAt (.behind last (c :: after)) <|> findFrom p (some c) after

def find? (p : Pattern) (s : List Char) : Option Match := p.findFrom none s

def occursIn (p : Pattern) (s : List Char) : Bool := (p.find? s).isSome

end Pattern

end Crosswalk
