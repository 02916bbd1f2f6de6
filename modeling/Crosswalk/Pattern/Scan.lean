import Crosswalk.Pattern.Matcher
import Crosswalk.Text.Utf8

namespace Crosswalk

inductive Piece where
  | plain (c : Char)
  | hit (m : Match)

def Piece.source : Piece → List Char
  | .plain c => [c]
  | .hit m => m.text

def Piece.match? : Piece → Option Match
  | .plain _ => none
  | .hit m => some m

namespace Pattern

/-- `skip` characters still belong to the last match; `closed` says that a match ended here. Matches
do not overlap, and an empty match directly behind another one does not count. -/
def scanFrom (p : Pattern) :
    (skip : Nat) → (closed : Bool) → (last : Option Char) → List Char → List Piece
  | 0, closed, last, [] =>
    match p.matchAt (.behind last []) with
    | some m => if closed then [] else [.hit m]
    | none => []
  | _ + 1, _, _, [] => []
  | skip + 1, _, _, c :: after => scanFrom p skip true (some c) after
  | 0, closed, last, c :: after =>
    match p.matchAt (.behind last (c :: after)) with
    | none => .plain c :: scanFrom p 0 false (some c) after
    | some m =>
      match m.text.length with
      | 0 => (if closed then [] else [.hit m]) ++ .plain c :: scanFrom p 0 false (some c) after
      | n + 1 => .hit m :: scanFrom p n true (some c) after

def scan (p : Pattern) (s : List Char) : List Piece := p.scanFrom 0 false none s

def findAll (p : Pattern) (s : List Char) : List Match := (p.scan s).filterMap Piece.match?

def located (offset : Nat) : List Piece → List (Nat × Match)
  | [] => []
  | .plain c :: rest => located (offset + c.utf8Size) rest
  | .hit m :: rest => (offset, m) :: located (offset + Text.byteLength m.text) rest

def replaceAll (p : Pattern) (f : Match → List Char) (s : List Char) : List Char :=
  (p.scan s).flatMap fun
    | .plain c => [c]
    | .hit m => f m

end Pattern

end Crosswalk
