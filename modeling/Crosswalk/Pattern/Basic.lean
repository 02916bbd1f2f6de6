import Crosswalk.Text.Blank
import Crosswalk.Text.Letters
import Crosswalk.Text.Word

namespace Crosswalk

/-- A place in a text: what lies before it, nearest character first, as far back as anybody looks,
and what lies after it. -/
structure Place where
  before : List Char
  after : List Char

namespace Place

def behind (last : Option Char) (s : List Char) : Place := ⟨last.toList, s⟩

def atBoundary (p : Place) : Bool := Text.isBoundary p.before.head? p.after.head?

/-- Only a line feed opens a line. -/
def atLineStart (p : Place) : Bool := p.before.head?.all (· == '\n')

def since (start stop : Place) : List Char :=
  (stop.before.take (stop.before.length - start.before.length)).reverse

end Place

inductive Pattern where
  | empty
  | one (member : Char → Bool)
  | seq (p q : Pattern)
  | alt (p q : Pattern)
  /-- As many characters of a set as the rest of the pattern allows. -/
  | many (member : Char → Bool)
  /-- As many repetitions as the rest of the pattern allows. The body must take a character. -/
  | star (p : Pattern)
  | group (index : Nat) (p : Pattern)
  | boundary
  | lineStart
  | textStart
  | textEnd

namespace Pattern

def char (c : Char) : Pattern := .one (· == c)

def sequence : List Pattern → Pattern
  | [] => .empty
  | [p] => p
  | p :: rest => .seq p (sequence rest)

def anyOf : List Pattern → Pattern
  | [] => .one fun _ => false
  | [p] => p
  | p :: rest => .alt p (anyOf rest)

def text (s : String) : Pattern := sequence (s.toList.map char)

def caselessText (s : String) : Pattern := sequence (s.toList.map fun l => .one (Text.foldsTo l))

def texts (alternatives : List String) : Pattern := anyOf (alternatives.map text)

def optional (p : Pattern) : Pattern := .alt p .empty

def atLeastOne (member : Char → Bool) : Pattern := .seq (.one member) (.many member)

def blanks : Pattern := .many Text.isBlank

def someBlanks : Pattern := atLeastOne Text.isBlank

end Pattern

end Crosswalk
