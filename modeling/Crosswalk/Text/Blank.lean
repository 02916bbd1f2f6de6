namespace Crosswalk.Text

/-- Closed ranges of code points that are white space, ascending and apart. -/
def blankRanges : List (Nat × Nat) :=
  [(0x09, 0x0D), (0x20, 0x20), (0x85, 0x85), (0xA0, 0xA0), (0x1680, 0x1680), (0x2000, 0x200A),
   (0x2028, 0x2029), (0x202F, 0x202F), (0x205F, 0x205F), (0x3000, 0x3000)]

def isBlank (c : Char) : Bool := blankRanges.any (fun r => r.1 ≤ c.toNat && c.toNat ≤ r.2)

def trimStart (s : List Char) : List Char := s.dropWhile isBlank

def trimEnd (s : List Char) : List Char := (s.reverse.dropWhile isBlank).reverse

def trim (s : List Char) : List Char := trimEnd (trimStart s)

def allBlank (s : List Char) : Bool := s.all isBlank

def splitAtChar (sep : Char) : List Char → List (List Char)
  | [] => [[]]
  | c :: r =>
    if c = sep then [] :: splitAtChar sep r
    else
      match splitAtChar sep r with
      | [] => [[c]]
      | piece :: rest => (c :: piece) :: rest

/-- One carriage return at the end belongs to the line feed that followed. -/
def dropReturn (line : List Char) : List Char :=
  match line.getLast? with
  | some '\r' => line.dropLast
  | _ => line

def unterminated : List (List Char) → List (List Char) × List Char
  | [] => ([], [])
  | [last] => ([], last)
  | piece :: rest =>
    let (closed, last) := unterminated rest
    (piece :: closed, last)

/-- The lines of a text. A final line feed opens no further line, and only a line that was closed
by a line feed gives up its carriage return. -/
def lines (s : List Char) : List (List Char) :=
  let (closed, last) := unterminated (splitAtChar '\n' s)
  closed.map dropReturn ++ if last.isEmpty then [] else [last]

end Crosswalk.Text
