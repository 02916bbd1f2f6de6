namespace Crosswalk.Text

def asciiLower (c : Char) : Char := c.toLower

/-- The Kelvin sign lowers to `k`; a capital I with a dot lowers to `i` and a combining dot. -/
def keywordLowerChar (c : Char) : List Char :=
  if c = '\u212a' then ['k']
  else if c = '\u0130' then ['i', '\u0307']
  else [c.toLower]

def keywordLower (s : List Char) : List Char := s.flatMap keywordLowerChar

def asciiLowerText (s : String) : String := s.map asciiLower

/-- The characters that simple case folding identifies with an ASCII letter: its other case, and
the long s and the Kelvin sign. -/
def foldsTo (letter c : Char) : Bool :=
  c.toLower = letter.toLower
    || (letter.toLower = 's' && c = '\u017f')
    || (letter.toLower = 'k' && c = '\u212a')

end Crosswalk.Text
