import Crosswalk.Text.Blank
import Crosswalk.Text.Digits
import Crosswalk.Text.Letters
import Crosswalk.Text.Search
import Crosswalk.Text.Utf8

namespace Crosswalk.Http

structure Address where
  secure : Bool
  server : String
  target : String
deriving DecidableEq, Repr

namespace Address

def isControl (c : Char) : Bool := c.toNat < 0x20 || c.toNat == 0x7F

def tidy (s : List Char) : List Char :=
  let blank (c : Char) : Bool := c.toNat ≤ 0x20
  let trimmed := ((s.dropWhile blank).reverse.dropWhile blank).reverse
  trimmed.filter fun c => c != '\t' && c != '\n' && c != '\r'

def scheme? (s : List Char) : Option (Bool × List Char) :=
  let named := s.takeWhile (· != ':')
  let rest := (s.dropWhile (· != ':')).drop 1
  if named.length = s.length then none
  else
    match Text.asciiLowerText (String.ofList named) with
    | "http" => some (false, rest)
    | "https" => some (true, rest)
    | _ => none

def isSlash (c : Char) : Bool := c == '/' || c == '\\'

def endsServer (c : Char) : Bool := isSlash c || c == '?' || c == '#'

def notInHost (c : Char) : Bool := isControl c || " #/<>?@[\\]^|%".toList.contains c

/-- A host listens under the number of the scheme if no other is named. -/
def server? (secure : Bool) (s : List Char) : Option String :=
  let host := s.takeWhile (· != ':')
  let digits := (s.dropWhile (· != ':')).drop 1
  let number := if digits.isEmpty then (if secure then 443 else 80) else Text.natOfDigits digits
  if host.isEmpty || host.any notInHost || !digits.all Text.isDigit || 0xFFFF < number then none
  else some (Text.asciiLowerText (String.ofList host) ++ ":" ++ toString number)

def escaped (c : Char) : List Char :=
  (Text.toBytes (String.singleton c)).flatMap fun b =>
    ['%', Text.upperHexDigit (b.toNat / 16), Text.upperHexDigit (b.toNat % 16)]

def escape (unsendable : List Char) (s : List Char) : List Char :=
  s.flatMap fun c =>
    if isControl c || 0x7F < c.toNat || unsendable.contains c then escaped c else [c]

def dots (segment : String) : String :=
  String.ofList (Text.replaceAll "%2e".toList ['.'] (segment.toList.map Text.asciiLower))

/-- Follow the dots of a path. A path never leads above its root, and dots at its end leave a
directory. -/
def followDots : (before segments : List String) → List String
  | before, [] => before
  | before, [s] =>
    if dots s = ".." then before.dropLast ++ [""]
    else if dots s = "." then before ++ [""]
    else before ++ [s]
  | before, s :: rest =>
    if dots s = ".." then followDots before.dropLast rest
    else if dots s = "." then followDots before rest
    else followDots (before ++ [s]) rest

def notInPath : List Char := " \"<>\x60\x7b\x7d".toList

def path (s : List Char) : String :=
  let s := (if s.head?.any isSlash then s.drop 1 else s).map fun c => if c == '\\' then '/' else c
  let segments := (Text.splitAtChar '/' s).map fun p => String.ofList (escape notInPath p)
  "/" ++ "/".intercalate (followDots [] segments)

def query (s : List Char) : String :=
  match s with
  | '?' :: s => "?" ++ String.ofList (escape " \"<>'".toList s)
  | _ => ""

/-- An address that can be called. What follows a number sign is not sent. -/
def parse? (text : String) : Option Address := do
  let (secure, rest) ← scheme? (tidy text.toList)
  let rest := (rest.dropWhile isSlash).takeWhile (· != '#')
  let authority := rest.takeWhile fun c => !endsServer c
  let rest := rest.drop authority.length
  let host := (Text.splitAfterLast? '@' authority).elim authority (·.2)
  let server ← server? secure host
  some ⟨secure, server, path (rest.takeWhile (· != '?')) ++ query (rest.dropWhile (· != '?'))⟩

end Address

end Crosswalk.Http
