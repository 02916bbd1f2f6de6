import Crosswalk.Files.Tree
import Crosswalk.Names.Table
import Crosswalk.Text.Search
import Crosswalk.Text.Utf8
import Crosswalk.Text.Word

namespace Crosswalk

abbrev Environment := Table String

namespace Environment

/-- The environment in a block of entries `NAME=value`, each ended by a zero byte. -/
def ofBlock (block : Bytes) : Environment :=
  let entry (bytes : Bytes) : String × String :=
    let isName (b : UInt8) : Bool := b != 0x3D
    (Text.ofBytesLossy (bytes.takeWhile isName),
      Text.ofBytesLossy ((bytes.dropWhile isName).drop 1))
  Table.ofList (((block.splitOn 0).filter fun bytes => !bytes.isEmpty).map entry)

inductive Spot where
  | plain
  | blank
  | escape
  | weak
  | weakEscape
  | strong
  | strongEscape
deriving DecidableEq

def Spot.next (s : Spot) (c : Char) : Spot :=
  match s with
  | .plain =>
    if Text.isBlank c && c != '\n' && c != '\r' then .blank else opening c
  | .blank => opening c
  | .escape => .plain
  | .weak => if c = '\\' then .weakEscape else if c = '"' then .plain else .weak
  | .weakEscape => .weak
  | .strong => if c = '\\' then .strongEscape else if c = '\'' then .plain else .strong
  | .strongEscape => .strong
where
  opening (c : Char) : Spot :=
    if c = '\\' then .escape
    else if c = '"' then .weak
    else if c = '\'' then .strong
    else .plain

def scan : Spot → List Char → List Char × Option Spot
  | s, [] => ([], some s)
  | s, c :: rest =>
    if s = .blank ∧ c = '#' then ([], none)
    else
      let (kept, last) := scan (s.next c) rest
      (c :: kept, last)

def rawLines : List Char → List (List Char)
  | [] => []
  | c :: rest =>
    if c = '\n' then [c] :: rawLines rest
    else
      match rawLines rest with
      | [] => [[c]]
      | line :: lines => (c :: line) :: lines

def dropLineEnd (line : List Char) : List Char :=
  match line.reverse with
  | '\n' :: '\r' :: rest => rest.reverse
  | '\n' :: rest => rest.reverse
  | _ => line

/-- Put lines together where quotes go on. `none` stands for quotes that are never closed. -/
def statements (begun : List Char) (s : Spot) : List (List Char) → List (Option (List Char))
  | [] => if s = .plain then [] else [none]
  | line :: rest =>
    let all := begun ++ line
    if (Text.trimStart all).head? = some '#' then some [] :: statements [] .plain rest
    else
      match scan s line with
      | (kept, none) => some (begun ++ kept) :: statements [] .plain rest
      | (_, some .plain) => some (dropLineEnd all) :: statements [] .plain rest
      | (_, some s) => statements all s rest

def isNameLetter (c : Char) : Bool := Text.isWord c && c != '_'

def valueOf (env : Environment) (name : List Char) : List Char :=
  ((env.get? (String.ofList name)).getD "").toList

def escaped? (c : Char) : Option Char :=
  if c = 'n' then some '\n' else if "\\'\"$ ".toList.contains c then some c else none

def endsWell (rest : List Char) : Bool :=
  match rest.dropWhile fun c => c == ' ' || c == '\t' with
  | [] => true
  | c :: _ => c == '#'

mutual

def readValue? (env : Environment) (quoted : Bool) : List Char → Option (List Char)
  | [] => if quoted then none else some []
  | c :: rest =>
    if c = '$' then readName? env quoted [] rest
    else if c = '\\' then readEscape? env quoted rest
    else if c = '"' then readValue? env (!quoted) rest
    else if quoted then (readValue? env true rest).map (c :: ·)
    else if c = '\'' then readStrong? env rest
    else if c = ' ' || c = '\t' then (if endsWell rest then some [] else none)
    else (readValue? env false rest).map (c :: ·)

def readEscape? (env : Environment) (quoted : Bool) : List Char → Option (List Char)
  | [] => if quoted then none else some []
  | c :: rest =>
    match escaped? c with
    | some c => (readValue? env quoted rest).map (c :: ·)
    | none => none

def readStrong? (env : Environment) : List Char → Option (List Char)
  | [] => none
  | c :: rest =>
    if c = '\'' then readValue? env false rest else (readStrong? env rest).map (c :: ·)

def readName? (env : Environment) (quoted : Bool) (name : List Char) :
    List Char → Option (List Char)
  | [] => if quoted then none else some (valueOf env name)
  | c :: rest =>
    if isNameLetter c then readName? env quoted (name ++ [c]) rest
    else if c = '\x7b' ∧ name = [] then readBraced? env quoted [] rest
    else
      let following :=
        if c = '$' then readName? env quoted [] rest
        else (readValue? env quoted rest).map (c :: ·)
      following.map (valueOf env name ++ ·)

def readBraced? (env : Environment) (quoted : Bool) (name : List Char) :
    List Char → Option (List Char)
  | [] => none
  | c :: rest =>
    if c = '\x7d' then (readValue? env quoted rest).map (valueOf env name ++ ·)
    else readBraced? env quoted (name ++ [c]) rest

end

def startsName (c : Char) : Bool := c.isAlpha || c == '_'

def inName (c : Char) : Bool := c.isAlphanum || c == '_' || c == '.'

def name? (s : List Char) : Option (List Char × List Char) :=
  if s.head?.any startsName then
    some (s.takeWhile inName, Text.trimStart (s.dropWhile inName))
  else none

def target? (s : List Char) : Option (List Char × List Char) := do
  let (name, rest) ← name? s
  match rest with
  | '=' :: rest => some (name, rest)
  | _ =>
    if name = "export".toList then
      let (name, rest) ← name? rest
      match rest with
      | '=' :: rest => some (name, rest)
      | _ => none
    else none

def isNothing (s : List Char) : Bool := s.isEmpty || s.head? == some '#'

/-- The variable that a statement sets, if any. The outer `none` stands for a statement that makes
no sense. -/
def readStatement? (env : Environment) (statement : List Char) :
    Option (Option (String × String)) :=
  let s := Text.trimStart (Text.trimEnd statement)
  if isNothing s then some none
  else do
    let (name, rest) ← target? s
    let rest := Text.trimStart rest
    let value ← if isNothing rest then some [] else readValue? env false rest
    some (some (String.ofList name, String.ofList value))

/-- Variables that are set already keep their values. -/
def addStatements (env : Environment) : List (Option (List Char)) → Environment
  | some statement :: rest =>
    match readStatement? env statement with
    | some (some (name, value)) => addStatements (env.insertNew name value) rest
    | some none => addStatements env rest
    | none => env
  | _ => env

/-- The lines in front of the first one that is no text. -/
def textOf (bytes : Bytes) : List Char :=
  let chars := Text.decode bytes
  let good := (chars.takeWhile Option.isSome).filterMap id
  if good.length = chars.length then good
  else (good.reverse.dropWhile (· != '\n')).reverse

def addText (env : Environment) (text : List Char) : Environment :=
  addStatements env (statements [] .plain (rawLines ((Text.afterStart? ['\ufeff'] text).getD text)))

def fileName : String := ".env"

def withFile (env : Environment) (files : Tree) : Environment :=
  match files.read fileName with
  | .ok bytes => env.addText (textOf bytes)
  | .error _ => env

end Environment

end Crosswalk
