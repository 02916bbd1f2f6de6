import Crosswalk.Pattern.Scan
import Crosswalk.Rules.Declarations

namespace Crosswalk.Rules

open Pattern

def isQuoteMark (c : Char) : Bool := c == '\'' || c == '"'

def isFenceTag (c : Char) : Bool :=
  c.isAlphanum || c == '_' || c == '+' || c == '#' || c == '.' || c == '-'

def codeFence : Pattern := .seq (text "\x60\x60\x60") (.many isFenceTag)

def lineKeywords : List String :=
  ["let", "var", "val", "return", "if", "else", "case", "switch", "guard", "when", "import", "func",
    "fun", "private", "public", "internal", "fileprivate", "open", "final", "static", "override",
    "abstract", "lateinit", "const", "typealias", "class", "object", "struct", "enum", "protocol",
    "interface", "extension", "actor", "sealed", "data"]

def isClosing (c : Char) : Bool :=
  c == '\x7b' || c == '\x7d' || c == ';' || c == ')' || c == ']'

def isTypeChar (c : Char) : Bool :=
  Text.isWord c || c == '<' || c == '>' || c == '?' || c == '[' || c == ']' || c == ',' || c == ' '
    || c == '.'

def isDotted (c : Char) : Bool := Text.isWord c || c == '.'

def assignment : Pattern :=
  sequence [.textStart, .one isIdentifierStart, .many isDotted,
    optional (sequence [blanks, char ':', blanks, atLeastOne isTypeChar]), blanks,
    optional (.one fun c => c == '-' || c == '+' || c == '*' || c == '/'),
    char '=', .one (· != '=')]

/-- A line that reads as code: a comment, an attribute, a declaration, a statement, the end of a
block, or an assignment. -/
def codeLikeLine : Pattern :=
  anyOf [
    .seq .textStart
      (anyOf [texts ["//", "/*", "*", "@", "#"], .seq (texts lineKeywords) .boundary]),
    .seq (.one isClosing) .textEnd,
    assignment]

def optionalQuote : Pattern := optional (.one isQuoteMark)

/-- A complaint that only says that some module is not there. -/
def moduleNotFound : Pattern :=
  anyOf [
    caselessText "no such module",
    sequence [caselessText "module ", optionalQuote, atLeastOne isDotted, optionalQuote,
      caselessText " not found"],
    caselessText "unresolved import",
    caselessText "cannot find module",
    caselessText "could not find module",
    sequence [caselessText "unresolved reference", optional (char ':'), blanks, optionalQuote,
      anyOf (["android", "androidx", "kotlinx", "dagger", "hilt", "retrofit", "okhttp"].map
        caselessText),
      .boundary]]

end Crosswalk.Rules
