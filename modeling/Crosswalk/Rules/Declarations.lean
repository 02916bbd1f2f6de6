import Crosswalk.Pattern.Scan

namespace Crosswalk.Rules

open Pattern

def isUpper (c : Char) : Bool := 'A' ≤ c && c ≤ 'Z'

def isIdentifierStart (c : Char) : Bool := c.isAlpha || c == '_'

def isIdentifierChar (c : Char) : Bool := c.isAlphanum || c == '_'

def identifier : Pattern := .seq (.one isIdentifierStart) (.many isIdentifierChar)

def typeKeywords : List String :=
  ["class", "struct", "interface", "protocol", "enum", "object", "actor"]

def typeDeclaration : Pattern :=
  sequence [.boundary, texts typeKeywords, someBlanks,
    .group 1 (.seq (.one isUpper) (.many isIdentifierChar))]

def functionDeclaration : Pattern :=
  sequence [.boundary, texts ["fun", "func"], someBlanks,
    optional (sequence [char '<', .many (· != '>'), char '>', blanks]),
    optional (.seq identifier (char '.')),
    .group 1 identifier, blanks, .one fun c => c == '(' || c == '<']

def stateDeclaration : Pattern :=
  sequence [.boundary, texts ["val", "var", "let"], someBlanks, .group 1 identifier]

def literal (index : Nat) : Pattern :=
  sequence [char '"', .group index (atLeastOne (· != '"')), char '"']

def callWithLiteral (callee : Pattern) (index : Nat) : Pattern :=
  sequence [callee, char '(', blanks, literal index]

def persistedKey : Pattern :=
  anyOf [
    callWithLiteral (.seq (texts ["get", "put"])
      (texts ["String", "Int", "Boolean", "Long", "Float", "StringSet"])) 1,
    sequence [text "forKey:", blanks, literal 2],
    callWithLiteral (text "@AppStorage") 3,
    callWithLiteral (text "PreferencesKey") 4,
    callWithLiteral (text "getSharedPreferences") 5]

def payloadKey : Pattern :=
  anyOf [
    callWithLiteral (text "putExtra") 1,
    callWithLiteral (sequence [text "get",
      texts ["String", "Int", "Boolean", "Long", "Parcelable", "Serializable"], text "Extra"]) 2,
    sequence [text "userInfo", optional (char '?'), char '[', blanks, literal 3, char ']'],
    callWithLiteral (texts ["getQueryParameter", "queryParameter"]) 4,
    sequence [text "URLQueryItem(", blanks, text "name:", blanks, literal 5]]

def declaredType? (content : String) : Option String :=
  ((typeDeclaration.find? content.toList).bind Match.firstGroup?).map String.ofList

end Crosswalk.Rules
