import Crosswalk.Language
import Crosswalk.Rules.Declarations
import Crosswalk.Rules.Substitution
import Crosswalk.Rules.Shadow

namespace Crosswalk

structure RuleSet where
  direction : Direction
  /-- The earliest match is where code starts. -/
  codeAnchor : Pattern
  cleanup : List Rule
  primitives : List Spelling
  shadow : String

namespace Rules

open Pattern

/-- Changed whenever a pattern or a vocabulary changes what the program does. -/
def version : String := "1.2.0"

def isIndent (c : Char) : Bool := c == ' ' || c == '\t'

def indent : Pattern := .many isIndent

def modifiers (words : List String) : Pattern := .star (.seq (texts words) someBlanks)

def lineOf (body : Pattern) : Pattern := sequence [.lineStart, indent, body]

def lineRest : Pattern := sequence [indent, optional (char '\r'), optional (char '\n')]

def keywordThenWord (keywords : List String) : Pattern :=
  sequence [texts keywords, someBlanks, .one Text.isWord]

def swiftAnchor : Pattern :=
  lineOf (anyOf [
    keywordThenWord ["import"],
    sequence [text "@testable", someBlanks, text "import", .boundary],
    .seq (text "@main") .boundary,
    .seq (text "@MainActor") .boundary,
    .seq (text "@Observable") .boundary,
    .seq (modifiers ["public", "private", "internal", "fileprivate", "open", "final"])
      (keywordThenWord
        ["struct", "class", "enum", "protocol", "extension", "actor", "typealias", "func"])])

def kotlinAnchor : Pattern :=
  lineOf (anyOf [
    keywordThenWord ["package"],
    keywordThenWord ["import"],
    sequence [char '@',
      texts ["Composable", "HiltViewModel", "Inject", "Serializable", "Parcelize"], .boundary],
    .seq (modifiers ["public", "private", "internal", "open", "abstract", "sealed", "data", "enum",
        "inline", "value", "annotation"])
      (keywordThenWord ["class", "interface", "object", "fun", "typealias"])])

/-- A keyword behind modifiers at the start of a line. What stands before it is kept. -/
def keywordRule (name : String) (before : Pattern) (keyword native : String) : Rule where
  name
  pattern := sequence [.lineStart, .group 1 (.seq indent before), text keyword, someBlanks]
  action := .replace [.group 1, .text (native ++ " ")]

/-- The literal for "no value" behind an operator, a bracket or a return. -/
def nullRule (name word native : String) : Rule where
  name
  pattern := sequence [
    .group 1 (.seq (anyOf [
        .seq (.one fun c => c == '=' || c == '!') (optional (char '=')),
        .seq .boundary (text "return"),
        .one fun c => c == '(' || c == ',' || c == ':' || c == '?'])
      blanks),
    text word, .boundary]
  action := .replace [.group 1, .text native]

def textRule (name : String) (pattern : Pattern) (native : String) : Rule :=
  ⟨name, pattern, .replace [.text native]⟩

def swiftCleanup : List Rule := [
  { name := "package-line"
    pattern := .seq (lineOf (sequence [text "package", someBlanks,
      atLeastOne (fun c => Text.isWord c || c == '.'), optional (char ';')])) lineRest
    action := .remove },
  { name := "android-import"
    pattern := .seq (lineOf (sequence [text "import", someBlanks,
      anyOf [text "android", text "androidx", .seq (text "kotlin") (optional (char 'x')),
        text "java", text "javax", text "dagger"],
      char '.', atLeastOne (fun c => Text.isWord c || c == '.' || c == '*')])) lineRest
    action := .remove },
  keywordRule "fun-keyword"
    (modifiers ["public", "private", "internal", "open", "override", "suspend", "inline", "static",
      "final"]) "fun" "func",
  keywordRule "val-keyword"
    (modifiers ["public", "private", "internal", "open", "override", "lateinit", "static", "final"])
    "val" "let",
  nullRule "null-literal" "null" "nil",
  textRule "println-call" (.seq .boundary (text "println(")) "print(",
  textRule "this-receiver" (.seq .boundary (text "this.")) "self.",
  textRule "force-unwrap" (text "!!") "!"]

def kotlinCleanup : List Rule := [
  { name := "apple-import"
    pattern := .seq (lineOf (sequence [text "import", someBlanks,
      texts ["SwiftUI", "UIKit", "Foundation", "Combine", "CoreData", "Observation"]])) lineRest
    action := .remove },
  keywordRule "func-keyword"
    (modifiers ["public", "private", "internal", "fileprivate", "open", "override", "static",
      "final", "mutating"]) "func" "fun",
  keywordRule "let-keyword"
    (optional (.seq (texts ["private", "public", "internal"]) someBlanks)) "let" "val",
  nullRule "nil-literal" "nil" "null",
  textRule "self-receiver" (.seq .boundary (text "self.")) "this."]

def swiftPrimitives : List Spelling := [
  ⟨"boolean", "Boolean", "Bool"⟩,
  ⟨"unit", "Unit", "Void"⟩,
  ⟨"long", "Long", "Int64"⟩,
  ⟨"short", "Short", "Int16"⟩,
  ⟨"byte", "Byte", "Int8"⟩,
  ⟨"char", "Char", "Character"⟩]

def kotlinPrimitives : List Spelling := [
  ⟨"bool", "Bool", "Boolean"⟩,
  ⟨"void", "Void", "Unit"⟩,
  ⟨"int64", "Int64", "Long"⟩,
  ⟨"int32", "Int32", "Int"⟩,
  ⟨"int16", "Int16", "Short"⟩,
  ⟨"int8", "Int8", "Byte"⟩,
  ⟨"character", "Character", "Char"⟩]

def toSwift : RuleSet := ⟨.kotlinToSwift, swiftAnchor, swiftCleanup, swiftPrimitives, swiftShadow⟩

def toKotlin : RuleSet :=
  ⟨.swiftToKotlin, kotlinAnchor, kotlinCleanup, kotlinPrimitives, kotlinShadow⟩

end Rules

def Direction.rules : Direction → RuleSet
  | .kotlinToSwift => Rules.toSwift
  | .swiftToKotlin => Rules.toKotlin

def RuleSet.isPrimitive (rules : RuleSet) (name : String) : Bool :=
  rules.primitives.any (·.mentions name)

def RuleSet.spellPrimitives (rules : RuleSet) (s : List Char) : List Char :=
  Rule.applyAll (rules.primitives.map Spelling.rule) s

end Crosswalk
