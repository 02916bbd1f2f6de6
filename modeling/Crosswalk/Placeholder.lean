import Crosswalk.Source
import Crosswalk.Text.Blank

namespace Crosswalk.Placeholder

def marker : String := "REFORGE-PLACEHOLDER"

def header : String := "// " ++ marker

/-- The source without delimiters of block comments and without blanks at its end. -/
def body (content : List Char) : List Char :=
  let apart := Text.replaceAll ['/', '*'] ['/', ' ', '*'] content
  Text.trimEnd (Text.replaceAll ['*', '/'] ['*', ' ', '/'] apart)

/-- A header of line comments, and the source inside one block comment. -/
def render (file : Source) (d : Direction) (reason : String) : String :=
  header ++ ": automatic conversion unavailable (" ++ reason ++ ")\n"
    ++ "// Source: " ++ file.path ++ " (" ++ file.language.name ++ " -> " ++ d.target.name ++ ")\n"
    ++ "// Convert this file manually.\n"
    ++ "/*\n" ++ String.ofList (body file.content.toList) ++ "\n*/\n"

def isPlaceholder (content : String) : Bool := Text.startsWith header.toList content.toList

end Crosswalk.Placeholder
