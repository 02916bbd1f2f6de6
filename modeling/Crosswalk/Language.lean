import Crosswalk.Text.Letters

namespace Crosswalk

inductive Language where
  | kotlin
  | java
  | swift
  | unknown
deriving DecidableEq, Repr

namespace Language

def suffixOf (path : String) : String :=
  String.ofList ((path.toList.reverse.takeWhile (· != '.')).reverse)

def ofPath (path : String) : Language :=
  match Text.asciiLowerText (suffixOf path) with
  | "kt" | "kts" => .kotlin
  | "java" => .java
  | "swift" => .swift
  | _ => .unknown

def fileSuffix : Language → String
  | .kotlin => "kt"
  | .java => "java"
  | .swift => "swift"
  | .unknown => "txt"

def name : Language → String
  | .kotlin => "Kotlin"
  | .java => "Java"
  | .swift => "Swift"
  | .unknown => "unknown"

def tag : Language → String
  | .kotlin => "kotlin"
  | .java => "java"
  | .swift => "swift"
  | .unknown => "unknown"

def all : List Language := [.kotlin, .java, .swift, .unknown]

def tags : List (String × Language) := all.map fun l => (l.tag, l)

end Language

inductive Direction where
  | kotlinToSwift
  | swiftToKotlin
deriving DecidableEq, Repr

instance : Inhabited Direction := ⟨.kotlinToSwift⟩

namespace Direction

def target : Direction → Language
  | .kotlinToSwift => .swift
  | .swiftToKotlin => .kotlin

def sources : Direction → List Language
  | .kotlinToSwift => [.kotlin, .java]
  | .swiftToKotlin => [.swift]

def name : Direction → String
  | .kotlinToSwift => "kotlin-to-swift"
  | .swiftToKotlin => "swift-to-kotlin"

def tags : List (String × Direction) :=
  [kotlinToSwift, swiftToKotlin].map fun d => (d.name, d)

end Direction

end Crosswalk
