import Crosswalk.Data.Decode
import Crosswalk.Data.Shape
import Crosswalk.Decimal.Text
import Crosswalk.Fault
import Crosswalk.Language
import Crosswalk.Text.Blank

namespace Crosswalk

inductive Preset where
  | standard
  | swiftUI
  | uiKit
  | compose
  | views
deriving DecidableEq, Repr

instance : Inhabited Preset := ⟨.standard⟩

namespace Preset

def name : Preset → String
  | .standard => "default"
  | .swiftUI => "swift-ui"
  | .uiKit => "ui-kit"
  | .compose => "compose"
  | .views => "views"

def tags : List (String × Preset) :=
  [standard, swiftUI, uiKit, compose, views].map fun p => (p.name, p)

def guidance : Preset → String
  | .standard => "Use the idiomatic standard UI framework of the target platform."
  | .swiftUI =>
    "Target SwiftUI: views are structs conforming to View, observable state uses " ++
      "ObservableObject with @Published properties."
  | .uiKit =>
    "Target UIKit: screens are UIViewController subclasses, navigation uses " ++
      "UINavigationController."
  | .compose =>
    "Target Jetpack Compose: screens are @Composable functions, state is exposed " ++
      "from a ViewModel through StateFlow."
  | .views =>
    "Target Android Views: screens are Activity or Fragment subclasses with " ++
      "ViewBinding."

end Preset

def lookupForm (s : String) : String :=
  Text.asciiLowerText (String.ofList (Text.trim s.toList))

def Direction.parse (s : String) : Except RunFault Direction :=
  match lookupForm s with
  | "kotlin-to-swift" | "android-to-ios" | "kt2swift" => .ok .kotlinToSwift
  | "swift-to-kotlin" | "ios-to-android" | "swift2kt" => .ok .swiftToKotlin
  | other => .error (.invalidOptions ("unknown direction '" ++ other ++ "'"))

def Preset.parse (s : String) : Except RunFault Preset :=
  match lookupForm s with
  | "default" => .ok .standard
  | "swiftui" | "swift-ui" => .ok .swiftUI
  | "uikit" | "ui-kit" => .ok .uiKit
  | "compose" => .ok .compose
  | "views" => .ok .views
  | other => .error (.invalidOptions ("unknown preset '" ++ other ++ "'"))

def builtinMaxAttempts : Nat := 3

def builtinTemperature : Float := 0.2

structure CallOptions where
  direction : Option Direction := none
  preset : Option Preset := none
  temperature : Option Float := none
  maxAttempts : Option Nat := none
  model : Option String := none
  modelHint : Option String := none

/-- Options that a conversion can start from: every file gets an attempt. -/
structure ResolvedOptions where
  direction : Direction := .kotlinToSwift
  preset : Preset := .standard
  temperature : Float := builtinTemperature
  maxAttempts : Nat := builtinMaxAttempts
  model : Option String := none
  modelHint : Option String := none
  maxAttempts_pos : 0 < maxAttempts := by decide

namespace CallOptions

/-- Field by field, what is set here wins. -/
def orElse (call defaults : CallOptions) : CallOptions where
  direction := call.direction <|> defaults.direction
  preset := call.preset <|> defaults.preset
  temperature := call.temperature <|> defaults.temperature
  maxAttempts := call.maxAttempts <|> defaults.maxAttempts
  model := call.model <|> defaults.model
  modelHint := call.modelHint <|> defaults.modelHint

/-- Temperatures run from zero to two, ends included; not-a-number is outside. -/
def temperatureInRange (t : Float) : Bool := 0.0 ≤ t && t ≤ 2.0

def resolve (o : CallOptions) : Except RunFault ResolvedOptions :=
  let temperature := o.temperature.getD builtinTemperature
  let maxAttempts := o.maxAttempts.getD builtinMaxAttempts
  if !temperatureInRange temperature then
    .error (.invalidOptions
      ("temperature must be in [0.0, 2.0], got " ++ Decimal.plain temperature))
  else if h : maxAttempts = 0 then
    .error (.invalidOptions "maxAttempts must be at least 1")
  else
    .ok {
      direction := o.direction.getD default
      preset := o.preset.getD default
      temperature
      maxAttempts
      model := o.model
      modelHint := o.modelHint
      maxAttempts_pos := Nat.pos_of_ne_zero h }

def shape : Shape :=
  .record [("direction", .choice), ("preset", .choice), ("temperature", .any),
    ("maxAttempts", .any), ("model", .any), ("modelHint", .any)]

open Decode in
def decode? (v : Value) : Option CallOptions := do
  let fs ← fields? shape.names v
  let field {α : Type} (name : String) (f : Value → Option α) : Option (Option α) :=
    defaulted fs name none (optional? f)
  some {
    direction := ← field "direction" (choice? Direction.tags)
    preset := ← field "preset" (choice? Preset.tags)
    temperature := ← field "temperature" real?
    maxAttempts := ← field "maxAttempts" word32?
    model := ← field "model" string?
    modelHint := ← field "modelHint" string? }

def encode (o : CallOptions) : Value :=
  let member {α : Type} (name : String) (f : α → Value) (field : Option α) :=
    (field.map fun a => (name, f a)).toList
  .object
    (member "direction" (fun d => .string d.name) o.direction
      ++ member "preset" (fun p => .string p.name) o.preset
      ++ member "temperature" .real o.temperature
      ++ member "maxAttempts" .nat o.maxAttempts
      ++ member "model" .string o.model
      ++ member "modelHint" .string o.modelHint)

end CallOptions

def ResolvedOptions.encode (o : ResolvedOptions) : Value :=
  .object [
    ("direction", .string o.direction.name),
    ("preset", .string o.preset.name),
    ("temperature", .real o.temperature),
    ("max_attempts", .nat o.maxAttempts),
    ("model", .ofOption .string o.model),
    ("model_hint", .ofOption .string o.modelHint)]

end Crosswalk
