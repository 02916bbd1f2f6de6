import Crosswalk.Data.Decode

namespace Crosswalk

structure Verdict where
  success : Bool
  diagnostic : Option String := none
deriving DecidableEq, Repr

namespace Verdict

def passed : Verdict := ⟨true, none⟩

def failed (diagnostic : String) : Verdict := ⟨false, some diagnostic⟩

def encode (v : Verdict) : Value :=
  .object (("success", .bool v.success)
    :: (v.diagnostic.map fun d => ("diagnostic", Value.string d)).toList)

open Decode in
def decode? (v : Value) : Option Verdict := do
  let fs ← fields? ["success", "diagnostic"] v
  some {
    success := ← required fs "success" bool?
    diagnostic := ← defaulted fs "diagnostic" none (optional? string?) }

end Verdict

/-- One question to the transformation oracle, its answer, and what became of it. -/
structure Attempt where
  number : Nat
  answer : String
  candidate : String
  verdict : Verdict
deriving DecidableEq, Repr

namespace Attempt

def encode (a : Attempt) : Value :=
  .object [
    ("attempt_number", .nat a.number),
    ("raw_output", .string a.answer),
    ("sanitized_output", .string a.candidate),
    ("validation", a.verdict.encode)]

open Decode in
def decode? (v : Value) : Option Attempt := do
  let fs ← fields? ["attempt_number", "raw_output", "sanitized_output", "validation"] v
  some {
    number := ← required fs "attempt_number" word32?
    answer := ← required fs "raw_output" string?
    candidate := ← required fs "sanitized_output" string?
    verdict := ← required fs "validation" Verdict.decode? }

end Attempt

structure Converted where
  path : String
  outputPath : String
  content : String
  verified : Bool
  attempts : Nat
  placeholder : Bool
  /-- The digest of the input. -/
  digest : String
deriving DecidableEq, Repr

namespace Converted

def encode (c : Converted) : Value :=
  .object [
    ("path", .string c.path),
    ("output_path", .string c.outputPath),
    ("content", .string c.content),
    ("verified", .bool c.verified),
    ("attempts", .nat c.attempts),
    ("placeholder", .bool c.placeholder),
    ("digest", .string c.digest)]

open Decode in
def decode? (v : Value) : Option Converted := do
  let fs ← fields?
    ["path", "output_path", "content", "verified", "attempts", "placeholder", "digest"] v
  some {
    path := ← required fs "path" string?
    outputPath := ← required fs "output_path" string?
    content := ← required fs "content" string?
    verified := ← required fs "verified" bool?
    attempts := ← required fs "attempts" word32?
    placeholder := ← defaulted fs "placeholder" false bool?
    digest := ← required fs "digest" string? }

end Converted

structure Failed where
  path : String
  error : String
deriving DecidableEq, Repr

def Failed.encode (f : Failed) : Value :=
  .object [("path", .string f.path), ("error", .string f.error)]

end Crosswalk
