import Crosswalk.Checker.Basic
import Crosswalk.Data.Decode
import Crosswalk.Http.Basic
import Crosswalk.Json.Reader
import Crosswalk.Json.Writer

namespace Crosswalk

structure CheckService where
  endpoint : String
  /-- The time for one request, in seconds. -/
  limit : Nat

namespace CheckService

open Decode

def question (code shadow : String) (target : Language) : Value :=
  .object [
    ("code", .string code),
    ("shadow", .string shadow),
    ("language", .string target.tag)]

def decodeAnswer? (v : Value) : Option (Bool × Option String) := do
  let fs ← fields? ["success", "diagnostic"] v
  let success ← required fs "success" bool?
  let diagnostic ← defaulted fs "diagnostic" none (optional? string?)
  some (success, diagnostic)

/-- A service that fails on its side cannot be reached; other statuses say that it refused. -/
def readVerdict (r : Http.Response) : Except OracleFault Verdict :=
  if r.isServerError then
    .error (.unreachable ("HTTP " ++ Http.serverError r.status ++ ": " ++ r.text))
  else if !r.isSuccess then .error (.rejected r.status r.text)
  else
    match (r.text?.bind Json.parse?).bind decodeAnswer? with
    | none =>
      .error (.malformed "compiler response: error decoding response body")
    | some (true, _) => .ok .passed
    | some (false, diagnostic) =>
      .ok (.failed (diagnostic.getD "validation failed without a diagnostic"))

def checker {σ : Type} (s : CheckService) (wire : Http.Wire σ) : Checker σ where
  name := s.endpoint
  check code shadow target :=
    (wire.post s.limit s.endpoint [("Content-Type", "application/json")]
      (Json.compact (question code shadow target))).bind fun
    | .error fault => .done (.error fault)
    | .ok response => .done (readVerdict response)

end CheckService

end Crosswalk
