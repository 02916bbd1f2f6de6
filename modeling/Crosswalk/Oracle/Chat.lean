import Crosswalk.Http.Basic
import Crosswalk.Json.Writer
import Crosswalk.Oracle.EventStream

namespace Crosswalk

structure ChatService where
  name : String
  apiKey : Option String := none
  baseUrl : String
  model : String
  maxTokens : Nat := 4096
  /-- The time for one request, in seconds. -/
  limit : Nat := 120
  headers : Table String := Table.empty
  /-- What the service's reader says of a streamed chunk that it cannot read. -/
  complaint : EventStream.Complaint := fun _ => "unexpected shape"

namespace ChatService

open Decode

def trimSlashes (s : String) : String :=
  String.ofList (s.toList.reverse.dropWhile (· == '/')).reverse

def endpoint (s : ChatService) : String := trimSlashes s.baseUrl ++ "/chat/completions"

def allHeaders (s : ChatService) : List (String × String) :=
  ("Content-Type", "application/json")
    :: (s.apiKey.toList.map fun key => ("Authorization", "Bearer " ++ key)) ++ s.headers.entries

def encodeMessage (m : Message) : Value :=
  .object [("role", .string m.role.name), ("content", .string m.content)]

def question (s : ChatService) (streaming : Bool) (r : Request) : Value :=
  .object ([
    ("model", .string (r.options.model.getD s.model)),
    ("messages", .array (r.messages.map encodeMessage)),
    ("max_tokens", .nat (r.options.maxTokens.getD s.maxTokens)),
    ("temperature", .real r.options.temperature)]
    ++ if streaming then [("stream", .bool true)] else [])

def decodeContent? (v : Value) : Option String := do
  let fs ← fields? ["role", "content"] v
  let _ ← required fs "role" string?
  required fs "content" string?

def decodeChoice? (v : Value) : Option String := do
  let fs ← fields? ["message"] v
  required fs "message" decodeContent?

structure Completion where
  model : Option String
  choices : List String

def Completion.decode? (v : Value) : Option Completion := do
  let fs ← fields? ["model", "choices"] v
  some {
    model := ← defaulted fs "model" none (optional? string?)
    choices := ← required fs "choices" (list? decodeChoice?) }

/-- A gateway that cannot pass a request on says that the service is down; other statuses say that
the service refused. -/
def refusal (status : Nat) (body : String) : OracleFault :=
  if 502 ≤ status ∧ status ≤ 504 then
    .unreachable ("HTTP " ++ toString status ++ ": " ++ body)
  else .rejected status body

variable {σ : Type}

def send (s : ChatService) (wire : Http.Wire σ) (streaming : Bool) (r : Request) :
    Work σ (Except OracleFault Http.Response) :=
  (wire.post s.limit s.endpoint s.allHeaders (Json.compact (s.question streaming r))).bind fun
    | .error fault => .done (.error fault)
    | .ok response =>
      .done (if response.isSuccess then .ok response
        else .error (refusal response.status response.text))

def readReply (s : ChatService) (response : Http.Response) : Except OracleFault Reply :=
  match (response.text?.bind Json.parse?).bind Completion.decode? with
  | none => .error (.malformed (s.name ++ ": error decoding response body"))
  | some completion =>
    match completion.choices with
    | [] => .error (.malformed (s.name ++ ": no choices"))
    | content :: _ => .ok ⟨content, completion.model.getD s.model, s.name⟩

def oracle (s : ChatService) (wire : Http.Wire σ) : Oracle σ where
  name := s.name
  complete r := (s.send wire false r).bind fun
    | .error fault => .done (.error fault)
    | .ok response => .done (s.readReply response)
  openStream r := (s.send wire true r).bind fun
    | .error fault => .done (.error fault)
    | .ok response =>
      .done (.ok ((EventStream.ofPieces s.complaint response.pieces
        (response.fault? s.limit)).map .done))

end ChatService

end Crosswalk
