import Crosswalk.Fault
import Crosswalk.Options
import Crosswalk.Work

namespace Crosswalk

inductive Role where
  | system
  | user
  | assistant
deriving DecidableEq, Repr

namespace Role

def name : Role → String
  | .system => "system"
  | .user => "user"
  | .assistant => "assistant"

def tags : List (String × Role) := [system, user, assistant].map fun r => (r.name, r)

end Role

structure Message where
  role : Role
  content : String
  name : Option String := none
deriving DecidableEq, Repr

namespace Message

open Decode in
def decode? (v : Value) : Option Message := do
  let fs ← fields? ["role", "content", "name"] v
  some {
    role := ← required fs "role" (choice? Role.tags)
    content := ← required fs "content" string?
    name := ← defaulted fs "name" none (optional? string?) }

end Message

structure AskOptions where
  temperature : Float := 0.0
  /-- `none` leaves the choice to the service. -/
  model : Option String := none
  modelHint : Option String := none
  maxTokens : Option Nat := none

def AskOptions.ofResolved (o : ResolvedOptions) (hints : Table String) (maxTokens : Option Nat) :
    AskOptions where
  temperature := o.temperature
  model := o.model <|> o.modelHint.bind hints.get?
  modelHint := o.modelHint
  maxTokens

structure Request where
  messages : List Message
  options : AskOptions := {}

structure Reply where
  content : String
  model : String
  provider : String
deriving DecidableEq, Repr

inductive StreamEvent where
  | token (text : String)
  | finish
deriving DecidableEq, Repr

abbrev TokenStream (σ : Type) := List (Work σ (Except OracleFault StreamEvent))

namespace TokenStream

variable {σ : Type}

/-- The tokens up to the end marker, behind what was collected before. A fault on the way is the
fault of the whole, and so is a stream without an end marker. -/
def collectAfter (collected : String) : TokenStream σ → Work σ (Except OracleFault String)
  | [] => .done (.error (.malformed "stream closed without an end marker"))
  | event :: rest => event.bind fun
    | .ok (.token text) => collectAfter (collected ++ text) rest
    | .ok .finish => .done (.ok collected)
    | .error fault => .done (.error fault)

def collect (s : TokenStream σ) : Work σ (Except OracleFault String) := collectAfter "" s

def ofText (text : String) : TokenStream σ := [.done (.ok (.token text)), .done (.ok .finish)]

end TokenStream

structure Oracle (σ : Type) where
  name : String
  complete : Request → Work σ (Except OracleFault Reply)
  openStream : Request → Work σ (Except OracleFault (TokenStream σ))

namespace Oracle

variable {σ : Type}

def ofComplete (name : String) (complete : Request → Work σ (Except OracleFault Reply)) :
    Oracle σ where
  name
  complete
  openStream request := do
    match ← complete request with
    | .ok reply => pure (.ok (TokenStream.ofText reply.content))
    | .error fault => pure (.error fault)

end Oracle

/-- What answers requests: a remote oracle, or nobody, so that every file gets a placeholder. -/
inductive Client (σ : Type) where
  | remote (oracle : Oracle σ)
  | fallback

namespace Client

variable {σ : Type}

def name : Client σ → String
  | .remote oracle => oracle.name
  | .fallback => "deterministic-fallback"

def isRemote : Client σ → Bool
  | .remote _ => true
  | .fallback => false

def answer (streaming : Bool) (request : Request) :
    Client σ → Work σ (Except OracleFault String)
  | .fallback => .done (.error (.unreachable "remote oracle disabled by configuration"))
  | .remote oracle =>
    if streaming then do
      match ← oracle.openStream request with
      | .ok stream => stream.collect
      | .error fault => pure (.error fault)
    else do
      match ← oracle.complete request with
      | .ok reply => pure (.ok reply.content)
      | .error fault => pure (.error fault)

end Client

end Crosswalk
