import Crosswalk.Oracle.Basic

namespace Crosswalk

structure Provider (σ : Type) where
  name : String
  oracle : Oracle σ
  /-- The time that one call may take, in milliseconds. -/
  limit : Option Nat := none

namespace Provider

variable {σ α : Type}

def bounded (p : Provider σ) (call : Work σ (Except OracleFault α)) :
    Work σ (Except OracleFault α) :=
  match p.limit with
  | none => call
  | some limit => call.within limit (.error (.timeout (limit / 1000)))

end Provider

structure Chain (σ : Type) where
  first : Provider σ
  others : List (Provider σ)

namespace Chain

variable {σ α : Type}

def providers (c : Chain σ) : List (Provider σ) := c.first :: c.others

def ofList? : List (Provider σ) → Except RunFault (Chain σ)
  | [] => .error (.configuration "No oracle providers configured.")
  | p :: rest => .ok ⟨p, rest⟩

def names (c : Chain σ) : List String := c.providers.map (·.name)

def limitedTo (limit : Nat) (c : Chain σ) : Chain σ :=
  ⟨{ c.first with limit := some limit }, c.others.map ({ · with limit := some limit })⟩

/-- The first fault that is not of transport; otherwise the chain cannot be reached. -/
def combined (faults : List (String × OracleFault)) : OracleFault :=
  match faults.find? fun f => !f.2.isTransport with
  | some (_, fault) => fault
  | none =>
    .unreachable ("all providers failed ("
      ++ "; ".intercalate (faults.map fun f => f.1 ++ ": " ++ f.2.message) ++ ")")

def firstAnswer (ask : Provider σ → Work σ (Except OracleFault α)) :
    List (String × OracleFault) → List (Provider σ) → Work σ (Except OracleFault α)
  | faults, [] => .done (.error (combined faults))
  | faults, p :: rest => (p.bounded (ask p)).bind fun
    | .ok a => .done (.ok a)
    | .error fault => firstAnswer ask (faults ++ [(p.name, fault)]) rest

def oracle (c : Chain σ) : Oracle σ where
  name := c.first.name
  complete request := firstAnswer (·.oracle.complete request) [] c.providers
  openStream request := firstAnswer (·.oracle.openStream request) [] c.providers

end Chain

end Crosswalk
