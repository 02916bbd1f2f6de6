import Crosswalk.Batch.Basic
import Crosswalk.Checker.Service
import Crosswalk.Checker.Toolchain
import Crosswalk.Oracle.Providers

namespace Crosswalk

def CheckerSettings.toolchain (s : CheckerSettings) : Toolchain where
  command := s.command
  args := s.args
  sourceName := s.sourceFileName
  shadowName := s.shadowFileName
  limit := s.timeoutSecs

def Checker.ofSettings {σ : Type} (wire : Http.Wire σ) (machine : Machine σ) (env : Environment)
    (s : CheckerSettings) : Except RunFault (Checker σ) :=
  match s.mode with
  | .command => .ok (s.toolchain.checker machine env)
  | .disabled => .ok .acceptAll
  | .remote =>
    match s.endpoint with
    | none => .error (.configuration "compiler.endpoint is required in remote mode")
    | some endpoint => .ok ((⟨endpoint, s.timeoutSecs⟩ : CheckService).checker wire)

structure Surroundings (σ : Type) where
  wire : Http.Wire σ
  machine : Machine σ
  env : Environment := Table.empty

def Engine.ofSettings {σ : Type} (around : Surroundings σ) (s : Settings) :
    Except RunFault (Engine σ) := do
  s.validate
  let client ← Client.ofSettings around.wire around.env s.oracle
  let checker ← Checker.ofSettings around.wire around.machine around.env s.checker
  .ok {
    client, checker, terms := s.terms
    defaults := s.effectiveDefaults
    threshold := s.pipeline.sequentialThreshold
    permits := s.pipeline.maxConcurrency }

end Crosswalk
