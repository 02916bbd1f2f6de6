import Crosswalk.Conversion.Basic
import Crosswalk.Project.Lane

namespace Crosswalk

inductive OracleMode where
  | remote
  | fallback
deriving DecidableEq, Repr

namespace OracleMode

def name : OracleMode → String
  | .remote => "remote"
  | .fallback => "fallback"

def tags : List (String × OracleMode) := [remote, fallback].map fun m => (m.name, m)

end OracleMode

structure ProviderSettings where
  name : String := ""
  baseUrl : String := ""
  model : String := ""
  apiKey : Option String := none
  apiKeyEnv : Option String := none
  headers : Table String := Table.empty
deriving DecidableEq

structure OracleSettings where
  mode : OracleMode := .remote
  /-- Asked in order. -/
  providers : List ProviderSettings := []
  modelHints : Table String := Table.empty
  timeoutSecs : Nat := 120
  /-- Unset, the providers share the time of a call. -/
  providerTimeoutSecs : Option Nat := none
  maxTokens : Nat := 4096
  streaming : Bool := false
deriving DecidableEq

inductive CheckerMode where
  | command
  | remote
  /-- Every candidate with something in it passes. -/
  | disabled
deriving DecidableEq, Repr

namespace CheckerMode

def name : CheckerMode → String
  | .command => "command"
  | .remote => "remote"
  | .disabled => "disabled"

def tags : List (String × CheckerMode) := [command, remote, disabled].map fun m => (m.name, m)

end CheckerMode

structure CheckerSettings where
  mode : CheckerMode := .command
  /-- Unset, the usual toolchain of the target language. -/
  command : Option String := none
  args : List String := []
  sourceFileName : Option String := none
  shadowFileName : Option String := none
  endpoint : Option String := none
  timeoutSecs : Nat := 60
deriving DecidableEq

structure PipelineSettings where
  maxAttempts : Nat := builtinMaxAttempts
  sequentialThreshold : Nat := Lane.builtinThreshold
  maxConcurrency : Nat := 4
  defaults : CallOptions := {}

structure Settings where
  oracle : OracleSettings := {}
  checker : CheckerSettings := {}
  pipeline : PipelineSettings := {}

open Decode

namespace ProviderSettings

def encode (p : ProviderSettings) : Value :=
  .object [
    ("name", .string p.name),
    ("base_url", .string p.baseUrl),
    ("model", .string p.model),
    ("api_key", .ofOption .string p.apiKey),
    ("api_key_env", .ofOption .string p.apiKeyEnv),
    ("headers", Manifest.encodeNames p.headers)]

def shape : Shape :=
  .record [("name", .any), ("base_url", .any), ("model", .any), ("api_key", .any),
    ("api_key_env", .any), ("headers", .any)]

def decode? (v : Value) : Option ProviderSettings := do
  let fs ← fields? shape.names v
  some {
    name := ← defaulted fs "name" "" string?
    baseUrl := ← defaulted fs "base_url" "" string?
    model := ← defaulted fs "model" "" string?
    apiKey := ← defaulted fs "api_key" none (optional? string?)
    apiKeyEnv := ← defaulted fs "api_key_env" none (optional? string?)
    headers := ← defaulted fs "headers" Table.empty (table? string?) }

end ProviderSettings

namespace OracleSettings

/-- The time for one provider out of so many, in seconds. It is never zero, and a provider that
hangs leaves time for the next one. -/
def providerTimeout (o : OracleSettings) (count : Nat) : Nat :=
  max 1 (o.providerTimeoutSecs.getD (o.timeoutSecs / max 1 count))

def encode (o : OracleSettings) : Value :=
  .object [
    ("mode", .string o.mode.name),
    ("providers", .array (o.providers.map ProviderSettings.encode)),
    ("model_hints", Manifest.encodeNames o.modelHints),
    ("timeout_secs", .nat o.timeoutSecs),
    ("provider_timeout_secs", .ofOption .nat o.providerTimeoutSecs),
    ("max_tokens", .nat o.maxTokens),
    ("streaming", .bool o.streaming)]

def shape : Shape :=
  .record [("mode", .choice), ("providers", .list ProviderSettings.shape), ("model_hints", .any),
    ("timeout_secs", .any), ("provider_timeout_secs", .any), ("max_tokens", .any),
    ("streaming", .any)]

def decode? (v : Value) : Option OracleSettings := do
  let fs ← fields? shape.names v
  let d : OracleSettings := {}
  some {
    mode := ← defaulted fs "mode" d.mode (choice? OracleMode.tags)
    providers := ← defaulted fs "providers" d.providers (list? ProviderSettings.decode?)
    modelHints := ← defaulted fs "model_hints" d.modelHints (table? string?)
    timeoutSecs := ← defaulted fs "timeout_secs" d.timeoutSecs word64?
    providerTimeoutSecs := ← defaulted fs "provider_timeout_secs" none (optional? word64?)
    maxTokens := ← defaulted fs "max_tokens" d.maxTokens word32?
    streaming := ← defaulted fs "streaming" d.streaming bool? }

end OracleSettings

namespace CheckerSettings

def encode (c : CheckerSettings) : Value :=
  .object [
    ("mode", .string c.mode.name),
    ("command", .ofOption .string c.command),
    ("args", .strings c.args),
    ("source_file_name", .ofOption .string c.sourceFileName),
    ("shadow_file_name", .ofOption .string c.shadowFileName),
    ("endpoint", .ofOption .string c.endpoint),
    ("timeout_secs", .nat c.timeoutSecs)]

def shape : Shape :=
  .record [("mode", .choice), ("command", .any), ("args", .any), ("source_file_name", .any),
    ("shadow_file_name", .any), ("endpoint", .any), ("timeout_secs", .any)]

def decode? (v : Value) : Option CheckerSettings := do
  let fs ← fields? shape.names v
  let d : CheckerSettings := {}
  some {
    mode := ← defaulted fs "mode" d.mode (choice? CheckerMode.tags)
    command := ← defaulted fs "command" none (optional? string?)
    args := ← defaulted fs "args" d.args (list? string?)
    sourceFileName := ← defaulted fs "source_file_name" none (optional? string?)
    shadowFileName := ← defaulted fs "shadow_file_name" none (optional? string?)
    endpoint := ← defaulted fs "endpoint" none (optional? string?)
    timeoutSecs := ← defaulted fs "timeout_secs" d.timeoutSecs word64? }

end CheckerSettings

namespace PipelineSettings

def encode (p : PipelineSettings) : Value :=
  .object [
    ("max_attempts", .nat p.maxAttempts),
    ("sequential_threshold", .nat p.sequentialThreshold),
    ("max_concurrency", .nat p.maxConcurrency),
    ("defaults", p.defaults.encode)]

def shape : Shape :=
  .record [("max_attempts", .any), ("sequential_threshold", .any), ("max_concurrency", .any),
    ("defaults", CallOptions.shape)]

def decode? (v : Value) : Option PipelineSettings := do
  let fs ← fields? shape.names v
  let d : PipelineSettings := {}
  some {
    maxAttempts := ← defaulted fs "max_attempts" d.maxAttempts word32?
    sequentialThreshold := ← defaulted fs "sequential_threshold" d.sequentialThreshold word32?
    maxConcurrency := ← defaulted fs "max_concurrency" d.maxConcurrency word64?
    defaults := ← defaulted fs "defaults" d.defaults CallOptions.decode? }

end PipelineSettings

namespace Settings

def encode (s : Settings) : Value :=
  .object [
    ("oracle", s.oracle.encode),
    ("compiler", s.checker.encode),
    ("pipeline", s.pipeline.encode)]

def shape : Shape :=
  .record [("oracle", OracleSettings.shape), ("compiler", CheckerSettings.shape),
    ("pipeline", PipelineSettings.shape)]

def decode? (v : Value) : Option Settings := do
  let fs ← fields? shape.names v
  some {
    oracle := ← defaulted fs "oracle" {} OracleSettings.decode?
    checker := ← defaulted fs "compiler" {} CheckerSettings.decode?
    pipeline := ← defaulted fs "pipeline" {} PipelineSettings.decode? }

def validate (s : Settings) : Except RunFault Unit :=
  if s.pipeline.maxAttempts = 0 then
    .error (.configuration "pipeline.max_attempts must be at least 1")
  else if s.pipeline.maxConcurrency = 0 then
    .error (.configuration "pipeline.max_concurrency must be at least 1")
  else if s.checker.mode = .remote && s.checker.endpoint.isNone then
    .error (.configuration "compiler.endpoint is required when compiler.mode = remote")
  else .ok ()

def effectiveDefaults (s : Settings) : CallOptions :=
  { s.pipeline.defaults with
    maxAttempts := s.pipeline.defaults.maxAttempts <|> some s.pipeline.maxAttempts }

def terms (s : Settings) : Terms where
  oracleLimit := 1000 * s.oracle.timeoutSecs
  checkLimit := 1000 * s.checker.timeoutSecs
  maxTokens := some s.oracle.maxTokens
  modelHints := s.oracle.modelHints
  streaming := s.oracle.streaming

end Settings

end Crosswalk
