import Crosswalk.Decimal.Reading
import Crosswalk.Environment
import Crosswalk.Settings.Basic

namespace Crosswalk

namespace Settings

def numberOf (name : String) (bound : Nat) (text : String) : Except RunFault Nat :=
  match Decimal.natUpTo? bound (Text.trim text.toList) with
  | some n => .ok n
  | none => .error (.configuration (name ++ ": invalid value '" ++ text ++ "'"))

def modeOf {α : Type} (name : String) (modes : List (String × α)) (text : String) :
    Except RunFault α :=
  let lowered := Text.asciiLowerText text
  match modes.lookup lowered with
  | some mode => .ok mode
  | none => .error (.configuration (name ++ ": unknown mode '" ++ lowered ++ "'"))

def isYes (text : String) : Bool := text == "1" || Text.asciiLowerText text == "true"

def override {α : Type} (env : Environment) (name : String) (read : String → Except RunFault α)
    (change : Settings → α → Settings) (s : Settings) : Except RunFault Settings :=
  match env.get? name with
  | none => .ok s
  | some text => (read text).map (change s)

def setOracle (s : Settings) (f : OracleSettings → OracleSettings) : Settings :=
  { s with oracle := f s.oracle }

def setChecker (s : Settings) (f : CheckerSettings → CheckerSettings) : Settings :=
  { s with checker := f s.checker }

def setPipeline (s : Settings) (f : PipelineSettings → PipelineSettings) : Settings :=
  { s with pipeline := f s.pipeline }

def setDefaults (s : Settings) (f : CallOptions → CallOptions) : Settings :=
  s.setPipeline fun p => { p with defaults := f p.defaults }

def word32 : Nat := 0xFFFFFFFF

def word64 : Nat := 0xFFFFFFFFFFFFFFFF

/-- The variables in the order in which they are read. The first one that cannot be read is the
fault. -/
def applyVariables (env : Environment) (s : Settings) : Except RunFault Settings := do
  let number (name : String) (bound : Nat) := override env name (numberOf name bound)
  let s ← override env "REFORGE_ORACLE_MODE" (modeOf "REFORGE_ORACLE_MODE" OracleMode.tags)
    (fun s mode => s.setOracle ({ · with mode })) s
  let s ← number "REFORGE_ORACLE_TIMEOUT_SECS" word64
    (fun s n => s.setOracle ({ · with timeoutSecs := n })) s
  let s ← number "REFORGE_PROVIDER_TIMEOUT_SECS" word64
    (fun s n => s.setOracle ({ · with providerTimeoutSecs := some n })) s
  let s ← override env "REFORGE_STREAMING" (fun text => .ok (isYes text))
    (fun s streaming => s.setOracle ({ · with streaming })) s
  let s ← override env "REFORGE_COMPILER_MODE" (modeOf "REFORGE_COMPILER_MODE" CheckerMode.tags)
    (fun s mode => s.setChecker ({ · with mode })) s
  let s ← override env "REFORGE_COMPILER_ENDPOINT" .ok
    (fun s endpoint => s.setChecker ({ · with endpoint := some endpoint })) s
  let s ← number "REFORGE_MAX_ATTEMPTS" word32
    (fun s n => s.setPipeline ({ · with maxAttempts := n })) s
  let s ← number "REFORGE_SEQUENTIAL_THRESHOLD" word32
    (fun s n => s.setPipeline ({ · with sequentialThreshold := n })) s
  let s ← number "REFORGE_MAX_CONCURRENCY" word64
    (fun s n => s.setPipeline ({ · with maxConcurrency := n })) s
  let s ← override env "REFORGE_DIRECTION" Direction.parse
    (fun s direction => s.setDefaults ({ · with direction := some direction })) s
  override env "REFORGE_MODEL" .ok
    (fun s model => s.setDefaults ({ · with model := some model })) s

def applyEnvironment (env : Environment) (s : Settings) : Except RunFault Settings := do
  let s ← applyVariables env s
  s.validate
  .ok s

end Settings

end Crosswalk
