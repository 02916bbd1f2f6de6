import Crosswalk.Oracle.Chain
import Crosswalk.Oracle.Chat
import Crosswalk.Settings.Environment

namespace Crosswalk

variable {σ : Type}

def ChatService.provider (s : ChatService) (wire : Http.Wire σ) : Provider σ :=
  ⟨s.name, s.oracle wire, some (1000 * s.limit)⟩

namespace Providers

def distinct : (names : List String) → List ProviderSettings → List ProviderSettings
  | _, [] => []
  | names, p :: rest =>
    if names.contains p.name then distinct names rest else p :: distinct (p.name :: names) rest

/-- A key that is written down wins over a variable that holds one. -/
def apiKey (env : Environment) (p : ProviderSettings) : Option String :=
  p.apiKey <|> p.apiKeyEnv.bind env.get?

def service (env : Environment) (maxTokens limit : Nat) (p : ProviderSettings) :
    Except RunFault ChatService :=
  if Text.allBlank p.baseUrl.toList || Text.allBlank p.model.toList then
    .error (.configuration ("Provider '" ++ p.name ++ "' needs both base_url and model"))
  else
    .ok {
      name := p.name, apiKey := apiKey env p, baseUrl := p.baseUrl, model := p.model
      maxTokens, limit, headers := p.headers }

def ofSettings (env : Environment) (s : OracleSettings) : Except RunFault (List ChatService) :=
  let providers := distinct [] s.providers
  providers.mapM (service env s.maxTokens (s.providerTimeout providers.length))

def customService? (env : Environment) : Option ChatService := do
  let baseUrl ← env.get? "REFORGE_LLM_BASE_URL"
  let model ← env.get? "REFORGE_LLM_MODEL"
  some {
    name := (env.get? "REFORGE_LLM_NAME").getD "openai_compatible"
    apiKey := env.get? "REFORGE_LLM_API_KEY", baseUrl, model }

def openRouter? (env : Environment) : Option ChatService := do
  let key ← env.get? "OPENROUTER_API_KEY"
  some {
    name := "openrouter", apiKey := some key
    baseUrl := "https://openrouter.ai/api/v1"
    model := (env.get? "OPENROUTER_MODEL").getD "deepseek/deepseek-r1-0528:free"
    headers := Table.ofList [("X-Title", "Reforge")] }

def openAI? (env : Environment) : Option ChatService := do
  let key ← env.get? "OPENAI_API_KEY"
  some {
    name := "openai", apiKey := some key
    baseUrl := (env.get? "OPENAI_BASE_URL").getD "https://api.openai.com/v1"
    model := (env.get? "OPENAI_MODEL").getD "gpt-4o-mini" }

def ofEnvironment (env : Environment) (s : OracleSettings) : List ChatService :=
  let services := (customService? env).toList ++ (openRouter? env).toList ++ (openAI? env).toList
  services.map fun c =>
    { c with maxTokens := s.maxTokens, limit := s.providerTimeout services.length }

end Providers

def Chain.ofSettings (wire : Http.Wire σ) (env : Environment) (s : OracleSettings) :
    Except RunFault (Chain σ) := do
  let services ← Providers.ofSettings env s
  Chain.ofList? (services.map (·.provider wire))

def noProviders : String :=
  "No oracle providers found. Configure oracle.providers, or set REFORGE_LLM_BASE_URL + "
    ++ "REFORGE_LLM_MODEL, OPENROUTER_API_KEY or OPENAI_API_KEY."

def Chain.ofEnvironment (wire : Http.Wire σ) (env : Environment) (s : OracleSettings) :
    Except RunFault (Chain σ) :=
  match (Providers.ofEnvironment env s).map (·.provider wire) with
  | [] => .error (.configuration noProviders)
  | p :: rest => .ok ⟨p, rest⟩

/-- The client that settings ask for. Without providers the environment is looked at. Every service
gets its share of the time. -/
def Client.ofSettings (wire : Http.Wire σ) (env : Environment) (s : OracleSettings) :
    Except RunFault (Client σ) :=
  match s.mode with
  | .fallback => .ok .fallback
  | .remote =>
    let chain :=
      if s.providers.isEmpty then Chain.ofEnvironment wire env s else Chain.ofSettings wire env s
    chain.map fun c => .remote c.oracle

end Crosswalk
