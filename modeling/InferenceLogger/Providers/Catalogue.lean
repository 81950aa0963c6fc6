import InferenceLogger.Providers.Mock
import InferenceLogger.Providers.Registry
import InferenceLogger.Providers.Vendors

/-! # The providers of a deployment

What the settings make of the registry, and what `GET /providers` tells of it. The clients of the
vendors' packages are built from a key and an address; an empty key counts as none.
-/
namespace InferenceLogger
open PyText PyJson AsyncTask

/-- The settings the registry is built from. -/
structure ProviderSettings where
  anthropicApiKey : Option Text := none
  openaiApiKey : Option Text := none
  defaultProvider : Text := text "mock"
  defaultAnthropicModel : Text := text "claude-opus-5"
  defaultOpenaiModel : Text := text "gpt-4o"
  groqApiKey : Option Text := none
  groqBaseUrl : Text := text "https://api.groq.com/openai/v1"
  defaultGroqModel : Text := text "openai/gpt-oss-20b"
  groqMaxOutputTokens : ℤ := 4096
  geminiApiKey : Option Text := none
  geminiBaseUrl : Text := text "https://generativelanguage.googleapis.com/v1beta/openai/"
  defaultGeminiModel : Text := text "gemini-flash-latest"
  ollamaEnabled : Bool := false
  ollamaBaseUrl : Text := text "http://localhost:11434/v1"
  defaultOllamaModel : Text := text "llama3.2"

/-- `AsyncAnthropic(api_key=…)`, `AsyncOpenAI(api_key=…, base_url=…)`, and the mock. -/
structure Sdk (B : Signature) where
  asyncAnthropic : Text → AnthropicClient B
  asyncOpenAI : Text → Option Text → OpenAIClient B
  mock : MockProvider B

/-- An adapter with the models it advertises. -/
structure Adapter (B : Signature) extends RegisteredProvider B where
  supportedModels : List Text

/-- An adapter that leaves `supports_model` and `supported_models` as they are in the base class. -/
def openCatalogue {B : Signature} (p : BaseProvider B) : Adapter B :=
  {p with supportsModel := fun _ => true, supportedModels := [p.defaultModel]}

section
variable {B : Signature}

def MockProvider.adapter (p : MockProvider B) : Adapter B :=
  {p.provider with
    supportsModel := fun model => (MockProvider.delays.map Prod.fst).contains model
    supportedModels := MockProvider.delays.map Prod.fst}

structure OpenAICompatibleProvider (B : Signature) extends OpenAIProvider B where
  name : Text
  maxOutputTokens : Option ℤ := none

def OpenAICompatibleProvider.provider (p : OpenAICompatibleProvider B) : BaseProvider B :=
  {p.toOpenAIProvider.provider with name := p.name, maxOutputTokensCap := p.maxOutputTokens}

namespace Sdk
variable (sdk : Sdk B)

/-- `AnthropicProvider(…)`. -/
def anthropicProvider (apiKey : Option Text) (defaultModel : Text) : AnthropicProvider B where
  client := (orText apiKey none).map sdk.asyncAnthropic
  defaultModel := defaultModel

/-- `OpenAIProvider(…)`. -/
def openAIProvider (apiKey : Option Text) (defaultModel : Text) : OpenAIProvider B where
  client := (orText apiKey none).map fun key => sdk.asyncOpenAI key none
  defaultModel := defaultModel

/-- `OpenAICompatibleProvider(…)`. -/
def compatibleProvider (name : Text) (apiKey : Option Text) (baseUrl defaultModel : Text) (maxOutputTokens : Option ℤ) :
    OpenAICompatibleProvider B where
  client := (orText apiKey none).map fun key => sdk.asyncOpenAI key (some baseUrl)
  defaultModel := defaultModel
  name := name
  maxOutputTokens := maxOutputTokens

def groqProvider (apiKey : Option Text) (baseUrl defaultModel : Text) (maxOutputTokens : ℤ) : OpenAICompatibleProvider B :=
  sdk.compatibleProvider (text "groq") apiKey baseUrl defaultModel (some maxOutputTokens)

def geminiProvider (apiKey : Option Text) (baseUrl defaultModel : Text) : OpenAICompatibleProvider B :=
  sdk.compatibleProvider (text "gemini") apiKey baseUrl defaultModel none

/-- Any key will do. -/
def ollamaProvider (baseUrl defaultModel : Text) : OpenAICompatibleProvider B :=
  sdk.compatibleProvider (text "ollama") (some (text "ollama")) baseUrl defaultModel none

/-- The candidates of `from_settings`. -/
def candidates (settings : ProviderSettings) : List (Adapter B) :=
  [sdk.mock.adapter,
    openCatalogue (sdk.anthropicProvider settings.anthropicApiKey settings.defaultAnthropicModel).provider,
    openCatalogue (sdk.openAIProvider settings.openaiApiKey settings.defaultOpenaiModel).provider,
    openCatalogue (sdk.groqProvider settings.groqApiKey settings.groqBaseUrl settings.defaultGroqModel
      settings.groqMaxOutputTokens).provider,
    openCatalogue (sdk.geminiProvider settings.geminiApiKey settings.geminiBaseUrl settings.defaultGeminiModel).provider] ++
  if settings.ollamaEnabled = true then
    [openCatalogue (sdk.ollamaProvider settings.ollamaBaseUrl settings.defaultOllamaModel).provider]
  else []

end Sdk

/-! ## The registry -/

/-- The registry with what its adapters advertise. -/
structure Catalogue (B : Signature) where
  providers : List (Text × Adapter B)
  defaultName : Text

namespace Catalogue

/-- `ProviderRegistry.from_settings`. -/
def fromSettings (sdk : Sdk B) (settings : ProviderSettings) : Catalogue B :=
  let configured := (sdk.candidates settings).filter fun p => p.isConfigured
  { providers := configured.map fun p => (p.name,p)
    defaultName := if (configured.map fun p => p.name).contains settings.defaultProvider
      then settings.defaultProvider else text "mock" }

variable (c : Catalogue B)

/-- The registry that a service holds. -/
def registry (repr : Text → Text) : ProviderRegistry B where
  providers := c.providers.map fun p => (p.1,p.2.toRegisteredProvider)
  defaultName := c.defaultName
  repr := repr

/-- `ProviderRegistry.get`. -/
def get (name : Option Text) : Except Exc (Adapter B) :=
  let resolved := (orText name none).getD c.defaultName
  match c.providers.lookup resolved with
  | some provider => .ok provider
  | none => .error (.own (.appError {
      kind := .providerNotConfigured
      message := text "Provider '" ++ resolved ++ text "' is not available"
      errorType := none }))

/-- Texts by their code points. -/
def textLe : Text → Text → Bool
  | [], _ => true
  | _ :: _, [] => false
  | a :: s, b :: t => decide (a < b) || (decide (a = b) && textLe s t)

/-- `ProviderRegistry.available`. -/
def available : List Text := (c.providers.map Prod.fst).mergeSort textLe

end Catalogue

structure ProviderInfo where
  name : Text
  defaultModel : Text
  isDefault : Bool
  models : List Text

structure ProviderList where
  items : List ProviderInfo
  default : Text

/-- One entry of the comprehension in `list_providers`. -/
def Catalogue.info (c : Catalogue B) (name : Text) : Except Exc ProviderInfo := do
  let provider ← c.get (some name)
  return {
    name := name
    defaultModel := provider.defaultModel
    isDefault := decide (name = c.defaultName)
    models := provider.supportedModels }

/-- `GET /providers`. -/
def Catalogue.listProviders (c : Catalogue B) : Except Exc ProviderList := do
  let items ← c.available.mapM c.info
  return ⟨items,c.defaultName⟩

end
end InferenceLogger
