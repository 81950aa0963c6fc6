import InferenceLogger.Instrumentation.Wrapper

/-! # The provider registry

The configured providers under their names, and what a request's provider and model resolve
to. `repr` is the interpreter's, which only the text of an error goes through.
-/
namespace InferenceLogger
open PyText AsyncTask

/-- An adapter with the models it serves. -/
structure RegisteredProvider (B : Signature) extends BaseProvider B where
  supportsModel : Text → Bool

structure ProviderRegistry (B : Signature) where
  providers : List (Text × RegisteredProvider B)
  defaultName : Text
  repr : Text → Text

namespace ProviderRegistry
variable {B : Signature} (registry : ProviderRegistry B)

def get (name : Option Text) : Except Exc (RegisteredProvider B) :=
  let resolved := (orText name none).getD registry.defaultName
  match registry.providers.lookup resolved with
  | some provider => .ok provider
  | none => .error (.own (.appError {
      kind := .providerNotConfigured
      message := text "Provider '" ++ resolved ++ text "' is not available"
      errorType := none }))

/-- The provider's own name and the model, with the defaults applied. -/
def resolveModel (providerName model : Option Text) : Except Exc (Text × Text) := do
  let provider ← registry.get providerName
  let resolved := (orText model none).getD provider.defaultModel
  if provider.supportsModel resolved then return (provider.name,resolved)
  else throw (.own (.appError {
    kind := .modelNotSupported
    message := text "Provider " ++ registry.repr provider.name ++ text " does not serve model " ++ registry.repr resolved
    errorType := none }))

end ProviderRegistry
end InferenceLogger
