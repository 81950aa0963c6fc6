import InferenceLogger.Domain.Events

/-! # Exceptions

The application's error taxonomy, and what the programs of the model can raise. An
exception is an object: what the environment raises carries an identity of its own,
so "the very same exception" is an equality.
-/
namespace InferenceLogger
open PyText

inductive AppErrorKind where
  | appError
  | notFound
  | validation
  | providerNotConfigured
  | modelNotSupported
  | provider
  deriving DecidableEq

def AppErrorKind.code : AppErrorKind → Text
  | .appError => text "internal_error"
  | .notFound => text "not_found"
  | .validation => text "validation_error"
  | .providerNotConfigured => text "provider_not_configured"
  | .modelNotSupported => text "model_not_supported"
  | .provider => text "provider_error"

def AppErrorKind.typeName : AppErrorKind → Text
  | .appError => text "AppError"
  | .notFound => text "NotFoundError"
  | .validation => text "ValidationError"
  | .providerNotConfigured => text "ProviderNotConfiguredError"
  | .modelNotSupported => text "ModelNotSupportedError"
  | .provider => text "ProviderError"

/-- `errorType` is the entry of that name in the error's context. -/
structure AppError where
  kind : AppErrorKind
  message : Text
  errorType : Option Text

def AppError.code (e : AppError) : Text := e.kind.code

inductive ExcClass where
  | cancelledError
  | generatorExit
  | baseException (name message : Text)
  | appError (e : AppError)
  | eventInvalid (e : EventError)
  | exception (name message : Text)

namespace ExcClass

/-- `isinstance(exc, Exception)`. -/
def isException : ExcClass → Bool
  | .cancelledError => false
  | .generatorExit => false
  | .baseException _ _ => false
  | _ => true

def isCancelled : ExcClass → Bool
  | .cancelledError => true
  | _ => false

/-- `type(exc).__name__`. -/
def typeName : ExcClass → Text
  | .cancelledError => text "CancelledError"
  | .generatorExit => text "GeneratorExit"
  | .baseException name _ => name
  | .appError e => e.kind.typeName
  | .eventInvalid (.validation _) => text "ValidationError"
  | .eventInvalid .typeError => text "TypeError"
  | .exception name _ => name

/-- `str(exc)`. The text of a validation error is the library's; nothing here reads it. -/
def str : ExcClass → Text
  | .baseException _ message => message
  | .appError e => e.message
  | .exception _ message => message
  | _ => []

end ExcClass

/-- `foreign` is raised by a provider, a consumer, a database, a broker or the event loop;
`own` by the code itself. -/
inductive Exc where
  | foreign (ident : ℕ) (cls : ExcClass)
  | own (cls : ExcClass)

namespace Exc

def cls : Exc → ExcClass
  | .foreign _ c => c
  | .own c => c

def isForeign : Exc → Bool
  | .foreign _ _ => true
  | .own _ => false

def isException (e : Exc) : Bool := e.cls.isException
def isCancelled (e : Exc) : Bool := e.cls.isCancelled

end Exc
end InferenceLogger
