import InferenceLogger.Foundation.PyText

/-! # Domain vocabulary

The closed enumerations of `app.domain.enums`, with the values that are stored and sent.
-/
namespace InferenceLogger
open PyText

inductive ConversationStatus where
  | active
  | cancelled
  | archived
  deriving DecidableEq

inductive MessageRole where
  | user
  | assistant
  | system
  deriving DecidableEq

inductive InferenceStatus where
  | success
  | error
  | cancelled
  deriving DecidableEq

def InferenceStatus.value : InferenceStatus → Text
  | .success => text "success"
  | .error => text "error"
  | .cancelled => text "cancelled"

/-- The member with a given value, as the enum constructor finds it. -/
def InferenceStatus.ofValue (t : Text) : Option InferenceStatus :=
  [.success,.error,.cancelled].find? (fun s : InferenceStatus => s.value == t)

theorem InferenceStatus.ofValue_value (s : InferenceStatus) : ofValue s.value = some s := by
  cases s <;> decide

inductive ProcessingStatus where
  | pending
  | processed
  | failed
  deriving DecidableEq

end InferenceLogger
