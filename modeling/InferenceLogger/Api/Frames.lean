import InferenceLogger.Foundation.JsJson
import InferenceLogger.Foundation.Numerals
import InferenceLogger.Services.Chat

/-! # The frames of the response

`json.dumps` on the dictionaries of `_to_sse`, `format_sse`, and what `JSON.parse` makes of the
data line.
-/
namespace InferenceLogger
open PyText Utf JsJson

/-- A value of those dictionaries. -/
inductive Field where
  | str (t : Text)
  | int (n : ℤ)

/-- `'\\u{0:04x}'.format(n)`. -/
def escapeUnit (u : CodeUnit) : Text :=
  [0x5c,0x75,hexChar (u.val / 0x1000),hexChar (u.val / 0x100 % 0x10),hexChar (u.val / 0x10 % 0x10),hexChar (u.val % 0x10)]

/-- Everything outside the printable ASCII range is escaped, an astral character as two units. -/
def escapeChar (c : CodePoint) : Text :=
  if c.val = 0x22 ∨ c.val = 0x5c then [0x5c,c]
  else if c.val = 0x0a then [0x5c,0x6e]
  else if c.val = 0x0d then [0x5c,0x72]
  else if c.val = 0x09 then [0x5c,0x74]
  else if c.val = 0x0c then [0x5c,0x66]
  else if c.val = 0x08 then [0x5c,0x62]
  else if 0x20 ≤ c.val ∧ c.val ≤ 0x7e then [c]
  else (units c).flatMap escapeUnit

def quoted (t : Text) : Text := 0x22 :: (t.flatMap escapeChar ++ [0x22])

def Field.text : Field → Text
  | .str t => quoted t
  | .int n => intText n

def memberText (m : Text × Field) : Text := quoted m.1 ++ (0x3a :: 0x20 :: m.2.text)

/-- The members after the opening brace, and the closing one. -/
def membersText : List (Text × Field) → Text
  | [] => [0x7d]
  | [m] => memberText m ++ [0x7d]
  | m :: ms => memberText m ++ (0x2c :: 0x20 :: membersText ms)

/-- `json.dumps(data, default=str)`. -/
def dumps (data : List (Text × Field)) : Text := 0x7b :: membersText data

def formatSse (event : Text) (data : List (Text × Field)) : Text :=
  text "event: " ++ event ++ (text "\ndata: " ++ (dumps data ++ text "\n\n"))

/-- The dictionary of an event. -/
def ChatStreamEvent.data : ChatStreamEvent → List (Text × Field)
  | .started conversationId provider model =>
    [(PyText.text "conversation_id",.str (uuidText conversationId)),(PyText.text "provider",.str provider),
    (PyText.text "model",.str model)]
  | .firstToken ttftMs => [(PyText.text "ttft_ms",.int ttftMs)]
  | .delta text => [(PyText.text "text",.str text)]
  | .completed messageId latencyMs =>
    [(PyText.text "message_id",.str (uuidText messageId)),(PyText.text "latency_ms",.int latencyMs)]
  | .failed code message => [(PyText.text "code",.str code),(PyText.text "message",.str message)]

def ChatStreamEvent.name : ChatStreamEvent → Text
  | .started _ _ _ => PyText.text "start"
  | .firstToken _ => PyText.text "ttft"
  | .delta _ => PyText.text "chunk"
  | .completed _ _ => PyText.text "done"
  | .failed _ _ => PyText.text "error"

def toSse (event : ChatStreamEvent) : Text := formatSse event.name event.data

example : uuidText 10 = text "00000000-0000-0000-0000-00000000000a" := by decide
example : dumps [(text "text",.str (text "a\n\x01"))] = text "\x7b\"text\": \"a\\n\\u0001\"\x7d" := by decide

/-! ## Everything is printable -/

def Printable (t : Text) : Prop := ∀ c ∈ t, 0x20 ≤ c.val ∧ c.val ≤ 0x7e

theorem Printable.nil : Printable [] := by simp [Printable]

theorem Printable.cons {c : CodePoint} {t : Text} (hc : 0x20 ≤ c.val ∧ c.val ≤ 0x7e) (ht : Printable t) :
    Printable (c :: t) := by
  intro d hd
  rcases List.mem_cons.mp hd with rfl | hd
  · exact hc
  · exact ht d hd

theorem Printable.append {t u : Text} (ht : Printable t) (hu : Printable u) : Printable (t ++ u) := by
  intro c hc
  rcases List.mem_append.mp hc with hc | hc
  · exact ht c hc
  · exact hu c hc

theorem Printable.flatMap {α : Type} {l : List α} {f : α → Text} (h : ∀ x ∈ l, Printable (f x)) : Printable (l.flatMap f) := by
  intro c hc
  obtain ⟨x,hx,hc⟩ := List.mem_flatMap.mp hc
  exact h x hx c hc

instance (t : Text) : Decidable (Printable t) :=
  decidable_of_iff (t.all (fun c => 0x20 ≤ c.val ∧ c.val ≤ 0x7e) = true) (by simp [Printable])

theorem hexChar_printable {d : ℕ} (h : d < 0x10) : 0x20 ≤ (hexChar d).val ∧ (hexChar d).val ≤ 0x7e := by
  have hval := hexChar_val h
  omega

theorem escapeUnit_printable (u : CodeUnit) : Printable (escapeUnit u) := by
  have hu := u.isLt
  refine .cons (by decide) (.cons (by decide) (.cons (hexChar_printable ?_) (.cons (hexChar_printable ?_)
    (.cons (hexChar_printable ?_) (.cons (hexChar_printable ?_) .nil))))) <;> omega

theorem escapeChar_printable (c : CodePoint) : Printable (escapeChar c) := by
  unfold escapeChar
  split
  · rename_i h
    exact .cons (by decide) (.cons (by omega) .nil)
  iterate 5
    split
    · exact .cons (by decide) (.cons (by decide) .nil)
  split
  · rename_i h
    exact .cons h .nil
  · exact .flatMap fun u _ => escapeUnit_printable u

theorem quoted_printable (t : Text) : Printable (quoted t) :=
  .cons (by decide) (.append (.flatMap fun c _ => escapeChar_printable c) (.cons (by decide) .nil))

theorem decimal_printable (n : ℕ) : Printable (decimal n) := by
  intro c hc
  obtain ⟨d,hd,hval⟩ := decimal_digit hc
  omega

theorem Field.text_printable (f : Field) : Printable f.text := by
  cases f with
  | str t => exact quoted_printable t
  | int n =>
    change Printable (intText n)
    unfold intText
    split
    · exact .cons (by decide) (decimal_printable _)
    · exact decimal_printable _

theorem memberText_printable (m : Text × Field) : Printable (memberText m) :=
  .append (quoted_printable _) (.cons (by decide) (.cons (by decide) m.2.text_printable))

theorem membersText_printable (ms : List (Text × Field)) : Printable (membersText ms) := by
  fun_induction membersText ms with
  | case1 => exact .cons (by decide) .nil
  | case2 m => exact .append (memberText_printable m) (.cons (by decide) .nil)
  | case3 m ms _ ih => exact .append (memberText_printable m) (.cons (by decide) (.cons (by decide) ih))

theorem dumps_printable (data : List (Text × Field)) : Printable (dumps data) :=
  .cons (by decide) (membersText_printable data)

end InferenceLogger
