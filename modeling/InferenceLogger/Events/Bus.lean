import InferenceLogger.Domain.EventJson
import InferenceLogger.Worker.System

/-! # The two transports

The producer's side of the stream, and the bus that needs no broker. What an event carries from
one side to the other is its JSON-mode dump, as text or as a dictionary.
-/
namespace InferenceLogger
open PyText PyJson

/-- `RedisEventBus.publish`: the id Redis gives the entry, or none in an outage. A dump that
fails raises. -/
def RedisEventBus.publish (enc : Encoder) (py : Pydantic) (redis : Redis) (answer : Option ℕ) (event : InferenceEvent) :
    Redis × Except Exc Bool :=
  match event.modelDumpJson enc py with
  | none => (redis,.error (pythonError "PydanticSerializationError"))
  | some data => match answer with
    | none => (redis,.ok false)
    | some id => (redis.add ⟨id,[(text "data",data)]⟩,.ok true)

structure InMemoryEventBus where
  pending : List DeliveredEvent := []
  counter : ℕ := 0
  published : List InferenceEvent := []
  deadLettered : List (Json × Text) := []

namespace InMemoryEventBus

/-- The event counts as published before it is dumped. -/
def publish (enc : Encoder) (py : Pydantic) (bus : InMemoryEventBus) (event : InferenceEvent) :
    InMemoryEventBus × Except Exc Bool :=
  let counted := { bus with counter := bus.counter + 1, published := bus.published ++ [event] }
  match event.modelDump enc py with
  | none => (counted,.error (pythonError "ValueError"))
  | some payload => ({ counted with pending := bus.pending ++ [⟨counted.counter,.obj payload⟩] },.ok true)

def poll (bus : InMemoryEventBus) (count : ℕ) : InMemoryEventBus × List DeliveredEvent :=
  ({ bus with pending := bus.pending.drop count },bus.pending.take count)

def deadLetter (bus : InMemoryEventBus) (payload : Json) (reason : Text) : InMemoryEventBus :=
  { bus with deadLettered := bus.deadLettered ++ [(payload,reason)] }

end InMemoryEventBus

/-! ## Reading an event off the stream -/

section
variable {enc : Encoder} {py : Pydantic} (h : enc.Lawful py) {e : EventFields} (ht : e.Typed enc)

/-- The integers of an event. -/
def EventFields.counts (e : EventFields) : List ℤ :=
  e.schemaVersion :: (e.latencyMs.toList ++ e.ttftMs.toList ++ e.inputTokens.toList ++ e.outputTokens.toList)

theorem orNull_iff {α : Type} {Q : Json → Prop} (hn : Q .null) (f : α → Json) (o : Option α) :
    Q (orNull f o) ↔ ∀ a, o = some a → Q (f a) := by
  cases o with
  | none => simp [orNull,hn]
  | some a => simp [orNull]

/-- What holds of texts, flags and `None` holds of every value of the dump when it holds of the
integers and of the metadata. -/
theorem forall_dump {Q : Json → Prop} (hs : ∀ t, Q (.str t)) (hb : ∀ b, Q (.bool b)) (hn : Q .null) (e : EventFields) :
    (∀ m ∈ e.dump enc, Q m.2) ↔ (∀ n ∈ e.counts, Q (.int n)) ∧ ∀ d, e.rawMetadata = some d → Q (.obj d) := by
  simp only [EventFields.dump, EventFields.counts, List.forall_mem_cons, List.forall_mem_append, Option.mem_toList,
    orNull_iff hn, hs, hb, Function.comp_apply, implies_true, true_and, and_true, List.not_mem_nil, false_implies]
  tauto

include ht in
/-- The dump is a dictionary of dictionaries whose floats can be read back. -/
theorem dump_writable :
    (Json.obj (e.dump enc)).distinctKeys = true ∧ (Json.obj (e.dump enc)).all (fun _ => true) enc.exact = true := by
  have hdistinct : ∀ m ∈ e.dump enc, m.2.distinctKeys = true :=
    (forall_dump (Q := fun v => v.distinctKeys = true) (fun _ => rfl) (fun _ => rfl) rfl e).mpr
      ⟨fun _ _ => rfl,fun d hd => (ht.metadata d hd).1⟩
  have hall : ∀ m ∈ e.dump enc, m.2.all (fun _ => true) enc.exact = true :=
    (forall_dump (Q := fun v => v.all (fun _ => true) enc.exact = true) (fun _ => rfl) (fun _ => rfl) rfl e).mpr
      ⟨fun _ _ => rfl,fun d hd => Json.all_anyText _ (ht.metadata d hd).2⟩
  constructor
  · change (decide ((e.dump enc).map Prod.fst).Nodup && Json.distinctMembers (e.dump enc)) = true
    rw [Bool.and_eq_true, decide_eq_true_eq, distinctMembers_iff]
    exact ⟨fieldNames_nodup,hdistinct⟩
  · rw [Json.all, allMembers_iff]
    exact fun m hm => ⟨rfl,hall m hm⟩

/-- The metadata is nested within the dump's and the reader's limits, and the interpreter converts
every integer. -/
def EventFields.Carried (py : Pydantic) (limit : ℕ) (e : EventFields) : Prop :=
  py.dumps e.rawMetadata = true ∧ 0 < limit ∧ (∀ n ∈ e.counts, shortInt n = true) ∧
    ∀ d, e.rawMetadata = some d → (Json.obj d).Within (limit - 1)

theorem within_dump (limit : ℕ) : (Json.obj (e.dump enc)).Within limit ↔
    0 < limit ∧ (∀ n ∈ e.counts, shortInt n = true) ∧ ∀ d, e.rawMetadata = some d → (Json.obj d).Within (limit - 1) := by
  cases limit with
  | zero =>
    have hdeep : ¬ (Json.obj (e.dump enc)).Within 0 := fun hw => absurd hw.1 (Nat.not_succ_le_zero _)
    simp [hdeep]
  | succ limit =>
    have hmembers : (Json.obj (e.dump enc)).Within (limit + 1) ↔ ∀ m ∈ e.dump enc, m.2.Within limit := by
      rw [← within_members]
      exact and_congr_left fun _ => Nat.succ_le_succ_iff
    have hscalar : ∀ {v : Json}, v.depth = 0 → v.shortInts = true → v.Within limit := by
      intro v hd hi
      exact ⟨by omega,hi⟩
    have hint : ∀ n, (Json.int n).Within limit ↔ shortInt n = true :=
      fun n => ⟨fun hw => hw.2,fun hs => ⟨Nat.zero_le _,hs⟩⟩
    rw [hmembers, forall_dump (Q := Json.Within limit) (fun _ => hscalar rfl rfl) (fun _ => hscalar rfl rfl) (hscalar rfl rfl) e]
    simp [hint]

include h ht

theorem loads_dump (limit : ℕ) :
    ((Json.obj (e.dump enc)).Within limit → loads limit (write enc.number (.obj (e.dump enc))) = .ok (.obj (e.dump enc))) ∧
      (¬ (Json.obj (e.dump enc)).Within limit →
        ∃ err ≠ LoadsError.decode, loads limit (write enc.number (.obj (e.dump enc))) = .error err) :=
  loads_write h.float_back limit _ (dump_writable ht).1 (dump_writable ht).2

end

/-! ## The two ends agree -/

section
variable (rt : Runtime) (py : Pydantic) (enc : Encoder)

/-- Through Redis: the entry that is added is decoded to a dictionary that validates to the event,
under the event's id. -/
def RedisAgrees (event : InferenceEvent) : Prop :=
  ∀ redis id, ∃ entry payload, RedisEventBus.publish enc py redis (some id) event = (redis.add entry,.ok true) ∧ entry.id = id ∧
    RedisEventStream.decode rt entry.fields = .ok (some (.obj payload)) ∧ extractId payload = some event.fields.id ∧
    InferenceEvent.modelValidate py payload = .ok event

/-- In process: what is polled last is a dictionary that validates to the event, under the event's id. -/
def InMemoryAgrees (event : InferenceEvent) : Prop :=
  ∀ bus : InMemoryEventBus, ∃ item payload, (bus.publish enc py event).2 = .ok true ∧
    ((bus.publish enc py event).1.poll (bus.pending.length + 1)).2 = bus.pending ++ [item] ∧ item.payload = .obj payload ∧
    extractId payload = some event.fields.id ∧ InferenceEvent.modelValidate py payload = .ok event

variable {rt py enc}

theorem extractId_dump (e : EventFields) : extractId (e.dump enc) = some e.id := by
  have hid : PyJson.get (text "id") (e.dump enc) = some (.str (uuidText e.id)) := get_dump (by simp [EventFields.dump])
  unfold extractId
  rw [hid]
  exact parseUuid_uuidText e.id

theorem decode_obj (rt : Runtime) {t : Text} {d : List (Text × Json)} (hload : loads rt.recursionLimit t = .ok (.obj d)) :
    RedisEventStream.decode rt [(text "data",t)] = .ok (some (.obj d)) := by
  simp [RedisEventStream.decode, hload]

theorem decode_ne_some (rt : Runtime) {t : Text} {err : LoadsError} (hload : loads rt.recursionLimit t = .error err) (v : Json) :
    RedisEventStream.decode rt [(text "data",t)] ≠ .ok (some v) := by
  cases err <;> simp [RedisEventStream.decode, hload]

/-- What is published on either transport is decoded to the same event exactly when it can be
dumped and is within the reader's limits. -/
theorem transports_agree_iff (rt : Runtime) {py : Pydantic} {enc : Encoder} (h : enc.Lawful py) (event : InferenceEvent)
    (ht : event.fields.Typed enc) :
    RedisAgrees rt py enc event ∧ InMemoryAgrees py enc event ↔ event.fields.Carried py rt.recursionLimit := by
  obtain ⟨hread,hfail⟩ := loads_dump h ht rt.recursionLimit
  have hvalid := modelValidate_dump h event ht
  have hextract : extractId (event.fields.dump enc) = some event.fields.id := extractId_dump event.fields
  constructor
  · rintro ⟨hredis,-⟩
    obtain ⟨entry,payload,hpublish,-,hdec,-,-⟩ := hredis {} 0
    by_cases hd : py.dumps event.fields.rawMetadata = true
    · have hwithin : (Json.obj (event.fields.dump enc)).Within rt.recursionLimit ↔ _ := within_dump rt.recursionLimit
      refine ⟨hd,hwithin.mp ?_⟩
      by_contra hnot
      obtain ⟨err,-,he⟩ := hfail hnot
      have hjson : event.modelDumpJson enc py = some (write enc.number (.obj (event.fields.dump enc))) := by
        simp [InferenceEvent.modelDumpJson,InferenceEvent.modelDump,hd]
      simp only [RedisEventBus.publish, hjson, Prod.mk.injEq, and_true] at hpublish
      have hentry : entry.fields = [(text "data",write enc.number (.obj (event.fields.dump enc)))] := by
        have hlist := congrArg Redis.entries hpublish
        simp only [Redis.add, List.append_cancel_left_eq, List.cons.injEq, and_true] at hlist
        rw [← hlist]
      rw [hentry] at hdec
      exact decode_ne_some rt he _ hdec
    · have hjson : event.modelDumpJson enc py = none := by
        simp [InferenceEvent.modelDumpJson,InferenceEvent.modelDump,hd]
      simp only [RedisEventBus.publish, hjson, Prod.mk.injEq, reduceCtorEq, and_false] at hpublish
  · rintro ⟨hd,hw⟩
    have hload := hread ((within_dump _).mpr hw)
    have hdump : event.modelDump enc py = some (event.fields.dump enc) := if_pos hd
    have hjson : event.modelDumpJson enc py = some (write enc.number (.obj (event.fields.dump enc))) := by
      simp [InferenceEvent.modelDumpJson,hdump]
    constructor
    · intro redis id
      refine ⟨⟨id,[(text "data",write enc.number (.obj (event.fields.dump enc)))]⟩,_,?_,rfl,decode_obj rt hload,hextract,hvalid⟩
      simp only [RedisEventBus.publish, hjson]
    · intro bus
      refine ⟨⟨bus.counter + 1,.obj (event.fields.dump enc)⟩,_,?_,?_,rfl,hextract,hvalid⟩
      · simp only [InMemoryEventBus.publish, hdump]
      · simp only [InMemoryEventBus.publish, InMemoryEventBus.poll, hdump]
        exact List.take_of_length_le (by simp)

end

/-! ## An encoder to run -/

@[irreducible] def epochText : Text := text "1970-01-01T00:00:00Z"

/-- The value of an integer's decimal text. -/
def intValue : Text → ℤ
  | [] => 0
  | c :: cs => if c = 0x2d then -(digitsValue cs : ℤ) else digitsValue (c :: cs)

theorem intValue_intText (n : ℤ) : intValue (intText n) = n := by
  have hvalue : digitsValue (decimal n.natAbs) = n.natAbs := decimal_foldl n.natAbs
  unfold intText
  split
  · rename_i hneg
    rw [intValue, if_pos rfl, hvalue]
    omega
  · rename_i hpos
    obtain ⟨c,cs,hc,-⟩ := decimal_head n.natAbs
    obtain ⟨d,hd,hval⟩ := decimal_digit (n := n.natAbs) (c := c) (by rw [hc]; exact List.mem_cons_self)
    have hne : c ≠ 0x2d := by
      rintro rfl
      have h2d : ((0x2d : CodePoint) : ℕ) = 0x2d := rfl
      omega
    rw [hc, intValue, if_neg hne, ← hc, hvalue]
    omega

/-- It writes the epoch as the library does, and any other instant as its microseconds. -/
def plainEncoder : Encoder where
  datetime d := if d.micros = 0 then epochText else intText d.micros
  number := fun _ => []
  exact := fun _ => false

/-- The converters of the library for what `plainEncoder` writes, and its recursion guard. -/
def guardedPydantic : Pydantic := { plainPydantic with
  datetime
    | .str t => some (.utc (if t = epochText then 0 else intValue t))
    | _ => none
  dumps d := decide ((Json.obj (d.getD [])).depth ≤ 256) }

theorem intText_ne_epoch (n : ℤ) : intText n ≠ epochText := by
  intro h
  have hmem : (0x54 : CodePoint) ∈ intText n := by
    rw [h]
    unfold epochText
    decide
  have hdigit : ∀ c ∈ decimal n.natAbs, c ≠ 0x54 := by
    rintro c hc rfl
    obtain ⟨d,hd,hval⟩ := decimal_digit hc
    have h54 : ((0x54 : CodePoint) : ℕ) = 0x54 := rfl
    omega
  unfold intText at hmem
  split at hmem
  · rcases List.mem_cons.mp hmem with hm | hm
    · exact absurd hm (by decide)
    · exact hdigit _ hm rfl
  · exact hdigit _ hmem rfl

theorem guardedPydantic_uuid (t : Text) : guardedPydantic.uuid (.str t) = parseUuid t := rfl

theorem guardedPydantic_datetime (t : Text) :
    guardedPydantic.datetime (.str t) = some (.utc (if t = epochText then 0 else intValue t)) := rfl

theorem guardedPydantic_back (m : ℤ) : guardedPydantic.datetime (.str (plainEncoder.datetime (.utc m))) = some (.utc m) := by
  have hwritten : plainEncoder.datetime (.utc m) = if m = 0 then epochText else intText m := rfl
  rw [guardedPydantic_datetime, hwritten]
  by_cases hm : m = 0
  · rw [if_pos hm, if_pos rfl, hm]
  · rw [if_neg hm, if_neg (intText_ne_epoch m), intValue_intText]

theorem plainEncoder_lawful : plainEncoder.Lawful guardedPydantic where
  int_back := fun _ => rfl
  bool_back := fun _ => rfl
  str_back := fun _ _ => rfl
  uuid_back := by
    intro u
    rw [guardedPydantic_uuid, parseUuid_uuidText]
  datetime_back := fun m _ => guardedPydantic_back m
  float_back := by
    intro x hx
    cases hx

/-- A call of one instant that reports `metadata`. -/
def callFields (metadata : Members) : EventFields where
  schemaVersion := SCHEMA_VERSION
  id := 10
  conversationId := none
  messageId := some 7
  provider := text "mock"
  model := text "m"
  status := .success
  streamed := true
  startedAt := .utc 0
  completedAt := .utc 0
  latencyMs := some 0
  ttftMs := none
  inputTokens := some 3
  outputTokens := none
  inputPreview := some (text "hi")
  outputPreview := none
  errorType := none
  errorMessage := none
  finishReason := none
  rawMetadata := some metadata

def callEvent (metadata : Members) : InferenceEvent := ⟨callFields metadata,rfl⟩

/-- A dictionary in a dictionary, and so on. -/
def nestedMembers : ℕ → Members
  | 0 => []
  | n + 1 => [(text "k",.obj (nestedMembers n))]

theorem nestedMembers_depth (n : ℕ) : (Json.obj (nestedMembers n)).depth = n + 1 := by
  induction n with
  | zero => rfl
  | succ n ih =>
    have hmax : (Json.obj (nestedMembers (n + 1))).depth = max (Json.obj (nestedMembers n)).depth 0 + 1 := rfl
    rw [hmax, ih]
    omega

theorem nestedMembers_typed (n : ℕ) :
    (Json.obj (nestedMembers n)).distinctKeys = true ∧ (Json.obj (nestedMembers n)).all encodable plainEncoder.exact = true := by
  induction n with
  | zero => exact ⟨rfl,rfl⟩
  | succ n ih =>
    have hkeys : (Json.obj (nestedMembers (n + 1))).distinctKeys = ((Json.obj (nestedMembers n)).distinctKeys && true) := rfl
    have hall : (Json.obj (nestedMembers (n + 1))).all encodable plainEncoder.exact =
        ((Json.obj (nestedMembers n)).all encodable plainEncoder.exact && true) := rfl
    rw [hkeys, hall, ih.1, ih.2]
    exact ⟨rfl,rfl⟩

theorem callFields_typed (n : ℕ) : (callFields (nestedMembers n)).Typed plainEncoder where
  started := ⟨0,⟨by decide,by decide⟩,rfl⟩
  completed := ⟨0,⟨by decide,by decide⟩,rfl⟩
  texts := by
    rintro t (rfl | rfl | rfl) <;> rfl
  metadata := by
    intro d hd
    cases hd
    exact nestedMembers_typed n

/-- A call whose metadata holds one dictionary is carried by both. -/
theorem transports_agree_nested : RedisAgrees plainRuntime guardedPydantic plainEncoder (callEvent (nestedMembers 1)) ∧
    InMemoryAgrees guardedPydantic plainEncoder (callEvent (nestedMembers 1)) := by
  refine (transports_agree_iff plainRuntime plainEncoder_lawful _ (callFields_typed 1)).mpr ⟨rfl,by decide,?_,?_⟩
  · decide
  · intro d hd
    cases hd
    exact ⟨by decide,rfl⟩

/-- Metadata nested deeper than the recursion guard: publishing raises, on both. -/
theorem publish_raises_deep : (callEvent (nestedMembers 300)).fields.Typed plainEncoder ∧
    (∀ redis answer, RedisEventBus.publish plainEncoder guardedPydantic redis answer (callEvent (nestedMembers 300)) =
      (redis,.error (pythonError "PydanticSerializationError"))) ∧
    (∀ bus, (InMemoryEventBus.publish plainEncoder guardedPydantic bus (callEvent (nestedMembers 300))).2 =
      .error (pythonError "ValueError")) ∧
    ¬ (RedisAgrees plainRuntime guardedPydantic plainEncoder (callEvent (nestedMembers 300)) ∧
      InMemoryAgrees guardedPydantic plainEncoder (callEvent (nestedMembers 300))) := by
  have hdumps : guardedPydantic.dumps (some (nestedMembers 300)) = false := by
    simp only [guardedPydantic, Option.getD_some, nestedMembers_depth]
    decide
  have hnone : (callEvent (nestedMembers 300)).modelDump plainEncoder guardedPydantic = none := by
    unfold InferenceEvent.modelDump
    exact if_neg (by rw [Bool.not_eq_true]; exact hdumps)
  have hredis : ∀ redis answer, RedisEventBus.publish plainEncoder guardedPydantic redis answer (callEvent (nestedMembers 300)) =
      (redis,.error (pythonError "PydanticSerializationError")) := by
    intro redis answer
    simp only [RedisEventBus.publish, InferenceEvent.modelDumpJson, hnone, Option.map_none]
  refine ⟨callFields_typed 300,hredis,?_,?_⟩
  · intro bus
    simp only [InMemoryEventBus.publish, hnone]
  · rintro ⟨hagrees,-⟩
    obtain ⟨entry,payload,hpublish,-⟩ := hagrees {} 0
    rw [hredis] at hpublish
    cases (Prod.mk.inj hpublish).2

end InferenceLogger
