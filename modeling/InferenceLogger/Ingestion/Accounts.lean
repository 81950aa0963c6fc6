import InferenceLogger.Db.Metrics
import InferenceLogger.Events.Bus
import InferenceLogger.Ingestion.Runs

/-! # From the published events to the dashboard

Events under ids of their own go to Redis any number of times; any number of workers ingest them,
with any failures in between, while conversations come and go. What the dashboard counts at any
moment is some of those events, each of them once, and in the end all of them.
-/
namespace InferenceLogger
open PyText PyJson KeyedTable Grouping Transition

/-- `percentile_cont` sorts the values itself. -/
def SqlFunctions.Unordered (fn : SqlFunctions) : Prop := ∀ p {xs ys : List ℤ}, xs.Perm ys →
    fn.percentile p xs = fn.percentile p ys

/-! ## What the dashboard reads of a row -/

/-- The row but for its references and its own timestamp. -/
def EventFields.counted (f : EventFields) : EventFields := {f with conversationId := none, messageId := none}

def InferenceLog.counted (r : InferenceLog) : InferenceLog := ⟨r.fields.counted,0⟩

namespace MetricsRepository
variable {pg : Postgres} {fn : SqlFunctions} {table table' : List InferenceLog} {since : ℤ}

/-- The same numbers for every window; the providers with equally many requests in any order. -/
structure SameDashboard (pg : Postgres) (fn : SqlFunctions) (table table' : List InferenceLog) : Prop where
  totals : ∀ since, totals pg fn table since = MetricsRepository.totals pg fn table' since
  series : ∀ since interval, timeSeries pg fn table since interval = timeSeries pg fn table' since interval
  providers : ∀ since, (byProvider pg fn table since).Perm (byProvider pg fn table' since)

theorem SameDashboard.trans {table'' : List InferenceLog} (h : SameDashboard pg fn table table')
    (h' : SameDashboard pg fn table' table'') :
    SameDashboard pg fn table table'' :=
  ⟨fun since => (h.totals since).trans (h'.totals since),
    fun since interval => (h.series since interval).trans (h'.series since interval),
    fun since => (h.providers since).trans (h'.providers since)⟩

theorem SameDashboard.symm (h : SameDashboard pg fn table table') : SameDashboard pg fn table' table :=
  ⟨fun since => (h.totals since).symm,fun since interval => (h.series since interval).symm,fun since => (h.providers since).symm⟩

theorem coalesceSum_perm {α : Type} {column : α → Option ℤ} {xs ys : List α} (h : xs.Perm ys) : coalesceSum column xs =
    coalesceSum column ys := by
  have hvalues := h.filterMap column
  have hempty : (xs.filterMap column).isEmpty = (ys.filterMap column).isEmpty := by
    rw [Bool.eq_iff_iff, List.isEmpty_iff, List.isEmpty_iff]
    exact ⟨fun hx => List.nil_perm.mp (hx ▸ hvalues),fun hy => List.perm_nil.mp (hy ▸ hvalues)⟩
  unfold coalesceSum sqlSum
  rw [hempty, total_perm hvalues]

theorem countWhere_perm {α : Type} {condition : α → Bool} {xs ys : List α} (h : xs.Perm ys) : countWhere condition xs =
    countWhere condition ys :=
  coalesceSum_perm h

theorem countRows_perm {α : Type} {xs ys : List α} (h : xs.Perm ys) : countRows xs =
    countRows ys := congrArg Nat.cast h.length_eq

theorem percentile_perm (hfn : fn.Unordered) {p : ℕ} {column : EventFields → Option ℤ}
    {xs ys : List InferenceLog} (h : xs.Perm ys) :
    percentile fn p column xs = percentile fn p column ys := hfn p (h.filterMap _)

theorem window_perm (h : table.Perm table') : (window pg table since).Perm (window pg table' since) := h.filter _

theorem timeBucket_perm (hfn : fn.Unordered) (k : ℤ) {xs ys : List InferenceLog} (h : xs.Perm ys) : timeBucket fn k xs =
    timeBucket fn k ys := by
  unfold timeBucket
  rw [countRows_perm h, countWhere_perm h, countWhere_perm h, percentile_perm hfn h,
    percentile_perm hfn h, percentile_perm hfn h]

theorem providerBreakdown_perm (hfn : fn.Unordered) (k : Text × Text) {xs ys : List InferenceLog} (h : xs.Perm ys) :
    providerBreakdown fn k xs = providerBreakdown fn k ys := by
  unfold providerBreakdown
  rw [countRows_perm h, countWhere_perm h, countWhere_perm h, percentile_perm hfn h,
    percentile_perm hfn h, percentile_perm hfn h,
    coalesceSum_perm h, coalesceSum_perm h]

/-- The order in which the table holds its rows does not matter. -/
theorem sameDashboard_perm (hfn : fn.Unordered) (h : table.Perm table') : SameDashboard pg fn table table' := by
  refine ⟨fun since => ?_,fun since interval => ?_,fun since => ?_⟩
  · have hw : (window pg table since).Perm (window pg table' since) := window_perm h
    unfold MetricsRepository.totals totalsRow
    rw [countRows_perm hw, countWhere_perm hw, countWhere_perm hw, percentile_perm hfn hw, percentile_perm hfn hw,
      percentile_perm hfn hw, coalesceSum_perm hw, coalesceSum_perm hw]
  · have hw : (window pg table since).Perm (window pg table' since) := window_perm h
    have hgroups := groupBy_perm (fun r => fn.dateTrunc interval (r.bucketColumn pg))
        (fun k _ _ hp => timeBucket_perm hfn k hp) hw
    unfold timeSeries buckets
    split
    · refine congrArg some (mergeSort_groupBy _ (fun a b => decide (a ≤ b)) ?_ ?_ ?_ TimeBucket.bucket (fun _ _ => rfl) hgroups)
      · intro a b c hab hbc
        simp only [decide_eq_true_eq] at *
        omega
      · intro a b
        simp only [Bool.or_eq_true, decide_eq_true_eq]
        omega
      · intro a b hab hba
        simp only [decide_eq_true_eq] at *
        omega
    · rfl
  · have hw : (window pg table since).Perm (window pg table' since) := window_perm h
    have hgroups := groupBy_perm (fun r : InferenceLog => (r.fields.provider,r.fields.model))
      (fun k _ _ hp => providerBreakdown_perm hfn k hp) hw
    exact (List.mergeSort_perm _ _).trans (hgroups.trans (List.mergeSort_perm _ _).symm)

theorem coalesceSum_map {α β : Type} {column : β → Option ℤ} {column' : α → Option ℤ} {f : α → β}
    (h : ∀ x, column (f x) = column' x)
    (xs : List α) : coalesceSum column (xs.map f) = coalesceSum column' xs := by
  have hcomp : column ∘ f = column' := funext h
  unfold coalesceSum sqlSum
  rw [List.filterMap_map, hcomp]

theorem countWhere_counted {condition : InferenceLog → Bool} (h : ∀ r, condition r.counted = condition r)
    (rows : List InferenceLog) :
    countWhere condition (rows.map InferenceLog.counted) = countWhere condition rows :=
  coalesceSum_map (fun r => by rw [h]) rows

theorem countRows_map {α β : Type} (f : α → β) (xs : List α) : countRows (xs.map f) = countRows xs := by
  unfold countRows
  rw [List.length_map]

theorem percentile_counted {p : ℕ} {column : EventFields → Option ℤ} (h : ∀ f : EventFields, column f.counted = column f)
    (rows : List InferenceLog) : percentile fn p column (rows.map InferenceLog.counted) = percentile fn p column rows := by
  have hcomp : (fun r : InferenceLog => column r.fields) ∘ InferenceLog.counted = fun r => column r.fields := by
    funext r
    exact h r.fields
  unfold percentile
  rw [List.filterMap_map, hcomp]

theorem window_counted (table : List InferenceLog) (since : ℤ) :
    window pg (table.map InferenceLog.counted) since = (window pg table since).map InferenceLog.counted := by
  unfold window
  rw [List.filter_map]
  rfl

/-- Nor do the references of the rows. -/
theorem sameDashboard_counted (table : List InferenceLog) : SameDashboard pg fn (table.map InferenceLog.counted) table := by
  have herror : ∀ rows, countWhere InferenceLog.isError (rows.map InferenceLog.counted) = countWhere InferenceLog.isError rows :=
    countWhere_counted fun _ => rfl
  have hcancelled : ∀ rows, countWhere InferenceLog.isCancelled (rows.map InferenceLog.counted) =
      countWhere InferenceLog.isCancelled rows :=
    countWhere_counted fun _ => rfl
  have hlatency : ∀ p rows, percentile fn p EventFields.latencyMs (rows.map InferenceLog.counted) =
      percentile fn p EventFields.latencyMs rows :=
    fun _ => percentile_counted fun _ => rfl
  have httft : ∀ p rows, percentile fn p EventFields.ttftMs (rows.map InferenceLog.counted) =
      percentile fn p EventFields.ttftMs rows :=
    fun _ => percentile_counted fun _ => rfl
  have hinput : ∀ rows : List InferenceLog, coalesceSum (fun r => r.fields.inputTokens) (rows.map InferenceLog.counted) =
      coalesceSum (fun r => r.fields.inputTokens) rows := coalesceSum_map fun _ => rfl
  have houtput : ∀ rows : List InferenceLog, coalesceSum (fun r => r.fields.outputTokens) (rows.map InferenceLog.counted) =
      coalesceSum (fun r => r.fields.outputTokens) rows := coalesceSum_map fun _ => rfl
  refine ⟨fun since => ?_,fun since interval => ?_,fun since => ?_⟩
  · unfold MetricsRepository.totals totalsRow
    rw [window_counted, countRows_map, herror, hcancelled, hlatency, hlatency, httft, hinput, houtput]
  · have hbuckets : ∀ k rows, timeBucket fn k (rows.map InferenceLog.counted) = timeBucket fn k rows := by
      intro k rows
      unfold timeBucket
      rw [countRows_map, herror, hcancelled, hlatency, hlatency, httft]
    have hgroups : groupBy (fun r => fn.dateTrunc interval (r.bucketColumn pg)) (timeBucket fn)
        ((window pg table since).map InferenceLog.counted) =
        groupBy (fun r => fn.dateTrunc interval (r.bucketColumn pg)) (timeBucket fn) (window pg table since) :=
      groupBy_map _ (fun _ => rfl) hbuckets _
    unfold timeSeries buckets
    rw [window_counted, hgroups]
  · have hproviders : ∀ k rows, providerBreakdown fn k (rows.map InferenceLog.counted) = providerBreakdown fn k rows := by
      intro k rows
      unfold providerBreakdown
      rw [countRows_map, herror, hcancelled, hlatency, hlatency, httft, hinput, houtput]
    have hgroups : groupBy (fun r : InferenceLog => (r.fields.provider,r.fields.model)) (providerBreakdown fn)
        ((window pg table since).map InferenceLog.counted) =
        groupBy (fun r : InferenceLog => (r.fields.provider,r.fields.model)) (providerBreakdown fn) (window pg table since) :=
      groupBy_map _ (fun _ => rfl) hproviders _
    unfold byProvider
    rw [window_counted, hgroups]

end MetricsRepository

/-! ## The events -/

/-- Events with distinct ids. -/
structure Published (enc : Encoder) where
  events : List InferenceEvent
  distinct : (events.map fun e => e.fields.id).Nodup
  typed : ∀ e ∈ events, e.fields.Typed enc

/-- The table of `inference_logs` with a row for each of the events. -/
def ledgerOf (events : List InferenceEvent) : List InferenceLog := events.map fun e => ⟨e.fields,0⟩

namespace Published
variable {d : Deployment} {enc : Encoder} {L : Published enc}

variable (d enc) in
/-- The entry holds the text of the event. -/
def Conveys (e : Entry) (event : InferenceEvent) : Prop :=
  ∃ data, event.modelDumpJson enc d.py = some data ∧ e.fields = [(text "data",data)]

variable (d L) in
/-- Only these events are published, through the bus; anything else may happen. -/
def Sends (s : System) : Action → Prop
  | .publish e => ∃ event ∈ L.events, RedisEventBus.publish enc d.py s.store.redis (some e.id) event =
    (s.store.redis.add e,.ok true)
  | _ => True

variable (d enc) in
/-- One of the event's entries has been acknowledged. -/
def Delivered (s : Store) (event : InferenceEvent) : Prop :=
  ∃ e ∈ s.published, Conveys d enc e event ∧ e.id ∈ s.acked

theorem same_event {event event' : InferenceEvent} (he : event ∈ L.events) (he' : event' ∈ L.events)
    (h : event.fields.id = event'.fields.id) : event = event' :=
  List.inj_on_of_nodup_map L.distinct he he' h

theorem conveys_of_sent {redis : Redis} {event : InferenceEvent} {e : Entry}
    (h : RedisEventBus.publish enc d.py redis (some e.id) event = (redis.add e,.ok true)) : Conveys d enc e event := by
  unfold RedisEventBus.publish at h
  split at h
  · cases (Prod.mk.inj h).2
  · rename_i data hdata
    have hentries := congrArg Redis.entries (Prod.mk.inj h).1
    simp only [Redis.add, List.append_cancel_left_eq, List.cons.injEq, and_true] at hentries
    exact ⟨data,hdata,by rw [← hentries]⟩

/-- An event that comes through the reader's limits is accepted; nothing else can become of its entry. -/
theorem Conveys.disposition (he : enc.Lawful d.py) {event : InferenceEvent} (ht : event.fields.Typed enc) {e : Entry}
    (h : Conveys d enc e event) :
    d.disposition e = .accepted event.fields.id (event.fields.dump enc) event ∨ d.disposition e = .fatal := by
  obtain ⟨data,hdata,hfields⟩ := h
  have hwritten : data = PyJson.write enc.number (.obj (event.fields.dump enc)) := by
    unfold InferenceEvent.modelDumpJson InferenceEvent.modelDump at hdata
    split at hdata
    · exact (Option.some.inj hdata).symm
    · cases hdata
  obtain ⟨hread,hfail⟩ := loads_dump he ht d.rt.recursionLimit
  by_cases hwithin : (Json.obj (event.fields.dump enc)).Within d.rt.recursionLimit
  · left
    have hdec : RedisEventStream.decode d.rt e.fields = .ok (some (.obj (event.fields.dump enc))) := by
      rw [hfields, hwritten]
      exact decode_obj d.rt (hread hwithin)
    rw [IngestionWorker.disposition_obj hdec, IngestionWorker.dispositionOf_id (extractId_dump event.fields)]
    exact IngestionWorker.validated_accepted.mpr ⟨rfl,rfl,modelValidate_dump he event ht⟩
  · right
    obtain ⟨err,hlimit,hload⟩ := hfail hwithin
    unfold IngestionWorker.disposition
    rw [hfields, hwritten]
    unfold RedisEventStream.decode
    cases err with
    | decode => exact absurd rfl hlimit
    | digits => simp [hload]
    | recursion => simp [hload]

variable (d L) in
/-- On top of the system's invariant, every entry is one of the events'. -/
structure SentInv (s : System) : Prop where
  system : SystemInv d false s
  sent : ∀ e ∈ s.store.published, ∃ event ∈ L.events, Conveys d enc e event

theorem sends_inv {s : System} (h : Guarded (System.step d) (L.Sends d) System.initial s) : L.SentInv d s := by
  refine h.invariant ⟨initial_inv d false,fun _ he => absurd he List.not_mem_nil⟩ fun s a t hs ha ht => ?_
  have hpublish : ∀ e, a = .publish e → ∃ event ∈ L.events, Conveys d enc e event := by
    rintro e rfl
    obtain ⟨event,hmem,hsent⟩ := ha
    exact ⟨event,hmem,conveys_of_sent hsent⟩
  exact ⟨hs.system.step (by simp) ht,hs.system.entries_step hs.sent (by simp) hpublish ht⟩

/-! ## The rows -/

/-- The events that have a log row. -/
def seen (db : Db) (events : List InferenceEvent) : List InferenceEvent :=
  events.filter fun e => db.inferenceLogs.has e.fields.id

theorem counted_severed (db : Db) (f : EventFields) : (db.severed f).counted = f.counted := rfl

/-- A log row is that of one of the events, up to the references that may be gone. -/
theorem log_of_event (he : enc.Lawful d.py) {s : System} (hinv : L.SentInv d s) {id : Uuid} {log : InferenceLog}
    (hlog : s.store.db.inferenceLogs.get id = some log) :
    ∃ event ∈ L.events, event.fields.id = id ∧ log.counted = ⟨event.fields.counted,0⟩ := by
  obtain ⟨e,hpub,id',payload,event,hd,hid,-,hf⟩ := hinv.system.store.logs id log hlog
  obtain ⟨event',hmem,hsent⟩ := hinv.sent e hpub
  have hsame : event' = event := by
    rcases hsent.disposition he (L.typed event' hmem) with haccepted | hfatal
    · cases haccepted.symm.trans hd
      rfl
    · cases hfatal.symm.trans hd
  subst hsame
  refine ⟨event',hmem,hid,?_⟩
  unfold InferenceLog.counted
  rw [hf, counted_severed]

/-- Up to those references, the log rows are those of the events that have one. -/
theorem rows_perm (he : enc.Lawful d.py) {s : System} (hinv : L.SentInv d s) :
    (s.store.db.logRows.map InferenceLog.counted).Perm ((ledgerOf (seen s.store.db L.events)).map InferenceLog.counted) := by
  let keyed : List (Uuid × InferenceLog) := s.store.db.inferenceLogs.rows.map fun r => (r.1,r.2.counted)
  let expected : List (Uuid × InferenceLog) := (seen s.store.db L.events).map fun e => (e.fields.id,⟨e.fields.counted,0⟩)
  have hkeyed : (keyed.map Prod.fst).Nodup := by
    have hfst : keyed.map Prod.fst = s.store.db.inferenceLogs.rows.map Prod.fst := by
      rw [List.map_map]
      rfl
    rw [hfst]
    exact s.store.db.inferenceLogs.nodup
  have hexpected : (expected.map Prod.fst).Nodup := by
    have hfst : expected.map Prod.fst = (seen s.store.db L.events).map fun e => e.fields.id := by
      rw [List.map_map]
      rfl
    rw [hfst]
    exact L.distinct.sublist (List.filter_sublist.map _)
  have hperm : keyed.Perm expected := by
    apply (List.perm_ext_iff_of_nodup hkeyed.of_map hexpected.of_map).mpr
    rintro ⟨id,row⟩
    constructor
    · intro hmem
      obtain ⟨⟨id',log⟩,hlog,heq⟩ := List.mem_map.mp hmem
      cases heq
      have hget := Table.get_eq_some.mpr hlog
      obtain ⟨event,hevent,rfl,hcounted⟩ := log_of_event he hinv hget
      refine List.mem_map.mpr ⟨event,List.mem_filter.mpr ⟨hevent,?_⟩,?_⟩
      · exact Table.has_iff.mpr ⟨log,hget⟩
      · rw [hcounted]
    · intro hmem
      obtain ⟨event,hseen,heq⟩ := List.mem_map.mp hmem
      cases heq
      obtain ⟨hevent,hhas⟩ := List.mem_filter.mp hseen
      obtain ⟨log,hget⟩ := Table.has_iff.mp hhas
      obtain ⟨event',hevent',hid,hcounted⟩ := log_of_event he hinv hget
      have hsame : event' = event := same_event hevent' hevent hid
      subst hsame
      refine List.mem_map.mpr ⟨(event'.fields.id,log),Table.get_eq_some.mp hget,?_⟩
      rw [hcounted]
  have hrows := hperm.map Prod.snd
  have hleft : keyed.map Prod.snd = s.store.db.logRows.map InferenceLog.counted := by
    unfold Db.logRows
    rw [List.map_map, List.map_map]
    rfl
  have hright : expected.map Prod.snd = (ledgerOf (seen s.store.db L.events)).map InferenceLog.counted := by
    unfold ledgerOf
    rw [List.map_map, List.map_map]
    rfl
  rw [← hleft, ← hright]
  exact hrows

/-- What has been acknowledged has its row. -/
theorem delivered_seen (he : enc.Lawful d.py) {s : System} (hinv : L.SentInv d s) {event : InferenceEvent}
    (hmem : event ∈ L.events) (h : Delivered d enc s.store event) : event ∈ seen s.store.db L.events := by
  obtain ⟨e,hpub,hsent,hack⟩ := h
  refine List.mem_filter.mpr ⟨hmem,?_⟩
  obtain ⟨e',he',hid,hrec⟩ := hinv.system.store.acked e.id hack
  rw [hinv.system.store.id_unique he' hpub hid] at hrec
  unfold IngestionWorker.Recorded at hrec
  rcases hsent.disposition he (L.typed event hmem) with haccepted | hfatal
  · rw [haccepted] at hrec
    exact hrec.2
  · rw [hfatal] at hrec
    exact hrec.elim

end Published

/-- At every moment the dashboard shows some of the events that were published, each of them once and
with its own values; those of which an entry has been acknowledged are among them. -/
theorem dashboard_of_published {d : Deployment} {enc : Encoder} {fn : SqlFunctions} (he : enc.Lawful d.py)
    (hfn : fn.Unordered) (L : Published enc) {s : System} (h : Guarded (System.step d) (L.Sends d) System.initial s) :
    ∃ seen, seen.Sublist L.events ∧ MetricsRepository.SameDashboard d.pg fn s.store.db.logRows (ledgerOf seen) ∧
      (∀ event ∈ L.events, Published.Delivered d enc s.store event → event ∈ seen) ∧
      ((∀ event ∈ L.events, Published.Delivered d enc s.store event) → seen = L.events) := by
  have hinv := Published.sends_inv h
  refine ⟨Published.seen s.store.db L.events,List.filter_sublist,?_,fun event hmem hd =>
    Published.delivered_seen he hinv hmem hd,?_⟩
  · have hrows : MetricsRepository.SameDashboard d.pg fn _ _ :=
    MetricsRepository.sameDashboard_perm hfn (Published.rows_perm he hinv)
    exact ((MetricsRepository.sameDashboard_counted _).symm.trans hrows).trans (MetricsRepository.sameDashboard_counted _)
  · intro hall
    apply List.filter_eq_self.mpr
    intro event hmem
    exact (List.mem_filter.mp (Published.delivered_seen he hinv hmem (hall event hmem))).2

/-! ## One event, ingested -/

/-- The value at the percentile, without interpolation. -/
def sortedPercentile (p : ℕ) (values : List ℤ) : Option ℤ :=
  (values.mergeSort fun a b => decide (a ≤ b))[(values.length - 1) * p / 100]?

def minuteBuckets : SqlFunctions where
  dateTrunc _ t := t / 60000000 * 60000000
  percentile := sortedPercentile

theorem minuteBuckets_unordered : minuteBuckets.Unordered := by
  intro p xs ys h
  have hsorted : ∀ l : List ℤ, (l.mergeSort fun a b => decide (a ≤ b)).Pairwise fun a b => decide (a ≤ b) = true := by
    intro l
    apply List.pairwise_mergeSort
    · intro a b c hab hbc
      rw [decide_eq_true_eq] at hab hbc ⊢
      omega
    · intro a b
      rw [Bool.or_eq_true, decide_eq_true_eq, decide_eq_true_eq]
      omega
  have hsame : (xs.mergeSort fun a b => decide (a ≤ b)) = ys.mergeSort fun a b => decide (a ≤ b) := by
    apply List.Perm.eq_of_pairwise _ (hsorted xs) (hsorted ys)
    · exact (List.mergeSort_perm _ _).trans (h.trans (List.mergeSort_perm _ _).symm)
    · intro a b _ _ hab hba
      rw [decide_eq_true_eq] at hab hba
      omega
  change sortedPercentile p xs = sortedPercentile p ys
  unfold sortedPercentile
  rw [hsame, h.length_eq]

def guarded : Deployment where
  rt := plainRuntime
  py := guardedPydantic
  batchSize := 1
  batch_pos := Nat.one_pos
  pg := plain.pg

def strayFields : EventFields := {callFields [] with messageId := none}

/-- A call that belongs to no conversation. -/
def strayEvent : InferenceEvent := ⟨strayFields,rfl⟩

def strayEntry (id : ℕ) : Entry := ⟨id,[(text "data",PyJson.write plainEncoder.number (.obj (strayFields.dump plainEncoder)))]⟩

def stray : Published plainEncoder where
  events := [strayEvent]
  distinct := List.nodup_singleton _
  typed := by
    intro e he
    cases List.mem_singleton.mp he
    have ht := callFields_typed 0
    exact ⟨ht.started,ht.completed,ht.texts,ht.metadata⟩

/-- The event is published, committed by a worker that crashes before the acknowledgement, published
again, and both entries are delivered to another worker. -/
def strayRun : List Action :=
  [.spawn 0,goes 0,.publish (strayEntry 1),.next 0] ++ List.replicate 5 (goes 0) ++
    [.crash 0,.publish (strayEntry 2),.dropGroup,.spawn 1,goes 1,.next 1] ++ List.replicate 7 (goes 1) ++
    [.next 1] ++ List.replicate 7 (goes 1)

/-- Twice published and three times delivered, the event is on the dashboard once. -/
theorem dashboard_of_published_stray : ∃ s : System, 1 ∈ s.store.acked ∧ 2 ∈ s.store.acked ∧ s.store.published.length = 2 ∧
    MetricsRepository.SameDashboard guarded.pg minuteBuckets s.store.db.logRows (ledgerOf [strayEvent]) := by
  have hrun : ((play (System.step guarded) System.initial strayRun).any fun s =>
      decide (1 ∈ s.store.acked ∧ 2 ∈ s.store.acked ∧ s.store.published = [strayEntry 1,strayEntry 2])) = true := by
    decide +kernel
  obtain ⟨s,hplay,hs⟩ := play_any hrun
  obtain ⟨hfirst,hsecond,hpublished⟩ := of_decide_eq_true hs
  have hsends : Guarded (System.step guarded) (stray.Sends guarded) System.initial s := by
    refine play_guarded hplay fun a ha t => ?_
    cases a with
    | publish e =>
      simp only [strayRun, List.mem_append, List.mem_cons, List.mem_replicate, goes, reduceCtorEq, Action.publish.injEq,
        and_false, or_false, false_or, List.not_mem_nil] at ha
      rcases ha with rfl | rfl <;> exact ⟨strayEvent,List.mem_singleton_self _,rfl⟩
    | _ => trivial
  have hdelivered : ∀ event ∈ stray.events, Published.Delivered guarded plainEncoder s.store event := by
    intro event he
    cases List.mem_singleton.mp he
    refine ⟨strayEntry 1,?_,⟨_,rfl,rfl⟩,hfirst⟩
    rw [hpublished]
    exact List.mem_cons_self
  obtain ⟨seen,-,hsame,-,hall⟩ := dashboard_of_published plainEncoder_lawful minuteBuckets_unordered stray hsends
  rw [hall hdelivered] at hsame
  exact ⟨s,hfirst,hsecond,by rw [hpublished]; rfl,hsame⟩

end InferenceLogger
