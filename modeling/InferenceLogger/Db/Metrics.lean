import InferenceLogger.Db.Models
import InferenceLogger.Foundation.Grouping

/-! # Dashboard aggregates

The aggregate queries of the metrics repository, each over one state of its table. The
database's own functions on timestamps and samples are left open; the order of rows with equal
sort keys is that of the sort used here.
-/
namespace InferenceLogger
open PyText PyJson Grouping

/-- `date_trunc`, and `CAST(percentile_cont(p / 100) WITHIN GROUP (ORDER BY …) AS INTEGER)` of the
values that are not null. -/
structure SqlFunctions where
  dateTrunc : Text → ℤ → ℤ
  percentile : ℕ → List ℤ → Option ℤ

structure TimeBucket where
  bucket : ℤ
  requests : ℤ
  errors : ℤ
  cancellations : ℤ
  p50LatencyMs : Option ℤ
  p95LatencyMs : Option ℤ
  p50TtftMs : Option ℤ

structure ProviderBreakdown where
  provider : Text
  model : Text
  requests : ℤ
  errors : ℤ
  cancellations : ℤ
  p50LatencyMs : Option ℤ
  p95LatencyMs : Option ℤ
  p95TtftMs : Option ℤ
  inputTokens : ℤ
  outputTokens : ℤ

structure Totals where
  requests : ℤ
  errors : ℤ
  cancellations : ℤ
  p50LatencyMs : Option ℤ
  p95LatencyMs : Option ℤ
  p95TtftMs : Option ℤ
  inputTokens : ℤ
  outputTokens : ℤ

/-- Times in microseconds, so that `lag` stands for `lag_seconds`. -/
structure IngestionHealth where
  lastIngestedAt : Option ℤ
  lag : Option ℤ
  logsTotal : ℤ
  rawEventsTotal : ℤ
  rawEventsPending : ℤ
  rawEventsFailed : ℤ

/-- `SUM(column)`: null when no row has a value. -/
def sqlSum {α : Type} (column : α → Option ℤ) (rows : List α) : Option ℤ :=
  if (rows.filterMap column).isEmpty then none else some (total id (rows.filterMap column))

/-- `COALESCE(SUM(column), 0)`. -/
def coalesceSum {α : Type} (column : α → Option ℤ) (rows : List α) : ℤ := (sqlSum column rows).getD 0

/-- `_count_where`. -/
def countWhere {α : Type} (condition : α → Bool) (rows : List α) : ℤ :=
  coalesceSum (fun r => some (if condition r = true then 1 else 0)) rows

/-- `count()`. -/
def countRows {α : Type} (rows : List α) : ℤ := rows.length

/-- `MAX(column)`: null when there are no rows. -/
def sqlMax {α : Type} (column : α → ℤ) (rows : List α) : Option ℤ := (rows.map column).max?

namespace InferenceLog

def isError (r : InferenceLog) : Bool := decide (r.fields.status = .error)
def isCancelled (r : InferenceLog) : Bool := decide (r.fields.status = .cancelled)
def isSuccess (r : InferenceLog) : Bool := decide (r.fields.status = .success)

/-- `BUCKET_COLUMN`. -/
def bucketColumn (pg : Postgres) (r : InferenceLog) : ℤ := r.completedAt pg

end InferenceLog

/-- `_ALLOWED_INTERVALS`. -/
def allowedIntervals : List Text := [text "second",text "minute",text "hour",text "day"]

/-- The rows of `inference_logs`. -/
def Db.logRows (db : Db) : List InferenceLog := db.inferenceLogs.rows.map Prod.snd

/-- The rows of `events_raw`. -/
def Db.rawRows (db : Db) : List RawEvent := db.eventsRaw.rows.map Prod.snd

namespace MetricsRepository
variable (pg : Postgres) (fn : SqlFunctions) (table : List InferenceLog) (since : ℤ)

/-- `_percentile`. -/
def percentile (p : ℕ) (column : EventFields → Option ℤ) (rows : List InferenceLog) : Option ℤ :=
  fn.percentile p (rows.filterMap fun r => column r.fields)

/-- `WHERE since <= completed_at`. -/
def window : List InferenceLog := table.filter fun r => decide (since ≤ r.bucketColumn pg)

def totalsRow (rows : List InferenceLog) : Totals where
  requests := countRows rows
  errors := countWhere InferenceLog.isError rows
  cancellations := countWhere InferenceLog.isCancelled rows
  p50LatencyMs := percentile fn 50 EventFields.latencyMs rows
  p95LatencyMs := percentile fn 95 EventFields.latencyMs rows
  p95TtftMs := percentile fn 95 EventFields.ttftMs rows
  inputTokens := coalesceSum (fun r => r.fields.inputTokens) rows
  outputTokens := coalesceSum (fun r => r.fields.outputTokens) rows

def totals : Totals := totalsRow fn (window pg table since)

def timeBucket (bucket : ℤ) (rows : List InferenceLog) : TimeBucket where
  bucket := bucket
  requests := countRows rows
  errors := countWhere InferenceLog.isError rows
  cancellations := countWhere InferenceLog.isCancelled rows
  p50LatencyMs := percentile fn 50 EventFields.latencyMs rows
  p95LatencyMs := percentile fn 95 EventFields.latencyMs rows
  p50TtftMs := percentile fn 50 EventFields.ttftMs rows

/-- `GROUP BY bucket ORDER BY bucket`. -/
def buckets (interval : Text) : List TimeBucket :=
  (groupBy (fun r => fn.dateTrunc interval (r.bucketColumn pg)) (timeBucket fn)
    (window pg table since)).mergeSort fun a b => decide (a.bucket ≤ b.bucket)

/-- `time_series`; `none` is the `ValueError` for an interval that is not allowed. -/
def timeSeries (interval : Text) : Option (List TimeBucket) :=
  if interval ∈ allowedIntervals then some (buckets pg fn table since interval) else none

def providerBreakdown (name : Text × Text) (rows : List InferenceLog) : ProviderBreakdown where
  provider := name.1
  model := name.2
  requests := countRows rows
  errors := countWhere InferenceLog.isError rows
  cancellations := countWhere InferenceLog.isCancelled rows
  p50LatencyMs := percentile fn 50 EventFields.latencyMs rows
  p95LatencyMs := percentile fn 95 EventFields.latencyMs rows
  p95TtftMs := percentile fn 95 EventFields.ttftMs rows
  inputTokens := coalesceSum (fun r => r.fields.inputTokens) rows
  outputTokens := coalesceSum (fun r => r.fields.outputTokens) rows

/-- `by_provider`: `GROUP BY provider, model ORDER BY count(*) DESC`. -/
def byProvider : List ProviderBreakdown :=
  (groupBy (fun r => (r.fields.provider,r.fields.model)) (providerBreakdown fn)
    (window pg table since)).mergeSort fun a b => decide (b.requests ≤ a.requests)

/-- `ingestion_health`: three statements, each of which reads what is committed by then; `now` is
the time the transaction began. -/
def ingestionHealth (first second third : Db) (now : ℤ) : IngestionHealth where
  lastIngestedAt := sqlMax InferenceLog.ingestedAt first.logRows
  lag := if (sqlMax InferenceLog.ingestedAt first.logRows).isSome = true then
      (sqlMax InferenceLog.ingestedAt third.logRows).map fun last => now - last
    else none
  logsTotal := countRows first.logRows
  rawEventsTotal := countRows second.rawRows
  rawEventsPending := countWhere (fun row : RawEvent => decide (row.processingStatus = .pending)) second.rawRows
  rawEventsFailed := countWhere (fun row : RawEvent => decide (row.processingStatus = .failed)) second.rawRows

end MetricsRepository

/-- `STALLED_AFTER_SECONDS`. -/
def stalledAfter : ℤ := 120000000

/-- `is_stalled`. -/
def IngestionHealth.isStalled (h : IngestionHealth) : Bool := h.lag.any fun lag => decide (stalledAfter < lag)

end InferenceLogger
