import InferenceLogger.Db.Metrics

/-! # The numbers on the dashboard

The headline totals, the buckets of the chart and the rows of the provider table are three
queries over the same rows, and the chart derives its fourth category itself.
-/
namespace InferenceLogger
open PyText PyJson Grouping

structure ChartRow where
  label : Text
  requests : ℤ
  success : ℤ
  errors : ℤ
  cancellations : ℤ
  p50 : Option ℤ
  p95 : Option ℤ
  ttft : Option ℤ

/-- `toChartRow`. The clock's rendering of the bucket is the browser's. -/
def toChartRow (timeLabel : ℤ → Text) (bucket : TimeBucket) : ChartRow where
  label := timeLabel bucket.bucket
  requests := bucket.requests
  success := bucket.requests - bucket.errors - bucket.cancellations
  errors := bucket.errors
  cancellations := bucket.cancellations
  p50 := bucket.p50LatencyMs
  p95 := bucket.p95LatencyMs
  ttft := bucket.p50TtftMs

/-! ## Aggregates as totals -/

theorem coalesceSum_eq {α : Type} (column : α → Option ℤ) (rows : List α) :
    coalesceSum column rows = total (fun r => (column r).getD 0) rows := by
  have hsum : total id (rows.filterMap column) = total (fun r => (column r).getD 0) rows := by
    induction rows with
    | nil => rfl
    | cons r rows ih =>
      cases hr : column r with
      | none =>
        rw [List.filterMap_cons_none hr, ih, total, hr]
        simp
      | some n => rw [List.filterMap_cons_some hr, total, total, ih, hr, id, Option.getD_some]
  unfold coalesceSum sqlSum
  split
  · rename_i hempty
    rw [← hsum, List.isEmpty_iff.mp hempty]
    rfl
  · exact hsum

theorem countRows_eq {α : Type} (rows : List α) : countRows rows = total (fun _ => 1) rows := by
  induction rows with
  | nil => rfl
  | cons r rows ih =>
    unfold countRows at ih ⊢
    rw [List.length_cons, total, ← ih]
    omega

theorem countWhere_eq {α : Type} (condition : α → Bool) (rows : List α) :
    countWhere condition rows = total (fun r => if condition r = true then 1 else 0) rows :=
  coalesceSum_eq _ rows

theorem countWhere_length {α : Type} (condition : α → Bool) (rows : List α) :
    countWhere condition rows = (rows.filter condition).length :=
  (countWhere_eq condition rows).trans (total_indicator condition rows)

/-- Every call succeeded, failed or was cancelled. -/
theorem remainder_success (rows : List InferenceLog) :
    countRows rows - countWhere InferenceLog.isError rows - countWhere InferenceLog.isCancelled rows =
      (rows.filter InferenceLog.isSuccess).length := by
  have hsplit : countRows rows = countWhere InferenceLog.isError rows +
      countWhere InferenceLog.isCancelled rows + countWhere InferenceLog.isSuccess rows := by
    rw [countRows_eq, countWhere_eq, countWhere_eq, countWhere_eq, ← total_add, ← total_add]
    refine total_congr fun r _ => ?_
    unfold InferenceLog.isError InferenceLog.isCancelled InferenceLog.isSuccess
    cases r.fields.status <;> rfl
  rw [← countWhere_length]
  omega

namespace MetricsRepository
variable {pg : Postgres} {fn : SqlFunctions} {table : List InferenceLog} {since : ℤ}

theorem mem_window {r : InferenceLog} :
    r ∈ window pg table since ↔ r ∈ table ∧ since ≤ r.bucketColumn pg := by
  simp [window]

/-- A group of the rows in the window, as a selection from the table. -/
theorem group_window {K : Type} [DecidableEq K] (key : InferenceLog → K) (k : K) :
    group key (window pg table since) k =
      table.filter fun r => decide (since ≤ r.bucketColumn pg) && decide (key r = k) := by
  unfold group window
  rw [List.filter_filter]
  simp only [Bool.and_comm]

/-- The three queries and the chart agree. -/
structure Reconciled (pg : Postgres) (fn : SqlFunctions) (timeLabel : ℤ → Text) (table : List InferenceLog)
    (since : ℤ) (interval : Text) (t : Totals) (series : List TimeBucket)
    (providers : List ProviderBreakdown) : Prop where
  requests : t.requests = total TimeBucket.requests series ∧
    t.requests = total ProviderBreakdown.requests providers
  errors : t.errors = total TimeBucket.errors series ∧ t.errors = total ProviderBreakdown.errors providers
  cancellations : t.cancellations = total TimeBucket.cancellations series ∧
    t.cancellations = total ProviderBreakdown.cancellations providers
  inputTokens : t.inputTokens = total ProviderBreakdown.inputTokens providers
  outputTokens : t.outputTokens = total ProviderBreakdown.outputTokens providers
  oneBucket : ∀ r ∈ table, since ≤ r.bucketColumn pg →
    (series.filter fun b => decide (b.bucket = fn.dateTrunc interval (r.bucketColumn pg))).length = 1
  oneProvider : ∀ r ∈ table, since ≤ r.bucketColumn pg →
    (providers.filter fun p => decide ((p.provider,p.model) = (r.fields.provider,r.fields.model))).length = 1
  bucketRows : ∀ b ∈ series, b.requests = (table.filter fun r => decide (since ≤ r.bucketColumn pg) &&
    decide (fn.dateTrunc interval (r.bucketColumn pg) = b.bucket)).length
  providerRows : ∀ p ∈ providers, p.requests = (table.filter fun r => decide (since ≤ r.bucketColumn pg) &&
    decide ((r.fields.provider,r.fields.model) = (p.provider,p.model))).length
  success : ∀ b ∈ series, (toChartRow timeLabel b).success =
    (table.filter fun r => decide (since ≤ r.bucketColumn pg) &&
      decide (fn.dateTrunc interval (r.bucketColumn pg) = b.bucket) && r.isSuccess).length

theorem buckets_perm (interval : Text) : (buckets pg fn table since interval).Perm
    (groupBy (fun r => fn.dateTrunc interval (r.bucketColumn pg)) (timeBucket fn) (window pg table since)) :=
  List.mergeSort_perm _ _

theorem byProvider_perm : (byProvider pg fn table since).Perm
    (groupBy (fun r => (r.fields.provider,r.fields.model)) (providerBreakdown fn) (window pg table since)) :=
  List.mergeSort_perm _ _

theorem total_buckets {column : TimeBucket → ℤ} {f : InferenceLog → ℤ} (interval : Text)
    (h : ∀ k rows, column (timeBucket fn k rows) = total f rows) :
    total column (buckets pg fn table since interval) = total f (window pg table since) := by
  rw [total_perm (buckets_perm interval)]
  exact total_groupBy _ h _

theorem total_byProvider {column : ProviderBreakdown → ℤ} {f : InferenceLog → ℤ}
    (h : ∀ k rows, column (providerBreakdown fn k rows) = total f rows) :
    total column (byProvider pg fn table since) = total f (window pg table since) := by
  rw [total_perm byProvider_perm]
  exact total_groupBy _ h _

theorem reconciled (timeLabel : ℤ → Text) (interval : Text) :
    Reconciled pg fn timeLabel table since interval (totals pg fn table since)
      (buckets pg fn table since interval) (byProvider pg fn table since) := by
  refine ⟨⟨?_,?_⟩,⟨?_,?_⟩,⟨?_,?_⟩,?_,?_,?_,?_,?_,?_,?_⟩
  · exact (countRows_eq _).trans (total_buckets interval fun _ rows => countRows_eq rows).symm
  · exact (countRows_eq _).trans (total_byProvider fun _ rows => countRows_eq rows).symm
  · exact (countWhere_eq _ _).trans (total_buckets interval fun _ rows => countWhere_eq _ rows).symm
  · exact (countWhere_eq _ _).trans (total_byProvider fun _ rows => countWhere_eq _ rows).symm
  · exact (countWhere_eq _ _).trans (total_buckets interval fun _ rows => countWhere_eq _ rows).symm
  · exact (countWhere_eq _ _).trans (total_byProvider fun _ rows => countWhere_eq _ rows).symm
  · exact (coalesceSum_eq _ _).trans (total_byProvider fun _ rows => coalesceSum_eq _ rows).symm
  · exact (coalesceSum_eq _ _).trans (total_byProvider fun _ rows => coalesceSum_eq _ rows).symm
  · intro r hr hs
    rw [one_result _ TimeBucket.bucket (fun _ _ => rfl) (mem_window.mpr ⟨hr,hs⟩)
      (buckets_perm interval)]
    rfl
  · intro r hr hs
    rw [one_result _ (fun p : ProviderBreakdown => (p.provider,p.model)) (fun _ _ => rfl)
      (mem_window.mpr ⟨hr,hs⟩) byProvider_perm]
    rfl
  · intro b hb
    obtain ⟨r,-,rfl⟩ := (mem_groupBy _).mp ((buckets_perm interval).mem_iff.mp hb)
    exact congrArg (fun rows : List InferenceLog => (rows.length : ℤ)) (group_window _ _)
  · intro p hp
    obtain ⟨r,-,rfl⟩ := (mem_groupBy _).mp (byProvider_perm.mem_iff.mp hp)
    exact congrArg (fun rows : List InferenceLog => (rows.length : ℤ)) (group_window _ _)
  · intro b hb
    obtain ⟨r,-,rfl⟩ := (mem_groupBy _).mp ((buckets_perm interval).mem_iff.mp hb)
    refine (remainder_success _).trans ?_
    rw [group_window, List.filter_filter]
    simp only [Bool.and_comm]
    rfl

/-- Whatever the table holds, the numbers of a window add up. -/
theorem dashboard_adds_up (timeLabel : ℤ → Text) {interval : Text} {series : List TimeBucket}
    (h : timeSeries pg fn table since interval = some series) :
    Reconciled pg fn timeLabel table since interval (totals pg fn table since) series
      (byProvider pg fn table since) := by
  unfold timeSeries at h
  split at h
  · cases h
    exact reconciled timeLabel interval
  · cases h

/-! ## Two calls at the edge of a window -/

def failedCall : EventFields where
  schemaVersion := 1
  id := 1
  conversationId := none
  messageId := none
  provider := text "groq"
  model := text "m"
  status := .error
  streamed := true
  startedAt := .utc 119000000
  completedAt := .utc 120000000
  latencyMs := some 1000
  ttftMs := none
  inputTokens := some 5
  outputTokens := none
  inputPreview := none
  outputPreview := none
  errorType := none
  errorMessage := some (text "refused")
  finishReason := none
  rawMetadata := none

def edgeClock : Postgres where
  timestamptz t := some t.micros
  textFits _ := true
  jsonbFits _ := true

/-- A failed call without token counts, and a cancelled one that was counted, both at the edge. -/
def edgeTable : List InferenceLog :=
  [⟨{failedCall with inputTokens := none},9⟩,⟨{failedCall with id := 2, status := .cancelled},9⟩]

def minuteTrunc : SqlFunctions where
  dateTrunc _ t := t / 60000000 * 60000000
  percentile _ values := values.head?

theorem dashboard_adds_up_edge :
    Reconciled edgeClock minuteTrunc (fun _ => []) edgeTable 120000000 (text "minute")
      (totals edgeClock minuteTrunc edgeTable 120000000)
      (buckets edgeClock minuteTrunc edgeTable 120000000 (text "minute"))
      (byProvider edgeClock minuteTrunc edgeTable 120000000) :=
  dashboard_adds_up (fun _ => []) (if_pos (by decide))

end MetricsRepository
end InferenceLogger
