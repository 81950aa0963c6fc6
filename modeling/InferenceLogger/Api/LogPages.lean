import InferenceLogger.Db.Cluster
import InferenceLogger.Foundation.Keyset
import InferenceLogger.Foundation.Transition
import Mathlib.Data.Prod.Lex

/-! # Browsing the log page by page

`/metrics/logs` and the hook that follows its cursors, while the worker writes. The listing
is a keyset scan of the matching rows, so what a reader sees is what the scan has seen.
-/
namespace InferenceLogger
open PyText PyJson KeyedTable Keyset Transition

/-- The pair the listing is ordered by. -/
abbrev LogKey := ℤ ×ₗ ℕ

def logKey (startedAt : ℤ) (id : Uuid) : LogKey := toLex (startedAt,id.toNat)

theorem logKey_inj {a b : ℤ} {id id' : Uuid} : logKey a id = logKey b id' ↔ a = b ∧ id = id' := by
  simp [logKey,BitVec.toNat_inj]

structure LogRowOut where
  id : Uuid
  conversationId : Option Uuid
  messageId : Option Uuid
  provider : Text
  model : Text
  status : Text
  streamed : Bool
  startedAt : ℤ
  completedAt : ℤ
  ingestedAt : ℤ
  latencyMs : Option ℤ
  ttftMs : Option ℤ
  inputTokens : Option ℤ
  outputTokens : Option ℤ
  finishReason : Option Text
  errorType : Option Text
  errorMessage : Option Text
  inputPreview : Option Text
  outputPreview : Option Text
  rawMetadata : Members

def LogRowOut.key (row : LogRowOut) : LogKey := logKey row.startedAt row.id

structure LogPage where
  items : List LogRowOut
  nextBefore : Option ℤ
  nextBeforeId : Option Uuid

section Endpoint
variable (pg : Postgres) (db : Db)

def logRowOut (row : Uuid × InferenceLog) : LogRowOut where
  id := row.1
  conversationId := row.2.fields.conversationId
  messageId := row.2.fields.messageId
  provider := row.2.fields.provider
  model := row.2.fields.model
  status := row.2.fields.status.value
  streamed := row.2.fields.streamed
  startedAt := row.2.startedAt pg
  completedAt := row.2.completedAt pg
  ingestedAt := row.2.ingestedAt
  latencyMs := row.2.fields.latencyMs
  ttftMs := row.2.fields.ttftMs
  inputTokens := row.2.fields.inputTokens
  outputTokens := row.2.fields.outputTokens
  finishReason := row.2.fields.finishReason
  errorType := row.2.fields.errorType
  errorMessage := row.2.fields.errorMessage
  inputPreview := row.2.fields.inputPreview
  outputPreview := row.2.fields.outputPreview
  rawMetadata := row.2.fields.rawMetadata.getD []

end Endpoint

/-- The browser's filters; the status is one of the values the panel offers. -/
structure LogFilters where
  provider : Option Text
  status : Option InferenceStatus

namespace LogFilters
variable (filters : LogFilters)

/-- An empty name sets no parameter. -/
def providerParam : Option Text := filters.provider.filter (fun p => decide (p ≠ []))

/-- The rows the reader asks for. -/
def selects (log : InferenceLog) : Bool :=
  filters.providerParam.all (fun p => decide (log.fields.provider = p)) &&
  filters.status.all (fun s => decide (log.fields.status = s))

end LogFilters

/-- `getNextPageParam`. -/
def getNextPageParam (last : LogPage) : Option (ℤ × Uuid) :=
  match last.nextBefore, last.nextBeforeId with
  | some before, some id => some (before,id)
  | _, _ => none

/-- The tables, and the pages the hook has loaded. -/
structure Browsing where
  db : Db
  pages : List LogPage

namespace Browsing

def items (s : Browsing) : List LogRowOut := s.pages.flatMap LogPage.items

/-- What the next request asks for. -/
def resume (s : Browsing) : Resume LogKey :=
  match s.pages.getLast? with
  | none => .first
  | some last => match getNextPageParam last with
    | some (before,id) => .after (logKey before id)
    | none => .finished

end Browsing

section Runs
variable (pg : Postgres) (filters : LogFilters) (pageSize : ℕ)

/-- The matching rows, as the endpoint shows them. -/
def matching (db : Db) : List LogRowOut :=
  (db.inferenceLogs.rows.filter (fun row => filters.selects row.2)).map (logRowOut pg)

variable {pg filters pageSize}

/-! ## The rows keep their place -/

/-- Every log row is still there, with its instant, provider and status. -/
def Db.KeepsLogs (pg : Postgres) (db db' : Db) : Prop :=
  ∀ id log, db.inferenceLogs.get id = some log → ∃ log', db'.inferenceLogs.get id = some log' ∧
    log'.startedAt pg = log.startedAt pg ∧ log'.fields.provider = log.fields.provider ∧
    log'.fields.status = log.fields.status

theorem Db.KeepsLogs.refl (db : Db) : db.KeepsLogs pg db := fun _ log h => ⟨log,h,rfl,rfl,rfl⟩

theorem Db.KeepsLogs.trans {a b c : Db} (h : a.KeepsLogs pg b) (h' : b.KeepsLogs pg c) : a.KeepsLogs pg c := by
  intro id log hg
  obtain ⟨log',hg',ht,hp,hs⟩ := h id log hg
  obtain ⟨log'',hg'',ht',hp',hs'⟩ := h' id log' hg'
  exact ⟨log'',hg'',ht'.trans ht,hp'.trans hp,hs'.trans hs⟩

theorem keeps_applyWrite (db : Db) (w : Write) : db.KeepsLogs pg (db.applyWrite w) := by
  cases w with
  | insertRaw | markRaw => exact .refl db
  | insertLog row now =>
    intro id log hg
    refine ⟨log,?_,rfl,rfl,rfl⟩
    simp only [Db.applyWrite, Table.get_insertNew, hg]
    split
    · rename_i h
      rw [h.1, h.2] at hg
      cases hg
    · rfl

theorem keeps_applyWrites (db : Db) (ws : List Write) : db.KeepsLogs pg (db.applyWrites ws) := by
  induction ws generalizing db with
  | nil => exact .refl db
  | cons w ws ih => exact (keeps_applyWrite db w).trans (ih (db.applyWrite w))

namespace Browsing

/-- What the browsing is of: a scan of the rows shown. -/
def scan (s : Browsing) : Scan LogRowOut LogKey := ⟨s.items,s.resume⟩

end Browsing

/-- What holds of a reader, given the tables at the first request. -/
structure Browsing.Sound (pg : Postgres) (filters : LogFilters) (db₀ : Db) (s : Browsing) : Prop where
  keeps : db₀.KeepsLogs pg s.db
  scan : s.scan.Sound LogRowOut.key (· ∈ (matching pg filters db₀).map LogRowOut.key)
  shown : ∀ row ∈ s.items, ∃ log, s.db.inferenceLogs.get row.id = some log ∧
    filters.selects log = true ∧ row.startedAt = log.startedAt pg

theorem Browsing.Sound.written {db₀ db' : Db} {s : Browsing} (h : s.Sound pg filters db₀)
    (hdb : s.db.KeepsLogs pg db') : Browsing.Sound pg filters db₀ ⟨db',s.pages⟩ where
  keeps := h.keeps.trans hdb
  scan := h.scan
  shown := by
    intro row hrow
    obtain ⟨log,hg,hsel,ht⟩ := h.shown row hrow
    obtain ⟨log',hg',ht',hp,hs⟩ := hdb row.id log hg
    refine ⟨log',hg',?_,ht.trans ht'.symm⟩
    unfold LogFilters.selects at hsel ⊢
    rwa [hp, hs]

theorem Browsing.Sound.nodup {db₀ : Db} {s : Browsing} (h : s.Sound pg filters db₀) :
    (s.items.map LogRowOut.id).Nodup := by
  have hkeys : (s.items.map LogRowOut.key).Nodup := h.scan.descending.imp fun hgt => ne_of_gt hgt
  apply (List.nodup_map_iff_inj_on (List.Nodup.of_map _ hkeys)).mpr
  intro a ha b hb hid
  obtain ⟨log,hg,-,ht⟩ := h.shown a ha
  obtain ⟨log',hg',-,ht'⟩ := h.shown b hb
  rw [hid, hg'] at hg
  cases hg
  exact List.inj_on_of_nodup_map hkeys ha hb (logKey_inj.mpr ⟨ht.trans ht'.symm,hid⟩)

end Runs

/-! ## Rows that share an instant -/

end InferenceLogger
