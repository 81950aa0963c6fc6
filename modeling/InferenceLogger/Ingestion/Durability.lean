import InferenceLogger.Ingestion.Runs

/-! # Nothing is acknowledged before it is durable -/
namespace InferenceLogger
open PyText PyJson AsyncTask KeyedTable Transition

/-- In every reachable state of the system, whatever has failed or crashed on the way, an
acknowledged entry is recorded: its rows are committed, or its dead letter has been added. -/
theorem acked_recorded {d : Deployment} {s : System} (h : Reach (System.step d) System.initial s) {e : Entry}
    (he : e ∈ s.store.published) (hack : e.id ∈ s.store.acked) : d.Recorded s.store e := by
  have hinv := (reach_inv h).store
  obtain ⟨e',he',hid,hrec⟩ := hinv.acked e.id hack
  rw [hinv.id_unique he he' hid.symm]
  exact hrec

theorem acked_recorded_plain : ∃ s, Reach (System.step plain) System.initial s ∧ plain.Recorded s.store plainEntry := by
  -- the group, one published event, and the seven operations of its batch
  have hrun : ((play (System.step plain) System.initial
      ([.spawn 0,goes 0,.publish plainEntry,.next 0] ++ List.replicate 7 (goes 0))).any fun s =>
        decide (plainEntry ∈ s.store.published ∧ plainEntry.id ∈ s.store.acked)) = true := by
    rw [plainEntry, text_ofList, text_ofList, text_ofList]
    decide +kernel
  obtain ⟨s,hplay,hs⟩ := play_any hrun
  rw [decide_eq_true_eq] at hs
  have hreach := play_reach hplay
  exact ⟨s,hreach,acked_recorded hreach hs.1 hs.2⟩

end InferenceLogger
