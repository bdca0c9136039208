import Guardian.Rows

/- The worker looks only at accounts whose `has_pending_candidate` column is
   set. Every write that queues a candidate sets it in the same transaction, and
   every write that clears it re-reads the queue, so a queued candidate is never
   hidden. -/
namespace Guardian

open Interleaving

/-- An account with a queued candidate is listed. -/
def Db.Listed (db : Db) : Prop :=
  db.hasCandidate = true → db.metadata.any (·.hasPendingCandidate) = true

/-- What a call may do to the column: set it, leave it, or clear it while no
candidate is queued. -/
theorem Effect.keeps_flag {pid : Nat} {op : Op} {w w' : World} (h : Effect pid w op w')
    (hm : w.db.metadata.any (·.hasPendingCandidate) = true) (hc : w'.db.hasCandidate = true) :
    w'.db.metadata.any (·.hasPendingCandidate) = true := by
  cases h with
  | idle | read | began | rolledBack | asked | returned => exact hm
  | stateSubmitted | stateReplaced | pruned | leased => exact hm
  | submitted h | admitted h =>
    obtain ⟨m, _, hm'⟩ := h.metadata
    simp [hm']
  | abandonRecorded h | updated h => simpa only [h.rest.metadata] using hm
  | metadataCreated h => simp [h] at hm
  | authSet =>
    simp only [Db.setMetadataRow] at hc ⊢
    split
    · next m hcur => simpa [hcur] using hm
    · next hnone => simp [hnone] at hm
  | flagCleared =>
    simp only [Db.clearPendingFlagIfNone] at hc ⊢
    split
    · exact hm
    · next hnone =>
      rw [if_neg hnone] at hc
      exact absurd hc hnone
  | plain h =>
    obtain ⟨m, hcur, hset⟩ := (Option.any_eq_true ..).mp hm
    have hmap := h.metadata
    rw [hcur, Option.map_some, Option.map_eq_some_iff] at hmap
    obtain ⟨m', hm', heq⟩ := hmap
    simp [hm', (Prod.mk.inj heq).2, hset]
  | promoted h =>
    obtain ⟨m, hcur, hm'⟩ := h.metadata
    simp only [hcur, Option.any_some] at hm
    simpa [hm', hm] using hc
  | discarded h =>
    obtain ⟨m, hcur, hset⟩ := (Option.any_eq_true ..).mp hm
    simpa [h.metadata, hcur, hset] using hc
  | reserved h => rw [h.eq]; exact hm
  | renewed h =>
    obtain ⟨_, _, _, _, heq⟩ := h.renews
    rw [heq]
    exact hm
  | settled h =>
    obtain ⟨_, _, _, _, _, _, _, _, _, _, _, heq⟩ := h.settles
    rw [heq]
    exact hm
  | resolved h =>
    obtain ⟨m, hcur, hset⟩ := (Option.any_eq_true ..).mp hm
    simp only at hc
    simp [h.metadata, hcur, hset, hc]

/-- Every call keeps the account listed. -/
theorem listed_effect {net : Network} {cfg : Config} {pid : Nat} {op : Op} {w w' : World}
    (hfits : op.Fits net cfg) (h : Effect pid w op w') (hl : w.db.Listed) : w'.db.Listed := by
  intro hc
  obtain ⟨r, hr, hcand⟩ := Db.hasCandidate_iff.mp hc
  rcases h.candidate_cases hfits hr hcand with ⟨row, hrow, hrcand, _⟩ | ⟨delta, hq, _⟩
  · exact h.keeps_flag (hl (Db.hasCandidate_iff.mpr ⟨row, hrow, hrcand⟩)) hc
  · obtain ⟨m, _, hm⟩ := hq.metadata
    simp [hm]

/-- In every reachable configuration, whatever runs and fails, an account with a
queued candidate is listed for the worker. -/
theorem queued_account_is_listed (net : Network) (cfg : Config) (w₀ : World) (hfresh : w₀.Fresh net)
    (c : SystemConf) (h : Reachable net cfg .any w₀ c) : c.world.db.Listed := by
  have h0 : w₀.db.Listed := by
    intro hc
    obtain ⟨r, hr, _⟩ := Db.hasCandidate_iff.mp hc
    rw [hfresh.deltas] at hr
    exact absurd hr (Table.not_mem_empty r)
  refine Reachable.induct (I := fun w => w.db.Listed) h0 listed_effect (fun hact hl => ?_) h
  rwa [hact.db]

/-- The push of the letter `t`, queued and listed. -/
theorem queued_account_is_listed_pushed :
    ∃ c, Reachable (.letters 0) Demo.config .any (Demo.world 0) c ∧
      c.world.db.hasCandidate = true ∧ c.world.db.Listed := by
  obtain ⟨c, hc, hq⟩ := Demo.reachable_after 0 .any (Demo.world 0) Demo.pushed
    (fun c => c.world.db.hasCandidate) (by decide +kernel)
  exact ⟨c, hc, hq, queued_account_is_listed _ _ _ (Demo.fresh_world 0) c hc⟩

end Guardian
