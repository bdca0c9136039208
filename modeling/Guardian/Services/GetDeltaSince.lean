import Guardian.Storage.Operations

/- The merged delta since a nonce (`server/src/services/get_delta_since.rs`), for
   a Miden account whose caller was resolved. The rows are read in the order of
   the nonce column and merged in that order; nothing compares the base of one
   with the post commitment of the one before it.

   `merge_deltas` is the network client's, and a parameter. -/
namespace Guardian

inductive GetDeltaSinceError where
  | deltaNotFound (nonce : Nonce)
  | invalidDelta
  deriving DecidableEq, Repr

/-- The deltas `get_delta_since` merges: what `pull_deltas_after` returns, less
what may be discarded later. -/
def deltasToMerge (fromNonce : Nonce) (db : Db) : List DeltaObject :=
  (AccountStore.deltasAfter fromNonce db).filter (·.status.isCanonical)

/-- `get_delta_since`. -/
def getDeltaSince (mergeDeltas : List Payload → Option Payload) (fromNonce : Nonce) (db : Db) :
    Except GetDeltaSinceError DeltaObject :=
  let deltas := deltasToMerge fromNonce db
  match deltas.head?, deltas.getLast? with
  | some firstDelta, some lastDelta =>
    match mergeDeltas (deltas.map (·.deltaPayload)) with
    | none => .error .invalidDelta
    | some mergedPayload => .ok
      { nonce := lastDelta.nonce
        prevCommitment := firstDelta.prevCommitment
        newCommitment := lastDelta.newCommitment
        deltaPayload := mergedPayload
        status := lastDelta.status }
  | _, _ => .error (.deltaNotFound fromNonce)

/-- What a merged delta is made of. -/
theorem getDeltaSince_ok {mergeDeltas : List Payload → Option Payload} {fromNonce : Nonce} {db : Db}
    {merged : DeltaObject} (h : getDeltaSince mergeDeltas fromNonce db = .ok merged) :
    ∃ firstDelta lastDelta, (deltasToMerge fromNonce db).head? = some firstDelta ∧
      (deltasToMerge fromNonce db).getLast? = some lastDelta ∧
      merged.prevCommitment = firstDelta.prevCommitment ∧
      merged.newCommitment = lastDelta.newCommitment ∧ merged.nonce = lastDelta.nonce ∧
      mergeDeltas ((deltasToMerge fromNonce db).map (·.deltaPayload)) = some merged.deltaPayload := by
  unfold getDeltaSince at h
  simp only at h
  split at h
  · next firstDelta lastDelta hfirst hlast =>
    split at h
    · cases h
    · next mergedPayload hmerged =>
      cases h
      exact ⟨firstDelta, lastDelta, hfirst, hlast, rfl, rfl, rfl, hmerged⟩
  · cases h

/-- The rows behind the merged deltas: one selection of the table. -/
theorem deltasToMerge_eq (fromNonce : Nonce) (db : Db) :
    deltasToMerge fromNonce db = (db.deltas.select (fun r => r.delta.status.isCanonical &&
      decide (nonceColumn fromNonce ≤ r.column))).map (·.delta) := by
  unfold deltasToMerge AccountStore.deltasAfter Table.select
  rw [List.filter_map, List.filter_filter]
  rfl

end Guardian
