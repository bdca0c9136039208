import Guardian.Held
import Guardian.Storage.Filesystem

/- The server on the filesystem backend. The programs are the same; the calls
   that touch delta files are executed on `Files`, possibly only up to one of
   their writes. Every other call is answered by the environment, which may also
   change any other file at any time: what is proved here does not depend on
   them. Execution requests are left to the Postgres development. -/
namespace Guardian

open Interleaving Service

namespace Files

/-- The order of `pull_recent_candidate_deltas` within one account. -/
def recentBefore (a b : DeltaObject) : Bool :=
  decide (a.status.timestamp < b.status.timestamp) ||
    (decide (a.status.timestamp = b.status.timestamp) && decide (a.nonce.toNat ≤ b.nonce.toNat))

def afterCursor (cursor : RecentCandidateCursor) (d : DeltaObject) : Bool :=
  decide (cursor.lastStatusTimestamp < d.status.timestamp) ||
    (decide (d.status.timestamp = cursor.lastStatusTimestamp) &&
      match cursor.account with
      | .gt => true
      | .eq => decide (cursor.lastNonce.toNat < d.nonce.toNat)
      | .lt => false)

/-- `pull_recent_candidate_deltas`. -/
def recentCandidates (files : Files) (since : Time) (cursor : Option RecentCandidateCursor)
    (rows : Nat) : List DeltaObject :=
  let recent := files.candidates.filter (fun d =>
    decide (since < d.status.timestamp) && cursor.all (afterCursor · d))
  (recent.insertionSort (fun a b => recentBefore a b = true)).take rows

/-- `pull_recoverable_deltas`. -/
def recoverableDeltas (files : Files) (abandonedSince : Time) : List DeltaObject :=
  files.deltas.select (fun d => d.status.isRetained ||
    (d.status.isClientAbandoned && decide (abandonedSince ≤ d.status.timestamp)))

end Files

/-- What a file call does not decide: how many writes it makes before it ends,
whether a read fails, the rows of a shared page, and every other answer. -/
structure FileChoice where
  writes : Nat
  readFails : Bool
  rows : Nat
  answer : (op : Op) → Res op

/-- The files and the answer of an operation that makes `n` writes. -/
def Files.perform {α : Type} (files : Files) (n : Nat) (plan : Option (Plan α)) : Option α × Files :=
  match plan with
  | none => (none, files)
  | some plan => (plan.answers n, plan.run n files)

/-- Execute one call. -/
def fileExec (_pid : Nat) (op : Op) (ch : FileChoice) (files : Files) : Option (Res op × Files) :=
  match op with
  | .query (.pullCandidateDeltas _) =>
    some (if ch.readFails then none else some files.candidates, files)
  | .query (.pullRecentCandidateDeltas since cursor) =>
    some (if ch.readFails then none else some (files.recentCandidates since cursor ch.rows), files)
  | .query (.pullRecoverableDeltas since) =>
    some (if ch.readFails then none else some (files.recoverableDeltas since), files)
  | .query (.pullDelta nonce) =>
    some (if ch.readFails then none else some (files.pullDelta nonce), files)
  | .query .hasPendingCandidate =>
    some (if ch.readFails then none else some !files.candidates.isEmpty, files)
  | .write (.submitCandidate delta now policy) =>
    some (files.perform ch.writes (files.submitCandidate delta now policy))
  | .write (.requestCandidateAbandon nonce new now) =>
    some (files.perform ch.writes (some (files.requestCandidateAbandon nonce new now)))
  | .commit (.promoteCandidate p) => some (files.perform ch.writes (files.promoteCandidate p))
  | .commit (.discardCandidate nonce kind _) =>
    some (files.perform ch.writes (some (files.discardCandidate nonce kind)))
  | .commit (.updateCandidateStatus nonce status _) =>
    some (files.perform ch.writes (some (files.updateCandidateStatus nonce status)))
  | op => some (ch.answer op, files)

/-- The environment changes any file but the deltas'. -/
def fileAct (change : Files → Files) (files : Files) : Option Files :=
  some { change files with deltas := files.deltas }

def fileMachine : Machine Op Res Files FileChoice (Files → Files) := ⟨fileExec, fileAct⟩

abbrev FileConf := Conf Op Res Files Request

/-- Everything but executions runs. -/
def withoutExecutions : Guard Op Request Files FileChoice (Files → Files) where
  spawn := fun req _ => !req.isExecution
  call := fun _ _ _ _ => true
  act := fun _ _ => true

abbrev FileReachable (net : Network) (cfg : Config) (files : Files) : FileConf → Prop :=
  Reach fileMachine (body net cfg) withoutExecutions files

/-- A status write is computed from a candidate. -/
def SnapshotOk : Op → Prop
  | .commit (.updateCandidateStatus _ _ snapshot) => snapshot.status.isCandidate = true
  | _ => True

/-- The discipline of the passes on files; nothing has to be remembered. -/
def fileHeld : Discipline Op Files where
  inv := fun _ => True
  le := fun _ _ => True
  ok := fun _ op _ => SnapshotOk op
  le_refl := fun _ => trivial
  le_trans := fun _ _ => trivial

section Reads
variable {net : Network} {cfg : Config} {pid : Nat} {files : Files}

theorem snapshotOk_of_quiet {o : Op} (h : o.quiet = true) : SnapshotOk o := by
  cases o with
  | commit tx => cases tx <;> trivial
  | _ => trivial

theorem fileHeld_kept (P : Op → Prop) : fileHeld.Kept fileMachine P :=
  ⟨fun _ _ _ _ => ⟨trivial, trivial⟩, fun _ _ => ⟨trivial, trivial⟩⟩

theorem writesFit_of_candidate {delta : DeltaObject} (h : delta.status.isCandidate = true) :
    WritesFit cfg (From fileHeld pid files) delta where
  update := fun hd _ _ _ => hd.2.2.2.2.trans h
  discard := fun _ _ _ _ => trivial

theorem mem_fileCandidates {d : DeltaObject} (h : d ∈ files.candidates) :
    d.status.isCandidate = true := (Table.mem_select.mp h).2

/-- The reads of a pass answer with candidates. -/
theorem passReads_files : PassReads fileMachine fileHeld cfg pid where
  quiet := snapshotOk_of_quiet
  promote := trivial
  queue := by
    intro files
    refine Ensures.bind' (Ensures.op' fun f _ _ => ⟨trivial, fun ch r f' hx _ _ => ?_⟩)
    simp only [fileMachine, fileExec] at hx
    cases hx
    split
    · next rows hrows =>
      split at hrows <;> cases hrows
      exact Ensures.pure' fun delta hd => writesFit_of_candidate (mem_fileCandidates hd)
    · exact Ensures.throw' _
  recent := by
    intro files since cursor
    refine Ensures.bind' (Ensures.op' fun f _ _ => ⟨trivial, fun ch r f' hx _ _ => ?_⟩)
    simp only [fileMachine, fileExec] at hx
    cases hx
    split
    · next rows hrows =>
      split at hrows <;> cases hrows
      refine Ensures.pure' fun delta hd => writesFit_of_candidate ?_
      have hmem := (List.mem_insertionSort _).mp (List.mem_of_mem_take hd)
      exact mem_fileCandidates (List.mem_of_mem_filter hmem)
    · exact Ensures.throw' _
  recoverable := by
    intro files
    refine Ensures.op' fun f _ _ => ⟨trivial, fun ch r f' _ _ _ f₁ _ => ?_⟩
    have hread := makes_orFail (e := GuardianError.storageError) (makes_query
      (P := From fileHeld pid f₁) (fun ho _ _ => snapshotOk_of_quiet ho)
      (.pullRecoverableDeltas (abandonedCutoff cfg r)))
    exact (ensures_of_makes hread).mono fun _ _ _ _ =>
      ⟨fun _ _ => trivial, fun _ _ _ _ _ => trivial⟩

theorem callsFit_files {req : Request} : CallsFit net cfg req (From fileHeld pid files) where
  quiet := fun ho _ _ => snapshotOk_of_quiet ho
  submit := fun _ _ _ _ _ => trivial
  state := fun _ _ _ => ⟨fun _ _ => trivial, fun _ _ => trivial⟩
  createMetadata := fun _ _ => trivial
  setMetadata := fun _ _ => trivial
  create := fun _ _ _ _ _ _ => trivial
  claim := fun _ _ _ _ _ _ => trivial
  queue := fun _ _ _ _ _ => trivial
  resolve := fun _ _ _ _ _ => trivial
  send := fun _ _ _ _ _ _ => trivial

end Reads

/-- What is known of a call when it is made. -/
theorem FileReachable.held {net : Network} {cfg : Config} {files : Files} {c : FileConf}
    (h : FileReachable net cfg files c) {pid : Nat} {req : Request} {op : Op}
    {k : Res op → GProg Unit} (hp : c.procs pid = some (req, .call op k)) :
    op.Fits net cfg ∧ SnapshotOk op := by
  obtain ⟨hfits, _, hok⟩ := Reach.ok (fileHeld_kept (Op.Fits net cfg))
    (fun req _ _ => body_calls net cfg req) trivial
    (fun pid req w _ _ => passReads_files.body req
      (makes_program callsFit_files) trivial) h hp
  exact ⟨hfits, hok⟩

end Guardian
