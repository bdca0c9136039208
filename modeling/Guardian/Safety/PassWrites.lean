import Guardian.Held

/- What a pass writes, it writes on the row it read. A pass writes by nonce and
   kind, so this rests on the rows of the nonces it holds: as long as nothing
   else is queued at such a nonce, the row there is the one the pass read, or
   it is canonical and out of reach of the write.

   Without that it fails. An execution's failure deletes its candidate under a
   pass that has read it, a client queues another delta at the same nonce, and
   the pass counts its retry on that one: `pass_writes_miss_refilled_nonce`. -/
namespace Guardian

open Interleaving

/-- Every status update, parking and discard a pass applied changed the delta
it was computed from. -/
def World.PassWritesHit (w : World) : Prop :=
  ∀ x ∈ w.ghost.passWrites, SameDelta x.snapshot x.row.delta

instance (w : World) : Decidable w.PassWritesHit :=
  inferInstanceAs (Decidable (∀ x ∈ w.ghost.passWrites, SameDelta x.snapshot x.row.delta))

/-- Runs in which nothing is queued at the nonce of a row that a pass under way
has read, unless it is the same delta. -/
def leavesHeldNonces : RunGuard :=
  .calls (fun _ _ w w' => decide (∀ delta ∈ w.newlyQueued w', ∀ x ∈ w.ghost.held,
    x.2.nonce = delta.nonce → SameDelta delta x.2))

/-- The rows of a query are rows of the table. -/
theorem Query.held_mem {q : Query} {db : Db} {n : Nat} {d : DeltaObject}
    (h : d ∈ q.held (q.run db n)) : ∃ r ∈ db.deltas, r.delta = d := by
  have hselect : ∀ {p : DeltaRow → Bool}, d ∈ (db.deltas.select p).map (·.delta) →
      ∃ r ∈ db.deltas, r.delta = d := by
    intro p hd
    obtain ⟨r, hr, rfl⟩ := List.mem_map.mp hd
    exact ⟨r, (Table.mem_select.mp hr).1, rfl⟩
  cases q with
  | pullCandidateDeltas forPass =>
    cases forPass with
    | true => exact hselect h
    | false => cases h
  | pullRecentCandidateDeltas since cursor =>
    have hd := (List.mem_insertionSort _).mp (List.mem_of_mem_take h)
    exact hselect (List.mem_of_mem_filter hd)
  | pullRecoverableDeltas since => exact hselect h
  | _ => cases h

/-- The writes of passes are noted as they apply. -/
theorem Effect.passWrites_cases {pid : Nat} {op : Op} {w w' : World} (h : Effect pid w op w') :
    w'.ghost.passWrites = w.ghost.passWrites ∨
    (∃ nonce kind snapshot row, op = .commit (.discardCandidate nonce kind snapshot) ∧
      Db.Discarded nonce kind row w.db w'.db ∧
      w'.ghost.passWrites = ⟨snapshot, row⟩ :: w.ghost.passWrites) ∨
    (∃ nonce status snapshot row, op = .commit (.updateCandidateStatus nonce status snapshot) ∧
      Db.Updated nonce status row w.db w'.db ∧
      w'.ghost.passWrites = ⟨snapshot, row⟩ :: w.ghost.passWrites) := by
  cases h with
  | discarded h => exact .inr (.inl ⟨_, _, _, _, rfl, h, rfl⟩)
  | updated h => exact .inr (.inr ⟨_, _, _, _, rfl, h, rfl⟩)
  | _ => exact .inl rfl

/-- A row that is not canonical at the nonce of a held one is the held delta. -/
structure HeldInv (w : World) : Prop where
  rows : ∀ {pid d r}, (pid, d) ∈ w.ghost.held → r ∈ w.db.deltas → r.delta.nonce = d.nonce →
    r.delta.status.isCanonical = false → SameDelta r.delta d
  writes : w.PassWritesHit

namespace HeldInv
variable {net : Network} {cfg : Config} {pid : Nat} {op : Op} {w w' : World}

/-- Where a row after a call that is not canonical comes from: the same delta
was there, or the call queued it. -/
theorem open_row (h : Effect pid w op w') (hfits : op.Fits net cfg) {r : DeltaRow}
    (hr : r ∈ w'.db.deltas) (hopen : r.delta.status.isCanonical = false) :
    (∃ row ∈ w.db.deltas, row.delta.status.isCanonical = false ∧ SameDelta r.delta row.delta) ∨
    ∃ delta, Queued w.db w'.db op delta ∧ r.delta = delta := by
  have hcand : ∀ {s : DeltaStatus}, s.isCandidate = true → s.isCanonical = false := by
    intro s hs
    cases s <;> first | rfl | cases hs
  cases h.row_cases hr with
  | kept hmem => exact .inl ⟨r, hmem, hopen, .refl _⟩
  | queued hq heq => exact .inr ⟨_, hq, by rw [heq]⟩
  | abandoned _ hrec heq =>
    exact .inl ⟨_, hrec.rewrites.mem_row, hcand hrec.candidate, heq ▸ rewrite_same _ _⟩
  | updated _ hup heq =>
    exact .inl ⟨_, hup.rewrites.mem_row, hcand hup.candidate, heq ▸ rewrite_same _ _⟩
  | flipped hcall _ _ _ _ _ heq | restored hcall _ _ _ heq =>
    subst hcall heq
    cases hopen.symm.trans hfits.canonical.1

/-- A row of a call's pass is the delta the pass computed from. -/
theorem hits (hi : HeldInv w) (hlive : pid ∉ w.finished) {snapshot : DeltaObject} {row : DeltaRow}
    (hheld : ∃ d, w.Holds pid d ∧ SameDelta snapshot d) (hrow : row ∈ w.db.deltas)
    (hn : row.delta.nonce = snapshot.nonce) (hopen : row.delta.status.isCanonical = false) :
    SameDelta snapshot row.delta := by
  obtain ⟨d, hd, hsame⟩ := hheld
  rcases hd with hd | hd
  · exact hsame.trans (hi.rows hd hrow (hn.trans hsame.nonce) hopen).symm
  · exact absurd hd hlive

/-- Every call that queues nothing over a held row keeps the invariant. -/
theorem of_effect (hi : HeldInv w) (hlive : pid ∉ w.finished) (h : Effect pid w op w')
    (hfits : op.Fits net cfg) (hok : HeldOk cfg pid w op)
    (hguard : ∀ delta ∈ w.newlyQueued w', ∀ x ∈ w.ghost.held, x.2.nonce = delta.nonce →
      SameDelta delta x.2) : HeldInv w' where
  rows := by
    intro q d r hd hr hn hopen
    have hold : (q, d) ∈ w.ghost.held → SameDelta r.delta d := by
      intro hd
      rcases open_row h hfits hr hopen with ⟨row, hrow, hopen', hsame⟩ | ⟨delta, hq, rfl⟩
      · exact hsame.trans (hi.rows hd hrow (hsame.nonce.symm.trans hn) hopen')
      · exact hguard _ (h.mem_newlyQueued hq) _ hd hn.symm
    rcases h.held_cases with ⟨heq, _⟩ | ⟨qry, n, _, _, hdb, heq⟩ | rfl
    · exact hold (heq ▸ hd)
    · rw [heq] at hd
      rcases List.mem_append.mp hd with hd | hd
      · -- the row has just been read
        obtain ⟨d', hd', hpair⟩ := List.mem_map.mp hd
        cases hpair
        obtain ⟨r', hr', rfl⟩ := Query.held_mem hd'
        rw [hdb] at hr
        rw [Db.eq_of_nonce hr hr' hn]
        exact .refl _
      · exact hold hd
    · exact hold (List.mem_filter.mp hd).1
  writes := by
    intro x hx
    rcases h.passWrites_cases with heq | ⟨nonce, kind, snapshot, row, rfl, hdis, heq⟩ |
      ⟨nonce, status, snapshot, row, rfl, hup, heq⟩
    · exact hi.writes x (heq ▸ hx)
    · rw [heq] at hx
      rcases List.mem_cons.mp hx with rfl | hx
      · refine hi.hits hlive hok.1 hdis.deletes.mem_row (hdis.row_nonce.trans hfits.1) ?_
        have hkind : row.delta.status.kind ≠ .canonical := by
          rw [hdis.row_kind]
          rcases hfits.2 with hk | ⟨hk, _⟩ <;> simp [hk]
        cases hs : row.delta.status <;> simp_all [DeltaStatus.isCanonical, DeltaStatus.kind]
      · exact hi.writes x hx
    · rw [heq] at hx
      rcases List.mem_cons.mp hx with rfl | hx
      · refine hi.hits hlive hok.1 hup.rewrites.mem_row (hup.row_nonce.trans hfits.1) ?_
        have hc := hup.candidate
        cases hs : row.delta.status <;> simp_all [DeltaStatus.isCanonical, DeltaStatus.isCandidate]
      · exact hi.writes x hx

theorem of_act (hi : HeldInv w) (h : ActEffect net w w') : HeldInv w' := by
  have hheld : ∀ x ∈ w'.ghost.held, x ∈ w.ghost.held := by
    intro x hx
    cases h with
    | crash pid => exact (List.mem_filter.mp hx).1
    | tick | mine => exact hx
  have hwrites : w'.ghost.passWrites = w.ghost.passWrites := by cases h <;> rfl
  refine ⟨fun hd hr => hi.rows (hheld _ hd) (h.db ▸ hr), fun x hx => hi.writes x (hwrites ▸ hx)⟩

theorem of_fresh (h : w.Fresh net) : HeldInv w := by
  refine ⟨fun hd => ?_, fun x hx => ?_⟩
  · rw [h.ghost] at hd
    cases hd
  · rw [h.ghost] at hx
    cases hx

end HeldInv

/-- In every run in which no other delta is queued at the nonce of a row that a
pass under way has read, every write of a pass changed the delta it was computed
from. -/
theorem pass_writes_hit_their_candidate (net : Network) (cfg : Config) (w₀ : World)
    (hfresh : w₀.Fresh net) (c : SystemConf) (h : Reachable net cfg leavesHeldNonces w₀ c) :
    c.world.PassWritesHit := by
  have hinv : HeldInv c.world :=
    Reach.induct (K := fun pid op w => op.Fits net cfg ∧ HeldOk cfg pid w op)
      (fun hr hp => Reachable.held hr hp) (HeldInv.of_fresh hfresh)
      (fun hk hguard hx hi => hi.of_effect (exec_effect hx).1 (exec_effect hx).2 hk.1 hk.2
        (of_decide_eq_true (RunGuard.calls_ok hguard hx)))
      (fun _ hact hi => hi.of_act (act_effect hact)) h
  exact hinv.writes

/-- A retry that is counted on the candidate it was read from. -/
theorem pass_writes_hit_their_candidate_counted :
    ∃ c, Reachable (.letters 0) Demo.config leavesHeldNonces (Demo.world 0) c ∧
      c.world.ghost.passWrites.length = 1 ∧ c.world.PassWritesHit := by
  obtain ⟨c, hc, htest⟩ := Demo.reachable_after 0 leavesHeldNonces (Demo.world 0)
    (Demo.pushed ++ [.env (.tick 15)] ++ Demo.acquires 2 "a" ++
      .spawn 3 (.fullPass (Demo.fence "a" 0)) :: Demo.calls 3 11 1)
    (fun c : SystemConf => c.world.ghost.passWrites.length == 1) (by decide +kernel)
  exact ⟨c, hc, by simpa using htest, pass_writes_hit_their_candidate _ Demo.config _
    (Demo.fresh_world 0) c hc⟩

/-- A pass reads an execution's candidate; the node rejects the transaction and
the candidate is deleted; a client queues another delta at its nonce; the pass
counts its retry. -/
def Demo.refilled : List (Event Request Choice Act) :=
  Demo.executing 63 50 ++ [.env (.tick 15)] ++ Demo.acquires 2 "a" ++
    .spawn 3 (.fullPass (Demo.fence "a" 0)) :: Demo.calls 3 9 1 ++
    .run 1 { submit := .rejected } :: Demo.calls 1 3 1 ++
    .spawn 4 (.push (Demo.delta 1 "s" "u")) :: Demo.calls 4 9 1 ++ Demo.calls 3 2 1

theorem pass_writes_miss_refilled_nonce :
    ¬∀ c, Reachable (.letters 0) Demo.config .any (Demo.world 0) c → c.world.PassWritesHit := by
  intro hall
  obtain ⟨c, hc, htest⟩ := Demo.reachable_after 0 .any (Demo.world 0) Demo.refilled
    (fun c : SystemConf => decide (¬c.world.PassWritesHit)) (by decide +kernel)
  exact of_decide_eq_true htest (hall c hc)

end Guardian
