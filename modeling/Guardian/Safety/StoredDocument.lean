import Guardian.Held
import Guardian.Rows

/- The stored state is a document under its own commitment. A `/configure` computes
   the commitment of what it stores, and what is promoted is a state `apply_delta`
   returned; only the full pass also stores a state it has read before, to finish an
   interrupted promotion, and for that its reads are followed. -/
namespace Guardian

open Interleaving Service

/-- The stored commitment is the document's. -/
def World.StoresDocument (net : Network) (w : World) : Prop :=
  ∀ {s}, w.db.state = some s → net.IsState s.stateJson s.commitment

/-- Only documents are promoted. -/
def DocumentOk (net : Network) : Op → Prop
  | .commit (.promoteCandidate p) => net.IsState p.state.stateJson p.state.commitment
  | _ => True

def documents (net : Network) : Discipline Op World where
  inv := World.StoresDocument net
  le := fun _ _ => True
  ok := fun _ op _ => DocumentOk net op
  le_refl := fun _ => trivial
  le_trans := fun _ _ => trivial

theorem documents_kept (net : Network) (cfg : Config) :
    (documents net).Kept (machine net) (Op.Fits net cfg) where
  call := by
    intro pid op ch w r w' hfits hok hx hi
    refine ⟨fun {s} hs => ?_, trivial⟩
    obtain ⟨hstate, -⟩ | ⟨state, hwrite, hstate, -⟩ := (exec_effect hx).2.state_cases
    · exact hi (hstate ▸ hs)
    · rw [hstate] at hs
      cases hs
      cases hwrite with
      | submitted => exact hfits
      | replaced => exact hfits
      | promoted => exact hok
  act := by
    intro a w w' ha hi
    refine ⟨fun {s} hs => ?_, trivial⟩
    cases act_effect ha <;> exact hi hs

section Calls
variable {net : Network} {cfg : Config} {pid : Nat} {w : World} {fence : LeaseFence}
  {delta : DeltaObject} {ε : Type}

theorem quietly_documents {o : Op} (h : o.quiet = true) : From (documents net) pid w o := by
  intro w' _
  cases o with
  | commit tx =>
    cases tx with
    | promoteCandidate p => cases h
    | _ => trivial
  | _ => trivial

theorem writesFit_documents (delta : DeltaObject) :
    WritesFit cfg (From (documents net) pid w) delta :=
  ⟨fun _ _ _ _ => trivial, fun _ _ _ _ => trivial⟩

theorem appliedFit_documents (law : net.Coherent) :
    Processor.AppliedFit net (From (documents net) pid w) := by
  intro s payload delta applied source p happlied hp w' _
  show net.IsState p.state.stateJson p.state.commitment
  rw [hp.state]
  exact law.apply_isState happlied

/-- The state row as it is read. -/
theorem ensures_document (e : ε) :
    Ensures (machine net) (documents net) pid (pullState e)
      (fun s _ => net.IsState s.stateJson s.commitment) w := by
  refine Ensures.bind' (Ensures.bind' (Ensures.op' fun w₁ _ hi => ⟨trivial, fun ch r w₂ hx _ _ => ?_⟩))
  simp only [machine, exec] at hx
  split at hx
  · cases hx
  split at hx
  · cases hx
    refine Ensures.pure' ?_
    dsimp only [Query.run]
    split
    · next s hs => exact Ensures.pure' (hi hs)
    · exact Ensures.throw' e
  · cases hx
    exact Ensures.throw' e

namespace Processor

theorem ensures_finishInterrupted_document {s : StateObject}
    (hs : net.IsState s.stateJson s.commitment) :
    Ensures (machine net) (documents net) pid (finishInterruptedPromotion net cfg fence delta s)
      (fun _ _ => True) w := by
  unfold finishInterruptedPromotion
  split
  · exact Ensures.pure' trivial
  refine ensures_seq (makes_node (quietly_documents rfl)) fun answer w₁ _ => ?_
  split
  · split
    · exact Ensures.throw' _
    · refine ensures_seq (makes_canonicalizeVerifiedDelta quietly_documents fun {p} hp w' _ => ?_)
        fun _ _ _ => Ensures.pure' trivial
      show net.IsState p.state.stateJson p.state.commitment
      rw [hp.state]
      exact hs
  · exact Ensures.pure' trivial

theorem ensures_processFull_document (law : net.Coherent) (successors : List Commitment) :
    Ensures (machine net) (documents net) pid (processFullCandidate net cfg fence delta successors)
      (fun _ _ => True) w := by
  unfold processFullCandidate
  refine Ensures.bind' ((ensures_document _).mono fun s w₁ _ hs => ?_)
  split
  · refine Ensures.bind' ((ensures_finishInterrupted_document hs).mono fun step w₂ _ _ => ?_)
    split
    · exact Ensures.pure' trivial
    · exact ensures_seq (makes_handleOrphanedCandidate quietly_documents (writesFit_documents _))
        fun _ _ _ => Ensures.pure' trivial
  split
  · exact Ensures.throw' _
  next applied happlied =>
  refine ensures_seq (makes_node (quietly_documents rfl)) fun verified w₂ _ => ?_
  exact ensures_seq (makes_settleFullCandidate quietly_documents (writesFit_documents _) _ _
    (fun hp => appliedFit_documents law happlied hp)) fun _ _ _ => Ensures.pure' trivial

theorem ensures_processQueue_document (law : net.Coherent) (isHead chainBroken : Bool)
    (predecessor : Option (Nonce × Option Commitment)) (firstError : Option GuardianError)
    (rows : List DeltaObject) :
    Ensures (machine net) (documents net) pid
      (processQueue net cfg fence .full isHead chainBroken predecessor firstError rows)
      (fun _ _ => True) w := by
  induction rows generalizing isHead chainBroken predecessor firstError w with
  | nil => exact Ensures.pure' trivial
  | cons delta rest ih =>
    unfold processQueue
    refine ensures_seq (makes_flag quietly_documents) fun late w₁ _ => ?_
    split
    · exact Ensures.pure' trivial
    refine ensures_seq (makes_storedBase quietly_documents _) fun stored w₂ _ => ?_
    split
    · exact Ensures.pure' trivial
    dsimp only
    split
    · refine Ensures.absorb_seq (ensures_processFull_document law _) fun r w₃ _ => ?_
      split
      · exact ih _ _ _ _
      · exact ih _ _ _ _
      · exact ih _ _ _ _
    · refine ensures_seq (makes_awaitsPredecessor quietly_documents _ _ _) fun waits w₃ _ => ?_
      split
      · exact Ensures.pure' trivial
      · refine ensures_seq (makes_absorb (makes_handleOrphanedCandidate quietly_documents
          (writesFit_documents delta))) fun r w₄ _ => ?_
        split
        · exact ih _ _ _ _
        · exact ih _ _ _ _

theorem ensures_fullPass_document (law : net.Coherent) :
    Ensures (machine net) (documents net) pid (processFullPass net cfg fence) (fun _ _ => True) w := by
  have haccount : ∀ {w₁}, Ensures (machine net) (documents net) pid
      (processAccount net cfg fence) (fun _ _ => True) w₁ := by
    intro w₁
    unfold processAccount processCandidateList
    refine ensures_seq (makes_accountMetadata quietly_documents) fun metadata w₂ _ => ?_
    refine ensures_seq (makes_orFail (makes_query quietly_documents _)) fun rows w₃ _ => ?_
    split
    · refine ensures_of_makes ?_
      split
      · exact (makes_write (quietly_documents rfl)).bind' fun _ => trivial
      · trivial
    refine ensures_seq (makes_now quietly_documents) fun now w₄ _ => ?_
    refine Ensures.bind' ((ensures_processQueue_document law _ _ _ _ _).mono fun error w₅ _ _ => ?_)
    split
    · exact Ensures.throw' _
    · exact Ensures.pure' trivial
  unfold processFullPass
  refine ensures_seq (makes_orFail (makes_query quietly_documents _)) fun listed w₁ _ => ?_
  split
  swap
  · exact Ensures.pure' trivial
  refine ensures_seq (makes_flag quietly_documents) fun late w₂ _ => ?_
  split
  · exact Ensures.pure' trivial
  · exact Ensures.absorb_seq haccount fun _ _ _ => Ensures.pure' trivial

end Processor

theorem callsFit_documents {req : Request} : CallsFit net cfg req (From (documents net) pid w) where
  quiet := quietly_documents
  submit := fun _ _ _ _ _ => trivial
  state := fun _ _ _ => ⟨fun _ _ => trivial, fun _ _ => trivial⟩
  createMetadata := fun _ _ => trivial
  setMetadata := fun _ _ => trivial
  create := fun _ _ _ _ _ _ => trivial
  claim := fun _ _ _ _ _ _ => trivial
  queue := fun _ _ _ _ _ => trivial
  resolve := fun _ _ _ _ _ => trivial
  send := fun _ _ _ _ _ _ => trivial

theorem body_documents (law : net.Coherent) (req : Request) :
    wp (machine net) (documents net) pid (body net cfg req) (fun _ _ => True) w := by
  have hprogram : Ensures (machine net) (documents net) pid (req.program net cfg)
      (fun _ _ => True) w := by
    cases req with
    | fullPass fence => exact Processor.ensures_fullPass_document law
    | recentPass fence maxAge pages cursor =>
      exact ensures_of_makes (Processor.makes_processRecentPass quietly_documents
        (appliedFit_documents law) writesFit_documents _ _ _)
    | reconcilePass fence interval =>
      exact ensures_of_makes (Processor.makes_processReconcilePass quietly_documents
        (appliedFit_documents law) _ (fun _ _ => trivial) fun _ _ => trivial)
    | _ => exact ensures_of_makes (makes_program callsFit_documents rfl)
  exact wp_bind (wp_mono hprogram fun _ _ _ _ _ _ _ => ⟨trivial, fun _ _ _ _ _ _ => trivial⟩)

end Calls

/-- In every run the stored commitment is the stored document's. -/
theorem Reachable.storesDocument {net : Network} (law : net.Coherent) {cfg : Config} {G : RunGuard}
    {w₀ : World} (hfresh : w₀.Fresh net) {c : SystemConf} (h : Reachable net cfg G w₀ c) :
    c.world.StoresDocument net :=
  (Reach.wp (documents_kept net cfg) (fun req _ _ => body_calls net cfg req)
    (fun hs => (hfresh.state hs).1) (fun _ req _ _ _ => body_documents law req) h).1

end Guardian
