import Guardian.Network
import Guardian.Storage
import Mathlib.Data.List.Perm.Subperm

/- The bases of the release sweep's candidates (`jobs/release_sweep/sweep.rs`).
   A proposal or an unpromoted delta may build on the stored state or on the end
   of a chain of other unpromoted deltas. `candidate_bases` grows the list of
   bases by one delta at a time: any delta whose base was found is taken out of
   the work list and applied, and its end is a new base if it reproduces the
   commitment the delta was admitted with.

   `candidateBases_exact` says that this computes reachability: each reachable
   commitment once, whatever the order of the deltas. The work list is a `Vec`
   that `swap_remove` reorders, so nothing can be said of the order of the
   bases past the first. -/

/-- `Vec::swap_remove`: the last element takes the place of the removed one. -/
def List.swapRemove {α : Type} (l : List α) (i : Fin l.length) : List α :=
  (l.set i (l.getLast (List.ne_nil_of_length_pos i.pos))).dropLast

theorem List.perm_swapRemove {α : Type} (l : List α) (i : Fin l.length) :
    l.Perm (l.get i :: l.swapRemove i) := by
  have hne : l ≠ [] := List.ne_nil_of_length_pos i.pos
  have hset : (l.set i (l.getLast hne)) ≠ [] := by simpa using hne
  have hlast : (l.set i (l.getLast hne)).getLast hset = l.getLast hne := by
    rw [List.getLast_eq_getElem, List.getElem_set]
    split
    · rfl
    · simp [List.getLast_eq_getElem]
  -- both sides are the list with its last element written over the removed one
  have hsplit := List.dropLast_append_getLast hset
  rw [hlast] at hsplit
  have hswap : (l.getLast hne :: l.swapRemove i).Perm (l.getLast hne :: l.eraseIdx i) := by
    calc (l.getLast hne :: l.swapRemove i).Perm (l.swapRemove i ++ [l.getLast hne]) :=
          (List.perm_append_singleton _ _).symm
      _ = l.set i (l.getLast hne) := hsplit
      List.Perm _ (l.getLast hne :: l.eraseIdx i) := List.set_perm_cons_eraseIdx i.isLt _
  exact (List.getElem_cons_eraseIdx_perm i.isLt).symm.trans
    (((List.perm_cons _).mp hswap).symm.cons _)

theorem List.length_swapRemove {α : Type} (l : List α) (i : Fin l.length) :
    (l.swapRemove i).length + 1 = l.length := (l.perm_swapRemove i).length_eq.symm

namespace Guardian.ReleaseSweep

structure CandidateBase where
  commitment : Commitment
  stateJson : StateJson
  deriving DecidableEq, Repr

/-- The stored state as a base. -/
def CandidateBase.of (stored : StateObject) : CandidateBase := ⟨stored.commitment, stored.stateJson⟩

variable (net : Network)

/-- Where a delta leads from a base: it applies, and reproduces the commitment
it was admitted with where one is recorded. -/
def CandidateBase.next (base : CandidateBase) (delta : DeltaObject) : Option CandidateBase :=
  match net.applyDelta base.stateJson delta.deltaPayload with
  | some applied =>
    if delta.newCommitment.all (· == applied.commitment) then
      some ⟨applied.commitment, applied.stateJson⟩
    else none
  | none => none

/-- The base a delta builds on. -/
def baseOf (bases : List CandidateBase) (delta : DeltaObject) : Option CandidateBase :=
  bases.find? (·.commitment == delta.prevCommitment)

/-- The bases after a delta was applied to `base`. -/
def extendBases (bases : List CandidateBase) (base : CandidateBase) (delta : DeltaObject) :
    List CandidateBase :=
  match base.next net delta with
  | some found =>
    if bases.all (·.commitment != found.commitment) then bases ++ [found] else bases
  | none => bases

/-- The loop of `candidate_bases`, with the deltas it applied. -/
def growBases (bases : List CandidateBase) (unapplied : List DeltaObject) :
    List CandidateBase × List DeltaObject :=
  match unapplied.findFinIdx? (fun delta => bases.any (·.commitment == delta.prevCommitment)) with
  | none => (bases, [])
  | some position =>
    let delta := unapplied.get position
    let rest := unapplied.swapRemove position
    match baseOf bases delta with
    | none => growBases bases rest
    | some base =>
      let (grown, applied) := growBases (extendBases net bases base delta) rest
      (grown, delta :: applied)
termination_by unapplied.length
decreasing_by all_goals exact Nat.lt_of_succ_le (unapplied.length_swapRemove position).le

/-- `candidate_bases`. -/
def candidateBases (stored : StateObject) (deltas : List DeltaObject) : List CandidateBase :=
  (growBases net [.of stored] deltas).1

/-- The deltas it applies. -/
def appliedDeltas (stored : StateObject) (deltas : List DeltaObject) : List DeltaObject :=
  (growBases net [.of stored] deltas).2

/-! ## Reachability -/

/-- The bases reachable from the stored state through deltas of the list. -/
inductive Reaches (stored : StateObject) (deltas : List DeltaObject) : CandidateBase → Prop
  | stored : Reaches stored deltas (.of stored)
  | hop {base next : CandidateBase} {delta : DeltaObject} (before : Reaches stored deltas base)
      (listed : delta ∈ deltas) (builds : delta.prevCommitment = base.commitment)
      (leads : base.next net delta = some next) : Reaches stored deltas next

/-- A commitment determines the state: reachable bases with one commitment lead
to the same places. -/
def Determined (stored : StateObject) (deltas : List DeltaObject) : Prop :=
  ∀ {a b : CandidateBase}, Reaches net stored deltas a → Reaches net stored deltas b →
    a.commitment = b.commitment → ∀ delta,
      (a.next net delta).map (·.commitment) = (b.next net delta).map (·.commitment)

variable {net} {stored : StateObject} {deltas : List DeltaObject}

/-- The commitments of the bases. -/
def commitments (bases : List CandidateBase) : List Commitment := bases.map (·.commitment)

theorem mem_commitments {bases : List CandidateBase} {c : Commitment} :
    c ∈ commitments bases ↔ ∃ base ∈ bases, base.commitment = c := List.mem_map

theorem baseOf_eq_some {bases : List CandidateBase} {delta : DeltaObject} {base : CandidateBase}
    (h : baseOf bases delta = some base) :
    base ∈ bases ∧ base.commitment = delta.prevCommitment :=
  ⟨List.mem_of_find?_eq_some h, by simpa using List.find?_some h⟩

/-- What applying a delta to its base makes of the bases. -/
theorem extendBases_cases (net : Network) (bases : List CandidateBase) (base : CandidateBase)
    (delta : DeltaObject) :
    (extendBases net bases base delta = bases ∧
      ∀ next, base.next net delta = some next → next.commitment ∈ commitments bases) ∨
    ∃ next, base.next net delta = some next ∧ next.commitment ∉ commitments bases ∧
      extendBases net bases base delta = bases ++ [next] := by
  unfold extendBases
  split
  · next found hfound =>
    by_cases hnew : bases.all (·.commitment != found.commitment) = true
    · rw [if_pos hnew]
      refine .inr ⟨found, hfound, fun hmem => ?_, rfl⟩
      obtain ⟨b, hb, heq⟩ := mem_commitments.mp hmem
      have hne := List.all_eq_true.mp hnew b hb
      simp [heq] at hne
    · rw [if_neg hnew]
      refine .inl ⟨rfl, fun next hnext => ?_⟩
      cases hfound.symm.trans hnext
      simp only [List.all_eq_true, not_forall] at hnew
      obtain ⟨b, hb, heq⟩ := hnew
      exact mem_commitments.mpr ⟨b, hb, by simpa using heq⟩
  · next hnone => exact .inl ⟨rfl, fun next hnext => by rw [hnone] at hnext; cases hnext⟩

/-- The loop's invariant, with the deltas applied so far. -/
structure Growing (net : Network) (stored : StateObject) (deltas : List DeltaObject)
    (bases : List CandidateBase) (unapplied applied : List DeltaObject) : Prop where
  start : .of stored ∈ bases
  sound : ∀ base ∈ bases, Reaches net stored deltas base
  once : (commitments bases).Nodup
  split : (applied ++ unapplied).Perm deltas
  /-- An applied delta found its base, and the place it leads to is a base. -/
  closed : ∀ delta ∈ applied, ∃ base ∈ bases, base.commitment = delta.prevCommitment ∧
    ∀ next, base.next net delta = some next → next.commitment ∈ commitments bases

theorem growing_start (net : Network) (stored : StateObject) (deltas : List DeltaObject) :
    Growing net stored deltas [.of stored] deltas [] where
  start := List.mem_singleton_self _
  sound := fun base hb => by
    rw [List.mem_singleton.mp hb]
    exact .stored
  once := List.nodup_singleton _
  split := .refl _
  closed := nofun

/-- One round of the loop. -/
theorem Growing.round {bases : List CandidateBase} {unapplied applied : List DeltaObject}
    (h : Growing net stored deltas bases unapplied applied) (position : Fin unapplied.length)
    {base : CandidateBase} (hbase : baseOf bases (unapplied.get position) = some base) :
    Growing net stored deltas (extendBases net bases base (unapplied.get position))
      (unapplied.swapRemove position) (applied ++ [unapplied.get position]) := by
  obtain ⟨hmem, hbuilds⟩ := baseOf_eq_some hbase
  have hsplit : (applied ++ [unapplied.get position] ++ unapplied.swapRemove position).Perm
      deltas := by
    rw [List.append_assoc, List.singleton_append]
    exact ((unapplied.perm_swapRemove position).symm.append_left applied).trans h.split
  have hlisted : unapplied.get position ∈ deltas :=
    h.split.subset (List.mem_append_right _ (List.get_mem _ _))
  rcases extendBases_cases net bases base (unapplied.get position) with
    ⟨hsame, hclosed⟩ | ⟨next, hnext, hfresh, hgrown⟩
  · rw [hsame]
    refine ⟨h.start, h.sound, h.once, hsplit, fun delta hd => ?_⟩
    rcases List.mem_append.mp hd with hd | hd
    · exact h.closed delta hd
    · rw [List.mem_singleton.mp hd]
      exact ⟨base, hmem, hbuilds, hclosed⟩
  · rw [hgrown]
    have hkeep : ∀ {c}, c ∈ commitments bases → c ∈ commitments (bases ++ [next]) := by
      intro c hc
      simp only [commitments, List.map_append]
      exact List.mem_append_left _ hc
    have hnew : next.commitment ∈ commitments (bases ++ [next]) :=
      mem_commitments.mpr ⟨next, List.mem_append_right _ (List.mem_singleton_self _), rfl⟩
    refine ⟨List.mem_append_left _ h.start, fun b hb => ?_, ?_, hsplit, fun delta hd => ?_⟩
    · rcases List.mem_append.mp hb with hb | hb
      · exact h.sound b hb
      · rw [List.mem_singleton.mp hb]
        exact .hop (h.sound base hmem) hlisted hbuilds.symm hnext
    · simp only [commitments, List.map_append, List.map_cons, List.map_nil]
      exact List.nodup_append.mpr ⟨h.once, List.nodup_singleton _, fun c hc c' hc' heq =>
        hfresh (by rw [List.mem_singleton.mp hc'] at heq; exact heq ▸ hc)⟩
    · rcases List.mem_append.mp hd with hd | hd
      · obtain ⟨b, hb, hprev, hleads⟩ := h.closed delta hd
        exact ⟨b, List.mem_append_left _ hb, hprev, fun n hn => hkeep (hleads n hn)⟩
      · rw [List.mem_singleton.mp hd]
        refine ⟨base, List.mem_append_left _ hmem, hbuilds, fun n hn => ?_⟩
        cases hnext.symm.trans hn
        exact hnew

/-- When the loop ends, no delta left builds on a base. -/
theorem Growing.finished {bases : List CandidateBase} {unapplied applied : List DeltaObject}
    (h : Growing net stored deltas bases unapplied applied) :
    ∃ left, Growing net stored deltas (growBases net bases unapplied).1 left
        (applied ++ (growBases net bases unapplied).2) ∧
      ∀ delta ∈ left, delta.prevCommitment ∉ commitments (growBases net bases unapplied).1 := by
  fun_induction growBases net bases unapplied generalizing applied with
  | case1 bases unapplied hnone =>
    refine ⟨unapplied, by simpa using h, fun delta hd hmem => ?_⟩
    obtain ⟨base, hb, heq⟩ := mem_commitments.mp hmem
    have hno := List.findFinIdx?_eq_none_iff.mp hnone delta hd
    simp only [List.any_eq_true, not_exists] at hno
    exact hno base ⟨hb, by simpa using heq⟩
  | case2 bases unapplied position hposition delta rest hnone =>
    -- the position was found because a base is there
    have hfound := (List.findFinIdx?_eq_some_iff.mp hposition).1
    obtain ⟨base, hb, heq⟩ := List.any_eq_true.mp hfound
    exact absurd heq (List.find?_eq_none.mp hnone base hb)
  | case3 bases unapplied position hposition delta rest base hbase grown applied' hgrow =>
    rename_i ih
    obtain ⟨left, hleft, hstuck⟩ := ih (h.round position hbase)
    rw [hgrow] at hleft hstuck
    rw [List.append_assoc, List.singleton_append] at hleft
    exact ⟨left, hleft, hstuck⟩

/-- Every reachable commitment is among the bases the loop ends with. -/
theorem Growing.complete {bases : List CandidateBase} {left applied : List DeltaObject}
    (h : Growing net stored deltas bases left applied)
    (hstuck : ∀ delta ∈ left, delta.prevCommitment ∉ commitments bases)
    (hdet : Determined net stored deltas) {base : CandidateBase}
    (hreach : Reaches net stored deltas base) : base.commitment ∈ commitments bases := by
  induction hreach with
  | stored => exact mem_commitments.mpr ⟨_, h.start, rfl⟩
  | @hop base next delta before listed builds leads ih =>
    -- the delta builds on a base that was found, so it is not left over
    have happlied : delta ∈ applied := by
      rcases List.mem_append.mp (h.split.symm.subset listed) with hd | hd
      · exact hd
      · exact absurd (builds ▸ ih) (hstuck delta hd)
    obtain ⟨found, hfound, hprev, hleads⟩ := h.closed delta happlied
    have hsame := hdet (h.sound found hfound) before (hprev.trans builds) delta
    rw [leads, Option.map_some] at hsame
    obtain ⟨next', hnext', heq⟩ := Option.map_eq_some_iff.mp hsame
    exact heq ▸ hleads next' hnext'

/-- What the bases are, for any list of deltas. -/
theorem candidateBases_spec (hdet : Determined net stored deltas) :
    (commitments (candidateBases net stored deltas)).Nodup ∧
    (∀ c, c ∈ commitments (candidateBases net stored deltas) ↔
      ∃ base, Reaches net stored deltas base ∧ base.commitment = c) ∧
    (∀ base ∈ candidateBases net stored deltas, Reaches net stored deltas base) ∧
    (appliedDeltas net stored deltas).Subperm deltas := by
  obtain ⟨left, hgrown, hstuck⟩ := (growing_start net stored deltas).finished
  refine ⟨hgrown.once, fun c => ⟨fun hc => ?_, ?_⟩, hgrown.sound, ?_⟩
  · obtain ⟨base, hb, heq⟩ := mem_commitments.mp hc
    exact ⟨base, hgrown.sound base hb, heq⟩
  · rintro ⟨base, hreach, rfl⟩
    exact hgrown.complete hstuck hdet hreach
  · exact (List.sublist_append_left _ left).subperm.trans hgrown.split.subperm

/-- Reachability asks only which deltas are listed. -/
theorem Reaches.relist {listed : List DeltaObject} (hsub : deltas ⊆ listed) {base : CandidateBase}
    (h : Reaches net stored deltas base) : Reaches net stored listed base := by
  induction h with
  | stored => exact .stored
  | hop _ hd builds leads ih => exact .hop ih (hsub hd) builds leads

/-- The bases are the reachable commitments, each once; each delta is applied at
most once; and the order of the deltas does not matter. -/
theorem candidateBases_exact (net : Network) (stored : StateObject) (deltas : List DeltaObject)
    (hdet : Determined net stored deltas) :
    (commitments (candidateBases net stored deltas)).Nodup ∧
    (∀ c, c ∈ commitments (candidateBases net stored deltas) ↔
      ∃ base, Reaches net stored deltas base ∧ base.commitment = c) ∧
    (∀ base ∈ candidateBases net stored deltas, Reaches net stored deltas base) ∧
    (appliedDeltas net stored deltas).Subperm deltas ∧
    ∀ listed, listed.Perm deltas →
      (commitments (candidateBases net stored listed)).Perm
        (commitments (candidateBases net stored deltas)) := by
  obtain ⟨honce, hexact, hsound, happlied⟩ := candidateBases_spec hdet
  refine ⟨honce, hexact, hsound, happlied, fun listed hperm => ?_⟩
  have hdet' : Determined net stored listed := fun ha hb =>
    hdet (ha.relist hperm.subset) (hb.relist hperm.subset)
  obtain ⟨honce', hexact', _, _⟩ := candidateBases_spec hdet'
  refine (List.perm_ext_iff_of_nodup honce' honce).mpr fun c => ?_
  rw [hexact', hexact]
  constructor
  · rintro ⟨base, hreach, heq⟩
    exact ⟨base, hreach.relist hperm.subset, heq⟩
  · rintro ⟨base, hreach, heq⟩
    exact ⟨base, hreach.relist hperm.symm.subset, heq⟩

namespace Demo

/-- States are their commitments, and a delta's payload is the state it leads
to, except that nothing leads to `"x"`. -/
def chain : Network where
  getStateHead := fun s => some ⟨s, none⟩
  applyDelta := fun _ p => if p = "x" then none else some ⟨p, p, none, [], none⟩
  chainCosigners := fun _ => []
  extractGuardianCommitment := fun _ => none
  extractGuardianScheme := fun _ => none
  deltaProposalId := fun _ _ => none
  authorizes := fun _ _ _ => true
  validateConfiguration := fun _ _ _ => true
  validateFirstState := fun _ => true

/-- A delta queued behind another, listed first; a cycle back to the stored
state; one that does not apply; and one on an unknown base. -/
def parked : List DeltaObject :=
  [⟨2, "a", some "b", "b", .retained 0 none⟩, ⟨1, "s", some "a", "a", .retained 0 none⟩,
    ⟨3, "b", some "s", "s", .retained 0 none⟩, ⟨4, "a", none, "x", .retained 0 none⟩,
    ⟨5, "z", some "y", "y", .retained 0 none⟩]

end Demo

/-- The walk reaches past a delta listed after the one that builds on it. -/
theorem candidateBases_exact_chain :
    "b" ∈ commitments (candidateBases Demo.chain ⟨"s", "s", none⟩ Demo.parked) := by
  have hdet : Determined Demo.chain ⟨"s", "s", none⟩ Demo.parked := by
    intro a b _ _ _ delta
    simp [CandidateBase.next, Demo.chain]
  refine ((candidateBases_exact Demo.chain _ _ hdet).2.1 "b").mpr ⟨⟨"b", "b"⟩, ?_, rfl⟩
  have hfirst : Reaches Demo.chain ⟨"s", "s", none⟩ Demo.parked ⟨"a", "a"⟩ :=
    .hop .stored (show ⟨1, "s", some "a", "a", .retained 0 none⟩ ∈ Demo.parked by decide) rfl
      (by decide)
  exact .hop hfirst (show ⟨2, "a", some "b", "b", .retained 0 none⟩ ∈ Demo.parked by decide) rfl
    (by decide)

end Guardian.ReleaseSweep
