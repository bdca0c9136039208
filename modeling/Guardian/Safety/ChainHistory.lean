import Guardian.Rows

/- The account's chain: its history is a lineage of states, newest first, and
   its blocks are in order. Only the environment extends it, above its tip
   (`Chain.Extends`), so what a node serves at a block it has is final. The rank
   of its commitments, their account nonce, grows with the blocks: a commitment
   below the head's rank is never the head again. -/
namespace Guardian

open Interleaving

/-- What every chain of a run satisfies. -/
structure Chain.Sound (net : Network) (c : Chain) : Prop where
  steps : c.history.IsChain (fun newer older => net.Step older newer)
  states : ∀ {x}, x ∈ c.history → ∃ s, net.IsState s x
  ordered : c.entries.Pairwise (fun newer older => older.block ≤ newer.block)
  tip : ∀ {e}, e ∈ c.entries → e.block ≤ c.tip

theorem Effect.chain_eq {pid : Nat} {op : Op} {w w' : World} (h : Effect pid w op w') :
    w'.chain = w.chain := by
  cases h <;> rfl

namespace Chain
variable {net : Network} {w w' : World} {es : List ChainEntry}

theorem history_cons (c : Chain) : ∃ rest, c.history = c.head :: rest := by
  cases hc : c.entries with
  | nil => exact ⟨[], by simp [history, head, hc]⟩
  | cons e es => exact ⟨es.map (·.commitment) ++ [c.first], by simp [history, head, hc]⟩

/-- What is on top of a block's earlier entries is a step from the head. -/
theorem entry_step {m : Move} {e : ChainEntry} (h : w.entry net m = some e) :
    net.Step w.chain.head e.commitment ∧ e.block = w.chain.tip + 1 ∧ e.execution = m.execution ∧
      w.includable m e.commitment = true := by
  unfold World.entry at h
  split at h
  · cases h
  next applied happlied =>
  split at h
  · next hinc =>
    cases h
    obtain ⟨hstate, happly⟩ := Network.verifyAndApplyDelta_eq_some happlied
    exact ⟨Network.Step.of_apply hstate happly, rfl, rfl, hinc⟩
  · cases h

/-- The entries of a block are above the tip. -/
theorem mined_block (h : Mined net w es) {e : ChainEntry} (he : e ∈ es) :
    e.block = w.chain.tip + 1 := by
  induction h with
  | nil => cases he
  | cons _ hentry ih =>
    rcases List.mem_cons.mp he with rfl | he
    · exact (entry_step hentry).2.1
    · exact ih he

/-- An entry of a block is on top of the block's earlier ones. -/
theorem mined_entry (h : Mined net w es) {e : ChainEntry} (he : e ∈ es) :
    ∃ newer older m, es = newer ++ e :: older ∧ (w.extend older).entry net m = some e := by
  induction h with
  | nil => cases he
  | @cons es m e' _ hentry ih =>
    rcases List.mem_cons.mp he with rfl | he
    · exact ⟨[], es, m, rfl, hentry⟩
    · obtain ⟨newer, older, m, rfl, hbelow⟩ := ih he
      exact ⟨e' :: newer, older, m, rfl, hbelow⟩

namespace Sound

theorem of_mined (law : net.Coherent) (hs : w.chain.Sound net) (h : Mined net w es) :
    (w.extend es).chain.history.IsChain (fun newer older => net.Step older newer) ∧
      ∀ x ∈ (w.extend es).chain.history, ∃ s, net.IsState s x := by
  induction h with
  | nil => exact ⟨hs.steps, fun x hx => hs.states hx⟩
  | @cons es m e _ hentry ih =>
    obtain ⟨hstep, _⟩ := entry_step hentry
    obtain ⟨rest, hrest⟩ := history_cons (w.extend es).chain
    have hhistory : (w.extend (e :: es)).chain.history =
        e.commitment :: (w.extend es).chain.history := rfl
    rw [hhistory]
    refine ⟨?_, fun x hx => ?_⟩
    · rw [hrest] at ih ⊢
      exact List.isChain_cons_cons.mpr ⟨hstep, ih.1⟩
    · rcases List.mem_cons.mp hx with rfl | hx
      · exact law.step_isState hstep
      · exact ih.2 x hx

/-- The environment extends the chain soundly. -/
theorem of_act (law : net.Coherent) (hs : w.chain.Sound net) (h : ActEffect net w w') :
    w'.chain.Sound net := by
  cases h with
  | tick | crash => exact hs
  | mine hmined =>
    obtain ⟨hsteps, hstates⟩ := of_mined law hs hmined
    refine ⟨hsteps, fun hx => hstates _ hx, ?_, fun he => ?_⟩
    · refine List.pairwise_append.mpr ⟨?_, hs.ordered, fun newer hn older ho => ?_⟩
      · refine List.pairwise_of_forall_mem_list fun a ha b hb => ?_
        rw [mined_block hmined ha, mined_block hmined hb]
      · rw [mined_block hmined hn]
        exact (hs.tip ho).trans (Nat.le_succ _)
    · rcases List.mem_append.mp he with he | he
      · rw [mined_block hmined he]
      · exact (hs.tip he).trans (Nat.le_succ _)

theorem of_fresh (h : w.Fresh net) : w.chain.Sound net := by
  refine ⟨?_, fun hx => ?_, ?_, fun he => ?_⟩
  · simp [history, h.entries]
  · simp only [history, h.entries, List.map_nil, List.nil_append, List.mem_singleton] at hx
    rw [hx]
    exact h.first
  · simp [h.entries]
  · simp [h.entries] at he

end Sound

/-- A commitment the account has had stays in its history. -/
theorem history_mono (h : ActEffect net w w') {x : Commitment} (hx : x ∈ w.chain.history) :
    x ∈ w'.chain.history := by
  cases h with
  | tick | crash => exact hx
  | mine =>
    simp only [history, List.map_append, List.append_assoc]
    exact List.mem_append_right _ hx

/-! ## What a node reports -/

section Reads
variable {chain : Chain} {c expected target : Commitment} {b fromBlock : Nat}

theorem mem_history {e : ChainEntry} (h : e ∈ chain.entries) : e.commitment ∈ chain.history :=
  List.mem_append_left _ (List.mem_map_of_mem h)

/-- A node reports a commitment the account has had. -/
theorem headAt_mem (h : chain.headAt b = some c) : c ∈ chain.history := by
  obtain ⟨e, he, rfl⟩ := Option.map_eq_some_iff.mp h
  exact mem_history (List.mem_of_find?_eq_some he)

theorem verifyCommitment_match (h : chain.verifyCommitment expected b = .match) :
    chain.headAt b = some expected := by
  unfold verifyCommitment at h
  split at h
  · cases h
  · next onChain hat =>
    split at h
    · next heq => rw [heq]; exact hat
    · cases h

theorem verifyCommitment_mismatch (h : chain.verifyCommitment expected b = .mismatch c) :
    chain.headAt b = some c := by
  unfold verifyCommitment at h
  split at h
  · cases h
  · next onChain hat =>
    split at h
    · cases h
    · cases h; exact hat

/-- A transaction that is found ends at a commitment the account has had. -/
theorem findTransactionEndingAt_mem
    (h : (chain.findTransactionEndingAt target fromBlock b).foundInBlock.isSome = true) :
    ∃ c ∈ chain.history, eqIgnoreAsciiCase c target = true := by
  unfold findTransactionEndingAt at h
  split at h
  · next e he =>
    have hp := List.find?_some he
    simp only [decide_eq_true_eq] at hp
    exact ⟨_, mem_history (List.mem_of_find?_eq_some he), hp.2.2⟩
  · cases h

end Reads

/-! ## Descent along the chain -/

namespace Sound
variable {chain : Chain} {x c y : Commitment}

/-- Every commitment the account has had leads to its current one. -/
theorem reaches_head (h : chain.Sound net) (law : net.Lawful) (one : net.OneLineage)
    (hx : x ∈ chain.history) : Relation.ReflTransGen net.Step x chain.head := by
  obtain ⟨rest, hrest⟩ := chain.history_cons
  have hhist : (Network.lineage law one).History (chain.head :: rest) := hrest ▸ h.steps
  exact Lineage.History.reaches_head hhist (hrest ▸ hx)

/-- A node at the tip reports the current commitment. -/
theorem headAt_tip (h : chain.Sound net) {b : Nat} (hb : chain.tip ≤ b)
    (hc : chain.headAt b = some c) : c = chain.head := by
  unfold headAt at hc
  unfold head
  cases hentries : chain.entries with
  | nil => simp [hentries] at hc
  | cons e es =>
    have hle : e.block ≤ b := (h.tip (by rw [hentries]; exact List.mem_cons_self)).trans hb
    simp [hentries, hle] at hc
    simp [hc]

/-- What lies between two commitments of the account is one of its own. -/
theorem between (h : chain.Sound net) (law : net.Lawful) (one : net.OneLineage)
    (hx : x ∈ chain.history) (hy : y ∈ chain.history) (hxc : Relation.ReflTransGen net.Step x c)
    (hcy : Relation.ReflTransGen net.Step c y) : c ∈ chain.history :=
  Lineage.mem_of_between (L := Network.lineage law one) h.steps hx hy hxc hcy

end Sound

/-! ## Ranks -/

namespace Sound
variable {chain : Chain} {x y : ChainEntry} (h : chain.Sound net) (law : net.Lawful)
include h

theorem history_ranks :
    chain.history.Pairwise (fun newer older => law.rank older < law.rank newer) := by
  have hsteps := h.steps.imp fun _ _ hstep => law.rank_lt hstep
  have : IsTrans Commitment (fun newer older => law.rank older < law.rank newer) :=
    ⟨fun _ _ _ hab hbc => hbc.trans hab⟩
  exact List.isChain_iff_pairwise.mp hsteps

theorem entry_ranks : chain.entries.Pairwise
    (fun newer older => law.rank older.commitment < law.rank newer.commitment) :=
  List.pairwise_map.mp (List.pairwise_append.mp (h.history_ranks law)).1

/-- Every entry is above the first position. -/
theorem first_lt (hx : x ∈ chain.entries) : law.rank chain.first < law.rank x.commitment :=
  (List.pairwise_append.mp (h.history_ranks law)).2.2 _ (List.mem_map_of_mem hx) _
    (List.mem_singleton.mpr rfl)

/-- The head is the newest of the account's commitments. -/
theorem rank_le_head {c : Commitment} (hc : c ∈ chain.history) :
    law.rank c ≤ law.rank chain.head := by
  obtain ⟨rest, hrest⟩ := chain.history_cons
  have hranks := h.history_ranks law
  rw [hrest] at hc hranks
  rcases List.mem_cons.mp hc with rfl | hc
  · exact le_rfl
  · exact ((List.pairwise_cons.mp hranks).1 _ hc).le

/-- Of two entries, the one of the higher rank is in the later block. -/
theorem position (hx : x ∈ chain.entries) (hy : y ∈ chain.entries) :
    x = y ∨ (law.rank x.commitment < law.rank y.commitment ∧ x.block ≤ y.block) ∨
      (law.rank y.commitment < law.rank x.commitment ∧ y.block ≤ x.block) := by
  have hordered := (h.entry_ranks law).and h.ordered
  exact List.Pairwise.forall_of_forall_of_flip
    (R := fun x y => x = y ∨ (law.rank x.commitment < law.rank y.commitment ∧ x.block ≤ y.block) ∨
      (law.rank y.commitment < law.rank x.commitment ∧ y.block ≤ x.block))
    (fun _ _ => .inl rfl) (hordered.imp fun hlt => .inr (.inr hlt))
    (hordered.imp fun hlt => Or.inr (.inl hlt)) hx hy

/-- What the account had before an entry is not newer than what the entry is on
top of. -/
theorem below_next {newer older : List ChainEntry} {tip : Nat} {c : Commitment}
    (hsplit : chain.entries = newer ++ x :: older) (hc : c ∈ chain.history)
    (hlt : law.rank c < law.rank x.commitment) :
    law.rank c ≤ law.rank (Chain.head ⟨chain.first, older, tip⟩) := by
  obtain ⟨rest, hrest⟩ := history_cons ⟨chain.first, older, tip⟩
  have hhistory : chain.history = newer.map (·.commitment) ++ x.commitment ::
      (Chain.head ⟨chain.first, older, tip⟩ :: rest) := by
    rw [← hrest]
    simp [history, hsplit]
  have hranks := h.history_ranks law
  rw [hhistory] at hc hranks
  obtain ⟨_, hback, hnewer⟩ := List.pairwise_append.mp hranks
  rcases List.mem_append.mp hc with hc | hc
  · have habove := hnewer c hc x.commitment List.mem_cons_self
    omega
  rcases List.mem_cons.mp hc with rfl | hc
  · exact absurd hlt (lt_irrefl _)
  rcases List.mem_cons.mp hc with rfl | hc
  · exact le_rfl
  · exact ((List.pairwise_cons.mp (List.pairwise_cons.mp hback).2).1 c hc).le

/-- What a node at block `b` reports is the newest commitment up to `b`. -/
theorem headAt_newest {b : Nat} {c : Commitment} (hc : chain.headAt b = some c) :
    ∃ y ∈ chain.entries, y.commitment = c ∧ y.block ≤ b ∧
      ∀ z ∈ chain.entries, z.block ≤ b → law.rank z.commitment ≤ law.rank c := by
  obtain ⟨y, hy, rfl⟩ := Option.map_eq_some_iff.mp hc
  obtain ⟨hb, newer, older, hsplit, hnewer⟩ := List.find?_eq_some_iff_append.mp hy
  have hranks := h.entry_ranks law
  rw [hsplit] at hranks
  have holder := (List.pairwise_cons.mp (List.pairwise_append.mp hranks).2.1).1
  refine ⟨y, List.mem_of_find?_eq_some hy, rfl, of_decide_eq_true hb, fun z hz hzb => ?_⟩
  rw [hsplit] at hz
  rcases List.mem_append.mp hz with hz | hz
  · have hlate := hnewer z hz
    simp [hzb] at hlate
  · rcases List.mem_cons.mp hz with rfl | hz
    · exact le_rfl
    · exact (holder z hz).le

end Sound

/-! ## Blocks above the tip -/

/-- `c'` is `c` with blocks above its tip. -/
structure Extends (c c' : Chain) : Prop where
  first : c'.first = c.first
  tip : c.tip ≤ c'.tip
  entries : ∃ es, c'.entries = es ++ c.entries ∧ ∀ e ∈ es, c.tip < e.block

theorem Extends.refl (c : Chain) : c.Extends c := ⟨rfl, le_rfl, [], rfl, nofun⟩

theorem Extends.trans {a b c : Chain} (h : a.Extends b) (h' : b.Extends c) : a.Extends c := by
  obtain ⟨es, hes, hblocks⟩ := h.entries
  obtain ⟨es', hes', hblocks'⟩ := h'.entries
  refine ⟨h'.first.trans h.first, h.tip.trans h'.tip, es' ++ es, ?_, fun e he => ?_⟩
  · rw [hes', hes, List.append_assoc]
  · rcases List.mem_append.mp he with he | he
    · exact h.tip.trans_lt (hblocks' e he)
    · exact hblocks e he

theorem Extends.of_act (h : ActEffect net w w') : w.chain.Extends w'.chain := by
  cases h with
  | tick | crash => exact .refl _
  | mine hmined =>
    refine ⟨rfl, Nat.le_succ _, _, rfl, fun e he => ?_⟩
    rw [mined_block hmined he]
    exact Nat.lt_succ_self _

/-- The account was at `x` by block `b`. -/
def onChainBy (c : Chain) (x : Commitment) (b : Nat) : Bool :=
  x == c.first || c.entries.any (fun e => e.commitment == x && decide (e.block ≤ b))

namespace Extends
variable {c c' : Chain} {b : Nat} (h : c.Extends c')
include h

theorem mem {e : ChainEntry} (he : e ∈ c.entries) : e ∈ c'.entries := by
  obtain ⟨es, hes, _⟩ := h.entries
  rw [hes]
  exact List.mem_append_right _ he

/-- What a node serves at a block the chain has is final. -/
theorem headAt_eq (hb : b ≤ c.tip) : c'.headAt b = c.headAt b := by
  obtain ⟨es, hes, hblocks⟩ := h.entries
  have hnone : es.find? (·.block ≤ b) = none := by
    rw [List.find?_eq_none]
    intro e he
    have habove := hblocks e he
    simp only [decide_eq_true_eq]
    omega
  simp only [headAt, hes, List.find?_append, hnone, Option.none_or]

theorem onChainBy_eq {x : Commitment} (hb : b ≤ c.tip) : c'.onChainBy x b = c.onChainBy x b := by
  obtain ⟨es, hes, hblocks⟩ := h.entries
  have hnone : es.any (fun e => e.commitment == x && decide (e.block ≤ b)) = false := by
    rw [List.any_eq_false]
    intro e he
    have habove := hblocks e he
    simp only [Bool.and_eq_true, decide_eq_true_eq, not_and]
    omega
  simp only [onChainBy, h.first, hes, List.any_append, hnone, Bool.false_or]

theorem onChainBy_mono {x : Commitment} (hx : c.onChainBy x b = true) :
    c'.onChainBy x b = true := by
  simp only [onChainBy, Bool.or_eq_true, List.any_eq_true] at hx ⊢
  rcases hx with hx | ⟨e, he, hxe⟩
  · exact .inl (h.first ▸ hx)
  · exact .inr ⟨e, h.mem he, hxe⟩

end Extends

theorem mem_of_onChainBy {c : Chain} {x : Commitment} {b : Nat} (h : c.onChainBy x b = true) :
    x ∈ c.history := by
  simp only [onChainBy, Bool.or_eq_true, beq_iff_eq, List.any_eq_true, Bool.and_eq_true] at h
  rcases h with rfl | ⟨e, he, rfl, _⟩
  · exact List.mem_append_right _ (List.mem_singleton.mpr rfl)
  · exact mem_history he

/-- A commitment below the account's position is one it has left. -/
theorem mem_tail {chain : Chain} (law : net.Lawful) {c : Commitment} (hc : c ∈ chain.history)
    (hlt : law.rank c < law.rank chain.head) : c ∈ chain.history.tail := by
  obtain ⟨rest, hrest⟩ := chain.history_cons
  rw [hrest] at hc ⊢
  rcases List.mem_cons.mp hc with rfl | hc
  · exact absurd hlt (lt_irrefl _)
  · exact hc

/-- A commitment the account had by block `b` is not newer than the one it has
at `b`. -/
theorem Sound.rank_le_headAt {c : Chain} (h : c.Sound net) (law : net.Lawful) {x y : Commitment}
    {b b' : Nat} (hx : c.onChainBy x b = true) (hb : b ≤ b') (hy : c.headAt b' = some y) :
    x = y ∨ law.rank x < law.rank y := by
  obtain ⟨z, hz, rfl, _, hnewest⟩ := h.headAt_newest law hy
  simp only [onChainBy, Bool.or_eq_true, beq_iff_eq, List.any_eq_true, Bool.and_eq_true,
    decide_eq_true_eq] at hx
  rcases hx with rfl | ⟨e, he, rfl, heb⟩
  · exact .inr (h.first_lt law hz)
  · have hle := hnewest e he (heb.trans hb)
    obtain rfl | ⟨hlt, _⟩ | ⟨hlt, _⟩ := h.position law he hz
    · exact .inl rfl
    · exact .inr hlt
    · omega

theorem headAt_eq_none {c : Chain} {b : Nat} (h : c.headAt b = none) {e : ChainEntry}
    (he : e ∈ c.entries) : b < e.block := by
  have hall := List.find?_eq_none.mp (Option.map_eq_none_iff.mp h) e he
  simpa using hall

/-- A search that found nothing has looked at every block up to where it
resumes. -/
theorem findTransactionEndingAt_none {c : Chain} {target : Commitment} {fromBlock b : Nat}
    (h : (c.findTransactionEndingAt target fromBlock b).foundInBlock.isSome = false) {e : ChainEntry}
    (he : e ∈ c.entries) (hfrom : fromBlock ≤ e.block)
    (hresume : e.block < (c.findTransactionEndingAt target fromBlock b).resumeFromBlock) :
    eqIgnoreAsciiCase e.commitment target = false := by
  unfold findTransactionEndingAt at h hresume
  split at h
  · cases h
  next hnone =>
  rw [hnone] at hresume
  have hmiss := List.find?_eq_none.mp hnone e he
  simp only at hresume
  simp only [decide_eq_true_eq, not_and, Bool.not_eq_true] at hmiss
  exact hmiss hfrom (by omega)

end Chain
end Guardian
