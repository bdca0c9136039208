import Guardian.Signing.Messages

/- Two messages that are signed as the same word are the same message.

   The kinds are told apart by the number of elements they hash, except for
   requests with and without an operation, which the tag's NUL byte tells apart
   (JSON text has none), and lookups and revoke-all requests, whose domain tags
   differ. Within a kind every field is read off its place: timestamps and the
   times of a grant are below the field order; the chunks of a JSON text are,
   because UTF-8 has no byte 255; and the zeros that pad its last chunk are not
   part of the text. -/
namespace Guardian.Signing
open Json Bytes

/-! ## Elements -/

theorem feltFromU64Reduced_inj {a b : Nat} (ha : a < order) (hb : b < order)
    (h : feltFromU64Reduced a = feltFromU64Reduced b) : a = b := by
  have hval : a % order = b % order := congrArg Fin.val h
  rwa [Nat.mod_eq_of_lt ha, Nat.mod_eq_of_lt hb] at hval

theorem toUInt64_lt_of_nonneg {t : Int64} (h : 0 ≤ t.toInt) : t.toUInt64.toNat < 2 ^ 63 := by
  have hcond := BitVec.toInt_eq_toNat_cond t.toBitVec
  have hint : 0 ≤ t.toBitVec.toInt := h
  show t.toBitVec.toNat < 2 ^ 63
  split at hcond <;> omega

theorem timestampFelt_inj {t t' : Int64} (ht : 0 ≤ t.toInt) (ht' : 0 ≤ t'.toInt)
    (h : timestampFelt t = timestampFelt t') : t = t' := by
  have hlt := toUInt64_lt_of_nonneg ht
  have hlt' := toUInt64_lt_of_nonneg ht'
  have hnat := feltFromU64Reduced_inj (by unfold order; omega) (by unfold order; omega) h
  exact Int64.toBitVec_inj.mp (BitVec.eq_of_toNat_eq hnat)

@[simp] theorem length_asElements (w : Word) : w.asElements.length = 4 := rfl

theorem asElements_inj {w w' : Word} (h : w.asElements = w'.asElements) : w = w' := by
  cases w
  cases w'
  simpa [Word.asElements] using h

/-- Two words at the front. -/
theorem asElements_append_inj {w w' : Word} {r r' : List Felt}
    (h : w.asElements ++ r = w'.asElements ++ r') : w = w' ∧ r = r' := by
  obtain ⟨hw, hr⟩ := List.append_inj h rfl
  exact ⟨asElements_inj hw, hr⟩

/-- Bytes without 255 that do not end in a zero are determined by their elements. -/
theorem packedElements_inj {bs bs' : List UInt8} (h255 : ∀ b ∈ bs, b ≠ 255)
    (h255' : ∀ b ∈ bs', b ≠ 255) (hlast : ∀ h : bs ≠ [], bs.getLast h ≠ 0)
    (hlast' : ∀ h : bs' ≠ [], bs'.getLast h ≠ 0) (h : packedElements bs = packedElements bs') :
    bs = bs' := by
  have hpack : pack order bs = pack order bs' := by
    rw [← packedElements_val, ← packedElements_val, h]
  obtain ⟨i, j, hpadded⟩ := packed_padded (fun c hc => littleEndian_lt_of_ne_255 h255 hc)
    (fun c hc => littleEndian_lt_of_ne_255 h255' hc) hpack
  exact eq_of_padded hlast hlast' hpadded

theorem length_chunks (k : Nat) (bs : List UInt8) : (chunks k bs).length = (bs.length + k - 1) / k := by
  simp [chunks]

theorem length_feltsFromBytes (bs : List UInt8) :
    (feltsFromBytes bs).length = (bs.length + 3) / 4 + 1 := by
  rw [feltsFromBytes, List.length_cons, List.length_map, length_chunks]
  rfl

/-- The length tells what of the last chunk is padding; that it is reduced to 32 bits does
not matter, since the number of chunks is known too. -/
theorem feltsFromBytes_inj {bs bs' : List UInt8} (h : feltsFromBytes bs = feltsFromBytes bs') :
    bs = bs' := by
  have hcount := congrArg List.length h
  rw [length_feltsFromBytes, length_feltsFromBytes] at hcount
  obtain ⟨hlen, hchunks⟩ := List.cons.inj h
  have hmod := feltFromU64Reduced_inj (a := bs.length % 2 ^ 32) (b := bs'.length % 2 ^ 32)
    (by unfold order; omega) (by unfold order; omega) hlen
  have hlength : bs.length = bs'.length := by omega
  have hlt : ∀ {cs c : List UInt8}, c ∈ chunks 4 cs → littleEndian (pad 4 c) < order := by
    intro cs c hc
    have hle := littleEndian_lt (pad 4 c)
    rw [length_pad (mem_of_mem_chunks hc).2] at hle
    exact Nat.lt_trans hle (by decide)
  have hpadded : (chunks 4 bs).map (pad 4) = (chunks 4 bs').map (pad 4) := by
    refine List.ext_getElem (by simpa using congrArg List.length hchunks) fun n hn hn' => ?_
    have hval := List.getElem_of_eq hchunks (by simpa using hn)
    simp only [List.getElem_map] at hval ⊢
    refine littleEndian_inj ?_ (feltFromU64Reduced_inj (hlt (List.getElem_mem _))
      (hlt (List.getElem_mem _)) hval)
    rw [length_pad (mem_of_mem_chunks (List.getElem_mem _)).2,
      length_pad (mem_of_mem_chunks (List.getElem_mem _)).2]
  obtain ⟨i, j, hzeros⟩ := padded_of_chunks (by decide) hpadded
  exact (List.append_inj hzeros hlength).1

/-! ## Bodies -/

section Body
variable {N : Type} {F : NumberText N}

theorem mem_jsonBytes {value : Value N} {b : UInt8} (h : b ∈ jsonBytes F value) :
    b ≠ 255 ∧ b ≠ 0 := by
  refine ⟨utf8_ne_255 h, utf8_ne_zero (fun hnul => ?_) h⟩
  have hprintable := write_printable F _ _ hnul
  exact absurd hprintable (by unfold Printable; decide)

theorem jsonBytes_ne_nil (F : NumberText N) (value : Value N) : jsonBytes F value ≠ [] := by
  obtain ⟨c, r, hwrite, -, -⟩ := write_head F (canonicalizeJson value)
  exact utf8_ne_nil (by rw [hwrite]; exact List.cons_ne_nil c r)

theorem signedBytes_ne_nil (F : NumberText N) (operation : Option SignedOperation)
    (value : Value N) : signedBytes F operation value ≠ [] := by
  cases operation with
  | none => exact jsonBytes_ne_nil F value
  | some operation => exact List.append_ne_nil_of_right_ne_nil _ (jsonBytes_ne_nil F value)

theorem signedBytes_ne_255 {operation : Option SignedOperation} {value : Value N} {b : UInt8}
    (h : b ∈ signedBytes F operation value) : b ≠ 255 := by
  cases operation with
  | none => exact (mem_jsonBytes h).1
  | some operation =>
    rcases List.mem_append.mp h with h | h
    · cases operation
      exact utf8_ne_255 h
    · exact (mem_jsonBytes h).1

theorem signedBytes_last {operation : Option SignedOperation} {value : Value N}
    (h : signedBytes F operation value ≠ []) : (signedBytes F operation value).getLast h ≠ 0 := by
  cases operation with
  | none => exact (mem_jsonBytes (List.getLast_mem h)).2
  | some operation =>
    have hlast := List.getLast_append_of_right_ne_nil operation.tag (jsonBytes F value)
      (jsonBytes_ne_nil F value)
    exact fun hzero => (mem_jsonBytes (List.getLast_mem (jsonBytes_ne_nil F value))).2
      (hlast.symm.trans hzero)

theorem jsonBytes_unique {value value' : Value N} (h : jsonBytes F value = jsonBytes F value') :
    Reordered value value' :=
  reordered_of_arrange_eq (fun _ => List.perm_insertionSort _ _)
    (write_injective (utf8_injective h))

/-- A tag has a NUL byte. -/
theorem zero_mem_tag (operation : SignedOperation) : 0 ∈ operation.tag := by
  cases operation
  decide

theorem signedBytes_unique {operation operation' : Option SignedOperation} {value value' : Value N}
    (h : signedBytes F operation value = signedBytes F operation' value') :
    operation = operation' ∧ Reordered value value' := by
  cases operation with
  | none =>
    cases operation' with
    | none => exact ⟨rfl, jsonBytes_unique h⟩
    | some operation' =>
      have hzero : 0 ∈ signedBytes F none value := by
        rw [h]
        exact List.mem_append_left _ (zero_mem_tag operation')
      exact absurd rfl (mem_jsonBytes hzero).2
  | some operation =>
    cases operation' with
    | none =>
      have hzero : 0 ∈ signedBytes F none value' := by
        rw [← h]
        exact List.mem_append_left _ (zero_mem_tag operation)
      exact absurd rfl (mem_jsonBytes hzero).2
    | some operation' =>
      cases operation
      cases operation'
      exact ⟨rfl, jsonBytes_unique (List.append_cancel_left h)⟩

end Body

/-! ## Kinds -/

section Kinds
variable {N : Type} {hash : List Felt → Word} {F : NumberText N} {dateTime : Nat → Option String}

theorem CollisionFree.eq_of_hash_eq {sequences : List (List Felt)}
    (h : CollisionFree hash sequences) {s t : List Felt} (hs : s ∈ sequences) (ht : t ∈ sequences)
    (heq : hash s = hash t) : s = t :=
  h s hs t ht heq

/-- How many elements are hashed. -/
def Message.width : Message N dateTime → Nat
  | .request .. => 7
  | .operation .. => 7
  | .lookup .. => 9
  | .grant _ => 40
  | .logout .. => 15
  | .revokeAll .. => 9

theorem length_elements (m : Message N dateTime) : (m.elements hash F).length = m.width := by
  cases m with
  | request => rfl
  | operation => rfl
  | lookup => rfl
  | grant g =>
    simp [Message.elements, grantElements, length_feltsFromBytes, g.sessionPublicKey.2,
      Message.width]
  | logout key t => simp [Message.elements, length_feltsFromBytes, key.2, Message.width]
  | revokeAll => rfl

/-- The account, the time, the tag and the body of a request. -/
theorem request_unique {a a' : AccountId} {t t' : Int64} {operation operation' : Option SignedOperation}
    {body body' : Value N} (ht : 0 ≤ t.toInt) (ht' : 0 ≤ t'.toInt)
    (hash_inj : hash (packedElements (signedBytes F operation body)) =
        hash (packedElements (signedBytes F operation' body')) →
      packedElements (signedBytes F operation body) =
        packedElements (signedBytes F operation' body'))
    (h : requestElements a t (fromBytes hash (signedBytes F operation body)) =
      requestElements a' t' (fromBytes hash (signedBytes F operation' body'))) :
    a = a' ∧ t = t' ∧ operation = operation' ∧ Reordered body body' := by
  obtain ⟨hhead, hpayload⟩ := List.append_inj h rfl
  simp only [List.cons.injEq, and_true] at hhead
  obtain ⟨hfirst, hsecond, htime⟩ := hhead
  rw [fromBytes, if_neg (signedBytes_ne_nil F operation body), fromBytes,
    if_neg (signedBytes_ne_nil F operation' body')] at hpayload
  have hbytes := packedElements_inj (fun _ hb => signedBytes_ne_255 hb)
    (fun _ hb => signedBytes_ne_255 hb) (fun hne => signedBytes_last hne)
    (fun hne => signedBytes_last hne) (hash_inj (asElements_inj hpayload))
  obtain ⟨hop, hbody⟩ := signedBytes_unique hbytes
  refine ⟨?_, timestampFelt_inj ht ht' htime, hop, hbody⟩
  cases a
  cases a'
  simp_all

/-- The fields of a grant. -/
theorem grant_unique {g g' : SessionGrant dateTime}
    (free : CollisionFree hash ((Message.grant g : Message N dateTime).parts F ++
      (Message.grant g' : Message N dateTime).parts F))
    (h : grantElements hash g = grantElements hash g') : g = g' := by
  have hrange : ∀ k : SessionGrant dateTime, k.expiresAt.toNat < 2 ^ 63 := by
    intro k
    have hsome := k.expires_in_range
    unfold formatUtcSeconds at hsome
    split at hsome
    · assumption
    · cases hsome
  have htext : ∀ {s s' : String}, hashBytes hash (utf8 s.toList) = hashBytes hash (utf8 s'.toList) →
      feltsFromBytes (utf8 s.toList) ∈ (Message.grant g : Message N dateTime).parts F ++
        (Message.grant g' : Message N dateTime).parts F →
      feltsFromBytes (utf8 s'.toList) ∈ (Message.grant g : Message N dateTime).parts F ++
        (Message.grant g' : Message N dateTime).parts F → s = s' := by
    intro s s' hword hs hs'
    have hbytes := feltsFromBytes_inj (free.eq_of_hash_eq hs hs' hword)
    exact String.toList_injective (utf8_injective hbytes)
  unfold grantElements at h
  obtain ⟨-, h⟩ := asElements_append_inj h
  obtain ⟨hsigner, h⟩ := asElements_append_inj h
  obtain ⟨hkey, h⟩ := List.append_inj h (by
    rw [length_feltsFromBytes, length_feltsFromBytes, g.sessionPublicKey.2, g'.sessionPublicKey.2])
  obtain ⟨horigin, h⟩ := asElements_append_inj h
  obtain ⟨htimes, h⟩ := List.append_inj h rfl
  obtain ⟨-, h⟩ := asElements_append_inj h
  obtain ⟨-, h⟩ := asElements_append_inj h
  obtain ⟨hguardian, hnetwork⟩ := asElements_append_inj h
  simp only [List.cons.injEq, and_true] at htimes
  have hexpires : g.expiresAt = g'.expiresAt := by
    have hg := hrange g
    have hg' := hrange g'
    exact UInt64.toNat_inj.mp (feltFromU64Reduced_inj (by unfold order; omega)
      (by unfold order; omega) htimes.2)
  have hissued : g.issuedAt = g'.issuedAt := by
    have hg := Nat.lt_trans g.issued_before (hrange g)
    have hg' := Nat.lt_trans g'.issued_before (hrange g')
    exact UInt64.toNat_inj.mp (feltFromU64Reduced_inj (by unfold order; omega)
      (by unfold order; omega) htimes.1)
  have horigin := htext horigin (by simp [Message.parts]) (by simp [Message.parts])
  have hnetwork := htext (asElements_inj hnetwork) (by simp [Message.parts]) (by simp [Message.parts])
  have hkey := Subtype.ext (feltsFromBytes_inj hkey)
  cases g
  cases g'
  simp_all

theorem lookup_ne_revokeAll_tag : packedElements lookupTagBytes ≠ packedElements revokeAllTagBytes := by
  intro h
  exact absurd (congrArg List.length h) (by decide)

/-- A domain tag at the front. -/
theorem tag_unique {bs bs' : List UInt8} {r r' : List Felt}
    (hash_inj : hash (packedElements bs) = hash (packedElements bs') →
      packedElements bs = packedElements bs')
    (h : (domainTagWord hash bs).asElements ++ r = (domainTagWord hash bs').asElements ++ r') :
    packedElements bs = packedElements bs' ∧ r = r' := by
  obtain ⟨htag, hr⟩ := asElements_append_inj h
  exact ⟨hash_inj htag, hr⟩

end Kinds

/-- Messages signed as the same word are of the same kind, with the same tag, equal fields and
bodies that differ in the order of keys only. -/
theorem signed_messages_separated {N : Type} (F : NumberText N) (dateTime : Nat → Option String)
    (hash : List Felt → Word) (m m' : Message N dateTime) (hm : m.NonNegative)
    (hm' : m'.NonNegative) (free : CollisionFree hash (m.hashed hash F ++ m'.hashed hash F))
    (h : m.toWord hash F = m'.toWord hash F) : m.Same m' := by
  have helements : m.elements hash F = m'.elements hash F :=
    free.eq_of_hash_eq (by simp [Message.hashed]) (by simp [Message.hashed]) h
  have hwidth : m.width = m'.width := by
    rw [← length_elements m, helements, length_elements]
  -- The parts of both messages, by their places.
  have hparts : ∀ {s t}, s ∈ m.parts F → t ∈ m'.parts F → hash s = hash t → s = t :=
    fun hs ht => free.eq_of_hash_eq (by simp [Message.hashed, hs]) (by simp [Message.hashed, ht])
  cases m with
  | request a t body =>
    cases m' with
    | request a' t' body' =>
      obtain ⟨rfl, rfl, -, hbody⟩ := request_unique hm hm'
        (hparts (by simp [Message.parts]) (by simp [Message.parts])) helements
      exact .request a t hbody
    | operation a' t' op body' =>
      obtain ⟨-, -, hop, -⟩ := request_unique hm hm'
        (hparts (by simp [Message.parts]) (by simp [Message.parts])) helements
      cases hop
    | _ => exact absurd hwidth (by simp [Message.width])
  | operation a t op body =>
    cases m' with
    | request a' t' body' =>
      obtain ⟨-, -, hop, -⟩ := request_unique hm hm'
        (hparts (by simp [Message.parts]) (by simp [Message.parts])) helements
      cases hop
    | operation a' t' op' body' =>
      obtain ⟨rfl, rfl, hop, hbody⟩ := request_unique hm hm'
        (hparts (by simp [Message.parts]) (by simp [Message.parts])) helements
      obtain rfl := Option.some.inj hop
      exact .operation a t op hbody
    | _ => exact absurd hwidth (by simp [Message.width])
  | lookup t key =>
    cases m' with
    | lookup t' key' =>
      obtain ⟨-, hrest⟩ := tag_unique (hparts (by simp [Message.parts]) (by simp [Message.parts]))
        helements
      obtain ⟨htime, hkey⟩ := List.cons.inj hrest
      obtain rfl := timestampFelt_inj hm hm' htime
      obtain rfl := asElements_inj hkey
      exact .lookup t key
    | revokeAll signer t' =>
      obtain ⟨htag, -⟩ := tag_unique (hparts (by simp [Message.parts]) (by simp [Message.parts]))
        helements
      exact absurd htag lookup_ne_revokeAll_tag
    | _ => exact absurd hwidth (by simp [Message.width])
  | grant g =>
    cases m' with
    | grant g' =>
      have hfree : CollisionFree hash ((Message.grant g : Message N dateTime).parts F ++
          (Message.grant g' : Message N dateTime).parts F) := by
        intro s hs t ht
        refine free.eq_of_hash_eq ?_ ?_
        · rcases List.mem_append.mp hs with hs | hs <;> simp [Message.hashed, hs]
        · rcases List.mem_append.mp ht with ht | ht <;> simp [Message.hashed, ht]
      obtain rfl := grant_unique hfree helements
      exact .grant g
    | _ => exact absurd hwidth (by simp [Message.width])
  | logout key t =>
    cases m' with
    | logout key' t' =>
      obtain ⟨-, hrest⟩ := tag_unique (hparts (by simp [Message.parts]) (by simp [Message.parts]))
        helements
      obtain ⟨htime, hkey⟩ := List.cons.inj hrest
      obtain rfl := timestampFelt_inj hm hm' htime
      obtain rfl := Subtype.ext (feltsFromBytes_inj hkey)
      exact .logout key t
    | _ => exact absurd hwidth (by simp [Message.width])
  | revokeAll signer t =>
    cases m' with
    | revokeAll signer' t' =>
      obtain ⟨-, hrest⟩ := tag_unique (hparts (by simp [Message.parts]) (by simp [Message.parts]))
        helements
      obtain ⟨htime, hsigner⟩ := List.cons.inj hrest
      obtain rfl := timestampFelt_inj hm hm' htime
      obtain rfl := asElements_inj hsigner
      exact .revokeAll signer t
    | lookup t' key =>
      obtain ⟨htag, -⟩ := tag_unique (hparts (by simp [Message.parts]) (by simp [Message.parts]))
        helements
      exact absurd htag.symm lookup_ne_revokeAll_tag
    | _ => exact absurd hwidth (by simp [Message.width])

/-- A request to execute a proposal, with its keys in this order. -/
def signedRequest (entries : List (String × Value SafeInteger)) : Message SafeInteger fun _ => none :=
  .operation ⟨feltFromU64Reduced 7, feltFromU64Reduced 8⟩ 1700000000 .executeDeltaProposal
    (.obj entries)

theorem signed_messages_separated_reordered :
    (signedRequest [("proposal_id", .str "p"), ("account_id", .str "a")]).Same
      (signedRequest [("account_id", .str "a"), ("proposal_id", .str "p")]) :=
  signed_messages_separated integers _ polynomialHash _ _
    (show (0 : Int) ≤ (1700000000 : Int64).toInt by decide)
    (show (0 : Int) ≤ (1700000000 : Int64).toInt by decide)
    (by unfold CollisionFree; decide +kernel) (by decide +kernel)

end Guardian.Signing
