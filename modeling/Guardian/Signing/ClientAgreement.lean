import Guardian.Signing.RequestPayload

/- When the TypeScript client signs the bytes the server verifies.

   The client's order of keys is three stable sorts, one after the other, so one
   fact about stable sorting says what stands before what (`Precedes`). The
   server's order is that of the keys. The two are permutations of one list, and
   agree exactly if the client's order is increasing. -/
namespace Guardian.Signing
open Json Bytes

/-! ## The order of the client's keys -/

section Order
variable {N : Type}

/-- The client writes `a` before `b` in an object whose keys were added in the order `keys`. -/
def Precedes (localeCompare : String → String → Ordering) (keys : List String) (a b : String) :
    Prop :=
  match Client.arrayIndex a, Client.arrayIndex b with
  | some m, some n => m < n
  | some _, none => True
  | none, some _ => False
  | none, none =>
    localeCompare a b = .lt ∨ localeCompare a b = .eq ∧ [a, b].Sublist keys

theorem arrayIndex_injective {a b : String} {n : Nat} (ha : Client.arrayIndex a = some n)
    (hb : Client.arrayIndex b = some n) : a = b := by
  have hdigits : ∀ {c : String}, Client.arrayIndex c = some n → Nat.toDigits 10 n = c.toList := by
    intro c hc
    simp only [Client.arrayIndex] at hc
    split at hc
    · next h => exact Option.some.inj hc ▸ h.1
    · cases hc
  exact String.toList_injective ((hdigits ha).symm.trans (hdigits hb))

instance : Std.Total fun a b : String × Value N => Client.listsBefore a.1 b.1 = true where
  total a b := by
    unfold Client.listsBefore
    cases Client.arrayIndex a.1 <;> cases Client.arrayIndex b.1 <;> simp [Nat.le_total]

instance : IsTrans (String × Value N) fun a b => Client.listsBefore a.1 b.1 = true where
  trans a b c := by
    unfold Client.listsBefore
    cases Client.arrayIndex a.1 <;> cases Client.arrayIndex b.1 <;>
      cases Client.arrayIndex c.1 <;> simp
    exact Nat.le_trans

variable (localeCompare : String → String → Ordering)

theorem swap_eq [Std.OrientedCmp localeCompare] (a b : String) :
    localeCompare a b = (localeCompare b a).swap :=
  Std.OrientedCmp.eq_swap

theorem precedes_asymm [Std.OrientedCmp localeCompare] {keys : List String} (hkeys : keys.Nodup)
    {a b : String} (h : Precedes localeCompare keys a b) : ¬ Precedes localeCompare keys b a := by
  unfold Precedes at *
  rw [swap_eq localeCompare b a]
  intro h'
  cases ha : Client.arrayIndex a <;> cases hb : Client.arrayIndex b <;> simp_all
  · rcases h with h | ⟨h, hsub⟩
    · simp [h] at h'
    · exact pair_sublist_asymm hkeys hsub (by simpa [h] using h')
  · omega

instance [Std.OrientedCmp localeCompare] :
    Std.Total fun a b : String × Value N => (localeCompare a.1 b.1).isLE = true where
  total a b := by
    rw [swap_eq localeCompare b.1 a.1]
    cases localeCompare a.1 b.1 <;> simp

instance [Std.TransCmp localeCompare] :
    IsTrans (String × Value N) fun a b => (localeCompare a.1 b.1).isLE = true where
  trans _ _ _ hab hbc := Std.TransCmp.isLE_trans hab hbc

instance : Std.Total fun a b : String × Value N => a.1 ≤ b.1 where
  total a b := le_total a.1 b.1

instance : IsTrans (String × Value N) fun a b => a.1 ≤ b.1 where
  trans _ _ _ hab hbc := le_trans hab hbc

theorem nodup_of_keys {entries : List (String × Value N)} (h : (entries.map Prod.fst).Nodup) :
    entries.Nodup :=
  List.Nodup.of_map _ h

theorem perm_listed (entries : List (String × Value N)) : (Client.listed entries).Perm entries :=
  List.perm_insertionSort _ _

theorem perm_sortEntries (entries : List (String × Value N)) :
    (Client.sortEntries localeCompare entries).Perm entries :=
  List.perm_insertionSort _ _

theorem assign_eq_self {entries : List (String × Value N)}
    (h : "__proto__" ∉ entries.map Prod.fst) : Client.assign entries = entries := by
  refine List.filter_eq_self.mpr fun e he => ?_
  have hne : e.1 ≠ "__proto__" := fun heq => h (heq ▸ List.mem_map_of_mem he)
  simpa using hne

/-- Without a key `__proto__` the client keeps every entry. -/
theorem perm_canonicalEntries {entries : List (String × Value N)}
    (h : "__proto__" ∉ entries.map Prod.fst) :
    (Client.canonicalEntries localeCompare entries).Perm entries := by
  have hsorted := (perm_sortEntries localeCompare (Client.listed entries)).trans
    (perm_listed entries)
  have hproto : "__proto__" ∉ (Client.sortEntries localeCompare (Client.listed entries)).map
      Prod.fst := fun hmem => h ((hsorted.map Prod.fst).mem_iff.mp hmem)
  unfold Client.canonicalEntries
  rw [assign_eq_self hproto]
  exact (perm_listed _).trans hsorted

/-- What the client writes first precedes what it writes later. -/
theorem pairwise_canonicalEntries [Std.TransCmp localeCompare]
    {entries : List (String × Value N)}
    (hkeys : (entries.map Prod.fst).Nodup) (h : "__proto__" ∉ entries.map Prod.fst) :
    (Client.canonicalEntries localeCompare entries).Pairwise
      fun a b => Precedes localeCompare (entries.map Prod.fst) a.1 b.1 := by
  have hlisted := perm_listed entries
  have hsorted := (perm_sortEntries localeCompare (Client.listed entries)).trans hlisted
  have hnodup := nodup_of_keys hkeys
  have hproto : "__proto__" ∉ (Client.sortEntries localeCompare (Client.listed entries)).map
      Prod.fst := fun hmem => h ((hsorted.map Prod.fst).mem_iff.mp hmem)
  have hdiffer : ((Client.canonicalEntries localeCompare entries).map Prod.fst).Nodup :=
    ((perm_canonicalEntries localeCompare h).map Prod.fst).nodup_iff.mpr hkeys
  rw [List.pairwise_iff_forall_sublist]
  intro a b hsub
  have hne : a.1 ≠ b.1 :=
    List.pairwise_iff_forall_sublist.mp hdiffer (hsub.map Prod.fst)
  unfold Client.canonicalEntries at hsub
  rw [assign_eq_self hproto] at hsub
  obtain ⟨hle, hback⟩ := stable_pair _ (hsorted.nodup_iff.mpr hnodup) hsub
  unfold Precedes
  cases ha : Client.arrayIndex a.1 with
  | some m =>
    cases hb : Client.arrayIndex b.1 with
    | none => trivial
    | some n =>
      have hmn : m ≤ n := by simpa [Client.listsBefore, ha, hb] using hle
      have hneq : m ≠ n := fun e => hne (arrayIndex_injective (e ▸ ha) hb)
      show m < n
      omega
  | none =>
    cases hb : Client.arrayIndex b.1 with
    | some n => simp [Client.listsBefore, ha, hb] at hle
    | none =>
      -- Neither is an index, so the last sort kept the order of the one before.
      have hsub := hback (by simp [Client.listsBefore, ha])
      obtain ⟨hcmp, hback⟩ := stable_pair _ (hlisted.nodup_iff.mpr hnodup) hsub
      show localeCompare a.1 b.1 = .lt ∨ _
      cases hab : localeCompare a.1 b.1 with
      | gt => rw [hab] at hcmp; cases hcmp
      | lt => exact .inl rfl
      | eq =>
        have hba : (localeCompare b.1 a.1).isLE = true := by
          rw [swap_eq localeCompare, hab]
          rfl
        have hsub := (stable_pair _ hnodup (hback hba)).2 (by simp [Client.listsBefore, ha])
        exact .inr ⟨rfl, hsub.map Prod.fst⟩

theorem listed_listed (entries : List (String × Value N)) :
    Client.listed (Client.listed entries) = Client.listed entries :=
  (List.pairwise_insertionSort _ _).insertionSort_eq

theorem canonicalEntries_listed (entries : List (String × Value N)) :
    Client.canonicalEntries localeCompare (Client.listed entries) =
      Client.canonicalEntries localeCompare entries := by
  rw [Client.canonicalEntries, listed_listed, Client.canonicalEntries]

theorem arrangeEntries_listed (f : List (String × Value N) → List (String × Value N))
    (entries : List (String × Value N)) :
    arrangeEntries f (Client.listed entries) = Client.listed (arrangeEntries f entries) := by
  rw [arrangeEntries_eq_map, arrangeEntries_eq_map]
  exact List.map_insertionSort _ _ _ _ fun _ _ _ _ => Iff.rfl

/-- Writing the body and reading it back before changes nothing. -/
theorem canonicalize_normalize (value : Value N) :
    Client.canonicalizeJson localeCompare (Client.normalizeJson value) =
      Client.canonicalizeJson localeCompare value := by
  unfold Client.canonicalizeJson Client.normalizeJson
  induction value using Value.induct with
  | arr items ih =>
    rw [arrange, arrange, arrange, arrangeItems_eq_map, arrangeItems_eq_map, arrangeItems_eq_map,
      List.map_map]
    congr 1
    exact List.map_congr_left ih
  | obj entries ih =>
    rw [arrange, arrange, arrange, arrangeEntries_listed, canonicalEntries_listed]
    simp only [arrangeEntries_eq_map, List.map_map]
    congr 2
    exact List.map_congr_left fun e he => Prod.ext rfl (ih e he)
  | _ => simp only [arrange]

end Order

/-! ## One object -/

section Entries
variable {N : Type} (localeCompare : String → String → Ordering)

/-- The client writes the keys of an object in increasing order. -/
def SameOrder (keys : List String) : Prop :=
  "__proto__" ∉ keys ∧ ∀ a ∈ keys, ∀ b ∈ keys, a < b → Precedes localeCompare keys a b

theorem perm_sortKeys (entries : List (String × Value N)) : (sortKeys entries).Perm entries :=
  List.perm_insertionSort _ _

theorem pairwise_sortKeys {entries : List (String × Value N)}
    (hkeys : (entries.map Prod.fst).Nodup) : (sortKeys entries).Pairwise fun a b => a.1 < b.1 := by
  have hdiffer : ((sortKeys entries).map Prod.fst).Nodup :=
    ((perm_sortKeys entries).map Prod.fst).nodup_iff.mpr hkeys
  rw [List.pairwise_iff_forall_sublist]
  intro a b hsub
  have hle := List.pairwise_iff_forall_sublist.mp (List.pairwise_insertionSort _ _) hsub
  exact lt_of_le_of_ne hle (List.pairwise_iff_forall_sublist.mp hdiffer (hsub.map Prod.fst))

theorem proto_not_mem {entries : List (String × Value N)}
    (h : Client.canonicalEntries localeCompare entries = sortKeys entries) :
    "__proto__" ∉ entries.map Prod.fst := by
  intro hmem
  obtain ⟨e, he, hproto⟩ := List.mem_map.mp hmem
  have hwritten : e ∈ Client.canonicalEntries localeCompare entries := by
    rw [h]
    exact (perm_sortKeys entries).mem_iff.mpr he
  have hkept := (perm_listed _).mem_iff.mp hwritten
  simp [Client.assign, hproto] at hkept

theorem canonicalEntries_eq_sortKeys_iff [Std.TransCmp localeCompare]
    {entries : List (String × Value N)} (hkeys : (entries.map Prod.fst).Nodup) :
    Client.canonicalEntries localeCompare entries = sortKeys entries ↔
      SameOrder localeCompare (entries.map Prod.fst) := by
  constructor
  · intro h
    have hproto := proto_not_mem localeCompare h
    refine ⟨hproto, fun a ha b hb hab => ?_⟩
    have hsorted := pairwise_sortKeys hkeys
    have hwritten := pairwise_canonicalEntries localeCompare hkeys hproto
    rw [h] at hwritten
    obtain ⟨ea, hea, rfl⟩ := List.mem_map.mp ha
    obtain ⟨eb, heb, rfl⟩ := List.mem_map.mp hb
    have hne : ea ≠ eb := fun e => lt_irrefl _ (e ▸ hab)
    rcases pair_sublist_or hne ((perm_sortKeys entries).mem_iff.mpr hea)
      ((perm_sortKeys entries).mem_iff.mpr heb) with hsub | hsub
    · exact List.pairwise_iff_forall_sublist.mp hwritten hsub
    · have hback := List.pairwise_iff_forall_sublist.mp hsorted hsub
      exact absurd hab (lt_asymm hback)
  · rintro ⟨hproto, hall⟩
    have hperm := perm_canonicalEntries localeCompare hproto
    have hwritten := pairwise_canonicalEntries localeCompare hkeys hproto
    have hincreasing : (Client.canonicalEntries localeCompare entries).Pairwise
        fun a b => a.1 < b.1 := by
      have hdiffer : ((Client.canonicalEntries localeCompare entries).map Prod.fst).Nodup :=
        (hperm.map Prod.fst).nodup_iff.mpr hkeys
      rw [List.pairwise_iff_forall_sublist]
      intro a b hsub
      have hne := List.pairwise_iff_forall_sublist.mp hdiffer (hsub.map Prod.fst)
      have hmem : ∀ c ∈ [a, b], c.1 ∈ entries.map Prod.fst :=
        fun c hc => List.mem_map_of_mem (hperm.mem_iff.mp (hsub.subset hc))
      refine (lt_or_gt_of_ne hne).resolve_right fun hlt => ?_
      exact precedes_asymm localeCompare hkeys
        (List.pairwise_iff_forall_sublist.mp hwritten hsub)
        (hall b.1 (hmem b (by simp)) a.1 (hmem a (by simp)) hlt)
    refine (hperm.trans (perm_sortKeys entries).symm).eq_of_pairwise (fun a b _ _ hab hba => ?_)
      hincreasing (pairwise_sortKeys hkeys)
    exact absurd hba (lt_asymm hab)

end Entries

/-! ## Whole bodies -/

section Bodies
variable {N : Type} (localeCompare : String → String → Ordering)

/-- The client writes the keys of every object in increasing order. -/
inductive Sorted : Value N → Prop where
  | null : Sorted .null
  | bool (b : Bool) : Sorted (.bool b)
  | num (n : N) : Sorted (.num n)
  | str (s : String) : Sorted (.str s)
  | arr {items : List (Value N)} : (∀ v ∈ items, Sorted v) → Sorted (.arr items)
  | obj {entries : List (String × Value N)} : SameOrder localeCompare (entries.map Prod.fst) →
      (∀ e ∈ entries, Sorted e.2) → Sorted (.obj entries)

theorem mem_of_mem_canonicalEntries {entries : List (String × Value N)} {e : String × Value N}
    (h : e ∈ Client.canonicalEntries localeCompare entries) : e ∈ entries := by
  have hassigned := List.mem_of_mem_filter ((perm_listed _).mem_iff.mp h)
  exact (perm_listed entries).mem_iff.mp ((perm_sortEntries localeCompare _).mem_iff.mp hassigned)

/-- Where both write the same object, they write the same value under each key. -/
theorem value_eq {entries : List (String × Value N)} (hkeys : (entries.map Prod.fst).Nodup)
    (h : Client.canonicalEntries localeCompare
        (arrangeEntries (Client.canonicalEntries localeCompare) entries) =
      sortKeys (arrangeEntries sortKeys entries)) {e : String × Value N} (he : e ∈ entries) :
    Client.canonicalizeJson localeCompare e.2 = canonicalizeJson e.2 := by
  have hserver : (e.1, canonicalizeJson e.2) ∈ sortKeys (arrangeEntries sortKeys entries) := by
    rw [(perm_sortKeys _).mem_iff, arrangeEntries_eq_map]
    exact List.mem_map_of_mem he
  rw [← h] at hserver
  have hclient := mem_of_mem_canonicalEntries localeCompare hserver
  rw [arrangeEntries_eq_map] at hclient
  obtain ⟨d, hd, hentry⟩ := List.mem_map.mp hclient
  obtain ⟨hkey, hvalue⟩ := Prod.mk.inj hentry
  rw [List.inj_on_of_nodup_map hkeys hd he hkey] at hvalue
  exact hvalue

theorem canonicalize_eq_iff [Std.TransCmp localeCompare] {value : Value N} (hd : Distinct value) :
    Client.canonicalizeJson localeCompare value = canonicalizeJson value ↔
      Sorted localeCompare value := by
  induction value using Value.induct with
  | null => exact ⟨fun _ => .null, fun _ => rfl⟩
  | bool b => exact ⟨fun _ => .bool b, fun _ => rfl⟩
  | num n => exact ⟨fun _ => .num n, fun _ => rfl⟩
  | str s => exact ⟨fun _ => .str s, fun _ => rfl⟩
  | arr items ih =>
    cases hd with
    | arr hd =>
    rw [Client.canonicalizeJson, canonicalizeJson, arrange, arrange, arrangeItems_eq_map,
      arrangeItems_eq_map, Value.arr.injEq, List.map_inj_left]
    constructor
    · exact fun h => .arr fun v hv => (ih v hv (hd v hv)).mp (h v hv)
    · rintro (_ | _ | _ | _ | h | _)
      exact fun v hv => (ih v hv (hd v hv)).mpr (h v hv)
  | obj entries ih =>
    cases hd with
    | obj hkeys hd =>
    rw [Client.canonicalizeJson, canonicalizeJson, arrange, arrange, Value.obj.injEq]
    have hsame : ∀ f, ((arrangeEntries f entries).map Prod.fst).Nodup := by
      intro f
      rw [keys_arrangeEntries]
      exact hkeys
    have hentries : (∀ e ∈ entries, Client.canonicalizeJson localeCompare e.2 =
        canonicalizeJson e.2) → arrangeEntries (Client.canonicalEntries localeCompare) entries =
        arrangeEntries sortKeys entries := by
      intro h
      rw [arrangeEntries_eq_map, arrangeEntries_eq_map]
      exact List.map_congr_left fun e he => Prod.ext rfl (h e he)
    constructor
    · intro h
      have hvalues : ∀ e ∈ entries, _ := fun e he => value_eq localeCompare hkeys h he
      rw [hentries hvalues, canonicalEntries_eq_sortKeys_iff localeCompare (hsame _),
        keys_arrangeEntries] at h
      exact .obj h fun e he => (ih e he (hd e he)).mp (hvalues e he)
    · rintro (_ | _ | _ | _ | _ | ⟨horder, h⟩)
      rw [hentries fun e he => (ih e he (hd e he)).mpr (h e he),
        canonicalEntries_eq_sortKeys_iff localeCompare (hsame _), keys_arrangeEntries]
      exact horder

theorem toBytes_eq (F : NumberText N) (operation : Option SignedOperation) (value : Value N) :
    Client.toBytes F localeCompare operation value =
      ((operation.map SignedOperation.tag).getD []) ++
        utf8 (write F (Client.canonicalizeJson localeCompare value)) := by
  rw [Client.toBytes, Client.canonicalJsonOf, canonicalize_normalize, utf8_append]
  congr 1
  cases operation with
  | none => rfl
  | some operation => cases operation; rfl

theorem signedBytes_eq (F : NumberText N) (operation : Option SignedOperation) (value : Value N) :
    signedBytes F operation value =
      ((operation.map SignedOperation.tag).getD []) ++ utf8 (write F (canonicalizeJson value)) := by
  cases operation with
  | none => rfl
  | some operation => rfl

theorem bytes_eq_iff_sorted [Std.TransCmp localeCompare] (F : NumberText N)
    (operation : Option SignedOperation) (body : Body N) :
    Client.toBytes F localeCompare operation body.value = signedBytes F operation body.value ↔
      Sorted localeCompare body.value := by
  rw [toBytes_eq, signedBytes_eq, List.append_cancel_left_eq,
    ← canonicalize_eq_iff localeCompare body.distinct]
  exact ⟨fun h => write_injective (utf8_injective h), fun h => by rw [h]⟩

end Bodies

/-- The client signs the bytes the server verifies exactly for the bodies whose objects it
writes in increasing order of keys. -/
theorem client_bytes_eq_iff (localeCompare : String → String → Ordering)
    [Std.TransCmp localeCompare] (operation : Option SignedOperation) (body : Body SafeInteger) :
    Client.toBytes integers localeCompare operation body.value =
      signedBytes integers operation body.value ↔ Sorted localeCompare body.value :=
  bytes_eq_iff_sorted localeCompare integers operation body

/-- The body of the request that executes a proposal. -/
def executeBody : Body SafeInteger where
  value := .obj [("proposal_id", .str "0xproposal"), ("account_id", .str "0xabc")]
  distinct := .obj (by decide) (by simp [Distinct.str])

theorem client_bytes_eq_iff_execute :
    Sorted compare executeBody.value ∧
      Client.toBytes integers compare (some .executeDeltaProposal) executeBody.value =
        signedBytes integers (some .executeDeltaProposal) executeBody.value := by
  have hplain : ∀ key ∈ ["proposal_id", "account_id"], Client.arrayIndex key = none := by decide
  have horder : SameOrder compare ["proposal_id", "account_id"] := by
    refine ⟨by decide, fun a ha b hb hab => ?_⟩
    rw [Precedes, hplain a ha, hplain b hb]
    exact .inl (compare_lt_iff_lt.mpr hab)
  have h : Sorted compare executeBody.value := .obj horder (by simp [Sorted.str])
  exact ⟨h, (client_bytes_eq_iff compare _ executeBody).mpr h⟩

/-- Keys that are array indices: JavaScript lists 2 before 10. -/
def indexBody : Body SafeInteger where
  value := .obj [("10", .num ⟨1, by decide⟩), ("2", .num ⟨2, by decide⟩)]
  distinct := .obj (by decide) (by simp [Distinct.num])

theorem index_keys_split_bytes :
    Client.toBytes integers compare (some .executeDeltaProposal) indexBody.value ≠
      signedBytes integers (some .executeDeltaProposal) indexBody.value := by
  intro h
  have hsorted := (bytes_eq_iff_sorted compare integers (some .executeDeltaProposal) indexBody).mp h
  cases hsorted with
  | obj horder _ =>
    have hprecedes := horder.2 "10" (by simp) "2" (by simp) (by decide)
    have hlt : ¬ (10 < 2) := by decide
    exact hlt hprecedes

end Guardian.Signing
