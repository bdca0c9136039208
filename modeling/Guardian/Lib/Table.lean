import Mathlib.Order.Basic
import Mathlib.Data.List.Sort

/- Keyed database tables. A `Table` holds its rows in ascending key order, each
   key once, so a unique index and `ORDER BY key ASC` are part of the type. The
   statements are the ones SQL has: `insert` is `INSERT ... ON CONFLICT DO
   NOTHING`, `delete` is `DELETE ... WHERE`, `update` is `UPDATE ... SET ...
   WHERE` for assignments that leave the key alone. What a statement does is
   said once, by its membership lemma. -/

/-- Rows in ascending order of distinct keys. -/
structure Table {α κ : Type} [LinearOrder κ] (key : α → κ) where
  rows : List α
  sorted : rows.Pairwise (fun a b => key a < key b)

namespace Table
variable {α κ : Type} [LinearOrder κ] {key : α → κ}

def empty : Table key := ⟨[], .nil⟩

instance : Membership α (Table key) := ⟨fun t a => a ∈ t.rows⟩

theorem mem_rows {t : Table key} {a : α} : a ∈ t.rows ↔ a ∈ t := Iff.rfl

@[simp] theorem not_mem_empty (a : α) : a ∉ (empty : Table key) := List.not_mem_nil

theorem ext_rows {t u : Table key} (h : t.rows = u.rows) : t = u := by
  cases t
  cases u
  cases h
  rfl

/-- The key is unique. -/
theorem eq_of_key {t : Table key} {a b : α} (ha : a ∈ t) (hb : b ∈ t) (h : key a = key b) :
    a = b := by
  have hlt : ∀ {l : List α}, l.Pairwise (fun a b => key a < key b) → a ∈ l → b ∈ l → a = b := by
    intro l hl ha hb
    induction l with
    | nil => cases ha
    | cons x xs ih =>
      obtain ⟨hx, hxs⟩ := List.pairwise_cons.mp hl
      rcases List.mem_cons.mp ha with rfl | ha'
      · rcases List.mem_cons.mp hb with rfl | hb'
        · rfl
        · exact absurd h (hx b hb').ne
      · rcases List.mem_cons.mp hb with rfl | hb'
        · exact absurd h (hx a ha').ne'
        · exact ih hxs ha' hb'
  exact hlt t.sorted ha hb

/-- The row with key `k`. -/
def find? (t : Table key) (k : κ) : Option α := t.rows.find? (fun a => key a = k)

theorem find?_eq_some {t : Table key} {k : κ} {a : α} :
    t.find? k = some a ↔ a ∈ t ∧ key a = k := by
  constructor
  · intro h
    exact ⟨List.mem_of_find?_eq_some h, by simpa using List.find?_some h⟩
  · rintro ⟨ha, hk⟩
    cases hf : t.find? k with
    | none =>
      have := List.find?_eq_none.mp hf a ha
      simp [hk] at this
    | some b =>
      have hb : b ∈ t := List.mem_of_find?_eq_some hf
      have hbk : key b = k := by simpa using List.find?_some hf
      rw [eq_of_key ha hb (hk.trans hbk.symm)]

theorem find?_eq_none {t : Table key} {k : κ} : t.find? k = none ↔ ∀ a ∈ t, key a ≠ k := by
  simp [find?, List.find?_eq_none, mem_rows]

/-- Put `a` before the first row with a larger key. -/
def insertRow (key : α → κ) (a : α) : List α → List α
  | [] => [a]
  | b :: l => if key a < key b then a :: b :: l else b :: insertRow key a l

theorem mem_insertRow {a b : α} {l : List α} : b ∈ insertRow key a l ↔ b = a ∨ b ∈ l := by
  induction l with
  | nil => simp [insertRow]
  | cons c l ih =>
    unfold insertRow
    split
    · simp
    · simp only [List.mem_cons, ih]; tauto

theorem sorted_insertRow {a : α} {l : List α} (hl : l.Pairwise (fun a b => key a < key b))
    (hne : ∀ b ∈ l, key b ≠ key a) : (insertRow key a l).Pairwise (fun a b => key a < key b) := by
  induction l with
  | nil => simp [insertRow]
  | cons c l ih =>
    obtain ⟨hc, hl'⟩ := List.pairwise_cons.mp hl
    unfold insertRow
    split
    · next hlt =>
      refine List.pairwise_cons.mpr ⟨fun b hb => ?_, hl⟩
      rcases List.mem_cons.mp hb with rfl | hb
      · exact hlt
      · exact hlt.trans (hc b hb)
    · next hnlt =>
      refine List.pairwise_cons.mpr ⟨fun b hb => ?_, ih hl' (fun b hb => hne b (.tail _ hb))⟩
      rcases mem_insertRow.mp hb with rfl | hb
      · exact lt_of_le_of_ne (not_lt.mp hnlt) (hne c List.mem_cons_self)
      · exact hc b hb

theorem insertRow_perm (a : α) (l : List α) : (insertRow key a l).Perm (a :: l) := by
  induction l with
  | nil => exact .refl _
  | cons b l ih =>
    unfold insertRow
    split
    · exact .refl _
    · exact (ih.cons b).trans (.swap a b l)

/-- `INSERT ... ON CONFLICT (key) DO NOTHING`. -/
def insert (t : Table key) (a : α) : Table key :=
  if h : ∀ b ∈ t.rows, key b ≠ key a then ⟨insertRow key a t.rows, sorted_insertRow t.sorted h⟩ else t

theorem mem_insert {t : Table key} {a b : α} (h : t.find? (key a) = none) :
    b ∈ t.insert a ↔ b = a ∨ b ∈ t := by
  have h' : ∀ b ∈ t.rows, key b ≠ key a := find?_eq_none.mp h
  unfold insert
  rw [dif_pos h']
  exact mem_insertRow

theorem rows_insert_perm {t : Table key} {a : α} (h : ∀ b ∈ t, key b ≠ key a) :
    (t.insert a).rows.Perm (a :: t.rows) := by
  have h' : ∀ b ∈ t.rows, key b ≠ key a := h
  unfold insert
  rw [dif_pos h']
  exact insertRow_perm a t.rows

/-- The same, whether or not the key is taken. -/
theorem mem_insert_iff {t : Table key} {a b : α} :
    b ∈ t.insert a ↔ b ∈ t ∨ (b = a ∧ ∀ c ∈ t, key c ≠ key a) := by
  by_cases h : ∀ c ∈ t.rows, key c ≠ key a
  · rw [mem_insert (find?_eq_none.mpr h)]
    exact ⟨fun hb => hb.symm.imp_right fun hb => ⟨hb, h⟩,
      fun hb => (hb.imp_right And.left).symm⟩
  · rw [insert, dif_neg h]
    exact ⟨.inl, fun hb => hb.elim id fun ⟨_, hnone⟩ => absurd hnone h⟩

/-- `DELETE ... WHERE p`. -/
def delete (t : Table key) (p : α → Bool) : Table key :=
  ⟨t.rows.filter (fun a => !p a), t.sorted.filter _⟩

@[simp] theorem mem_delete {t : Table key} {p : α → Bool} {a : α} :
    a ∈ t.delete p ↔ a ∈ t ∧ p a = false := by
  simp [delete, ← mem_rows]

theorem delete_eq_self {t : Table key} {p : α → Bool} (h : ∀ a ∈ t, p a = false) :
    t.delete p = t := by
  have hrows : t.rows.filter (fun a => !p a) = t.rows :=
    List.filter_eq_self.mpr fun a ha => by simp [h a ha]
  cases t
  simp only [delete, mk.injEq]
  exact hrows

theorem delete_congr {t : Table key} {p q : α → Bool} (h : ∀ a ∈ t, p a = q a) :
    t.delete p = t.delete q := by
  have hrows : t.rows.filter (fun a => !p a) = t.rows.filter (fun a => !q a) :=
    List.filter_congr fun a ha => by rw [h a ha]
  simp only [delete, hrows]

/-- A row that stays is found as before. -/
theorem find?_delete {t : Table key} {p : α → Bool} {k : κ} (h : ∀ a ∈ t, key a = k → p a = false) :
    (t.delete p).find? k = t.find? k := by
  ext a
  rw [find?_eq_some, find?_eq_some, mem_delete]
  exact ⟨fun ⟨⟨ha, _⟩, hk⟩ => ⟨ha, hk⟩, fun ⟨ha, hk⟩ => ⟨⟨ha, h a ha hk⟩, hk⟩⟩

theorem find?_insert_self {t : Table key} {a : α} (h : t.find? (key a) = none) :
    (t.insert a).find? (key a) = some a :=
  find?_eq_some.mpr ⟨(mem_insert h).mpr (.inl rfl), rfl⟩

theorem find?_insert_ne {t : Table key} {a : α} {k : κ} (h : t.find? (key a) = none)
    (hk : key a ≠ k) : (t.insert a).find? k = t.find? k := by
  ext b
  rw [find?_eq_some, find?_eq_some, mem_insert h]
  constructor
  · rintro ⟨rfl | hb, hbk⟩
    · exact absurd hbk hk
    · exact ⟨hb, hbk⟩
  · exact fun ⟨hb, hbk⟩ => ⟨.inr hb, hbk⟩

/-- `UPDATE ... SET f WHERE p`. -/
def update (t : Table key) (p : α → Bool) (f : α → α) (hf : ∀ a, key (f a) = key a) : Table key :=
  ⟨t.rows.map (fun a => if p a then f a else a), by
    rw [List.pairwise_map]
    refine t.sorted.imp fun {a b} hab => ?_
    split <;> split <;> simpa [hf] using hab⟩

@[simp] theorem mem_update {t : Table key} {p : α → Bool} {f : α → α}
    {hf : ∀ a, key (f a) = key a} {b : α} :
    b ∈ t.update p f hf ↔ (∃ a ∈ t, p a = true ∧ b = f a) ∨ (b ∈ t ∧ p b = false) := by
  rw [← mem_rows]
  simp only [update, List.mem_map]
  constructor
  · rintro ⟨a, ha, rfl⟩
    cases hp : p a with
    | true => exact .inl ⟨a, ha, hp, by simp⟩
    | false => exact .inr ⟨by rw [if_neg (by simp)]; exact ha, by simp [hp]⟩
  · rintro (⟨a, ha, hp, rfl⟩ | ⟨hb, hp⟩)
    · exact ⟨a, ha, by simp [hp]⟩
    · exact ⟨b, hb, by simp [hp]⟩

theorem find?_update {t : Table key} {p : α → Bool} {f : α → α} {hf : ∀ a, key (f a) = key a}
    {k : κ} : (t.update p f hf).find? k = (t.find? k).map (fun a => if p a then f a else a) := by
  ext b
  simp only [find?_eq_some, mem_update, Option.map_eq_some_iff]
  constructor
  · rintro ⟨⟨a, ha, hp, rfl⟩ | ⟨hb, hp⟩, hk⟩
    · exact ⟨a, ⟨ha, (hf a).symm.trans hk⟩, by simp [hp]⟩
    · exact ⟨b, ⟨hb, hk⟩, by simp [hp]⟩
  · rintro ⟨a, ⟨ha, hk⟩, rfl⟩
    cases hp : p a with
    | true => exact ⟨.inl ⟨a, ha, hp, by simp⟩, by simp [hf, hk]⟩
    | false => exact ⟨.inr ⟨by simpa using ha, by simpa using hp⟩, by simpa using hk⟩

/-- `SELECT ... WHERE p ORDER BY key`. -/
def select (t : Table key) (p : α → Bool) : List α := t.rows.filter p

@[simp] theorem mem_select {t : Table key} {p : α → Bool} {a : α} :
    a ∈ t.select p ↔ a ∈ t ∧ p a = true := by
  simp [select, ← mem_rows]

theorem sorted_select (t : Table key) (p : α → Bool) :
    (t.select p).Pairwise (fun a b => key a < key b) := t.sorted.filter _

/-- A list in ascending order is determined by its elements. -/
theorem eq_of_sorted {f : α → κ} {l l' : List α} (hl : l.Pairwise (fun a b => f a < f b))
    (hl' : l'.Pairwise (fun a b => f a < f b)) (h : ∀ a, a ∈ l ↔ a ∈ l') : l = l' := by
  have hnodup : ∀ {m : List α}, m.Pairwise (fun a b => f a < f b) → m.Nodup := fun hm =>
    hm.imp fun hlt heq => hlt.ne (congrArg f heq)
  refine List.Perm.eq_of_pairwise (fun a b _ _ hab hba => absurd (hab.trans hba) (lt_irrefl _))
    hl hl' ?_
  exact (List.perm_ext_iff_of_nodup (hnodup hl) (hnodup hl')).mpr h

/-- Neighbours in a sorted list are related, if two elements with nothing between
them are. -/
theorem isChain_of_sorted {R : α → α → Prop} {l : List α}
    (hl : l.Pairwise (fun a b => key a < key b))
    (h : ∀ a ∈ l, ∀ b ∈ l, key a < key b → (∀ c ∈ l, key c < key b → key c ≤ key a) → R a b) :
    l.IsChain R := by
  induction l with
  | nil => exact .nil
  | cons a l ih =>
    obtain ⟨ha, hl⟩ := List.pairwise_cons.mp hl
    have htail : l.IsChain R := by
      refine ih hl fun b hb c hc hlt hnone => h b (.tail _ hb) c (.tail _ hc) hlt fun d hd hdc => ?_
      rcases List.mem_cons.mp hd with rfl | hd
      · exact (ha b hb).le
      · exact hnone d hd hdc
    cases l with
    | nil => exact .singleton a
    | cons b l =>
      obtain ⟨hb, _⟩ := List.pairwise_cons.mp hl
      refine .cons_cons (h a List.mem_cons_self b (.tail _ List.mem_cons_self)
        (ha b List.mem_cons_self) fun c hc hcb => ?_) htail
      rcases List.mem_cons.mp hc with rfl | hc
      · exact le_rfl
      · rcases List.mem_cons.mp hc with rfl | hc
        · exact absurd hcb (lt_irrefl _)
        · exact absurd hcb (hb c hc).le.not_gt

theorem isChain_select {t : Table key} {p : α → Bool} {R : α → α → Prop}
    (h : ∀ a ∈ t.select p, ∀ b ∈ t.select p, key a < key b →
      (∀ c ∈ t.select p, key c < key b → key c ≤ key a) → R a b) : (t.select p).IsChain R :=
  isChain_of_sorted (sorted_select t p) h

/-! ## Keyset pagination -/

/-- The first `limit` rows past a key (`WHERE key > .. ORDER BY key LIMIT ..`). -/
def page (t : Table key) (after : Option κ) (limit : Nat) : List α :=
  (t.select (fun a => after.all (· < key a))).take limit

theorem mem_of_mem_page {t : Table key} {after : Option κ} {limit : Nat} {a : α}
    (h : a ∈ t.page after limit) : a ∈ t ∧ ∀ k, after = some k → k < key a := by
  have hsel := List.mem_of_mem_take h
  rw [mem_select] at hsel
  refine ⟨hsel.1, ?_⟩
  rintro k rfl
  simpa using hsel.2

theorem sorted_page (t : Table key) (after : Option κ) (limit : Nat) :
    (t.page after limit).Pairwise (fun a b => key a < key b) :=
  (t.sorted_select _).sublist (List.take_sublist _ _)

theorem mem_select_after {t : Table key} {after : Option κ} {a : α} (ha : a ∈ t)
    (hafter : ∀ k, after = some k → k < key a) :
    a ∈ t.select (fun a => after.all (· < key a)) := by
  rw [mem_select]
  refine ⟨ha, ?_⟩
  cases after with
  | none => rfl
  | some k => simpa using hafter k rfl

/-- A page leaves out no row before its last. -/
theorem mem_page_of_le {t : Table key} {after : Option κ} {limit : Nat} {a b : α} (ha : a ∈ t)
    (hafter : ∀ k, after = some k → k < key a) (hb : b ∈ t.page after limit)
    (hle : key a ≤ key b) : a ∈ t.page after limit := by
  have hsel := mem_select_after ha hafter
  have hsorted := t.sorted_select (fun a => after.all (· < key a))
  rw [← List.take_append_drop limit (t.select (fun a => after.all (· < key a)))] at hsel hsorted
  obtain htake | hdrop := List.mem_append.mp hsel
  · exact htake
  · have hlt := (List.pairwise_append.mp hsorted).2.2 b hb a hdrop
    exact absurd hle (not_le.mpr hlt)

/-- An empty page means that no row is left. -/
theorem not_mem_of_page_eq_nil {t : Table key} {after : Option κ} {limit : Nat}
    (hlimit : 0 < limit) (h : t.page after limit = []) {a : α}
    (hafter : ∀ k, after = some k → k < key a) : a ∉ t := by
  intro ha
  have hempty : t.select (fun a => after.all (· < key a)) = [] := by
    cases hsel : t.select (fun a => after.all (· < key a)) with
    | nil => rfl
    | cons b rest =>
      obtain ⟨n, rfl⟩ : ∃ n, limit = n + 1 := ⟨limit - 1, by omega⟩
      rw [page, hsel] at h
      cases h
  have hsel := mem_select_after ha hafter
  rw [hempty] at hsel
  cases hsel

/-! ## Mapping rows -/

/-- Every row rewritten by a function that leaves its key alone. -/
def map (t : Table key) (f : α → α) (hf : ∀ a, key (f a) = key a) : Table key :=
  ⟨t.rows.map f, by
    rw [List.pairwise_map]
    exact t.sorted.imp fun {a b} hab => by rw [hf, hf]; exact hab⟩

section Map
variable {f : α → α} (hf : ∀ a, key (f a) = key a)

theorem find?_map (t : Table key) (k : κ) : (t.map f hf).find? k = (t.find? k).map f := by
  simp only [find?, map, List.find?_map, Function.comp_def, hf]

theorem select_map (t : Table key) {p : α → Bool} (hp : ∀ a, p (f a) = p a) :
    (t.map f hf).select p = (t.select p).map f := by
  simp only [select, map, List.filter_map, Function.comp_def, hp]

theorem delete_map (t : Table key) {p : α → Bool} (hp : ∀ a, p (f a) = p a) :
    (t.map f hf).delete p = (t.delete p).map f hf :=
  ext_rows (by simp only [delete, map, List.filter_map, Function.comp_def, hp])

theorem update_map (t : Table key) {p : α → Bool} {u : α → α} (hu : ∀ a, key (u a) = key a)
    {v : α → α} (hv : ∀ a, key (v a) = key a) (hp : ∀ a, p (f a) = p a)
    (hcomm : ∀ a, p a = true → u (f a) = f (v a)) :
    (t.map f hf).update p u hu = (t.update p v hv).map f hf := by
  apply ext_rows
  simp only [update, map, List.map_map]
  refine List.map_congr_left fun a _ => ?_
  simp only [Function.comp_apply, hp]
  split
  · next ha => exact hcomm a ha
  · rfl

include hf in
theorem insertRow_map (a : α) (l : List α) :
    insertRow key (f a) (l.map f) = (insertRow key a l).map f := by
  induction l with
  | nil => rfl
  | cons b l ih =>
    simp only [List.map_cons, insertRow, hf]
    split
    · rfl
    · rw [List.map_cons, ih]

theorem insert_map (t : Table key) (a : α) :
    (t.map f hf).insert (f a) = (t.insert a).map f hf := by
  have hiff : (∀ b ∈ (t.map f hf).rows, key b ≠ key (f a)) ↔ ∀ b ∈ t.rows, key b ≠ key a := by
    simp only [map, List.mem_map, forall_exists_index, and_imp, forall_apply_eq_imp_iff₂, hf]
  apply ext_rows
  by_cases h : ∀ b ∈ t.rows, key b ≠ key a
  · rw [insert, dif_pos (hiff.mpr h), insert, dif_pos h]
    exact insertRow_map hf a t.rows
  · rw [insert, dif_neg (fun hne => h (hiff.mp hne)), insert, dif_neg h]

end Map

/-! ## Maps and sorts of lists -/

/-- A condition on what a map leaves alone selects the same elements. -/
theorem filter_mapped {α : Type} {f : α → α} {p : α → Bool} (hp : ∀ a, p (f a) = p a)
    (l : List α) : (l.map f).filter p = (l.filter p).map f := by
  rw [List.filter_map]
  exact congrArg (List.map f) (List.filter_congr fun a _ => hp a)

/-- A sort by what a map leaves alone commutes with the map. -/
theorem insertionSort_mapped {α : Type} {r : α → α → Prop} [DecidableRel r] {f : α → α}
    (hr : ∀ a b, r (f a) (f b) ↔ r a b) (l : List α) :
    (l.map f).insertionSort r = (l.insertionSort r).map f :=
  (List.map_insertionSort (r := r) (s := r) f l fun a _ b _ => (hr a b).symm).symm

end Table
