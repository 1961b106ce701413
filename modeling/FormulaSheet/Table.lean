/-!
# Tables

A table files values under text keys, in the order of its keys, each key
once.  Whatever a sheet or an evaluator looks up by name is a table, and an
object value keeps its fields as the entries of one.

The order is part of the type, so a table is determined by its look-ups:

* `Table.get?_insert`, `Table.get?_erase`, `Table.get?_filter`,
  `Table.get?_overlay` — what each operation does to a look-up;
* `Table.ext_get?` — two tables that answer every look-up alike are equal.
-/

namespace FormulaSheet

/-- Values filed under text keys. -/
abbrev Entries (α : Type) := List (String × α)

namespace Entries

variable {α β : Type}

/-- The keys ascend, so none occurs twice. -/
def Ascending (es : Entries α) : Prop := es.Pairwise (fun x y => x.1 < y.1)

instance (es : Entries α) : Decidable es.Ascending :=
  inferInstanceAs (Decidable (es.Pairwise fun x y => x.1 < y.1))

/-- The value filed under `key`. -/
def find? (key : String) : Entries α → Option α
  | [] => none
  | (k, a) :: es => if k = key then some a else find? key es

/-- Files `a` under `key`, in place of what was there. -/
def insert (key : String) (a : α) : Entries α → Entries α
  | [] => [(key, a)]
  | (k, b) :: es =>
    if key < k then (key, a) :: (k, b) :: es
    else if k = key then (key, a) :: es
    else (k, b) :: insert key a es

/-- The entries whose key is not `key`. -/
def erase (key : String) (es : Entries α) : Entries α :=
  es.filter (fun e => e.1 != key)

/-- Files every pair in turn; of two pairs with one key the later stays. -/
def ofList (pairs : List (String × α)) : Entries α :=
  pairs.foldl (fun es p => insert p.1 p.2 es) []

theorem lt_of_not_lt_of_ne {a b : String} (h : ¬ a < b) (ne : b ≠ a) : b < a := by
  exact Std.lt_of_le_of_ne (Std.not_lt.mp h) ne

/-- What is among the entries after an insertion is the new entry or was there before. -/
theorem mem_insert {key : String} {a : α} {es : Entries α} {e : String × α}
    (h : e ∈ insert key a es) : e = (key, a) ∨ e ∈ es := by
  induction es with
  | nil => exact .inl (by simpa [insert] using h)
  | cons x es ih =>
    obtain ⟨k, b⟩ := x
    unfold insert at h
    split at h
    · rcases List.mem_cons.mp h with h | h
      · exact .inl h
      · exact .inr h
    · split at h
      · rcases List.mem_cons.mp h with h | h
        · exact .inl h
        · exact .inr (List.mem_cons_of_mem _ h)
      · rcases List.mem_cons.mp h with h | h
        · exact .inr (by simp [h])
        · rcases ih h with h | h
          · exact .inl h
          · exact .inr (List.mem_cons_of_mem _ h)

theorem ascending_nil : Ascending ([] : Entries α) := List.Pairwise.nil

/-- An insertion keeps the keys in order. -/
theorem ascending_insert {key : String} {a : α} {es : Entries α}
    (h : Ascending es) : Ascending (insert key a es) := by
  induction es with
  | nil => simp [insert, Ascending]
  | cons x es ih =>
    obtain ⟨k, b⟩ := x
    have tail : Ascending es := (List.pairwise_cons.mp h).2
    have head : ∀ y ∈ es, k < y.1 := (List.pairwise_cons.mp h).1
    unfold insert
    split
    · rename_i lt
      refine List.pairwise_cons.mpr ⟨?_, h⟩
      intro y hy
      rcases List.mem_cons.mp hy with rfl | hy
      · exact lt
      · exact String.lt_trans lt (head y hy)
    · split
      · rename_i eq
        subst eq
        exact List.pairwise_cons.mpr ⟨head, tail⟩
      · rename_i notLt ne
        refine List.pairwise_cons.mpr ⟨?_, ih tail⟩
        intro y hy
        rcases mem_insert hy with rfl | hy
        · exact lt_of_not_lt_of_ne notLt ne
        · exact head y hy

/-- So does leaving entries out. -/
theorem ascending_filter {p : String × α → Bool} {es : Entries α}
    (h : Ascending es) : Ascending (es.filter p) :=
  List.Pairwise.filter p h

/-- Entries that are put in one by one are in order. -/
theorem ascending_ofList (pairs : List (String × α)) : Ascending (ofList pairs) := by
  have step : ∀ (ps : List (String × α)) (es : Entries α), Ascending es →
      Ascending (ps.foldl (fun es p => insert p.1 p.2 es) es) := by
    intro ps
    induction ps with
    | nil => intro es h; exact h
    | cons p ps ih => intro es h; exact ih _ (ascending_insert h)
  exact step pairs [] ascending_nil

/-- A key is found as it was inserted last, and other keys as before. -/
theorem find?_insert (key other : String) (a : α) (es : Entries α) :
    find? other (insert key a es) = if key = other then some a else find? other es := by
  induction es with
  | nil => simp [insert, find?]
  | cons x es ih =>
    obtain ⟨k, b⟩ := x
    unfold insert
    split
    · simp [find?]
    · split
      · rename_i eq
        subst eq
        by_cases h : k = other <;> simp [find?, h]
      · rename_i ne
        by_cases hk : k = other
        · subst hk
          simp [find?, Ne.symm ne]
        · simp [find?, hk, ih]

/-- Leaving entries out by their keys hides just these keys. -/
theorem find?_filter_key (p : String → Bool) (key : String) (es : Entries α) :
    find? key (es.filter (fun e => p e.1)) = if p key then find? key es else none := by
  induction es with
  | nil => simp [find?]
  | cons x es ih =>
    obtain ⟨k, b⟩ := x
    by_cases hp : p k
    · simp only [List.filter_cons, hp, if_true, find?]
      by_cases hk : k = key
      · subst hk; simp [hp]
      · simp [hk, ih]
    · by_cases hk : k = key
      · subst hk
        simp [hp, ih]
      · simp [find?, hp, hk, ih]

/-- A key that no entry has is not found. -/
theorem find?_eq_none_of_forall {key : String} {es : Entries α}
    (h : ∀ e ∈ es, e.1 ≠ key) : find? key es = none := by
  induction es with
  | nil => rfl
  | cons x es ih =>
    obtain ⟨k, b⟩ := x
    have ne : k ≠ key := h (k, b) (by simp)
    simp only [find?, ne, if_false]
    exact ih (fun e he => h e (List.mem_cons_of_mem _ he))

/-- What is found is an entry. -/
theorem mem_of_find? {key : String} {a : α} {es : Entries α}
    (h : find? key es = some a) : (key, a) ∈ es := by
  induction es with
  | nil => simp [find?] at h
  | cons x es ih =>
    obtain ⟨k, b⟩ := x
    unfold find? at h
    split at h
    · rename_i eq
      subst eq
      simp at h
      simp [h]
    · exact List.mem_cons_of_mem _ (ih h)

/-- Every entry is found, as long as no key comes twice. -/
theorem find?_of_mem {key : String} {a : α} {es : Entries α} (asc : Ascending es)
    (h : (key, a) ∈ es) : find? key es = some a := by
  induction es with
  | nil => simp at h
  | cons x es ih =>
    obtain ⟨k, b⟩ := x
    have head : ∀ y ∈ es, k < y.1 := (List.pairwise_cons.mp asc).1
    rcases List.mem_cons.mp h with h | h
    · cases h; simp [find?]
    · have ne : k ≠ key := by
        intro eq
        subst eq
        exact String.lt_irrefl _ (head _ h)
      simp only [find?, ne, if_false]
      exact ih (List.pairwise_cons.mp asc).2 h

/-- A key below all others is not found. -/
theorem find?_below {key : String} {k : String} {a : α} {es : Entries α}
    (asc : Ascending ((k, a) :: es)) (lt : key < k) : find? key ((k, a) :: es) = none := by
  apply find?_eq_none_of_forall
  intro e he eq
  subst eq
  rcases List.mem_cons.mp he with rfl | he
  · exact String.lt_irrefl _ lt
  · exact String.lt_irrefl _ (String.lt_trans lt ((List.pairwise_cons.mp asc).1 e he))

/-- The first key does not occur again. -/
theorem find?_tail_eq_none {k : String} {a : α} {es : Entries α} (asc : Ascending ((k, a) :: es)) :
    find? k es = none := by
  apply find?_eq_none_of_forall
  intro e he eq
  have lt := (List.pairwise_cons.mp asc).1 e he
  rw [eq] at lt
  exact String.lt_irrefl _ lt

/-- An entry whose key is above all others is filed last. -/
theorem insert_eq_append {key : String} {a : α} {es : Entries α} (above : ∀ e ∈ es, e.1 < key) :
    insert key a es = es ++ [(key, a)] := by
  induction es with
  | nil => rfl
  | cons x es ih =>
    obtain ⟨k, b⟩ := x
    have lt : k < key := above (k, b) (by simp)
    have notLt : ¬ key < k := fun gt => String.lt_irrefl _ (String.lt_trans lt gt)
    have ne : k ≠ key := by
      rintro rfl
      exact String.lt_irrefl _ lt
    rw [insert, if_neg notLt, if_neg ne, ih fun e he => above e (List.mem_cons_of_mem _ he)]
    rfl

/-- Filing entries that are in order leaves them as they are. -/
theorem foldl_insert_eq_append (es pairs : Entries α) (asc : Ascending (es ++ pairs)) :
    pairs.foldl (fun es p => insert p.1 p.2 es) es = es ++ pairs := by
  induction pairs generalizing es with
  | nil => simp
  | cons p pairs ih =>
    have above : ∀ e ∈ es, e.1 < p.1 :=
      fun e he => (List.pairwise_append.mp asc).2.2 e he p (by simp)
    rw [List.foldl_cons, insert_eq_append above, ih]
    · simp
    · simpa using asc

/-- Entries that are in order already stay as they are. -/
theorem ofList_eq_self {pairs : Entries α} (asc : Ascending pairs) : ofList pairs = pairs :=
  foldl_insert_eq_append [] pairs asc

/-- Entries in order are determined by what is found in them. -/
theorem eq_of_find?_eq {es fs : Entries α} (he : Ascending es) (hf : Ascending fs)
    (h : ∀ key, find? key es = find? key fs) : es = fs := by
  induction es generalizing fs with
  | nil =>
    cases fs with
    | nil => rfl
    | cons y fs =>
      have := h y.1
      simp [find?] at this
  | cons x es ih =>
    obtain ⟨k, a⟩ := x
    cases fs with
    | nil =>
      have := h k
      simp [find?] at this
    | cons y fs =>
      obtain ⟨l, b⟩ := y
      have hkl : k = l := by
        apply Decidable.byContradiction
        intro ne
        by_cases lt : k < l
        · have := h k
          rw [find?_below hf lt] at this
          simp [find?] at this
        · have gt : l < k := lt_of_not_lt_of_ne lt (fun e => ne e.symm)
          have := h l
          rw [find?_below he gt] at this
          simp [find?] at this
      subst hkl
      have hab : a = b := by
        have := h k
        simpa [find?] using this
      subst hab
      congr 1
      apply ih (List.pairwise_cons.mp he).2 (List.pairwise_cons.mp hf).2
      intro key
      by_cases eq : k = key
      · subst eq
        rw [find?_eq_none_of_forall, find?_eq_none_of_forall]
        · intro e hmem eq
          have := (List.pairwise_cons.mp hf).1 e hmem
          rw [eq] at this
          exact String.lt_irrefl _ this
        · intro e hmem eq
          have := (List.pairwise_cons.mp he).1 e hmem
          rw [eq] at this
          exact String.lt_irrefl _ this
      · have := h key
        simpa [find?, eq] using this

/-- The first of two lists that has a key decides. -/
theorem find?_append (key : String) (es fs : Entries α) :
    find? key (es ++ fs) = (find? key es).or (find? key fs) := by
  induction es with
  | nil => rfl
  | cons e es ih =>
      rw [List.cons_append, find?, find?, ih]
      split <;> rfl

/-- What is filed last is found first. -/
theorem find?_ofList (key : String) (pairs : Entries α) :
    find? key (ofList pairs) = find? key pairs.reverse := by
  have go : ∀ es : Entries α, find? key (pairs.foldl (fun es p => insert p.1 p.2 es) es) =
      (find? key pairs.reverse).or (find? key es) := by
    induction pairs with
    | nil => exact fun es => rfl
    | cons p pairs ih =>
        intro es
        rw [List.foldl_cons, ih, find?_insert, List.reverse_cons, find?_append, Option.or_assoc,
          find?, find?]
        split <;> rfl
  exact (go []).trans Option.or_none

/-- Putting entries together adds none. -/
theorem mem_ofList {pairs : Entries α} {e : String × α} (h : e ∈ ofList pairs) : e ∈ pairs :=
  List.foldlRecOn (motive := fun es => e ∈ es → e ∈ pairs) pairs _
    (fun h => absurd h List.not_mem_nil)
    (fun _ earlier _ hp h => (mem_insert h).elim (fun now => now ▸ hp) earlier) h

end Entries

/-- A table: entries in the order of their keys. -/
structure Table (α : Type) where
  entries : Entries α
  ascending : entries.Ascending

namespace Table

variable {α β : Type}

/-- The table without entries. -/
def empty : Table α := ⟨[], Entries.ascending_nil⟩

instance : Inhabited (Table α) := ⟨empty⟩

/-- The value filed under `key`. -/
def get? (t : Table α) (key : String) : Option α := t.entries.find? key

/-- Whether something is filed under `key`. -/
def contains (t : Table α) (key : String) : Bool := (t.get? key).isSome

/-- Files `a` under `key`, in place of what was there. -/
def insert (t : Table α) (key : String) (a : α) : Table α :=
  ⟨t.entries.insert key a, Entries.ascending_insert t.ascending⟩

/-- The entries whose key satisfies `p`. -/
def filter (t : Table α) (p : String → Bool) : Table α :=
  ⟨t.entries.filter (fun e => p e.1), Entries.ascending_filter t.ascending⟩

/-- The table without the entry under `key`. -/
def erase (t : Table α) (key : String) : Table α := t.filter (fun k => k != key)

/-- Files every pair in turn; of two pairs with one key the later stays. -/
def ofList (pairs : List (String × α)) : Table α :=
  ⟨Entries.ofList pairs, Entries.ascending_ofList pairs⟩

/-- Files the entries of `u` over those of `t`. -/
def overlay (t u : Table α) : Table α :=
  u.entries.foldl (fun t e => t.insert e.1 e.2) t

/-- The keys in use, in order. -/
def keys (t : Table α) : List String := t.entries.map (·.1)

/-- The values, in the order of their keys. -/
def values (t : Table α) : List α := t.entries.map (·.2)

/-- How many keys are in use. -/
def size (t : Table α) : Nat := t.entries.length

theorem get?_empty (key : String) : (empty : Table α).get? key = none := rfl

/-- What is inserted is found under its key, and the rest is as it was. -/
theorem get?_insert (t : Table α) (key other : String) (a : α) :
    (t.insert key a).get? other = if key = other then some a else t.get? other :=
  Entries.find?_insert key other a t.entries

/-- What is kept is found, and nothing else. -/
theorem get?_filter (t : Table α) (p : String → Bool) (key : String) :
    (t.filter p).get? key = if p key then t.get? key else none :=
  Entries.find?_filter_key p key t.entries

/-- What is erased is not found, and the rest is as it was. -/
theorem get?_erase (t : Table α) (key other : String) :
    (t.erase key).get? other = if other = key then none else t.get? other := by
  unfold erase
  rw [get?_filter]
  by_cases h : other = key <;> simp [h]

/-- Entries filed over others hide them. -/
theorem get?_overlay (t u : Table α) (key : String) :
    (t.overlay u).get? key = (u.get? key).or (t.get? key) := by
  have go : ∀ (es : Entries α) (t : Table α), es.Ascending →
      (es.foldl (fun t e => t.insert e.1 e.2) t).get? key =
        (es.find? key).or (t.get? key) := by
    intro es
    induction es with
    | nil => exact fun t _ => rfl
    | cons e es ih =>
      intro t asc
      obtain ⟨k, a⟩ := e
      rw [List.foldl_cons, ih _ (List.pairwise_cons.mp asc).2, get?_insert, Entries.find?]
      by_cases hk : k = key
      · subst hk
        rw [Entries.find?_tail_eq_none asc, if_pos rfl, if_pos rfl]
        rfl
      · rw [if_neg hk, if_neg hk]
  exact go u.entries t u.ascending

/-- The entries of a table are what is found in it. -/
theorem mem_entries_iff (t : Table α) (key : String) (a : α) :
    (key, a) ∈ t.entries ↔ t.get? key = some a :=
  ⟨Entries.find?_of_mem t.ascending, Entries.mem_of_find?⟩

/-- A table is determined by its look-ups. -/
theorem ext_get? {t u : Table α} (h : ∀ key, t.get? key = u.get? key) : t = u := by
  have : t.entries = u.entries := Entries.eq_of_find?_eq t.ascending u.ascending h
  cases t
  cases u
  simp_all

end Table

end FormulaSheet
