import ChunkStream.Table
import Mathlib.Data.List.Induction
import Mathlib.Data.List.Nodup

/-!
# Keys of a table

What the operations of a table do to its keys and to the value under each key.
A table whose keys are distinct is determined by its look-ups, which is why the
state of a provider can be reasoned about through `get?` alone.
-/

namespace ChunkStream.Table

variable {κ α β : Type} [DecidableEq κ]

theorem mem_keys_iff {t : Table κ α} {key : κ} :
    key ∈ keys t ↔ (get? t key).isSome = true := by
  induction t with
  | nil => simp [keys, get?]
  | cons e rest ih =>
    obtain ⟨k, v⟩ := e
    by_cases h : k = key
    · simp [keys, get?, h]
    · simpa [keys, get?, h, Ne.symm h] using ih

theorem get?_eq_none_iff {t : Table κ α} {key : κ} :
    get? t key = none ↔ key ∉ keys t := by
  rw [mem_keys_iff]
  cases get? t key <;> simp

theorem mem_of_get?_eq_some {t : Table κ α} {key : κ} {value : α}
    (h : get? t key = some value) : (key, value) ∈ t := by
  induction t with
  | nil => simp [get?] at h
  | cons e rest ih =>
    obtain ⟨k, v⟩ := e
    by_cases hk : k = key
    · simp only [get?, hk, if_true, Option.some.injEq] at h
      simp [hk, h]
    · exact List.mem_cons_of_mem _ (ih (by simpa [get?, hk] using h))

theorem mem_values_of_get?_eq_some {t : Table κ α} {key : κ} {value : α}
    (h : get? t key = some value) : value ∈ values t :=
  List.mem_map_of_mem (mem_of_get?_eq_some h)

theorem get?_adjust (t : Table κ α) (key : κ) (f : α → α) (k : κ) :
    get? (adjust t key f) k = if k = key then
      (get? t k).map f else get? t k := by
  induction t with
  | nil => simp [adjust, get?]
  | cons e rest ih =>
    obtain ⟨k', v⟩ := e
    by_cases h : k' = key
    · subst h
      by_cases hk : k = k'
      · simp [adjust, get?, hk]
      · simp [adjust, get?, hk, Ne.symm hk]
    · by_cases hk : k' = k
      · subst hk
        simp [adjust, get?, h]
      · simp [adjust, get?, h, hk, ih]

/-- Changing a value to what a function makes of it is changing it by the
function. -/
theorem adjust_const {t : Table κ α} {key : κ} {value : α}
    (h : get? t key = some value) (f : α → α) :
    adjust t key (fun _ => f value) = adjust t key f := by
  induction t with
  | nil => rfl
  | cons e rest ih =>
    obtain ⟨k, v⟩ := e
    by_cases hk : k = key
    · simp only [get?, hk, if_true, Option.some.injEq] at h
      simp [adjust, hk, h]
    · have hrest : get? rest key = some value := by simpa [get?, hk] using h
      simp [adjust, hk, ih hrest]

theorem adjust_self (t : Table κ α) (key : κ) :
    adjust t key (fun v => v) = t := by
  induction t with
  | nil => rfl
  | cons e rest ih => simp [adjust, ih]

/-- Of two changes to one key the later one counts. -/
theorem adjust_adjust_const (t : Table κ α) (key : κ) (a b : α) :
    adjust (adjust t key fun _ => a) key (fun _ => b)
      = adjust t key fun _ => b := by
  induction t with
  | nil => rfl
  | cons e rest ih =>
    obtain ⟨k, v⟩ := e
    by_cases hk : k = key
    · simp [adjust, hk]
    · simp [adjust, hk, ih]

theorem get?_mapValues (t : Table κ α) (f : α → β) (k : κ) :
    get? (mapValues t f) k = (get? t k).map f := by
  induction t with
  | nil => simp [mapValues, get?]
  | cons e rest ih =>
    obtain ⟨k', v⟩ := e
    by_cases hk : k' = k
    · simp [mapValues, get?, hk]
    · simpa [mapValues, get?, hk] using ih

/-! ## What becomes of the keys -/

@[simp]
theorem keys_adjust (t : Table κ α) (key : κ) (f : α → α) :
    keys (adjust t key f) = keys t := by
  induction t with
  | nil => rfl
  | cons e rest ih =>
    obtain ⟨k, v⟩ := e
    by_cases h : k = key
    · simp [adjust, keys, h]
    · simpa [adjust, keys, h] using ih

omit [DecidableEq κ] in
@[simp]
theorem keys_mapValues (t : Table κ α) (f : α → β) :
    keys (mapValues t f) = keys t := by
  simp [keys, mapValues]

omit [DecidableEq κ] in
@[simp]
theorem values_mapValues (t : Table κ α) (f : α → β) :
    values (mapValues t f) = (values t).map f := by
  simp [values, mapValues]

/-- What a change leaves alone in every value, it leaves alone in the table. -/
theorem map_values_adjust {g : α → β} {f : α → α} (hf : ∀ v, g (f v) = g v)
    (t : Table κ α)
    (key : κ) : (values (adjust t key f)).map g = (values t).map g := by
  induction t with
  | nil => rfl
  | cons e rest ih =>
    obtain ⟨k, v⟩ := e
    by_cases h : k = key
    · simp [adjust, values, h, hf]
    · simpa [adjust, values, h] using ih

theorem mem_values_adjust {t : Table κ α} {key : κ} {f : α → α} {v : α}
    (h : v ∈ values (adjust t key f)) :
    v ∈ values t ∨ ∃ w ∈ values t, v = f w := by
  induction t with
  | nil => exact .inl h
  | cons e rest ih =>
    obtain ⟨k, w⟩ := e
    by_cases hk : k = key
    · simp only [adjust, hk, if_true, values, List.map_cons, List.mem_cons]
        at h ⊢
      rcases h with h | h
      · exact .inr ⟨w, .inl rfl, h⟩
      · exact .inl (.inr h)
    · simp only [adjust, hk, if_false, values, List.map_cons, List.mem_cons]
        at h ⊢
      rcases h with h | h
      · exact .inl (.inl h)
      · rcases ih h with h | ⟨w', hw', h⟩
        · exact .inl (.inr h)
        · exact .inr ⟨w', .inr hw', h⟩

theorem mem_values_insert {t : Table κ α} {key : κ} {value v : α}
    (h : v ∈ values (insert t key value)) : v = value ∨ v ∈ values t := by
  induction t with
  | nil => exact .inl (by simpa [insert, values] using h)
  | cons e rest ih =>
    obtain ⟨k, w⟩ := e
    by_cases hk : k = key
    · simp only [insert, hk, if_true, values, List.map_cons, List.mem_cons]
        at h ⊢
      exact h.imp_right .inr
    · simp only [insert, hk, if_false, values, List.map_cons, List.mem_cons]
        at h ⊢
      rcases h with h | h
      · exact .inr (.inl h)
      · exact (ih h).imp_right .inr

theorem keys_insert_of_mem {t : Table κ α} {key : κ} (value : α)
    (h : key ∈ keys t) : keys (insert t key value) = keys t := by
  induction t with
  | nil => simp [keys] at h
  | cons e rest ih =>
    obtain ⟨k, v⟩ := e
    by_cases hk : k = key
    · simp [insert, keys, hk]
    · have hrest : key ∈ keys rest := by simpa [keys, Ne.symm hk] using h
      simpa [insert, keys, hk] using ih hrest

/-- A new key comes last. -/
theorem insert_of_not_mem {t : Table κ α} {key : κ} (value : α)
    (h : key ∉ keys t) : insert t key value = t ++ [(key, value)] := by
  induction t with
  | nil => rfl
  | cons e rest ih =>
    obtain ⟨k, v⟩ := e
    simp only [keys, List.map_cons, List.mem_cons, not_or] at h
    simp [insert, Ne.symm h.1, ih h.2]

theorem nodup_keys_insert {t : Table κ α} (hkeys : (keys t).Nodup) (key : κ)
    (value : α) : (keys (insert t key value)).Nodup := by
  by_cases h : key ∈ keys t
  · rwa [keys_insert_of_mem value h]
  · rw [insert_of_not_mem value h]
    have hdisjoint : ∀ k ∈ keys t, k ≠ key := fun k hk hkey => h (hkey ▸ hk)
    simpa [keys, List.nodup_append] using And.intro hkeys hdisjoint

theorem nodup_keys_erase {t : Table κ α} (hkeys : (keys t).Nodup) (key : κ) :
    (keys (erase t key)).Nodup :=
  hkeys.sublist (List.filter_sublist.map _)

theorem erase_of_not_mem {t : Table κ α} {key : κ} (h : key ∉ keys t) :
    erase t key = t := by
  unfold erase
  rw [List.filter_eq_self]
  intro e he
  simpa using fun heq : e.1 = key =>
    h (heq ▸ List.mem_map_of_mem (f := Prod.fst) he)

theorem get?_eq_some_iff {t : Table κ α} (hkeys : (keys t).Nodup) {key : κ}
    {value : α} : get? t key = some value ↔ (key, value) ∈ t := by
  constructor
  · exact mem_of_get?_eq_some
  · intro hmem
    induction t with
    | nil => cases hmem
    | cons e rest ih =>
      obtain ⟨k, v⟩ := e
      rw [keys, List.map_cons, List.nodup_cons] at hkeys
      rcases List.mem_cons.1 hmem with heq | hrest
      · cases heq
        simp [get?]
      · have hne : k ≠ key := by
          rintro rfl
          exact hkeys.1 (List.mem_map.2 ⟨(k, value), hrest, rfl⟩)
        rw [get?, if_neg hne]
        exact ih hkeys.2 hrest

/-- The order of a table does not matter to its look-ups. -/
theorem get?_of_perm {t u : Table κ α} (h : t.Perm u) (hkeys : (keys u).Nodup)
    (key : κ) : get? t key = get? u key := by
  have hkeys' : (keys t).Nodup := (h.map Prod.fst).nodup_iff.2 hkeys
  ext value
  rw [get?_eq_some_iff hkeys', get?_eq_some_iff hkeys, h.mem_iff]

/-! ## The last value of a key -/

/-- The last of some values whose key is the given one. -/
def latest? (key : α → κ) (xs : List α) (k : κ) : Option α :=
  (xs.filter fun x => key x = k).getLast?

@[simp]
theorem latest?_nil (key : α → κ) (k : κ) : latest? key [] k = none := rfl

theorem latest?_concat (key : α → κ) (xs : List α) (x : α) (k : κ) :
    latest? key (xs ++ [x]) k
      = if key x = k then some x else latest? key xs k := by
  unfold latest?
  by_cases hx : key x = k
  · simp [hx]
  · simp [hx]

/-- A first value is the last one of its key when no other has that key. -/
theorem latest?_cons (key : α → κ) (x : α) (xs : List α) (k : κ) :
    latest? key (x :: xs) k = if k ∈ xs.map key then latest? key xs k
      else if key x = k then some x else none := by
  induction xs using List.reverseRecOn with
  | nil =>
    rw [List.map_nil, if_neg List.not_mem_nil]
    exact latest?_concat key [] x k
  | append_singleton xs y ih =>
    rw [← List.cons_append, latest?_concat, latest?_concat, ih, List.map_append,
      List.map_singleton]
    by_cases hy : key y = k
    · have hmem : k ∈ xs.map key ++ [key y] :=
        List.mem_append_right _ (List.mem_singleton.2 hy.symm)
      rw [if_pos hy, if_pos hy, if_pos hmem]
    · have hmem : k ∈ xs.map key ++ [key y] ↔ k ∈ xs.map key := by
        simp [Ne.symm hy]
      simp only [if_neg hy, hmem]

theorem mem_of_latest?_eq_some {key : α → κ} {xs : List α} {k : κ} {x : α}
    (h : latest? key xs k = some x) : x ∈ xs ∧ key x = k := by
  have hmem := List.mem_of_getLast? h
  rw [List.mem_filter] at hmem
  exact ⟨hmem.1, by simpa using hmem.2⟩

theorem isSome_latest?_iff {key : α → κ} {xs : List α} {k : κ} :
    (latest? key xs k).isSome = true ↔ k ∈ xs.map key := by
  induction xs using List.reverseRecOn with
  | nil => simp
  | append_singleton xs x ih =>
    rw [latest?_concat]
    by_cases hx : key x = k
    · simp [hx]
    · simp [hx, ih, Ne.symm hx]

/-- Values put in one after another: under each key lies what the last value of
the key brought. -/
theorem get?_foldl_insert (key : α → κ) (f : α → β) (xs : List α) (k : κ) :
    get? (xs.foldl (fun t x => insert t (key x) (f x)) []) k
      = (latest? key xs k).map f := by
  induction xs using List.reverseRecOn with
  | nil => rfl
  | append_singleton xs x ih =>
    rw [List.foldl_concat, get?_insert, latest?_concat, ih]
    by_cases hx : key x = k
    · simp [hx]
    · simp [hx]

theorem mem_values_foldl_insert {key : α → κ} {f : α → β} {xs : List α} {v : β}
    (h : v ∈ values (xs.foldl (fun t x => insert t (key x) (f x)) [])) :
    ∃ x ∈ xs, v = f x := by
  induction xs using List.reverseRecOn with
  | nil => cases h
  | append_singleton xs x ih =>
    rw [List.foldl_concat] at h
    rcases mem_values_insert h with rfl | hbefore
    · exact ⟨x, List.mem_append_right xs List.mem_cons_self, rfl⟩
    · obtain ⟨y, hy, rfl⟩ := ih hbefore
      exact ⟨y, List.mem_append_left [x] hy, rfl⟩

theorem nodup_keys_foldl_insert (key : α → κ) (f : α → β) (xs : List α) :
    (keys (xs.foldl (fun t x => insert t (key x) (f x)) [])).Nodup := by
  induction xs using List.reverseRecOn with
  | nil => exact List.nodup_nil
  | append_singleton xs x ih =>
    rw [List.foldl_concat]
    exact nodup_keys_insert ih (key x) (f x)

end ChunkStream.Table
