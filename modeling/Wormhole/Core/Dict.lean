import Mathlib.Data.List.Nodup

/-!
# Insertion-ordered dictionaries

`Dict κ ν` is a finite map that remembers the order in which its keys were
first inserted: `d[k] = v` on a present key keeps the key's place, on an
absent key appends it. No key occurs twice, which the structure carries as a
field, so `get?` after `set` or `del` is read off without further hypotheses.
-/
namespace Wormhole

universe u v

/-- A finite map with its keys in insertion order. -/
structure Dict (κ : Type u) (ν : Type v) where
  entries : List (κ × ν)
  nodup : (entries.map Prod.fst).Nodup

namespace Dict

variable {κ : Type u} {ν : Type v}

theorem ext {d e : Dict κ ν} (h : d.entries = e.entries) : d = e := by
  cases d; cases e; cases h; rfl

variable [DecidableEq κ]

/-! ## On entry lists -/

/-- The value of the entry with key `k`. -/
def lookup (k : κ) : List (κ × ν) → Option ν
  | [] => none
  | (k', v) :: es => if k' = k then some v else lookup k es

/-- Replace the value under `k` in place, or append a new entry. -/
def assign (k : κ) (v : ν) : List (κ × ν) → List (κ × ν)
  | [] => [(k, v)]
  | (k', v') :: es => if k' = k then (k, v) :: es else (k', v') :: assign k v es

/-- Drop the entries with key `k`. -/
def remove (k : κ) (es : List (κ × ν)) : List (κ × ν) := es.filter fun e => e.1 ≠ k

theorem assign_keys (k : κ) (v : ν) (es : List (κ × ν)) :
    (assign k v es).map Prod.fst =
      if k ∈ es.map Prod.fst then es.map Prod.fst else es.map Prod.fst ++ [k] := by
  induction es with
  | nil => simp [assign]
  | cons e es ih =>
    obtain ⟨k', v'⟩ := e
    by_cases h : k' = k
    · simp [assign, h]
    · have h' : ¬ k = k' := fun e => h e.symm
      simp only [assign, h, if_false, List.map_cons, ih, List.mem_cons, h', false_or]
      split <;> simp

/-- A new key is appended. -/
theorem assign_of_notMem {k : κ} {es : List (κ × ν)} (h : k ∉ es.map Prod.fst) (v : ν) :
    assign k v es = es ++ [(k, v)] := by
  induction es with
  | nil => rfl
  | cons e es ih =>
    obtain ⟨k', v'⟩ := e
    simp only [List.map_cons, List.mem_cons, not_or] at h
    rw [assign, if_neg (Ne.symm h.1), ih h.2, List.cons_append]

theorem nodup_assign {k : κ} {v : ν} {es : List (κ × ν)} (h : (es.map Prod.fst).Nodup) :
    ((assign k v es).map Prod.fst).Nodup := by
  rw [assign_keys]
  split
  · exact h
  · rename_i hk
    rw [List.nodup_append]
    refine ⟨h, List.nodup_singleton k, ?_⟩
    intro a ha b hb hab
    rw [List.mem_singleton] at hb
    exact hk (by rw [← hb, ← hab]; exact ha)

theorem lookup_assign (k j : κ) (v : ν) (es : List (κ × ν)) :
    lookup j (assign k v es) = if k = j then some v else lookup j es := by
  induction es with
  | nil => simp [assign, lookup]
  | cons e es ih =>
    obtain ⟨k', v'⟩ := e
    by_cases h : k' = k
    · subst h
      simp only [assign, if_true, lookup]
      split <;> rfl
    · simp only [assign, h, if_false, lookup, ih]
      by_cases hj : k' = j
      · have : ¬ k = j := fun e => h (by rw [hj, e])
        simp [hj, this]
      · simp [hj]

theorem lookup_remove (k j : κ) (es : List (κ × ν)) :
    lookup j (remove k es) = if k = j then none else lookup j es := by
  induction es with
  | nil => simp [remove, lookup]
  | cons e es ih =>
    obtain ⟨k', v'⟩ := e
    rw [remove] at ih ⊢
    by_cases h : k' = k
    · subst h
      simp only [List.filter_cons, ne_eq, not_true_eq_false, decide_false, Bool.false_eq_true,
        if_false, ih, lookup]
      split <;> rfl
    · simp only [List.filter_cons, ne_eq, h, not_false_eq_true, decide_true, if_true, lookup, ih]
      by_cases hj : k' = j
      · have : ¬ k = j := fun e => h (by rw [hj, e])
        simp [hj, this]
      · simp [hj]

theorem lookup_isSome_iff (k : κ) (es : List (κ × ν)) :
    (lookup k es).isSome ↔ k ∈ es.map Prod.fst := by
  induction es with
  | nil => simp [lookup]
  | cons e es ih =>
    obtain ⟨k', v'⟩ := e
    simp only [lookup, List.map_cons, List.mem_cons]
    by_cases h : k' = k
    · simp [h]
    · have h' : ¬ k = k' := fun e => h e.symm
      simp only [h, h', if_false, false_or]
      exact ih

theorem mem_of_lookup {k : κ} {v : ν} {es : List (κ × ν)} (h : lookup k es = some v) :
    (k, v) ∈ es := by
  induction es with
  | nil => simp [lookup] at h
  | cons e es ih =>
    obtain ⟨k', v'⟩ := e
    simp only [lookup] at h
    split at h
    · rename_i hk; cases h; subst hk; exact List.mem_cons_self
    · exact List.mem_cons_of_mem _ (ih h)

theorem lookup_of_mem {k : κ} {v : ν} {es : List (κ × ν)} (hn : (es.map Prod.fst).Nodup)
    (h : (k, v) ∈ es) : lookup k es = some v := by
  induction es with
  | nil => simp at h
  | cons e es ih =>
    obtain ⟨k', v'⟩ := e
    simp only [List.map_cons, List.nodup_cons] at hn
    rcases List.mem_cons.mp h with he | he
    · cases he; simp [lookup]
    · have : k' ≠ k := by
        rintro rfl
        exact hn.1 (List.mem_map_of_mem he)
      simp only [lookup, this, if_false]
      exact ih hn.2 he

/-! ## The operations -/

def empty : Dict κ ν := ⟨[], List.nodup_nil⟩

instance : Inhabited (Dict κ ν) := ⟨empty⟩

/-- `d.get(k)`. -/
def get? (d : Dict κ ν) (k : κ) : Option ν := lookup k d.entries

/-- `k in d`. -/
def contains (d : Dict κ ν) (k : κ) : Bool := (d.get? k).isSome

/-- `d[k] = v`. -/
def set (d : Dict κ ν) (k : κ) (v : ν) : Dict κ ν := ⟨assign k v d.entries, nodup_assign d.nodup⟩

/-- `d.pop(k, None)`, and `del d[k]` on a present key. -/
def del (d : Dict κ ν) (k : κ) : Dict κ ν :=
  ⟨remove k d.entries, d.nodup.sublist (List.filter_sublist.map Prod.fst)⟩

def keys (d : Dict κ ν) : List κ := d.entries.map Prod.fst

def values (d : Dict κ ν) : List ν := d.entries.map Prod.snd

@[simp] theorem get?_empty (k : κ) : (empty : Dict κ ν).get? k = none := rfl

@[simp] theorem contains_eq (d : Dict κ ν) (k : κ) : d.contains k = (d.get? k).isSome := rfl

theorem get?_set (d : Dict κ ν) (k j : κ) (v : ν) :
    (d.set k v).get? j = if k = j then some v else d.get? j := lookup_assign k j v d.entries

@[simp] theorem get?_set_self (d : Dict κ ν) (k : κ) (v : ν) : (d.set k v).get? k = some v := by
  simp [get?_set]

theorem get?_set_ne (d : Dict κ ν) {k j : κ} (v : ν) (h : k ≠ j) :
    (d.set k v).get? j = d.get? j := by
  simp [get?_set, h]

theorem get?_del (d : Dict κ ν) (k j : κ) :
    (d.del k).get? j = if k = j then none else d.get? j := lookup_remove k j d.entries

@[simp] theorem get?_del_self (d : Dict κ ν) (k : κ) : (d.del k).get? k = none := by
  simp [get?_del]

theorem get?_del_ne (d : Dict κ ν) {k j : κ} (h : k ≠ j) : (d.del k).get? j = d.get? j := by
  simp [get?_del, h]

theorem mem_keys {d : Dict κ ν} {k : κ} : k ∈ d.keys ↔ (d.get? k).isSome :=
  (lookup_isSome_iff k d.entries).symm

/-- A new key comes last. -/
theorem keys_set {d : Dict κ ν} {k : κ} (h : d.get? k = none) (v : ν) :
    (d.set k v).keys = d.keys ++ [k] := by
  have hk : k ∉ d.keys := by simp [mem_keys, h]
  show (assign k v d.entries).map Prod.fst = d.keys ++ [k]
  rw [assign_of_notMem hk, List.map_append]
  rfl

theorem keys_del (d : Dict κ ν) (k : κ) : (d.del k).keys = d.keys.erase k := by
  have hnodup : d.keys.Nodup := d.nodup
  rw [hnodup.erase_eq_filter]
  unfold keys del remove
  rw [List.filter_map]
  refine congrArg (List.map Prod.fst) (List.filter_congr fun e _ => ?_)
  rw [Function.comp_apply, bne, Bool.beq_eq_decide_eq, decide_not]

theorem mem_entries {d : Dict κ ν} {k : κ} {v : ν} : (k, v) ∈ d.entries ↔ d.get? k = some v :=
  ⟨lookup_of_mem d.nodup, mem_of_lookup⟩

theorem assign_assign (k : κ) (v w : ν) (es : List (κ × ν)) :
    assign k w (assign k v es) = assign k w es := by
  induction es with
  | nil => simp [assign]
  | cons e es ih =>
    obtain ⟨k', v'⟩ := e
    by_cases h : k' = k
    · simp [assign, h]
    · simp [assign, h, ih]

theorem set_set (d : Dict κ ν) (k : κ) (v w : ν) : (d.set k v).set k w = d.set k w :=
  ext (assign_assign k v w d.entries)

theorem assign_lookup {k : κ} {v : ν} {es : List (κ × ν)} (h : lookup k es = some v) :
    assign k v es = es := by
  induction es with
  | nil => cases h
  | cons e es ih =>
    obtain ⟨k', v'⟩ := e
    by_cases hk : k' = k
    · simp only [lookup, hk, if_true, Option.some.injEq] at h
      simp [assign, hk, h]
    · simp only [lookup, hk, if_false] at h
      simp [assign, hk, ih h]

/-- Setting a key to the value it has changes nothing. -/
theorem set_get? {d : Dict κ ν} {k : κ} {v : ν} (h : d.get? k = some v) : d.set k v = d :=
  ext (assign_lookup h)

/-- Setting a new key changes the dictionary. -/
theorem set_ne_self {d : Dict κ ν} {k : κ} {v : ν} (h : d.get? k = none) : d.set k v ≠ d := by
  intro e
  have := d.get?_set_self k v
  rw [e, h] at this
  cases this

/-! ## Other values under the same keys -/

section Map
universe w
variable {μ : Type w} (f : ν → μ)

omit [DecidableEq κ] in
theorem keys_map (es : List (κ × ν)) :
    (es.map fun e => (e.1, f e.2)).map Prod.fst = es.map Prod.fst := by
  rw [List.map_map]
  rfl

def map (d : Dict κ ν) : Dict κ μ :=
  ⟨d.entries.map fun e => (e.1, f e.2), by rw [keys_map]; exact d.nodup⟩

theorem lookup_map (k : κ) (es : List (κ × ν)) :
    lookup k (es.map fun e => (e.1, f e.2)) = (lookup k es).map f := by
  induction es with
  | nil => rfl
  | cons e es ih =>
    rw [List.map_cons, lookup, lookup, ih]
    split <;> rfl

theorem assign_map (k : κ) (v : ν) (es : List (κ × ν)) :
    assign k (f v) (es.map fun e => (e.1, f e.2)) = (assign k v es).map fun e => (e.1, f e.2) := by
  induction es with
  | nil => rfl
  | cons e es ih =>
    rw [List.map_cons, assign, assign, ih]
    split <;> rfl

theorem get?_map (d : Dict κ ν) (k : κ) : (d.map f).get? k = (d.get? k).map f :=
  lookup_map f k d.entries

theorem map_set (d : Dict κ ν) (k : κ) (v : ν) : (d.set k v).map f = (d.map f).set k (f v) :=
  ext (assign_map f k v d.entries).symm

end Map

/-! ## Several keys at once -/

/-- The keys `ks` taken over from `src`. -/
def overwrite (src d : Dict κ ν) (ks : List κ) : Dict κ ν :=
  ks.foldl (fun d k => match src.get? k with
    | some v => d.set k v
    | none => d) d

def delAll (d : Dict κ ν) (ks : List κ) : Dict κ ν := ks.foldl del d

theorem get?_overwrite (src d : Dict κ ν) (ks : List κ) (j : κ) :
    (overwrite src d ks).get? j =
      if j ∈ ks ∧ (src.get? j).isSome then src.get? j else d.get? j := by
  unfold overwrite
  induction ks generalizing d with
  | nil => simp
  | cons k ks ih =>
    rw [List.foldl_cons, ih]
    by_cases hj : j ∈ ks ∧ (src.get? j).isSome
    · rw [if_pos hj, if_pos ⟨List.mem_cons_of_mem _ hj.1, hj.2⟩]
    · rw [if_neg hj]
      by_cases hk : k = j
      · subst hk
        cases hs : src.get? k with
        | none => simp
        | some v => simp
      · have hmem : (j ∈ k :: ks ∧ (src.get? j).isSome) ↔ (j ∈ ks ∧ (src.get? j).isSome) := by
          rw [List.mem_cons, or_iff_right (Ne.symm hk)]
        rw [if_neg (mt hmem.mp hj)]
        split
        · exact get?_set_ne _ _ hk
        · rfl

theorem get?_delAll (d : Dict κ ν) (ks : List κ) (j : κ) :
    (delAll d ks).get? j = if j ∈ ks then none else d.get? j := by
  unfold delAll
  induction ks generalizing d with
  | nil => simp
  | cons k ks ih =>
    rw [List.foldl_cons, ih, get?_del]
    by_cases hj : j ∈ ks
    · simp [hj]
    · by_cases hk : k = j
      · simp [hk]
      · simp [hj, hk, Ne.symm hk]

end Dict
end Wormhole
