import Mathlib

/-!
# Maps with an order of insertion

The entries of a `Map` of JavaScript are in the order in which their keys were first set: setting a
key again leaves it where it is. Loops over the entries see that order; `get` does not.
-/

namespace Haybarn.Lib

abbrev JsMap (K V : Type) := List (K × V)

namespace JsMap

variable {K V : Type} [DecidableEq K] {m : JsMap K V} {k k' : K} {v : V}

def get (m : JsMap K V) (k : K) : Option V := m.lookup k

def set : JsMap K V → K → V → JsMap K V
  | [], k, v => [(k, v)]
  | e :: m, k, v => if e.1 = k then (k, v) :: m else e :: set m k v

def delete (m : JsMap K V) (k : K) : JsMap K V := m.filter fun e => decide (e.1 ≠ k)

/-- The key of the first entry with such a value. -/
def findKey (m : JsMap K V) (p : V → Bool) : Option K := (m.find? fun e => p e.2).map (·.1)

theorem get_nil : get ([] : JsMap K V) k = none := rfl

theorem get_cons (e : K × V) : get (e :: m) k = if k = e.1 then some e.2 else get m k := by
  unfold get
  rw [List.lookup_cons]
  by_cases hk : k = e.1
  · rw [if_pos hk, beq_iff_eq.mpr hk]
  · rw [if_neg hk, beq_eq_false_iff_ne.mpr hk]

theorem get_set : (set m k v).get k' = if k' = k then some v else m.get k' := by
  induction m with
  | nil => exact get_cons (k, v)
  | cons e m ih =>
    unfold set
    by_cases he : e.1 = k
    · rw [if_pos he, get_cons, get_cons, he]
      split <;> rfl
    · rw [if_neg he, get_cons, get_cons, ih]
      by_cases hk : k' = k
      · have hne : ¬ k' = e.1 := fun h => he (h.symm.trans hk)
        rw [if_neg hne, if_pos hk, if_pos hk]
      · rw [if_neg hk, if_neg hk]

theorem get_delete : (delete m k).get k' = if k' = k then none else m.get k' := by
  induction m with
  | nil => exact (ite_self _).symm
  | cons e m ih =>
    unfold delete at ih ⊢
    by_cases he : e.1 = k
    · rw [List.filter_cons_of_neg (by simp [he]), ih, get_cons]
      by_cases hk : k' = k
      · rw [if_pos hk, if_pos hk]
      · rw [if_neg hk, if_neg hk, if_neg fun h => hk (h.trans he)]
    · rw [List.filter_cons_of_pos (by simp [he]), get_cons, get_cons, ih]
      by_cases hk : k' = k
      · rw [if_pos hk, if_pos hk, if_neg fun h => he (h.symm.trans hk)]
      · rw [if_neg hk, if_neg hk]

/-- A key that is not in the map goes to its end. -/
theorem set_of_get_eq_none (h : m.get k = none) : m.set k v = m ++ [(k, v)] := by
  induction m with
  | nil => rfl
  | cons e m ih =>
    rw [get_cons] at h
    split at h
    next => cases h
    next hne => rw [set, if_neg (Ne.symm hne), ih h, List.cons_append]

theorem mem_of_get (h : m.get k = some v) : (k, v) ∈ m := by
  induction m with
  | nil => cases h
  | cons e m ih =>
    rw [get_cons] at h
    split at h
    next heq =>
      obtain rfl := Option.some.inj h
      exact heq ▸ List.mem_cons_self ..
    next => exact List.mem_cons_of_mem _ (ih h)

theorem get_eq_none_iff : m.get k = none ↔ k ∉ m.map Prod.fst := by
  induction m with
  | nil => simp [get_nil]
  | cons e m ih =>
    rw [get_cons, List.map_cons, List.mem_cons, not_or, ← ih]
    by_cases h : k = e.1 <;> simp [h]

/-- The entry of a key, in front of the others. -/
theorem perm_cons_delete (hn : (m.map Prod.fst).Nodup) (h : m.get k = some v) :
    m.Perm ((k, v) :: m.delete k) := by
  induction m with
  | nil => cases h
  | cons e m ih =>
    obtain ⟨hne, hn⟩ := List.nodup_cons.mp hn
    rw [get_cons] at h
    split at h
    next heq =>
      obtain rfl := Option.some.inj h
      have hrest : delete m k = m := by
        refine List.filter_eq_self.mpr fun f hf => ?_
        refine decide_eq_true fun hk => hne ?_
        rw [← heq, ← hk]
        exact List.mem_map_of_mem hf
      have hfirst : delete (e :: m) k = delete m k :=
        List.filter_cons_of_neg (by simp [heq])
      rw [hfirst, hrest, heq]
    next hk =>
      have hfirst : delete (e :: m) k = e :: delete m k :=
        List.filter_cons_of_pos (by simpa using Ne.symm hk)
      rw [hfirst]
      exact ((ih hn h).cons e).trans (.swap ..)

theorem delete_sublist : List.Sublist (m.delete k) m := List.filter_sublist

end JsMap

end Haybarn.Lib
