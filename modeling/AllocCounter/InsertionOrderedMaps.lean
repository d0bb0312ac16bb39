import Mathlib.Data.List.Nodup
import Mathlib.Algebra.BigOperators.Group.List.Basic
import Mathlib.Tactic.Common
import Mathlib.Tactic.Ring

/-!
# Maps in insertion order

A `dict`: entries with different keys, in the order in which the keys were first
inserted. An assignment changes the entry of its key in place, or appends one.
Totals are collected by adding each value to the entry of its key.
-/
namespace AllocCounter

variable {K V : Type*} [DecidableEq K]

/-- Change the entry of a key, or append one. -/
def assign (k : K) (v : V) : List (K × V) → List (K × V)
  | [] => [(k, v)]
  | e :: items => if e.1 = k then (k, v) :: items else e :: assign k v items

theorem mem_keys_assign {k : K} {v : V} {items : List (K × V)} {k' : K} :
    k' ∈ (assign k v items).map Prod.fst ↔ k' = k ∨ k' ∈ items.map Prod.fst := by
  induction items with
  | nil => simp [assign]
  | cons e items ih =>
      unfold assign
      split_ifs with h
      · simp [h]
      · rw [List.map_cons, List.mem_cons, ih, List.map_cons, List.mem_cons]
        tauto

theorem nodup_assign (k : K) (v : V) {items : List (K × V)} (h : (items.map Prod.fst).Nodup) :
    ((assign k v items).map Prod.fst).Nodup := by
  induction items with
  | nil => simp [assign]
  | cons e items ih =>
      obtain ⟨he, hrest⟩ := List.nodup_cons.mp h
      unfold assign
      split_ifs with hk
      · rw [← hk]
        exact h
      · refine List.nodup_cons.mpr ⟨fun hmem => ?_, ih hrest⟩
        cases mem_keys_assign.mp hmem with
        | inl heq => exact hk heq
        | inr hmem => exact he hmem

theorem assign_of_notMem {k : K} {v : V} {items : List (K × V)} (h : k ∉ items.map Prod.fst) :
    assign k v items = items ++ [(k, v)] := by
  induction items with
  | nil => rfl
  | cons e items ih =>
      rw [List.map_cons, List.mem_cons, not_or] at h
      rw [assign, if_neg (Ne.symm h.1), ih h.2, List.cons_append]

structure Dict (K V : Type*) where
  items : List (K × V)
  nodup : (items.map Prod.fst).Nodup

namespace Dict

def empty : Dict K V := ⟨[], .nil⟩

def get? (d : Dict K V) (k : K) : Option V := (d.items.find? fun e => e.1 = k).map Prod.snd

def getD (d : Dict K V) (k : K) (default : V) : V := (d.get? k).getD default

def set (d : Dict K V) (k : K) (v : V) : Dict K V := ⟨assign k v d.items, nodup_assign k v d.nodup⟩

def setdefault (d : Dict K V) (k : K) (v : V) : Dict K V :=
  if (d.get? k).isSome then d else d.set k v

theorem get?_set (d : Dict K V) (k : K) (v : V) (k' : K) :
    (d.set k v).get? k' = if k' = k then some v else d.get? k' := by
  obtain ⟨items, hnodup⟩ := d
  simp only [get?, set]
  clear hnodup
  induction items with
  | nil =>
      by_cases h : k' = k
      · simp [assign, h]
      · simp [assign, h, Ne.symm h]
  | cons e items ih =>
      unfold assign
      by_cases he : e.1 = k
      · by_cases h : k' = k
        · simp [he, h]
        · simp [he, h, Ne.symm h]
      · rw [if_neg he, List.find?_cons, List.find?_cons]
        by_cases h : e.1 = k'
        · have hne : k' ≠ k := h ▸ he
          simp [h, hne]
        · simpa [h] using ih

omit [DecidableEq K] in
/-- A key has one value. -/
theorem eq_of_mem {d : Dict K V} {k : K} {v w : V} (hv : (k, v) ∈ d.items)
    (hw : (k, w) ∈ d.items) : v = w := by
  have hinj := List.inj_on_of_nodup_map d.nodup hv hw rfl
  exact (Prod.mk.inj hinj).2

theorem get?_eq_some {d : Dict K V} {k : K} {v : V} : d.get? k = some v ↔ (k, v) ∈ d.items := by
  rw [get?, Option.map_eq_some_iff]
  constructor
  · intro ⟨e, he, hv⟩
    have hk : e.1 = k := by simpa using List.find?_some he
    exact hk ▸ hv ▸ List.mem_of_find?_eq_some he
  · intro hmem
    obtain ⟨e, he⟩ := Option.isSome_iff_exists.mp
      (List.find?_isSome.mpr ⟨(k, v), hmem, by simp⟩ :
        (d.items.find? fun e => e.1 = k).isSome)
    have hk : e.1 = k := by simpa using List.find?_some he
    exact ⟨e, he, eq_of_mem (hk ▸ List.mem_of_find?_eq_some he) hmem⟩

theorem mem_keys {d : Dict K V} {k : K} : k ∈ d.items.map Prod.fst ↔ d.get? k ≠ none := by
  rw [Option.ne_none_iff_exists', List.mem_map]
  constructor
  · rintro ⟨⟨k, v⟩, hmem, rfl⟩
    exact ⟨v, get?_eq_some.mpr hmem⟩
  · intro ⟨v, hv⟩
    exact ⟨(k, v), get?_eq_some.mp hv, rfl⟩

/-- Assigning the entries of one map to the empty map, each changed by a
function, keeps their order. -/
theorem foldl_set {W : Type*} (d : Dict K V) (f : K → V → W) :
    (d.items.foldl (fun n e => n.set e.1 (f e.1 e.2)) (empty : Dict K W)).items =
      d.items.map fun e => (e.1, f e.1 e.2) := by
  suffices h : ∀ (items : List (K × V)) (n : Dict K W), (items.map Prod.fst).Nodup →
      (∀ k ∈ items.map Prod.fst, k ∉ n.items.map Prod.fst) →
      (items.foldl (fun n e => n.set e.1 (f e.1 e.2)) n).items =
        n.items ++ items.map fun e => (e.1, f e.1 e.2) from
    (h d.items empty d.nodup (by simp [empty])).trans (List.nil_append _)
  intro items
  induction items with
  | nil => simp
  | cons e items ih =>
      intro n hnodup hfresh
      obtain ⟨he, hrest⟩ := List.nodup_cons.mp hnodup
      have hset : (n.set e.1 (f e.1 e.2)).items = n.items ++ [(e.1, f e.1 e.2)] :=
        assign_of_notMem (hfresh e.1 List.mem_cons_self)
      rw [List.foldl_cons, ih _ hrest, hset, List.map_cons, List.append_assoc]
      · rfl
      · intro k hk hmem
        rw [hset, List.map_append, List.mem_append] at hmem
        cases hmem with
        | inl hold => exact hfresh k (List.mem_cons_of_mem _ hk) hold
        | inr hnew => exact he (List.mem_singleton.mp hnew ▸ hk)

section Totals

variable [AddCommMonoid V]

/-- Add a value to the entry of a key, which starts at zero. -/
def add (d : Dict K V) (k : K) (v : V) : Dict K V :=
  let d := d.setdefault k 0
  d.set k (d.getD k 0 + v)

theorem get?_add (d : Dict K V) (k : K) (v : V) (k' : K) :
    (d.add k v).get? k' = if k' = k then some (d.getD k 0 + v) else d.get? k' := by
  unfold add setdefault
  cases h : d.get? k with
  | some w => simp [get?_set, getD, h]
  | none =>
      simp only [Option.isSome_none, Bool.false_eq_true, if_false, get?_set, getD, h]
      split_ifs <;> simp

/-- The totals of a list of entries, one for each key that occurs. -/
theorem get?_foldl_add {E : Type*} (l : List E) (key : E → K) (value : E → V) (k : K) :
    (l.foldl (fun d e => d.add (key e) (value e)) (empty : Dict K V)).get? k =
      if k ∈ l.map key then some ((l.filter fun e => key e = k).map value).sum else none := by
  suffices h : ∀ d : Dict K V, (l.foldl (fun d e => d.add (key e) (value e)) d).get? k =
      if k ∈ l.map key then some (d.getD k 0 + ((l.filter fun e => key e = k).map value).sum)
      else d.get? k by
    rw [h]
    simp [getD, get?, empty]
  induction l with
  | nil => simp
  | cons e l ih =>
      intro d
      have hadd := d.get?_add (key e) (value e) k
      rw [List.foldl_cons, ih, List.map_cons, List.filter_cons, getD, hadd]
      by_cases hk : k = key e
      · subst hk
        by_cases hl : key e ∈ l.map key
        · simp [hl, getD, add_assoc]
        · have hnil : l.filter (fun f => key f = key e) = [] := by
            simpa [List.filter_eq_nil_iff] using hl
          simp [hl, hnil]
      · simp [hk, Ne.symm hk, getD]

end Totals

end Dict
end AllocCounter
