import Mathlib.Data.Finmap

/-!
# Unordered maps

An unordered map is a finite map, so the order of its entries is not part of
it. A loop over the map visits the keys in some order that enumerates them. The
entries with a property are counted, and the counts after an insertion, an
erasure and a replacement are related to the count before.
-/
namespace AllocCounter

abbrev UnorderedMap (K V : Type*) := Finmap fun _ : K => V

namespace UnorderedMap

variable {K V : Type*} [DecidableEq K]

/-- Insertion that leaves an entry already present alone. -/
def insertNew (k : K) (v : V) (m : UnorderedMap K V) : UnorderedMap K V :=
  if k ∈ m then m else m.insert k v

/-- The number of entries whose value has a property. -/
def count (p : V → Prop) [DecidablePred p] (m : UnorderedMap K V) : ℕ :=
  m.entries.countP fun e => p e.2

def size (m : UnorderedMap K V) : ℕ := m.entries.card

/-- The values, each as often as it is found. -/
def values (m : UnorderedMap K V) : Multiset V := m.entries.map Sigma.snd

/-- The order lists every key once. -/
structure Enumerates (order : List K) (m : UnorderedMap K V) : Prop where
  nodup : order.Nodup
  mem_iff : ∀ k, k ∈ order ↔ k ∈ m

omit [DecidableEq K] in
theorem enumerates_iff {order : List K} {m : UnorderedMap K V} :
    Enumerates order m ↔ m.keys.val = order := by
  constructor
  · intro h
    refine (Multiset.Nodup.ext m.keys.nodup (Multiset.coe_nodup.mpr h.nodup)).mpr fun k => ?_
    rw [Finset.mem_val, Finmap.mem_keys, Multiset.mem_coe, h.mem_iff]
  · intro h
    refine ⟨Multiset.coe_nodup.mp (h ▸ m.keys.nodup), fun k => ?_⟩
    rw [← Finmap.mem_keys, ← Finset.mem_val, h, Multiset.mem_coe]

instance (order : List K) (m : UnorderedMap K V) : Decidable (Enumerates order m) :=
  decidable_of_iff _ enumerates_iff.symm

/-- What a visit of every key finds, in the order of the visits. -/
theorem Enumerates.filterMap_lookup {W : Type*} {order : List K} {m : UnorderedMap K V}
    (h : Enumerates order m) (f : V → Option W) :
    ((order.filterMap fun k => (m.lookup k).bind f : List W) : Multiset W) =
      m.values.filterMap f := by
  have hkeys : (order : Multiset K) = m.entries.map Sigma.fst := (enumerates_iff.mp h).symm
  rw [← Multiset.filterMap_coe, hkeys, Multiset.filterMap_map, values, Multiset.filterMap_map]
  have hfound : ∀ e ∈ m.entries, m.lookup e.1 = some e.2 := fun e he =>
    Finmap.lookup_eq_some_iff.mpr he
  generalize m.entries = entries at hfound ⊢
  induction entries using Quot.inductionOn with
  | h entries =>
      refine congrArg Multiset.ofList (List.filterMap_congr fun e he => ?_)
      rw [Function.comp_apply, Function.comp_apply, hfound e he, Option.bind_some]

theorem lookup_insert_eq (k k' : K) (v : V) (m : UnorderedMap K V) :
    (m.insert k v).lookup k' = if k' = k then some v else m.lookup k' := by
  split_ifs with h
  · rw [h, Finmap.lookup_insert]
  · exact Finmap.lookup_insert_of_ne _ h

theorem lookup_erase_eq (k k' : K) (m : UnorderedMap K V) :
    (m.erase k).lookup k' = if k' = k then none else m.lookup k' := by
  split_ifs with h
  · rw [h, Finmap.lookup_erase]
  · exact Finmap.lookup_erase_ne h

theorem insertNew_of_notMem {k : K} {v : V} {m : UnorderedMap K V} (h : m.lookup k = none) :
    insertNew k v m = m.insert k v :=
  if_neg (Finmap.lookup_eq_none.mp h)

theorem lookup_insertNew_of_ne {k k' : K} (v : V) (m : UnorderedMap K V) (h : k' ≠ k) :
    (insertNew k v m).lookup k' = m.lookup k' := by
  unfold insertNew
  split_ifs
  · rfl
  · exact Finmap.lookup_insert_of_ne _ h

theorem insert_erase_of_lookup {k : K} {v : V} {m : UnorderedMap K V} (h : m.lookup k = some v) :
    (m.erase k).insert k v = m := by
  apply Finmap.ext_lookup
  intro k'
  rw [lookup_insert_eq, lookup_erase_eq]
  split_ifs with hk
  · rw [hk, h]
  · rfl

theorem erase_insert_same (k : K) (v : V) (m : UnorderedMap K V) :
    (m.insert k v).erase k = m.erase k := by
  apply Finmap.ext_lookup
  intro k'
  rw [lookup_erase_eq, lookup_erase_eq, lookup_insert_eq]
  split_ifs <;> rfl

section Counting

variable (p : V → Prop) [DecidablePred p]

theorem count_insert {k : K} {v : V} {m : UnorderedMap K V} (h : m.lookup k = none) :
    count p (m.insert k v) = count p m + if p v then 1 else 0 := by
  rw [count, Finmap.entries_insert_of_notMem (Finmap.lookup_eq_none.mp h), Multiset.countP_cons]
  rfl

theorem count_erase {k : K} {v : V} {m : UnorderedMap K V} (h : m.lookup k = some v) :
    count p m = count p (m.erase k) + if p v then 1 else 0 := by
  conv_lhs => rw [← insert_erase_of_lookup h]
  exact count_insert p (Finmap.lookup_erase k m)

/-- Replacing the value under a key. -/
theorem count_replace {k : K} {v : V} (v' : V) {m : UnorderedMap K V} (h : m.lookup k = some v) :
    count p (m.insert k v') + (if p v then 1 else 0) = count p m + if p v' then 1 else 0 := by
  have hnew := count_erase p (Finmap.lookup_insert (b := v') m (a := k))
  rw [erase_insert_same] at hnew
  have hold := count_erase p h
  omega

omit [DecidableEq K] in
theorem count_eq_countP_values (m : UnorderedMap K V) : count p m = m.values.countP p := by
  rw [values, Multiset.countP_map, ← Multiset.countP_eq_card_filter]
  rfl

omit [DecidableEq K] in
theorem size_eq_card_values (m : UnorderedMap K V) : size m = m.values.card :=
  (Multiset.card_map _ _).symm

omit [DecidableEq K] in
theorem size_eq_count (m : UnorderedMap K V) : size m = count (fun _ => True) m := by
  simp [size, count]

end Counting

theorem size_insert {k : K} {v : V} {m : UnorderedMap K V} (h : m.lookup k = none) :
    size (m.insert k v) = size m + 1 := by
  simpa only [size_eq_count, if_true] using count_insert (fun _ => True) h

theorem size_erase {k : K} {v : V} {m : UnorderedMap K V} (h : m.lookup k = some v) :
    size m = size (m.erase k) + 1 := by
  simpa only [size_eq_count, if_true] using count_erase (fun _ => True) h

theorem size_replace {k : K} {v v' : V} {m : UnorderedMap K V} (h : m.lookup k = some v) :
    size (m.insert k v') = size m := by
  simpa only [size_eq_count, if_true, Nat.add_right_cancel_iff] using
    count_replace (fun _ => True) v' h

end UnorderedMap

/-- A loop over keys in which the visit of a key changes only what is seen at
that key. -/
theorem foldl_visit {σ K ω : Type*} [DecidableEq K] (visit : σ → K → σ) (see : σ → K → ω)
    (change : K → ω → ω) (hself : ∀ s k, see (visit s k) k = change k (see s k))
    (hother : ∀ s k k', k' ≠ k → see (visit s k) k' = see s k') (order : List K)
    (hnodup : order.Nodup) (s : σ) (k : K) :
    see (order.foldl visit s) k = if k ∈ order then change k (see s k) else see s k := by
  induction order generalizing s with
  | nil => simp
  | cons a rest ih =>
      have ⟨ha, hrest⟩ := List.nodup_cons.mp hnodup
      rw [List.foldl_cons, ih hrest]
      by_cases hk : k = a
      · subst hk
        simp [ha, hself]
      · simp [hk, hother s a k hk]

end AllocCounter
