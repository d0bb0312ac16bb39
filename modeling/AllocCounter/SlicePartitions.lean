import AllocCounter.SortedMap
import AllocCounter.Extents

/-!
# Ordered maps of slices

A map from starts to slices is a partition when each key is the start of its
slice and the slices are tiled. What a slice covers is given by a parameter
`cover`. Splitting one slice, adding a slice in a gap and removing a range of keys
keep the partition, and their effect on the list of extents is the operation of
the same name on extents.
-/
namespace AllocCounter.SortedMap

variable {K V A : Type*} [LinearOrder K] (cover : V → Extent K A)

def extents (m : SortedMap K V) : List (Extent K A) := m.entries.map fun e => cover e.2

structure Partition (m : SortedMap K V) : Prop where
  keyed : ∀ e ∈ m.entries, e.1 = (cover e.2).start
  tiled : Extent.Tiled (m.extents cover)

variable {cover} {m : SortedMap K V}

theorem partition_empty : Partition cover (empty : SortedMap K V) :=
  ⟨by simp, .nil⟩

theorem extents_append {l r : List (K × V)} (h : m.entries = l ++ r) :
    m.extents cover = (l.map fun e => cover e.2) ++ r.map fun e => cover e.2 := by
  rw [extents, h, List.map_append]

namespace Partition

/-- The slices around one slice end before it and start after it. -/
theorem around (hm : Partition cover m) {l r : List (K × V)} {key : K} {c : V}
    (h : m.entries = l ++ (key, c) :: r) :
    key = (cover c).start ∧ (cover c).start < (cover c).stop ∧
      (∀ e ∈ l, (cover e.2).stop ≤ (cover c).start) ∧ ∀ e ∈ r, (cover c).stop ≤ (cover e.2).start := by
  have ht := hm.tiled
  rw [extents_append h, List.map_cons, Extent.tiled_append, Extent.tiled_cons] at ht
  refine ⟨hm.keyed (key, c) (by simp [h]), ht.2.1.1, ?_, ?_⟩
  · intro e he
    exact ht.2.2 _ (List.mem_map_of_mem (f := fun e => cover e.2) he) _ List.mem_cons_self
  · intro e he
    exact ht.2.1.2.1 _ (List.mem_map_of_mem (f := fun e => cover e.2) he)

/-- A point that no slice has strictly inside splits nothing. -/
theorem splitAt_outside {p : K}
    (h : ∀ e ∈ m.entries, p ≤ (cover e.2).start ∨ (cover e.2).stop ≤ p) :
    (m.extents cover).flatMap (Extent.splitAt p) = m.extents cover := by
  refine Extent.flatMap_splitAt_of_le ?_
  intro f hf
  obtain ⟨e, he, rfl⟩ := List.mem_map.mp hf
  exact h e he

/-- If the last slice starting at or before a point does not have it strictly
inside, no slice does. -/
theorem outside_of_last (hm : Partition cover m) {p : K} {l r : List (K × V)} {key : K} {c : V}
    (h : m.entries = l ++ (key, c) :: r) (hc : p ≤ (cover c).start ∨ (cover c).stop ≤ p)
    (hkey : key ≤ p) (hr : ∀ e ∈ r, p ≤ e.1) :
    ∀ e ∈ m.entries, p ≤ (cover e.2).start ∨ (cover e.2).stop ≤ p := by
  obtain ⟨hk, -, hl, -⟩ := hm.around h
  intro e he
  have hkeyed := hm.keyed e he
  rw [h] at he
  rcases List.mem_append.mp he with he | he
  · exact .inr ((hl e he).trans (hk ▸ hkey))
  · rcases List.mem_cons.mp he with rfl | he
    · exact hc
    · exact .inl (hkeyed ▸ hr e he)

/-- Replacing a slice that has the point strictly inside by its two halves. -/
theorem split (hm : Partition cover m) {p : K} {l r : List (K × V)} {key : K} {c : V} (left right : V)
    (h : m.entries = l ++ (key, c) :: r) (hlo : (cover c).start < p) (hhi : p < (cover c).stop)
    (hleft : cover left = { cover c with stop := p }) (hright : cover right = { cover c with start := p })
    {n : SortedMap K V} (hn : n.entries = l ++ (key, left) :: (p, right) :: r) :
    Partition cover n ∧ n.extents cover = (m.extents cover).flatMap (Extent.splitAt p) := by
  obtain ⟨hk, -, hl, hr⟩ := hm.around h
  have hext : n.extents cover = (m.extents cover).flatMap (Extent.splitAt p) := by
    rw [extents_append h, List.map_cons, Extent.flatMap_splitAt_append_cons, extents_append hn]
    · simp [Extent.splitAt, hlo, hhi, hleft, hright]
    · intro f hf
      obtain ⟨e, he, rfl⟩ := List.mem_map.mp hf
      exact (hl e he).trans hlo.le
    · intro f hf
      obtain ⟨e, he, rfl⟩ := List.mem_map.mp hf
      exact hhi.le.trans (hr e he)
  refine ⟨⟨?_, hext ▸ hm.tiled.splitAt p⟩, hext⟩
  intro e he
  rw [hn] at he
  simp only [List.mem_append, List.mem_cons] at he
  rcases he with he | rfl | rfl | he
  · exact hm.keyed e (by simp [h, he])
  · simpa only [hleft] using hk
  · simp only [hright]
  · exact hm.keyed e (by simp [h, he])

theorem extents_filter (hm : Partition cover m) (q : K → Bool) :
    ((m.entries.filter fun e => q e.1).map fun e => cover e.2) =
      (m.extents cover).filter fun f => q f.start := by
  rw [extents, List.filter_map]
  refine congrArg _ (List.filter_congr ?_)
  intro e he
  exact congrArg q (hm.keyed e he)

theorem filter (hm : Partition cover m) (q : K × V → Bool) :
    Partition cover ⟨m.entries.filter q, m.filter_sorted q⟩ := by
  refine ⟨fun e he => hm.keyed e (List.mem_of_mem_filter he), ?_⟩
  exact hm.tiled.sublist (List.filter_sublist.map _)

/-- Two splits at the ends of a range and the removal of the keys in it. -/
theorem cut (hm : Partition cover m) {lo hi : K} (h : lo ≤ hi) {m₁ m₂ : SortedMap K V}
    (h₁ : m₁.extents cover = (m.extents cover).flatMap (Extent.splitAt lo))
    (h₂ : m₂.extents cover = (m₁.extents cover).flatMap (Extent.splitAt hi))
    (hp : Partition cover m₂) :
    extents cover ⟨m₂.entries.filter fun e => ¬ (lo ≤ e.1 ∧ e.1 < hi), m₂.filter_sorted _⟩ =
        Extent.cut lo hi (m.extents cover) ∧
      ((m₂.entries.filter fun e => lo ≤ e.1 ∧ e.1 < hi).map fun e => cover e.2) =
        Extent.cutOff lo hi (m.extents cover) := by
  obtain ⟨hout, hin⟩ := hm.tiled.filter_splitAt_splitAt h
  constructor
  · rw [extents, hp.extents_filter fun k => decide (¬ (lo ≤ k ∧ k < hi)), h₂, h₁]
    exact hout
  · rw [hp.extents_filter fun k => decide (lo ≤ k ∧ k < hi), h₂, h₁]
    exact hin

/-- The slices before a gap of the partition and those behind it. -/
theorem exists_gap (hm : Partition cover m) {key : K} {v : V} (hkey : key = (cover v).start)
    (hv : (cover v).start < (cover v).stop) (hgap : ∀ e ∈ m.entries,
      (cover e.2).stop ≤ (cover v).start ∨ (cover v).stop ≤ (cover e.2).start) :
    ∃ l r, m.entries = l ++ r ∧ (∀ e ∈ l, e.1 < key ∧ (cover e.2).stop ≤ (cover v).start) ∧
      ∀ e ∈ r, key < e.1 ∧ (cover v).stop ≤ (cover e.2).start := by
  obtain ⟨l, r, hlr, hl, hr⟩ := m.exists_cut (· < key) fun a b hab hb => hab.trans hb
  refine ⟨l, r, hlr, fun e he => ?_, fun e he => ?_⟩
  · have hmem : e ∈ m.entries := hlr ▸ List.mem_append_left r he
    have hbefore := hl e he
    refine ⟨hbefore, (hgap e hmem).resolve_right fun hge => ?_⟩
    rw [hm.keyed e hmem, hkey] at hbefore
    order
  · have hmem : e ∈ m.entries := hlr ▸ List.mem_append_right l he
    have hbehind := hr e he
    rw [hm.keyed e hmem, hkey] at hbehind ⊢
    have hpos := hm.tiled.1 _ (List.mem_map_of_mem (f := fun e => cover e.2) hmem)
    have hstop : (cover v).stop ≤ (cover e.2).start := by
      refine (hgap e hmem).resolve_left fun hge => ?_
      order
    exact ⟨hv.trans_le hstop, hstop⟩

/-- Adding a slice in a gap of the partition. -/
theorem insert (hm : Partition cover m) {key : K} {v : V} (hkey : key = (cover v).start)
    (hv : (cover v).start < (cover v).stop)
    (hgap : ∀ e ∈ m.entries, (cover e.2).stop ≤ (cover v).start ∨ (cover v).stop ≤ (cover e.2).start)
    (merge : V → V → V) {n : SortedMap K V} (hn : n.entries = place merge key v m.entries) :
    Partition cover n ∧ n.extents cover = Extent.insert (cover v) (m.extents cover) ∧
      ∀ x, Extent.ownerOf (n.extents cover) x =
        if (cover v).Covers x then some (cover v).owner else Extent.ownerOf (m.extents cover) x := by
  obtain ⟨l, r, hlr, hl, hr⟩ := hm.exists_gap hkey hv hgap
  have hlv : ∀ f ∈ l.map fun e => cover e.2, f.stop ≤ (cover v).start :=
    List.forall_mem_map.mpr fun e he => (hl e he).2
  have hrv : ∀ f ∈ r.map fun e => cover e.2, (cover v).stop ≤ f.start :=
    List.forall_mem_map.mpr fun e he => (hr e he).2
  rw [hlr, place_append merge key v (fun e he => (hl e he).1) fun e he => (hr e he).1] at hn
  have ht := hm.tiled
  have hnext : n.extents cover = (l.map fun e => cover e.2) ++ cover v :: r.map fun e => cover e.2 := by
    rw [extents_append hn, List.map_cons]
  rw [extents_append hlr] at ht ⊢
  rw [hnext]
  refine ⟨⟨?_, hnext ▸ ht.append_cons hlv hrv hv⟩, (Extent.insert_append hv hlv hrv ht).symm,
    Extent.ownerOf_append_cons hlv⟩
  intro e he
  rw [hn] at he
  rcases List.mem_append.mp he with he | he
  · exact hm.keyed e (hlr ▸ List.mem_append_left r he)
  · rcases List.mem_cons.mp he with rfl | he
    · exact hkey
    · exact hm.keyed e (hlr ▸ List.mem_append_right l he)

end Partition
end AllocCounter.SortedMap
