import AllocCounter.MapAgreement

/-!
# Overlapping mappings

`registerMap` checks neither its range nor the outcome of its insertion, so
mappings may overlap and one that starts where a slice starts is dropped. The
slices of different allocations then lie over each other, and a split may cut
another slice than the one that was to be unmapped. But the slices of one
allocation object stay pieces of its original range. Each call of
`registerUnmap` replaces them by pieces of themselves.
-/
namespace AllocCounter.MmapCounter

variable {T : Type*} (t : Target)

/-- `originalEnd()` in the source. -/
def MMapAllocation.originalEnd (a : MMapAllocation T) : ℤ :=
  t.intptr (a.originalStart + a.originalSize)

namespace MemoryMap

/-- The slices of one allocation object, in key order. -/
def slicesOf (m : MemoryMap T) (object : ℕ) : List (ℤ × MemorySlice T) :=
  m.slices.entries.filter fun e => e.2.allocation.object = object

def extentsOf (m : MemoryMap T) (object : ℕ) : List (Extent ℤ (AllocationPointer T)) :=
  (m.slicesOf object).map fun e => e.2.extent

/-- The bytes attributed to an allocation object. -/
def bytesOf (m : MemoryMap T) (object : ℕ) : ℕ := ((m.slicesOf object).map fun e => e.2.size).sum

/-- Every slice is a nonempty part of its allocation's original range, under its
start as the key, and apart from the other slices of that allocation. -/
structure Confined (m : MemoryMap T) : Prop where
  key_eq : ∀ e ∈ m.slices.entries, e.1 = e.2.start
  size_pos : ∀ e ∈ m.slices.entries, 0 < e.2.size
  within : ∀ e ∈ m.slices.entries, e.2.allocation.target.originalStart ≤ e.2.start ∧
    e.2.start + e.2.size ≤ e.2.allocation.target.originalEnd t
  disjoint : m.slices.entries.Pairwise fun a b =>
    a.2.allocation.object = b.2.allocation.object → a.2.start + (a.2.size : ℤ) ≤ b.2.start

/-- The map was built by registering these allocations and by unmapping. -/
structure Pieced (registered : List (MMapAllocation T)) (m : MemoryMap T) : Prop where
  made : m.made = registered.length
  representable : ∀ a ∈ registered,
    0 < a.originalSize ∧ Representable t a.originalStart a.originalSize
  target : ∀ e ∈ m.slices.entries,
    registered[e.2.allocation.object]? = some e.2.allocation.target
  key_eq : ∀ e ∈ m.slices.entries, e.1 = e.2.start
  tiled : ∀ object, Extent.Tiled (m.extentsOf object)
  within : ∀ object, ∀ a ∈ registered[object]?, ∀ f ∈ m.extentsOf object,
    a.originalStart ≤ f.start ∧ f.stop ≤ a.originalStart + a.originalSize

variable {t} {registered : List (MMapAllocation T)} {m m' : MemoryMap T}

theorem mem_extentsOf {e : ℤ × MemorySlice T} (he : e ∈ m.slices.entries) :
    e.2.extent ∈ m.extentsOf e.2.allocation.object :=
  List.mem_map_of_mem (f := fun e => e.2.extent) (List.mem_filter.mpr ⟨he, by simp⟩)

theorem cast_bytesOf (m : MemoryMap T) (object : ℕ) :
    (m.bytesOf object : ℤ) = ((m.extentsOf object).map fun f => f.stop - f.start).sum := by
  rw [bytesOf, extentsOf, List.map_map]
  induction m.slicesOf object with
  | nil => rfl
  | cons e l ih =>
      simp only [List.map_cons, List.sum_cons, Nat.cast_add, ih, Function.comp,
        MemorySlice.extent, add_sub_cancel_left]

theorem pieced_empty : Pieced t [] (empty : MemoryMap T) where
  made := rfl
  representable := by simp
  target := by simp [empty]
  key_eq := by simp [empty]
  tiled := fun _ => .nil
  within := by simp

theorem Pieced.object_lt (h : Pieced t registered m) (e : ℤ × MemorySlice T)
    (he : e ∈ m.slices.entries) : e.2.allocation.object < m.made :=
  h.made ▸ (List.getElem?_eq_some_iff.mp (h.target e he)).1

theorem Pieced.slice_within (h : Pieced t registered m) {e : ℤ × MemorySlice T}
    (he : e ∈ m.slices.entries) : e.2.allocation.target.originalStart ≤ e.2.start ∧
      e.2.start + (e.2.size : ℤ) ≤
        e.2.allocation.target.originalStart + e.2.allocation.target.originalSize :=
  h.within _ _ (h.target e he) _ (mem_extentsOf he)

theorem Pieced.target_representable (h : Pieced t registered m) {e : ℤ × MemorySlice T}
    (he : e ∈ m.slices.entries) : Representable t e.2.allocation.target.originalStart
      e.2.allocation.target.originalSize :=
  (h.representable _ (List.mem_of_getElem? (h.target e he))).2

theorem Pieced.slice_representable (h : Pieced t registered m) {e : ℤ × MemorySlice T}
    (he : e ∈ m.slices.entries) : Representable t e.2.start e.2.size :=
  ⟨(h.target_representable he).1.trans (h.slice_within he).1,
    (h.slice_within he).2.trans (h.target_representable he).2⟩

theorem Pieced.confined (h : Pieced t registered m) : m.Confined t where
  key_eq := h.key_eq
  size_pos := fun _ he => extent_nonempty.mp ((h.tiled _).1 _ (mem_extentsOf he))
  within := fun e he => by
    have hrange := h.target_representable he
    rw [MMapAllocation.originalEnd, t.intptr_eq (hrange.1.trans (by omega)) hrange.2]
    exact h.slice_within he
  disjoint := by
    have hall : ∀ object, m.slices.entries.Pairwise fun a b =>
        a.2.allocation.object = object → b.2.allocation.object = object →
          a.2.start + (a.2.size : ℤ) ≤ b.2.start := by
      intro object
      have hlater := List.pairwise_map.mp (h.tiled object).2
      simpa [MemorySlice.extent] using List.pairwise_filter.mp hlater
    refine List.pairwise_iff_forall_sublist.mpr fun {a b} hab hobject => ?_
    exact List.pairwise_iff_forall_sublist.mp (hall _) hab hobject rfl

/-- The slices of one allocation are together no larger than it. -/
theorem Pieced.bytesOf_le (h : Pieced t registered m) {object : ℕ} {a : MMapAllocation T}
    (ha : registered[object]? = some a) : m.bytesOf object ≤ a.originalSize := by
  have hlength := (h.tiled object).sum_length_le a.originalStart (a.originalStart + a.originalSize)
    (by omega) (h.within object a ha)
  rw [← cast_bytesOf] at hlength
  omega

/-- What unmapping does to every allocation, whatever the others have in the same
places. -/
structure Cuts (m m' : MemoryMap T) : Prop where
  made : m'.made = m.made
  allocation : ∀ e' ∈ m'.slices.entries, ∃ e ∈ m.slices.entries,
    e'.2.allocation = e.2.allocation
  key_eq : ∀ e ∈ m'.slices.entries, e.1 = e.2.start
  shrinks : ∀ object, Extent.Shrinks (m.extentsOf object) (m'.extentsOf object)

theorem Cuts.pieced (hc : Cuts m m') (h : Pieced t registered m) : Pieced t registered m' where
  made := hc.made.trans h.made
  representable := h.representable
  target := by
    intro e' he'
    obtain ⟨e, he, heq⟩ := hc.allocation e' he'
    rw [heq]
    exact h.target e he
  key_eq := hc.key_eq
  tiled := fun object => (hc.shrinks object).tiled (h.tiled object)
  within := by
    intro object a ha f hf
    obtain ⟨e, he, hlo, hhi⟩ := (hc.shrinks object).inside hf
    have hin := h.within object a ha e he
    exact ⟨hin.1.trans hlo, hhi.trans hin.2⟩

theorem Cuts.trans {m'' : MemoryMap T} (h : Cuts m m') (h' : Cuts m' m'') : Cuts m m'' where
  made := h'.made.trans h.made
  allocation := by
    intro e'' he''
    obtain ⟨e', he', heq'⟩ := h'.allocation e'' he''
    obtain ⟨e, he, heq⟩ := h.allocation e' he'
    exact ⟨e, he, heq'.trans heq⟩
  key_eq := h'.key_eq
  shrinks := fun object => (h.shrinks object).trans (h'.shrinks object)

theorem Cuts.bytesOf_le (hc : Cuts m m') (h : Pieced t registered m) (object : ℕ) :
    m'.bytesOf object ≤ m.bytesOf object := by
  have hlength := (hc.shrinks object).sum_length_le (h.tiled object)
  rw [← cast_bytesOf, ← cast_bytesOf] at hlength
  exact_mod_cast hlength

theorem Pieced.cuts_self (h : Pieced t registered m) : Cuts m m :=
  ⟨rfl, fun e he => ⟨e, he, rfl⟩, h.key_eq, fun object => .refl (h.tiled object)⟩

/-- Halving one slice cuts its own allocation at that point, and no other. -/
theorem Pieced.shrinks_split (h : Pieced t registered m) {p : ℤ}
    {l r : List (ℤ × MemorySlice T)} {key : ℤ} {c left right : MemorySlice T}
    (hlr : m.slices.entries = l ++ (key, c) :: r) (hlo : c.start < p) (hhi : p < c.start + c.size)
    (hleft : left.extent = { c.extent with stop := p })
    (hright : right.extent = { c.extent with start := p })
    (hentries : m'.slices.entries = l ++ (key, left) :: (p, right) :: r) (object : ℕ) :
    Extent.Shrinks (m.extentsOf object) (m'.extentsOf object) := by
  have hownerLeft : left.allocation = c.allocation := congrArg Extent.owner hleft
  have hownerRight : right.allocation = c.allocation := congrArg Extent.owner hright
  have ht := h.tiled object
  by_cases hobject : c.allocation.object = object
  · have hshrinks := Extent.Shrinks.splitAt ht p
    simp only [extentsOf, slicesOf, hlr, hentries, List.filter_append, List.filter_cons,
      hownerLeft, hownerRight, hobject, decide_true, if_true, List.map_append, List.map_cons,
      hleft, hright] at ht hshrinks ⊢
    rw [Extent.tiled_append, Extent.tiled_cons] at ht
    obtain ⟨-, ⟨-, hafter, -⟩, hbefore⟩ := ht
    rwa [Extent.flatMap_splitAt_append_cons, Extent.splitAt, if_pos ⟨hlo, hhi⟩,
      List.append_assoc] at hshrinks
    · exact fun f hf => (hbefore f hf _ List.mem_cons_self).trans hlo.le
    · exact fun f hf => hhi.le.trans (hafter f hf)
  · simpa [extentsOf, slicesOf, hlr, hentries, hownerLeft, hownerRight, hobject] using
      Extent.Shrinks.refl ht

theorem Pieced.splitAt_inside (h : Pieced t registered m) {p : ℤ}
    {l r : List (ℤ × MemorySlice T)} {key : ℤ} {c : MemorySlice T}
    (hlr : m.slices.entries = l ++ (key, c) :: r) (hlo : c.start < p) (hhi : p < c.start + c.size)
    (hr : ∀ e ∈ r, p < e.1) : ∃ m', m.splitAt t p = some m' ∧ Cuts m m' := by
  have hmem : (key, c) ∈ m.slices.entries := by simp [hlr]
  have hkey : key = c.start := h.key_eq _ hmem
  have hrep := h.slice_representable hmem
  obtain ⟨m', hsplit, hmade, hentries⟩ := splitAt_entries hlr hkey hrep hlo hhi hr
  refine ⟨m', hsplit, hmade, (of_mem_splitAt hsplit).2, ?_, ?_⟩
  · intro e he
    rw [hentries] at he
    simp only [List.mem_append, List.mem_cons] at he
    rcases he with he | rfl | rfl | he
    · exact h.key_eq e (by simp [hlr, he])
    · exact hkey
    · rfl
    · exact h.key_eq e (by simp [hlr, he])
  · exact h.shrinks_split hlr hlo hhi (extent_left hrep hlo hhi) (extent_right hrep hlo hhi)
      hentries

theorem Pieced.splitAt (h : Pieced t registered m) (p : ℤ) :
    ∃ m', m.splitAt t p = some m' ∧ Cuts m m' := by
  obtain ⟨l, r, hlr, hl, hr⟩ := m.slices.exists_cut (· ≤ p) fun a b hab hb => hab.le.trans hb
  replace hr : ∀ e ∈ r, p < e.1 := fun e he => not_le.mp (hr e he)
  have hsearch := SortedMap.upperBound_eq hlr hl hr
  rcases l.eq_nil_or_concat' with rfl | ⟨l, ⟨key, c⟩, rfl⟩
  · exact ⟨m, by simp [MemoryMap.splitAt, hsearch], h.cuts_self⟩
  · rw [List.append_assoc, List.singleton_append] at hlr
    have hmem : (key, c) ∈ m.slices.entries := by simp [hlr]
    have hle : c.start ≤ p := h.key_eq _ hmem ▸ hl (key, c) (by simp)
    by_cases hin : c.start < p ∧ p < c.start + c.size
    · exact h.splitAt_inside hlr hin.1 hin.2 hr
    · have hout : p = c.start ∨ c.start + c.size ≤ p := by omega
      have hiter : m.slices.entries[m.slices.upperBound p - 1]? = some (key, c) := by
        simp [hsearch, hlr]
      have hstop := stop_eq (h.slice_representable hmem)
      exact ⟨m, by simp [MemoryMap.splitAt, hiter, hstop, hle, hout], h.cuts_self⟩

/-- Erasing the keys of a range takes whole slices away. -/
theorem Pieced.cuts_erase (h : Pieced t registered m) (lo hi : ℤ) :
    Cuts m ⟨⟨m.slices.entries.filter fun e => ¬ (lo ≤ e.1 ∧ e.1 < hi), m.slices.filter_sorted _⟩,
      m.made⟩ where
  made := rfl
  allocation := fun e he => ⟨e, List.mem_of_mem_filter he, rfl⟩
  key_eq := fun e he => h.key_eq e (List.mem_of_mem_filter he)
  shrinks := by
    intro object
    have hkept := Extent.Shrinks.filter (h.tiled object) fun f => ¬ (lo ≤ f.start ∧ f.start < hi)
    convert hkept using 1
    rw [extentsOf, extentsOf, List.filter_map, slicesOf, slicesOf, List.filter_filter,
      List.filter_filter]
    refine congrArg _ (List.filter_congr fun e he => ?_)
    rw [h.key_eq e he, Bool.and_comm]
    rfl

theorem Pieced.registerUnmap (h : Pieced t registered m) {start : ℤ} {size : ℕ}
    (hrange : Representable t start size) :
    ∃ known m', m.registerUnmap t start size = some (known, m') ∧ Cuts m m' := by
  have hle : start ≤ start + size := by omega
  have hstop : t.intptr (start + size) = start + size := t.intptr_eq (hrange.1.trans hle) hrange.2
  obtain ⟨m₁, hs₁, hc₁⟩ := h.splitAt start
  have h₁ := hc₁.pieced h
  obtain ⟨m₂, hs₂, hc₂⟩ := h₁.splitAt (start + size)
  have h₂ := hc₂.pieced h₁
  refine ⟨m₂.slices.lowerBound start != m₂.slices.lowerBound (start + size), _, ?_,
    (hc₁.trans hc₂).trans (h₂.cuts_erase start (start + size))⟩
  simp only [MemoryMap.registerUnmap, hs₁, hs₂, hstop, Option.bind_some,
    SortedMap.eraseRange_lowerBound _ hle, Option.map_some]

/-- A registration changes no allocation but its own, which gets its whole range
or, if a slice starts there, nothing. -/
theorem extentsOf_registerMap (a : MMapAllocation T) (hnew : ∀ e ∈ m.slices.entries,
    e.2.allocation.object < m.made) (object : ℕ) :
    (m.registerMap a).extentsOf object = m.extentsOf object ∨ object = m.made ∧
      (m.registerMap a).extentsOf object =
        [⟨a.originalStart, a.originalStart + a.originalSize, ⟨m.made, a⟩⟩] := by
  rcases m.slices.insertNew_cases a.originalStart
    ⟨a.originalStart, a.originalSize, ⟨m.made, a⟩⟩ with ⟨-, hsame⟩ | ⟨-, l, r, hlr, hentries⟩
  · refine .inl ?_
    simp only [extentsOf, slicesOf, MemoryMap.registerMap, hsame]
  · by_cases hobject : object = m.made
    · refine .inr ⟨hobject, ?_⟩
      have hnone : ∀ e ∈ m.slices.entries, ¬ e.2.allocation.object = m.made :=
        fun e he => (hnew e he).ne
      rw [hlr] at hnone
      have hl : l.filter (fun e => e.2.allocation.object = m.made) = [] :=
        List.filter_eq_nil_iff.mpr fun e he => by simpa using hnone e (by simp [he])
      have hr : r.filter (fun e => e.2.allocation.object = m.made) = [] :=
        List.filter_eq_nil_iff.mpr fun e he => by simpa using hnone e (by simp [he])
      simp [extentsOf, slicesOf, MemoryMap.registerMap, hentries, hobject, hl, hr,
        MemorySlice.extent]
    · refine .inl ?_
      simp [extentsOf, slicesOf, MemoryMap.registerMap, hentries, hlr, Ne.symm hobject]

theorem bytesOf_registerMap (a : MMapAllocation T) (hnew : ∀ e ∈ m.slices.entries,
    e.2.allocation.object < m.made) {object : ℕ} (hobject : object < m.made) :
    (m.registerMap a).bytesOf object = m.bytesOf object := by
  rcases extentsOf_registerMap a hnew object with hsame | ⟨heq, -⟩
  · have hcast := cast_bytesOf (m.registerMap a) object
    rw [hsame, ← cast_bytesOf] at hcast
    exact_mod_cast hcast
  · exact absurd heq hobject.ne

theorem Pieced.registerMap (h : Pieced t registered m) {a : MMapAllocation T}
    (hsize : 0 < a.originalSize) (hrange : Representable t a.originalStart a.originalSize) :
    Pieced t (registered ++ [a]) (m.registerMap a) where
  made := by rw [List.length_append, ← h.made]; rfl
  representable := by
    intro b hb
    rcases List.mem_append.mp hb with hb | hb
    · exact h.representable b hb
    · exact List.mem_singleton.mp hb ▸ ⟨hsize, hrange⟩
  target := by
    intro e he
    rcases of_mem_registerMap he with heq | he
    · simp [heq, h.made]
    · rw [List.getElem?_append_left (h.made ▸ h.object_lt e he)]
      exact h.target e he
  key_eq := by
    intro e he
    rcases SortedMap.eq_or_mem_of_mem_place (fun _ => .inl rfl) he with rfl | he
    · rfl
    · exact h.key_eq e he
  tiled := by
    intro object
    rcases extentsOf_registerMap a h.object_lt object with hsame | ⟨-, hnew⟩
    · exact hsame ▸ h.tiled object
    · rw [hnew]
      exact ⟨by simpa using hsize, by simp⟩
  within := by
    intro object b hb f hf
    rcases extentsOf_registerMap a h.object_lt object with hsame | ⟨rfl, hnew⟩
    · rw [hsame] at hf
      refine h.within object b ?_ f hf
      obtain ⟨e, he, rfl⟩ := List.mem_map.mp hf
      have hobject : e.2.allocation.object = object := by simpa using (List.mem_filter.mp he).2
      have hlt := h.object_lt e (List.mem_of_mem_filter he)
      rwa [List.getElem?_append_left (h.made ▸ hobject ▸ hlt)] at hb
    · rw [hnew, List.mem_singleton] at hf
      simp only [h.made, List.getElem?_concat_length, Option.mem_some_iff] at hb
      simp [hf, hb]

end MemoryMap

open MapAgreement

/-- A positive size and no overflow. -/
def Valid (e : MapEvent T) : Prop := 0 < e.size ∧ Representable t e.start e.size

instance (e : MapEvent T) : Decidable (Valid t e) :=
  inferInstanceAs (Decidable (_ ∧ _ ∧ _))

/-- The allocations that a sequence of calls registers, in order. -/
def registered (es : List (MapEvent T)) : List (MMapAllocation T) :=
  es.filterMap fun
    | .map start size event => some ⟨event, start, size⟩
    | .unmap _ _ => none

namespace MemoryMap

variable {t}

/-- Everything an event does to the pieces. -/
structure Keeps (t : Target) (es : List (MapEvent T)) (s s' : Online T) : Prop where
  pieced : Pieced t (registered es) s'.map
  made_le : s.map.made ≤ s'.map.made
  bytes_le : ∀ object < s.map.made, s'.map.bytesOf object ≤ s.map.bytesOf object

theorem keeps_step {es : List (MapEvent T)} {s : Online T} (h : Pieced t (registered es) s.map)
    {e : MapEvent T} (he : Valid t e) :
    ∃ s', s.step t e = some s' ∧ Keeps t (es ++ [e]) s s' := by
  cases e with
  | map start size event =>
      refine ⟨_, rfl, ?_, Nat.le_succ _, fun object hobject => ?_⟩
      · rw [registered, List.filterMap_append]
        exact h.registerMap he.1 he.2
      · exact (bytesOf_registerMap _ h.object_lt hobject).le
  | unmap start size =>
      have hrange : Representable t start size := he.2
      obtain ⟨known, m', hunmap, hc⟩ := h.registerUnmap hrange
      refine ⟨_, by rw [Online.step, hunmap]; rfl, ?_, hc.made.ge, ?_⟩
      · rw [registered, List.filterMap_append, List.filterMap_cons_none rfl, List.filterMap_nil,
          List.append_nil]
        exact hc.pieced h
      · exact fun object _ => hc.bytesOf_le h object

theorem keeps_run {es : List (MapEvent T)} {s : Online T} (h : Pieced t (registered es) s.map)
    (later : List (MapEvent T)) (hlater : ∀ e ∈ later, Valid t e) :
    ∃ s', later.foldlM (Online.step t) s = some s' ∧ Keeps t (es ++ later) s s' := by
  induction later generalizing es s with
  | nil => exact ⟨s, rfl, by rwa [List.append_nil], le_rfl, fun _ _ => le_rfl⟩
  | cons e later ih =>
      obtain ⟨s₁, hs₁, hk₁⟩ := keeps_step h (hlater e List.mem_cons_self)
      obtain ⟨s₂, hs₂, hk₂⟩ := ih hk₁.pieced fun f hf => hlater f (List.mem_cons_of_mem _ hf)
      rw [List.append_assoc, List.singleton_append] at hk₂
      refine ⟨s₂, ?_, hk₂.pieced, hk₁.made_le.trans hk₂.made_le, ?_⟩
      · rw [List.foldlM_cons, hs₁]
        exact hs₂
      · intro object hobject
        exact (hk₂.bytes_le object (hobject.trans_le hk₁.made_le)).trans (hk₁.bytes_le object hobject)

/-- After any calls with positive sizes and no overflow, on whatever ranges, the
slices of each allocation are disjoint parts of its range. Further calls never
give it more bytes. -/
theorem mappings_confined (es : List (MapEvent T)) (hes : ∀ e ∈ es, Valid t e) :
    ∃ s, online t es = some s ∧ s.map.Confined t ∧
      (∀ e ∈ s.map.slices.entries,
        (registered es)[e.2.allocation.object]? = some e.2.allocation.target) ∧
      (∀ object, ∀ a ∈ (registered es)[object]?, s.map.bytesOf object ≤ a.originalSize) ∧
      ∀ later, (∀ e ∈ later, Valid t e) → ∃ s', online t (es ++ later) = some s' ∧
        ∀ object < (registered es).length, s'.map.bytesOf object ≤ s.map.bytesOf object := by
  have hempty : Pieced t (registered []) ({} : Online T).map := pieced_empty
  obtain ⟨s, hs, hk⟩ := keeps_run hempty es hes
  rw [List.nil_append] at hk
  refine ⟨s, hs, hk.pieced.confined, hk.pieced.target, fun object a ha => hk.pieced.bytesOf_le ha,
    fun later hlater => ?_⟩
  obtain ⟨s', hs', hk'⟩ := keeps_run hk.pieced later hlater
  refine ⟨s', ?_, hk.pieced.made ▸ hk'.bytes_le⟩
  rw [online, List.foldlM_append]
  exact (congrArg (· >>= _) hs).trans hs'

/-- Two pages are mapped over the second of two others, and mapped again. The
middle of them is then unmapped. -/
def nestedCalls : List (MapEvent ℕ) :=
  [.map 4096 8192 1, .map 8192 8192 2, .map 8192 4096 3, .unmap 10240 2048]

theorem mappings_confined_nested :
    ∃ s, online .lp64 nestedCalls = some s ∧ s.map.Confined .lp64 ∧
      (∀ e ∈ s.map.slices.entries,
        (registered nestedCalls)[e.2.allocation.object]? = some e.2.allocation.target) ∧
      (∀ object, ∀ a ∈ (registered nestedCalls)[object]?, s.map.bytesOf object ≤ a.originalSize) ∧
      ∀ later, (∀ e ∈ later, Valid .lp64 e) → ∃ s', online .lp64 (nestedCalls ++ later) = some s' ∧
        ∀ object < (registered nestedCalls).length, s'.map.bytesOf object ≤ s.map.bytesOf object :=
  mappings_confined nestedCalls (by decide)

end MemoryMap
end AllocCounter.MmapCounter
