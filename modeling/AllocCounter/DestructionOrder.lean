import AllocCounter.SharedAllocations
import AllocCounter.StackIdentity

/-!
# The order of destruction

The wrapper destroys the handles of the objects that no slice points to any more
when the map has changed. With a use count for every object, and with slices that
are destroyed in any order, every run of the wrapper gives the same map and the
same table of stack traces.
-/
namespace AllocCounter.MmapCounter

open MapAgreement

namespace InternedStackTraces

variable {s s' : InternedStackTraces} {handles handles' : List InternedStackTrace}

/-- The same objects under the same hashes, with the same use counts. -/
structure Same (s s' : InternedStackTraces) : Prop where
  stackTraces : s.stackTraces = s'.stackTraces
  made : s.made = s'.made
  useCount : ∀ hash, ∀ p ∈ s.stackTraces.lookup hash, s.useCount p.object = s'.useCount p.object

/-- The live handles determine the table. -/
theorem Counted.mem_lookup_iff (hc : s.Counted handles) {hash : UInt64} {p : StackTracePointer} :
    p ∈ s.stackTraces.lookup hash ↔ ∃ h ∈ handles, h.stackTrace = p ∧ p.target.hash = hash := by
  constructor
  · intro hp
    obtain ⟨h, hh, heq⟩ := hc.needed hash p hp
    exact ⟨h, hh, heq, hc.hash_eq hash p hp⟩
  · rintro ⟨h, hh, rfl, rfl⟩
    exact hc.held h hh

theorem Counted.same (hc : s.Counted handles) (hc' : s'.Counted handles')
    (hp : handles.Perm handles') (hmade : s.made = s'.made) : Same s s' := by
  have hlookup : ∀ hash, s.stackTraces.lookup hash = s'.stackTraces.lookup hash := by
    intro hash
    refine Option.ext fun p => ?_
    rw [← Option.mem_def, ← Option.mem_def, hc.mem_lookup_iff, hc'.mem_lookup_iff]
    simp only [hp.mem_iff]
  refine ⟨Finmap.ext_lookup hlookup, hmade, fun hash p hlook => ?_⟩
  rw [hc.useCount_eq hash p hlook, hc'.useCount_eq hash p (hlookup hash ▸ hlook), uses, uses,
    hp.countP_eq]

/-- The new handle and the number of objects depend on the table only. -/
theorem Same.construct (h : Same s s') (stackTrace : StackTrace) :
    (s.construct stackTrace).1 = (s'.construct stackTrace).1 ∧
      (s.construct stackTrace).2.made = (s'.construct stackTrace).2.made := by
  unfold InternedStackTraces.construct
  rw [← h.stackTraces, ← h.made]
  cases s.stackTraces.lookup stackTrace.hash with
  | some pointer => exact ⟨rfl, h.made⟩
  | none => exact ⟨rfl, rfl⟩

end InternedStackTraces

/-- What a call registers. -/
def Call.registration (pageSize : UInt64) : Call → Option (MapEvent StackTrace)
  | .mmap c =>
      if c.Registers then
        some (.map (toIntptr c.ret) (roundUpToPageMultiple pageSize c.len).toNat c.stackTrace)
      else none
  | .munmap c =>
      if c.inLibrary = false ∧ c.succeeds = true then
        some (.unmap (toIntptr c.addr) (roundUpToPageMultiple pageSize c.length).toNat)
      else none

namespace SharedMap

/-- The map is that of the wrapper, and as many stack traces were built. -/
structure Refines (s : SharedMap) (w : Wrapper) : Prop where
  tally : s.Tally s.memoryMap.pointers []
  holds : w.Holds
  memoryMap : s.memoryMap = w.memoryMap
  made : s.interned.made = w.internedStackTraces.made

variable {s : SharedMap} {w w' : Wrapper} {pageSize : UInt64}
  {order : List (AllocationPointer InternedStackTrace) →
    List (AllocationPointer InternedStackTrace)}

theorem Refines.same (h : Refines s w) : s.interned.Same w.internedStackTraces := by
  have hp := h.tally.handles
  rw [h.memoryMap, List.nil_append] at hp
  exact h.tally.counted.same h.holds.counted hp h.made

theorem Refines.mmap (h : Refines s w) (c : MmapCall)
    (hregister : w.registerMapping pageSize c = some w') :
    ∃ s', s.next .lp64 order
        (.map (toIntptr c.ret) (roundUpToPageMultiple pageSize c.len).toNat c.stackTrace) =
          some s' ∧ Refines s' w' := by
  obtain ⟨hhandle, hmade⟩ := h.same.construct c.stackTrace
  obtain ⟨_, hsome, hholds, hmade'⟩ := h.holds.registerMapping pageSize c
  obtain rfl := Option.some.inj (hsome.symm.trans hregister)
  obtain ⟨handle, _, _, hbuilt, -, hmap, -⟩ := Wrapper.registerMapping_spec hregister
  have hsame : (s.construct c.stackTrace).1 = handle := hhandle.trans (congrArg Prod.fst hbuilt)
  obtain ⟨s₂, hs₂, h₂, hmap₂, hmade₂⟩ := Tally.registerMap (h.tally.construct c.stackTrace)
    ⟨(s.construct c.stackTrace).1, toIntptr c.ret, (roundUpToPageMultiple pageSize c.len).toNat⟩
    List.mem_cons_self
  obtain ⟨s₃, hs₃, h₃, hmap₃, hmade₃⟩ := h₂.destroy
  refine ⟨s₃, Option.bind_eq_some_iff.mpr ⟨s₂, hs₂, hs₃⟩, hmap₃ ▸ h₃, hholds, ?_, ?_⟩
  · rw [hmap₃, hmap₂, hmap, ← h.memoryMap, hsame]
    rfl
  · exact hmade₃.trans (hmade₂.trans (hmade.trans hmade'.symm))

/-- An unmapping gives the same map on both sides, whatever is logged. -/
theorem Refines.munmap (horder : ∀ ps, (order ps).Perm ps) (h : Refines s w) {start : ℤ} {size : ℕ}
    {known : Bool} (hunmap : w.memoryMap.registerUnmap .lp64 start size = some (known, w'.memoryMap))
    (hholds : w'.Holds) (hmade : w'.internedStackTraces.made = w.internedStackTraces.made) :
    ∃ s', s.next .lp64 order (.unmap start size) = some s' ∧ Refines s' w' := by
  rw [← h.memoryMap] at hunmap
  obtain ⟨s', hs', h', hmap', hmade'⟩ := h.tally.registerUnmap .lp64 horder hunmap
  refine ⟨s', by rw [SharedMap.next, hs']; rfl, h', hholds, hmap', ?_⟩
  exact hmade'.trans (h.made.trans hmade.symm)

/-- A call registers the same change on both sides, or it registers nothing. -/
theorem Refines.next (horder : ∀ ps, (order ps).Perm ps) (h : Refines s w) {call : Call}
    (hnext : w.next pageSize call = some w') :
    ∃ s', (call.registration pageSize).toList.foldlM (SharedMap.next .lp64 order) s = some s' ∧
      Refines s' w' := by
  have hholds := h.holds.next hnext
  cases call with
  | mmap c =>
      rw [Wrapper.next, Wrapper.mmap] at hnext
      rw [Call.registration]
      split_ifs at hnext ⊢ with hregisters
      · simpa using h.mmap c hnext
      · obtain rfl := Option.some.inj hnext
        exact ⟨s, rfl, h⟩
  | munmap c =>
      rw [Call.registration]
      rcases Wrapper.munmap_cases hnext with ⟨hlib, rfl⟩ |
        ⟨hlib, hok, haligned, known, m, interned, hunmap, rfl, -⟩ | ⟨-, hfailed, rfl⟩
      · exact ⟨s, by simp [hlib], h⟩
      · rw [Wrapper.next, Wrapper.munmap, if_neg (by simp [hlib])] at hnext
        obtain ⟨_, hsome, -, hmade⟩ := h.holds.unregisterMapping haligned
          (Option.isSome_iff_exists.mpr ⟨_, hunmap⟩)
        obtain rfl := Option.some.inj (hsome.symm.trans hnext)
        rw [if_pos ⟨hlib, hok⟩]
        simpa using h.munmap horder hunmap hholds hmade
      · -- a failed call is only logged
        exact ⟨s, by simp [hfailed], h.tally, hholds, h.memoryMap, h.made⟩

theorem refines_initial : Refines {} {} := ⟨tally_empty, Wrapper.holds_initial, rfl, rfl⟩

/-- Whatever the order of destruction, the registrations of a run of the wrapper give
the same map, and the same table with the same use counts. -/
theorem run_refines (pageSize : UInt64) (horder : ∀ ps, (order ps).Perm ps) {calls : List Call}
    (hrun : Wrapper.run pageSize calls = some w) :
    ∃ s, run .lp64 order (calls.filterMap (Call.registration pageSize)) = some s ∧ Refines s w := by
  induction calls using List.reverseRecOn generalizing w with
  | nil =>
      obtain rfl := Option.some.inj hrun
      exact ⟨{}, rfl, refines_initial⟩
  | append_singleton calls call ih =>
      rw [Wrapper.run_concat] at hrun
      obtain ⟨w₁, hw₁, hnext⟩ := Option.bind_eq_some_iff.mp hrun
      obtain ⟨s₁, hs₁, h₁⟩ := ih hw₁
      obtain ⟨s, hs, h⟩ := h₁.next horder hnext
      refine ⟨s, ?_, h⟩
      have hlast : [call].filterMap (Call.registration pageSize) =
          (call.registration pageSize).toList := by
        cases hcall : call.registration pageSize <;> simp [hcall]
      rw [List.filterMap_append, hlast, run, List.foldlM_append]
      exact Option.bind_eq_some_iff.mpr ⟨s₁, hs₁, hs⟩

/-- After every run of the wrapper its table has the traces of the mappings that own
a slice. -/
theorem mem_stackTraces_of_run {calls : List Call} (hrun : Wrapper.run pageSize calls = some w)
    (hash : UInt64) :
    hash ∈ w.internedStackTraces.stackTraces ↔ hash ∈ sliceHashes w.memoryMap := by
  obtain ⟨s, -, h⟩ := run_refines pageSize (fun ps : List _ => List.Perm.refl ps) hrun
  rw [← h.same.stackTraces, ← h.memoryMap]
  exact h.tally.mem_stackTraces hash

/-- After every run of the wrapper its table has the traces of the mappings that own a
slice. Whatever the order in which what a call discards is destroyed, the registrations
give the same map, and the same table with the same use counts. -/
theorem wrapper_table_exact {calls : List Call} (hrun : Wrapper.run pageSize calls = some w) :
    (∀ hash, hash ∈ w.internedStackTraces.stackTraces ↔ hash ∈ sliceHashes w.memoryMap) ∧
    ∀ order : List (AllocationPointer InternedStackTrace) →
        List (AllocationPointer InternedStackTrace), (∀ ps, (order ps).Perm ps) →
      ∃ s, run .lp64 order (calls.filterMap (Call.registration pageSize)) = some s ∧
        s.memoryMap = w.memoryMap ∧ s.interned.Same w.internedStackTraces := by
  refine ⟨mem_stackTraces_of_run hrun, fun order horder => ?_⟩
  obtain ⟨s, hs, h⟩ := run_refines pageSize horder hrun
  exact ⟨s, hs, h.memoryMap, h.same⟩

theorem wrapper_table_exact_twoStacks :
    ∃ w, Wrapper.run 4096 (Wrapper.twoStacks [0x401000] [0x402000]) = some w ∧
      (∀ hash, hash ∈ w.internedStackTraces.stackTraces ↔ hash ∈ sliceHashes w.memoryMap) ∧
      ∃ s, run .lp64 List.reverse ((Wrapper.twoStacks [0x401000] [0x402000]).filterMap
          (Call.registration 4096)) = some s ∧
        s.memoryMap = w.memoryMap ∧ s.interned.Same w.internedStackTraces := by
  have hrun : (Wrapper.run 4096 (Wrapper.twoStacks [0x401000] [0x402000])).isSome := by
    decide +kernel
  obtain ⟨w, hw⟩ := Option.isSome_iff_exists.mp hrun
  have hexact := wrapper_table_exact hw
  exact ⟨w, hw, hexact.1, hexact.2 List.reverse List.reverse_perm⟩

end SharedMap
end AllocCounter.MmapCounter
