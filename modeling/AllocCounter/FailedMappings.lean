import AllocCounter.KernelRanges

/-!
# Failed mappings

The real `mmap` reports a failure by `MAP_FAILED`, which is not the null pointer
that the wrapper looks for. So a failed anonymous call is logged and registered as
a mapping at address -1, unless it comes from inside the library.
-/
namespace AllocCounter.MmapCounter

/-- The wrapper does not look at the answer. -/
def MmapCall.Ignored (c : MmapCall) : Prop := c.inLibrary = true ∨ c.anonymous = false

instance (c : MmapCall) : Decidable c.Ignored := inferInstanceAs (Decidable (_ ∨ _))

/-- A failure is registered unless it is ignored, since `MAP_FAILED` is not null. -/
theorem MmapCall.registers_iff {c : MmapCall} (hfailed : c.ret = MAP_FAILED) :
    c.Registers ↔ ¬ c.Ignored := by
  have hnull : c.ret ≠ 0 := by
    rw [hfailed]
    decide
  simp [MmapCall.Registers, MmapCall.Ignored, hnull]

namespace Wrapper

variable {pageSize : UInt64} {w w' : Wrapper}

/-- What the caller of `mmap` gets, and the wrapper after the call. -/
def mmapReturning (pageSize : UInt64) (w : Wrapper) (c : MmapCall) : Option (Address × Wrapper) :=
  (w.mmap pageSize c).map fun w' => (c.ret, w')

/-- The slices are in memory that the kernel mapped in these calls. -/
def WithinMapped (pageSize : UInt64) (calls : List Call) (w : Wrapper) : Prop :=
  ∀ e ∈ w.memoryMap.slices.entries, ∃ c, .mmap c ∈ calls ∧ c.ret ≠ MAP_FAILED ∧
    c.ret.toNat ≤ e.2.start ∧ e.2.start + e.2.size ≤ c.ret.toNat + (kernelLength pageSize c.len : ℤ)

/-- A failure that is not ignored adds a line to the event log. -/
theorem mmapReturning_failed_iff {c : MmapCall} (hfailed : c.ret = MAP_FAILED) :
    w.mmapReturning pageSize c = some (MAP_FAILED, w) ↔ c.Ignored := by
  constructor
  · intro h
    by_contra hseen
    rw [mmapReturning, Wrapper.mmap, if_pos ((MmapCall.registers_iff hfailed).mpr hseen)] at h
    obtain ⟨w', hregister, heq⟩ := Option.map_eq_some_iff.mp h
    obtain ⟨-, rfl⟩ := Prod.mk.inj heq
    obtain ⟨_, _, _, -, -, -, hlog, -⟩ := registerMapping_spec hregister
    exact absurd hlog (by simp)
  · intro h
    have hnot : ¬ c.Registers := (MmapCall.registers_iff hfailed).not.mpr (not_not.mpr h)
    rw [mmapReturning, Wrapper.mmap, if_neg hnot, Option.map_some, hfailed]

/-- If the failures were ignored, every slice is part of a mapping of the kernel. -/
theorem Attributes.withinMapped {calls : List Call} {k : ℕ} (h : Attributes pageSize calls w)
    (hpage : pageSize.toNat = 2 ^ k) (hplaced : ∀ call ∈ calls, call.Placed pageSize)
    (hignored : ∀ c, .mmap c ∈ calls → c.ret = MAP_FAILED → c.Ignored) :
    w.WithinMapped pageSize calls := by
  intro e he
  obtain ⟨c, hc, hstart, hsize⟩ := h.origin e he
  obtain ⟨hmem, hregisters⟩ := of_mem_registeredCalls (List.mem_of_getElem? hc)
  have hsucceeds : c.ret ≠ MAP_FAILED := fun hfailed =>
    (MmapCall.registers_iff hfailed).mp hregisters (hignored c hmem hfailed)
  obtain ⟨hpointer, hle⟩ := (Call.Placed.range hpage (hplaced _ hmem)).2 hsucceeds
  have hpart := h.parts e he
  have hlo := hpart.start_le
  have hhi := hpart.stop_le
  rw [hstart, hpointer] at hlo hhi
  rw [hsize] at hhi
  exact ⟨c, hmem, hsucceeds, hlo, by omega⟩

/-- In every state of a run, a failed `mmap` is answered with `MAP_FAILED` and leaves
everything as it was exactly when the wrapper ignores it. If that is so for all
failures of the run, the slices are in memory that the kernel mapped. -/
theorem failures_leave_no_trace (hpage : ∃ k, pageSize.toNat = 2 ^ k) {calls : List Call}
    (hplaced : ∀ call ∈ calls, call.Placed pageSize) (hrun : run pageSize calls = some w) :
    (∀ c : MmapCall, c.ret = MAP_FAILED →
      (w.mmapReturning pageSize c = some (MAP_FAILED, w) ↔ c.Ignored)) ∧
    ((∀ c, .mmap c ∈ calls → c.ret = MAP_FAILED → c.Ignored) →
      w.WithinMapped pageSize calls) := by
  obtain ⟨k, hpage⟩ := hpage
  refine ⟨fun c hfailed => mmapReturning_failed_iff hfailed, fun hignored => ?_⟩
  exact (attributes_run hpage calls hplaced hrun).withinMapped hpage hplaced hignored

/-- Two pages are mapped, a file mapping fails, and the first page is unmapped. -/
def failedFile : List Call :=
  [.mmap ⟨false, 0x10000, 8192, true, 0, [1]⟩, .mmap ⟨false, MAP_FAILED, 4096, false, 1, [2]⟩,
    .munmap ⟨false, 0x10000, 4096, true, 1⟩]

theorem failures_leave_no_trace_failedFile :
    ∃ w, run 4096 failedFile = some w ∧ w.memoryMap.slices.entries ≠ [] ∧
      (∀ c : MmapCall, c.ret = MAP_FAILED →
        (w.mmapReturning 4096 c = some (MAP_FAILED, w) ↔ c.Ignored)) ∧
      ((∀ c, .mmap c ∈ failedFile → c.ret = MAP_FAILED → c.Ignored) →
        w.WithinMapped 4096 failedFile) := by
  obtain ⟨w, hrun⟩ : ∃ w, run 4096 failedFile = some w :=
    Option.isSome_iff_exists.mp (by decide +kernel)
  have hslices : ∀ w ∈ run 4096 failedFile, w.memoryMap.slices.entries.length = 1 := by
    decide +kernel
  refine ⟨w, hrun, List.ne_nil_of_length_pos (by rw [hslices w hrun]; decide), ?_⟩
  exact failures_leave_no_trace ⟨12, rfl⟩ (by decide +kernel) hrun

/-- A failed anonymous mapping of one page is registered at the address -1. -/
theorem not_failures_leave_no_trace :
    ¬ (∀ calls w, (∀ call ∈ calls, call.Placed 4096) → run 4096 calls = some w →
      ∀ c : MmapCall, c.ret = MAP_FAILED → w.mmapReturning 4096 c = some (MAP_FAILED, w)) ∧
    ¬ (∀ calls w, (∀ call ∈ calls, call.Placed 4096) → run 4096 calls = some w →
      w.WithinMapped 4096 calls) := by
  let c : MmapCall := ⟨false, MAP_FAILED, 4096, true, 0, [1]⟩
  constructor
  · intro h
    have hsame := h [] {} nofun rfl c rfl
    exact absurd ((mmapReturning_failed_iff rfl).mp hsame) (by decide)
  · intro h
    obtain ⟨w, hrun⟩ : ∃ w, run 4096 [.mmap c] = some w :=
      Option.isSome_iff_exists.mp (by decide +kernel)
    have hbogus : ∀ w ∈ run 4096 [.mmap c],
        w.memoryMap.slices.entries.map (fun e => (e.2.start, e.2.size)) = [(-1, 4096)] := by
      decide +kernel
    obtain ⟨e, he, -⟩ := List.mem_map.mp (hbogus w hrun ▸ List.mem_singleton_self _)
    obtain ⟨c', hc', hsucceeds, -⟩ := h [.mmap c] w (by decide +kernel) hrun e he
    obtain rfl : c' = c := by simpa using hc'
    exact hsucceeds rfl

end Wrapper
end AllocCounter.MmapCounter
