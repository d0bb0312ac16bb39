import AllocCounter.KernelRanges

/-!
# Replaced mappings

A file may be mapped over anonymous memory (`MAP_FIXED`), which is gone then. The
wrapper looks at anonymous mappings only, so the memory keeps its owner, and a
later unmapping of the file is reported as one of anonymous memory.
-/
namespace AllocCounter.MmapCounter

/-- The address is in the pages that the call mapped. -/
def MmapCall.Maps (pageSize : UInt64) (c : MmapCall) (x : ℤ) : Prop :=
  c.ret.toNat ≤ x ∧ x < c.ret.toNat + (kernelLength pageSize c.len : ℤ)

instance (pageSize : UInt64) (c : MmapCall) (x : ℤ) : Decidable (c.Maps pageSize x) :=
  inferInstanceAs (Decidable (_ ∧ _))

namespace Wrapper

variable {pageSize : UInt64} {w w' : Wrapper} {c : MmapCall}

/-- The kernel places a mapping that is not anonymous over memory with an owner. -/
structure Replaces (pageSize : UInt64) (w : Wrapper) (c : MmapCall) : Prop where
  file : c.anonymous = false
  succeeds : c.ret ≠ MAP_FAILED
  placed : c.ret.toNat + (kernelLength pageSize c.len : ℤ) ≤ Target.lp64.intptrMax
  overlaps : ∃ x, c.Maps pageSize x ∧ w.memoryMap.owner x ≠ none

/-- The pages have no owner any more and the rest keeps its owners. Unmapping the
pages is then not reported. -/
structure Forgets (pageSize : UInt64) (c : MmapCall) (w w' : Wrapper) : Prop where
  unowned : ∀ x, c.Maps pageSize x → w'.memoryMap.owner x = none
  kept : ∀ x, ¬ c.Maps pageSize x → w'.memoryMap.owner x = w.memoryMap.owner x
  unreported : ∀ time w'',
    w'.next pageSize (.munmap ⟨false, c.ret, c.len, true, time⟩) = some w'' →
      w''.eventLog = w'.eventLog ∧ ∃ m, w'.memoryMap.registerUnmap .lp64 (toIntptr c.ret)
        (roundUpToPageMultiple pageSize c.len).toNat = some (false, m)

/-- The wrapper does not look at the call. -/
theorem next_file (h : c.anonymous = false) : w.next pageSize (.mmap c) = some w := by
  have hnot : ¬ c.Registers := by
    rintro ⟨-, -, hanonymous⟩
    exact absurd hanonymous (by simp [h])
  rw [next, Wrapper.mmap, if_neg hnot]

/-- Where no mappings overlap, unmapping the file is reported. -/
theorem Replaces.reported {k : ℕ} {time : ℚ≥0} (h : Replaces pageSize w c)
    (hm : w.memoryMap.WellFormed .lp64) (hpage : pageSize.toNat = 2 ^ k)
    (hsmall : kernelLength pageSize c.len < 2 ^ 32)
    (hnext : w.next pageSize (.munmap ⟨false, c.ret, c.len, true, time⟩) = some w') :
    w'.eventLog = w.eventLog ++ [.unmap time c.ret c.len] := by
  obtain ⟨x, ⟨hlo, hhi⟩, howner⟩ := h.overlaps
  obtain ⟨hstart, hsize, hrange⟩ := range_eq_kernel hpage h.placed hsmall
  obtain ⟨known, hunmap, hlog⟩ := munmap_registers rfl rfl hnext
  rw [hstart, hsize] at hunmap
  obtain ⟨-, -, hunknown⟩ := MemoryMap.covers_registerUnmap hm (by omega) hrange hunmap
  cases known with
  | true => exact hlog
  | false => exact absurd (MemoryMap.covers_iff.mpr howner) (hunknown rfl x hlo hhi)

/-- No mapping takes the owner of an address away. -/
theorem owner_next_mmap {x : ℤ} (h : w.memoryMap.owner x ≠ none)
    (hnext : w.next pageSize (.mmap c) = some w') : w'.memoryMap.owner x ≠ none := by
  rcases next_cases hnext with ⟨_, handle, -, -, hmap⟩ | ⟨_, _, heq, -⟩ | ⟨hsame, -⟩
  · obtain ⟨e, he, hcovers⟩ := MemoryMap.covers_iff.mpr h
    refine MemoryMap.covers_iff.mp ⟨e, ?_, hcovers⟩
    rw [hmap]
    exact SortedMap.mem_place_old he
  · exact nomatch heq
  · rwa [hsame]

theorem owner_mmaps {x : ℤ} (later : List MmapCall) (h : w.memoryMap.owner x ≠ none)
    (hrun : (later.map Call.mmap).foldlM (next pageSize) w = some w') :
    w'.memoryMap.owner x ≠ none := by
  induction later generalizing w with
  | nil => rwa [← Option.some.inj hrun]
  | cons c later ih =>
      rw [List.map_cons, List.foldlM_cons] at hrun
      obtain ⟨w₁, hnext, hrest⟩ := Option.bind_eq_some_iff.mp hrun
      exact ih (owner_next_mmap h hnext) hrest

/-- In no state is replaced memory forgotten. Some of it is still owned after the
call, and after all mappings that follow. -/
theorem not_forgets (h : Replaces pageSize w c) :
    ∃ w', w.next pageSize (.mmap c) = some w' ∧ ¬ Forgets pageSize c w w' ∧
      ∀ (later : List MmapCall) (w'' : Wrapper),
        (later.map Call.mmap).foldlM (next pageSize) w' = some w'' →
          ∃ x, c.Maps pageSize x ∧ w''.memoryMap.owner x ≠ none := by
  obtain ⟨x, hx, howner⟩ := h.overlaps
  refine ⟨w, next_file h.file, fun hforgets => ?_, fun later w'' hrun => ?_⟩
  · exact howner (hforgets.unowned x hx)
  · exact ⟨x, hx, owner_mmaps later howner hrun⟩

/-- Two anonymous pages. -/
def twoPages : List Call := [.mmap ⟨false, 0x10000, 8192, true, 0, [1]⟩]

/-- A page of a file over the second one. -/
def filePage : MmapCall := ⟨false, 0x11000, 4096, false, 1, [2]⟩

theorem replaces_filePage (hrun : run 4096 twoPages = some w) : Replaces 4096 w filePage where
  file := rfl
  succeeds := by decide
  placed := by decide
  overlaps := by
    have howner : ∀ w ∈ run 4096 twoPages, w.memoryMap.owner 0x11000 ≠ none := by decide +kernel
    exact ⟨0x11000, by decide, howner w hrun⟩

theorem not_forgets_filePage : ∃ w, run 4096 twoPages = some w ∧
    ∃ w', w.next 4096 (.mmap filePage) = some w' ∧ ¬ Forgets 4096 filePage w w' ∧
      ∀ (later : List MmapCall) (w'' : Wrapper),
        (later.map Call.mmap).foldlM (next 4096) w' = some w'' →
          ∃ x, filePage.Maps 4096 x ∧ w''.memoryMap.owner x ≠ none := by
  obtain ⟨w, hrun⟩ : ∃ w, run 4096 twoPages = some w :=
    Option.isSome_iff_exists.mp (by decide +kernel)
  exact ⟨w, hrun, not_forgets (replaces_filePage hrun)⟩

/-- The second page keeps its owner under the file. -/
theorem not_all_forget : ¬ ∀ calls w c w', run 4096 calls = some w → Replaces 4096 w c →
    w.next 4096 (.mmap c) = some w' → Forgets 4096 c w w' := by
  intro h
  obtain ⟨w, hrun⟩ : ∃ w, run 4096 twoPages = some w :=
    Option.isSome_iff_exists.mp (by decide +kernel)
  have hforgets := h twoPages w filePage w hrun (replaces_filePage hrun) (next_file rfl)
  obtain ⟨x, hx, howner⟩ := (replaces_filePage hrun).overlaps
  exact howner (hforgets.unowned x hx)

end Wrapper
end AllocCounter.MmapCounter
