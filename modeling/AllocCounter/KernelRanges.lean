import AllocCounter.SliceParts
import AllocCounter.KernelRaces

/-!
# The ranges of the kernel

The kernel maps and unmaps whole pages. The wrapper rounds a length up in the same
way and keeps 32 bits of the result, so its ranges are those of the kernel as long
as the pages of a call take less than 4 GiB, unless they start at address zero.
-/
namespace AllocCounter.MmapCounter

/-- The number of bytes that the kernel maps or unmaps. -/
def kernelLength (pageSize length : UInt64) : ℕ := roundedUp pageSize.toNat length.toNat

namespace Call

/-- The call that makes a mapping known to the wrapper. -/
def registered : Call → Option MmapCall
  | .mmap c => if c.Registers then some c else none
  | .munmap _ => none

/-- The kernel fails an `mmap` or places it among the addresses of a process. -/
def Placed (pageSize : UInt64) : Call → Prop
  | .mmap c => c.ret = MAP_FAILED ∨
      c.ret.toNat + (kernelLength pageSize c.len : ℤ) ≤ Target.lp64.intptrMax
  | .munmap _ => True

instance (pageSize : UInt64) : (call : Call) → Decidable (call.Placed pageSize)
  | .mmap _ => inferInstanceAs (Decidable (_ ∨ _))
  | .munmap _ => inferInstanceAs (Decidable True)

/-- A successful call from outside the library that maps or unmaps pages among the
addresses of a process; what it maps is anonymous. -/
def Succeeds (pageSize : UInt64) (call : Call) : Prop :=
  (match call with
    | .mmap c => c.inLibrary = false ∧ c.anonymous = true
    | .munmap c => c.inLibrary = false ∧ c.succeeds = true) ∧
  pageSize.toNat ∣ call.pointer.toNat ∧ call.length ≠ 0 ∧
    call.pointer.toNat + (kernelLength pageSize call.length : ℤ) ≤ Target.lp64.intptrMax

instance (pageSize : UInt64) : (call : Call) → Decidable (call.Succeeds pageSize)
  | .mmap _ | .munmap _ => inferInstanceAs (Decidable (_ ∧ _))

end Call

/-- The calls that made mappings known, in order. -/
def registeredCalls (calls : List Call) : List MmapCall := calls.filterMap Call.registered

theorem registeredCalls_concat (calls : List Call) (call : Call) :
    registeredCalls (calls ++ [call]) = registeredCalls calls ++ call.registered.toList := by
  cases h : call.registered <;> simp [registeredCalls, h]

theorem of_mem_registeredCalls {calls : List Call} {c : MmapCall} (h : c ∈ registeredCalls calls) :
    .mmap c ∈ calls ∧ c.Registers := by
  obtain ⟨call, hcall, heq⟩ := List.mem_filterMap.mp h
  cases call with
  | munmap c => exact nomatch heq
  | mmap c =>
      simp only [Call.registered] at heq
      split_ifs at heq with hregisters
      rw [← Option.some.inj heq]
      exact ⟨hcall, hregisters⟩

section

variable {pageSize : UInt64} {k : ℕ}

theorem isLeast_kernelLength (hpage : pageSize.toNat = 2 ^ k) (length : UInt64) :
    IsLeast {n | length.toNat ≤ n ∧ pageSize.toNat ∣ n} (kernelLength pageSize length) :=
  isLeast_roundedUp (hpage ▸ Nat.two_pow_pos k) length.toNat

/-- Pages that fit the addresses of a process are not lost to an overflow. -/
theorem toNat_roundUpToPageMultiple (hpage : pageSize.toNat = 2 ^ k) (length : UInt64)
    (hfits : (kernelLength pageSize length : ℤ) ≤ Target.lp64.intptrMax) :
    (roundUpToPageMultiple pageSize length).toNat = kernelLength pageSize length % 2 ^ 32 := by
  have hsum : length.toNat + (pageSize.toNat - 1) < 2 ^ 64 := by
    have hpageLt := pageSize.toNat_lt
    obtain ⟨hle, hdvd⟩ := (isLeast_kernelLength hpage length).1
    simp only [Target.intptrMax, Target.bits] at hfits
    by_cases hzero : kernelLength pageSize length = 0
    · omega
    · have hpages := Nat.le_of_dvd (Nat.pos_of_ne_zero hzero) hdvd
      omega
  rw [roundUpToPageMultiple, UInt64.toNat_toUInt32, toNat_add_mask_and_not hpage hsum, kernelLength]

/-- Where the rounded length fits 32 bits, the wrapper computes the range of the kernel. -/
theorem range_eq_kernel (hpage : pageSize.toNat = 2 ^ k) {pointer : Address} {length : UInt64}
    (hfits : pointer.toNat + (kernelLength pageSize length : ℤ) ≤ Target.lp64.intptrMax)
    (hsmall : kernelLength pageSize length < 2 ^ 32) :
    toIntptr pointer = pointer.toNat ∧
      (roundUpToPageMultiple pageSize length).toNat = kernelLength pageSize length ∧
      Representable .lp64 pointer.toNat (kernelLength pageSize length) := by
  have hsize := toNat_roundUpToPageMultiple hpage length (by omega)
  rw [Nat.mod_eq_of_lt hsmall] at hsize
  exact ⟨toIntptr_eq hfits, hsize, representable_toNat hfits⟩

theorem kernelLength_pos (hpage : pageSize.toNat = 2 ^ k) {length : UInt64} (h : length ≠ 0) :
    0 < kernelLength pageSize length := by
  have hpos : 0 < length.toNat := Nat.pos_of_ne_zero fun hzero => h (UInt64.toNat_inj.mp hzero)
  exact hpos.trans_le (isLeast_kernelLength hpage length).1.1

end

/-- What the wrapper registers for a placed `mmap` is in the range of the kernel, if
there is one, and it can be represented. -/
theorem Call.Placed.range {pageSize : UInt64} {k : ℕ} (hpage : pageSize.toNat = 2 ^ k)
    {c : MmapCall} (h : (Call.mmap c).Placed pageSize) :
    Representable .lp64 (toIntptr c.ret) (roundUpToPageMultiple pageSize c.len).toNat ∧
      (c.ret ≠ MAP_FAILED → toIntptr c.ret = c.ret.toNat ∧
        (roundUpToPageMultiple pageSize c.len).toNat ≤ kernelLength pageSize c.len) := by
  cases h with
  | inl hfailed =>
      have hstart : toIntptr c.ret = -1 := by rw [hfailed]; decide
      have hsmall := (roundUpToPageMultiple pageSize c.len).toNat_lt
      refine ⟨⟨by rw [hstart]; decide, ?_⟩, fun hne => absurd hfailed hne⟩
      rw [hstart]
      simp only [Target.intptrMax, Target.bits]
      omega
  | inr hplaced =>
      have hstart := toIntptr_eq hplaced
      have hsize := toNat_roundUpToPageMultiple hpage c.len (by omega)
      have hle := Nat.mod_le (kernelLength pageSize c.len) (2 ^ 32)
      rw [hstart, hsize]
      exact ⟨representable_toNat (by omega), fun _ => ⟨rfl, hle⟩⟩

namespace Wrapper

variable {pageSize : UInt64} {w w' : Wrapper} {call : Call} {k : ℕ}

/-- A call registers a mapping, or an unmapping, or it leaves the map alone. -/
theorem next_cases (h : w.next pageSize call = some w') :
    (∃ c handle, call = .mmap c ∧ c.Registers ∧ w'.memoryMap = w.memoryMap.registerMap
      ⟨handle, toIntptr c.ret, (roundUpToPageMultiple pageSize c.len).toNat⟩) ∨
    (∃ c known, call = .munmap c ∧ w.memoryMap.registerUnmap .lp64 (toIntptr c.addr)
      (roundUpToPageMultiple pageSize c.length).toNat = some (known, w'.memoryMap)) ∨
    w'.memoryMap = w.memoryMap ∧ call.registered = none := by
  cases call with
  | mmap c =>
      rw [next, Wrapper.mmap] at h
      split_ifs at h with hregisters
      · obtain ⟨handle, _, _, -, -, hmap, -⟩ := registerMapping_spec h
        exact .inl ⟨c, handle, rfl, hregisters, hmap⟩
      · rw [← Option.some.inj h]
        exact .inr (.inr ⟨rfl, if_neg hregisters⟩)
  | munmap c =>
      rcases munmap_cases h with ⟨-, rfl⟩ | ⟨-, -, -, known, m, _, hunmap, rfl, -⟩ | ⟨-, -, rfl⟩
      · exact .inr (.inr ⟨rfl, rfl⟩)
      · exact .inr (.inl ⟨c, known, rfl, hunmap⟩)
      · exact .inr (.inr ⟨rfl, rfl⟩)

/-- The handles are those of the map. Every slice belongs to one of the registered
calls, and is a part of what was registered for it. -/
structure Attributes (pageSize : UInt64) (calls : List Call) (w : Wrapper) : Prop where
  holds : w.Holds
  made : w.memoryMap.made = (registeredCalls calls).length
  parts : w.memoryMap.Parts .lp64
  origin : ∀ e ∈ w.memoryMap.slices.entries, ∃ c,
    (registeredCalls calls)[e.2.allocation.object]? = some c ∧
      e.2.allocation.target.originalStart = toIntptr c.ret ∧
      e.2.allocation.target.originalSize = (roundUpToPageMultiple pageSize c.len).toNat

theorem attributes_initial : Attributes pageSize [] {} where
  holds := holds_initial
  made := rfl
  parts := MemoryMap.parts_empty
  origin _ h := nomatch h

theorem Attributes.next {calls : List Call} (h : Attributes pageSize calls w)
    (hpage : pageSize.toNat = 2 ^ k) (hplaced : call.Placed pageSize)
    (hnext : w.next pageSize call = some w') : Attributes pageSize (calls ++ [call]) w' := by
  have hholds := h.holds.next hnext
  rcases next_cases hnext with ⟨c, handle, rfl, hregisters, hmap⟩ | ⟨c, known, rfl, hunmap⟩ |
    ⟨hsame, hnone⟩
  · have hone : registeredCalls (calls ++ [.mmap c]) = registeredCalls calls ++ [c] := by
      rw [registeredCalls_concat, Call.registered, if_pos hregisters, Option.toList_some]
    obtain ⟨hrange, -⟩ := hplaced.range hpage
    have hparts := h.parts.registerMap
      (a := ⟨handle, toIntptr c.ret, (roundUpToPageMultiple pageSize c.len).toNat⟩)
      (by dsimp only; exact hrange)
    refine ⟨hholds, ?_, ?_, fun e he => ?_⟩
    · rw [hmap, hone, List.length_append, List.length_singleton, ← h.made]
      rfl
    · rwa [hmap]
    · rw [hmap] at he
      cases MemoryMap.of_mem_registerMap he with
      | inl hnew =>
          rw [hnew, hone, h.made]
          exact ⟨c, List.getElem?_concat_length, by dsimp only, by dsimp only⟩
      | inr hold =>
          obtain ⟨c', hc', hrange⟩ := h.origin e hold
          refine ⟨c', ?_, hrange⟩
          rw [hone, List.getElem?_append_left (List.getElem?_eq_some_iff.mp hc').choose]
          exact hc'
  · have hnone : registeredCalls (calls ++ [.munmap c]) = registeredCalls calls := by
      rw [registeredCalls_concat, Call.registered, Option.toList_none, List.append_nil]
    obtain ⟨hmade, hslices⟩ := MemoryMap.of_mem_registerUnmap hunmap
    refine ⟨hholds, ?_, h.parts.registerUnmap hunmap, fun e' he' => ?_⟩
    · rw [hmade, hnone, h.made]
    obtain ⟨e, he, heq⟩ := hslices e' he'
    rw [heq, hnone]
    exact h.origin e he
  · have hnone : registeredCalls (calls ++ [call]) = registeredCalls calls := by
      rw [registeredCalls_concat, hnone, Option.toList_none, List.append_nil]
    refine ⟨hholds, ?_, ?_, ?_⟩
    · rw [hsame, hnone, h.made]
    · rw [hsame]
      exact h.parts
    · rw [hsame, hnone]
      exact h.origin

theorem attributes_run (hpage : pageSize.toNat = 2 ^ k) (calls : List Call)
    (hplaced : ∀ call ∈ calls, call.Placed pageSize) (hrun : run pageSize calls = some w) :
    Attributes pageSize calls w := by
  induction calls using List.reverseRecOn generalizing w with
  | nil =>
      rw [← Option.some.inj hrun]
      exact attributes_initial
  | append_singleton calls call ih =>
      rw [run_concat] at hrun
      obtain ⟨w₀, h₀, hnext⟩ := Option.bind_eq_some_iff.mp hrun
      have hbefore := ih (fun c hc => hplaced c (List.mem_append_left _ hc)) h₀
      exact hbefore.next hpage (hplaced call (by simp)) hnext

/-- The call changes the map by this many bytes at its pointer, and what it logs is
its own length. -/
def Changes (call : Call) (size : ℕ) (w w' : Wrapper) : Prop :=
  match call with
  | .mmap c => ∃ handle id,
      w'.memoryMap = w.memoryMap.registerMap ⟨handle, c.ret.toNat, size⟩ ∧
        w'.eventLog = w.eventLog ++ [.map c.time c.ret c.len id]
  | .munmap c => ∃ known,
      w.memoryMap.registerUnmap .lp64 c.addr.toNat size = some (known, w'.memoryMap) ∧
        w'.eventLog = w.eventLog ++ if known then [.unmap c.time c.addr c.length] else []

/-- In every state the call changes the map by the range of the kernel. After every
run it fails no assertion, and unmapping its pages leaves no slice of a mapping with
its pointer and length. With pages of 4096 bytes the parser derives the size of the
change from the log. -/
structure RegistersKernelRange (pageSize : UInt64) (call : Call) : Prop where
  changes : ∃ size, IsLeast {n | call.length.toNat ≤ n ∧ pageSize.toNat ∣ n} size ∧
    ∀ w w', w.next pageSize call = some w' → Changes call size w w'
  registers : ∀ calls w, (∀ c ∈ calls, c.Placed pageSize) → run pageSize calls = some w →
    ∃ w', w.next pageSize call = some w'
  unmaps : ∀ calls w time, (∀ c ∈ calls, c.Placed pageSize) → run pageSize calls = some w →
    ∃ w', w.next pageSize (.munmap ⟨false, call.pointer, call.length, true, time⟩) = some w' ∧
      ∀ e ∈ w'.memoryMap.slices.entries, ∀ c,
        (registeredCalls calls)[e.2.allocation.object]? = some c →
          ¬ (c.ret = call.pointer ∧ c.len = call.length)
  parsed : pageSize = 4096 → ∀ w w', w.next pageSize call = some w' →
    Changes call (ParseMmapLog.roundUpPage call.length.toNat) w w'

theorem changes_kernelLength (hpage : pageSize.toNat = 2 ^ k) (hcall : call.Succeeds pageSize)
    (hsmall : kernelLength pageSize call.length < 2 ^ 32)
    (hnull : call.maps = true → call.pointer ≠ 0) (h : w.next pageSize call = some w') :
    Changes call (kernelLength pageSize call.length) w w' := by
  obtain ⟨hkind, -, -, hfits⟩ := hcall
  obtain ⟨hstart, hsize, -⟩ := range_eq_kernel hpage hfits hsmall
  cases call with
  | mmap c =>
      have hregisters : c.Registers := ⟨hkind.1, hnull rfl, hkind.2⟩
      rw [next, Wrapper.mmap, if_pos hregisters] at h
      obtain ⟨handle, _, id, -, -, hmap, hlog, -⟩ := registerMapping_spec h
      simp only [Call.pointer, Call.length] at hstart hsize
      rw [hstart, hsize] at hmap
      exact ⟨handle, id, hmap, hlog⟩
  | munmap c =>
      obtain ⟨known, hunmap, hlog⟩ := munmap_registers hkind.1 hkind.2 h
      simp only [Call.pointer, Call.length] at hstart hsize
      rw [hstart, hsize] at hunmap
      exact ⟨known, hunmap, hlog⟩

/-- An aligned unmapping among the addresses of a process fails no assertion. -/
theorem Attributes.registers_munmap {calls : List Call} (h : Attributes pageSize calls w)
    {c : MunmapCall} (hpage : pageSize.toNat = 2 ^ k) (haligned : pageSize.toNat ∣ c.addr.toNat)
    (hfits : c.addr.toNat + (kernelLength pageSize c.length : ℤ) ≤ Target.lp64.intptrMax) :
    ∃ w', w.next pageSize (.munmap c) = some w' := by
  have hsize := toNat_roundUpToPageMultiple hpage c.length (by omega)
  have hle := Nat.mod_le (kernelLength pageSize c.length) (2 ^ 32)
  apply h.holds.exists_next_munmap ((and_mask_eq_zero hpage).mpr haligned)
  rw [toIntptr_eq hfits, hsize]
  exact h.parts.isSome_registerUnmap (representable_toNat (by omega))

/-- Unmapping its own pages removes all slices of a mapping. -/
theorem Attributes.unmaps {calls : List Call} (h : Attributes pageSize calls w)
    {pointer : Address} {length : UInt64} {time : ℚ≥0} (hpage : pageSize.toNat = 2 ^ k)
    (hlength : length ≠ 0)
    (hfits : pointer.toNat + (kernelLength pageSize length : ℤ) ≤ Target.lp64.intptrMax)
    (hsmall : kernelLength pageSize length < 2 ^ 32)
    (hnext : w.next pageSize (.munmap ⟨false, pointer, length, true, time⟩) = some w')
    {e : ℤ × MemorySlice InternedStackTrace} (he : e ∈ w'.memoryMap.slices.entries) {c : MmapCall}
    (hc : (registeredCalls calls)[e.2.allocation.object]? = some c) :
    ¬ (c.ret = pointer ∧ c.len = length) := by
  rintro ⟨rfl, rfl⟩
  obtain ⟨hstart, hsize, hrange⟩ := range_eq_kernel hpage hfits hsmall
  have hpos := kernelLength_pos hpage hlength
  obtain ⟨known, hunmap, -⟩ := munmap_registers rfl rfl hnext
  dsimp only at hunmap
  rw [hstart, hsize] at hunmap
  have hpart := h.parts.registerUnmap hunmap e he
  obtain ⟨old, hold, hallocation⟩ := (MemoryMap.of_mem_registerUnmap hunmap).2 e he
  obtain ⟨c', hc', horigin⟩ := h.origin old hold
  rw [← hallocation] at hc' horigin
  obtain rfl : c = c' := Option.some.inj (hc.symm.trans hc')
  obtain ⟨hkey, -, hle, hge, hnonempty⟩ := hpart
  rw [horigin.1, horigin.2, hstart, hsize] at *
  refine (MemoryMap.keys_registerUnmap hrange hunmap).1 e he ?_
  have hbytes := hnonempty hpos
  rw [hkey]
  omega

/-- The low bits of a multiple of the page size reach at most to its last page. -/
theorem mod_le_sub {n : ℕ} (hn : 2 ^ 32 ≤ n) (hdvd : 2 ^ k ∣ n) : n % 2 ^ 32 ≤ n - 2 ^ k := by
  by_cases hk : k ≤ 32
  · have hpage : 2 ^ k ≤ 2 ^ 32 := Nat.pow_le_pow_right (by decide) hk
    omega
  · have hzero := Nat.mod_eq_zero_of_dvd ((Nat.pow_dvd_pow 2 (not_le.mp hk).le).trans hdvd)
    rw [hzero]
    exact Nat.zero_le _

/-- The wrapper after one page was registered, wherever it is. -/
theorem exists_registered (hpage : pageSize.toNat = 2 ^ k) (start : ℕ)
    (hfits : start + (pageSize.toNat : ℤ) ≤ Target.lp64.intptrMax) :
    ∃ w : Wrapper, w.Holds ∧ w.memoryMap.Parts .lp64 ∧
      (start : ℤ) ∈ w.memoryMap.slices.entries.map Prod.fst := by
  let c : MmapCall := ⟨false, .ofNat start, pageSize, true, 0, []⟩
  have hret : c.ret.toNat = start := by
    simp only [Target.intptrMax, Target.bits] at hfits
    exact UInt64.toNat_ofNat_of_lt' (by simp only [UInt64.size]; omega)
  have hlength : kernelLength pageSize pageSize = pageSize.toNat :=
    (isLeast_kernelLength hpage pageSize).unique
      ⟨⟨le_rfl, dvd_rfl⟩, fun n hn => hn.1⟩
  have hplaced : c.ret.toNat + (kernelLength pageSize c.len : ℤ) ≤ Target.lp64.intptrMax := by
    rw [hret, hlength]
    exact hfits
  obtain ⟨w, hregister, hholds, -⟩ := holds_initial.registerMapping pageSize c
  obtain ⟨handle, _, id, -, -, hmap, -⟩ := registerMapping_spec hregister
  obtain ⟨hrange, -⟩ := Call.Placed.range hpage (c := c) (.inr hplaced)
  have hparts := MemoryMap.parts_empty.registerMap
    (a := (⟨handle, toIntptr c.ret, (roundUpToPageMultiple pageSize c.len).toNat⟩ :
      MMapAllocation InternedStackTrace)) (by dsimp only; exact hrange)
  refine ⟨w, hholds, by rwa [hmap], ?_⟩
  rw [hmap, toIntptr_eq hplaced, hret]
  exact List.mem_singleton_self _

theorem RegistersKernelRange.of_mmap {c : MmapCall} (hpage : pageSize.toNat = 2 ^ k)
    (hcall : (Call.mmap c).Succeeds pageSize) (h : RegistersKernelRange pageSize (.mmap c)) :
    kernelLength pageSize c.len < 2 ^ 32 ∧ c.ret ≠ 0 := by
  obtain ⟨hkind, -, -, hfits⟩ := hcall
  obtain ⟨size, hleast, hchanges⟩ := h.changes
  have hnull : c.ret ≠ 0 := by
    intro hnull
    have hsame : ({} : Wrapper).next pageSize (.mmap c) = some {} :=
      if_neg fun hregisters => hregisters.2.1 hnull
    obtain ⟨_, _, -, hlog⟩ := hchanges _ _ hsame
    exact absurd hlog (by simp)
  refine ⟨?_, hnull⟩
  obtain ⟨w, hregister, -⟩ := holds_initial.registerMapping pageSize c
  have hnext : ({} : Wrapper).next pageSize (.mmap c) = some w :=
    (if_pos ⟨hkind.1, hnull, hkind.2⟩).trans hregister
  obtain ⟨_, _, id, -, -, hmap, -⟩ := registerMapping_spec hregister
  obtain ⟨_, _, hmap', -⟩ := hchanges _ _ hnext
  have hentries := congrArg (fun m => m.slices.entries.map fun e => e.2.size) (hmap.symm.trans hmap')
  have hsize : (roundUpToPageMultiple pageSize c.len).toNat = size := List.head_eq_of_cons_eq hentries
  rw [(isLeast_kernelLength hpage c.len).unique hleast, ← hsize]
  exact UInt32.toNat_lt _

/-- If the length does not fit, the last page of the range is left in the map. -/
theorem RegistersKernelRange.of_munmap {c : MunmapCall} (hpage : pageSize.toNat = 2 ^ k)
    (hcall : (Call.munmap c).Succeeds pageSize) (h : RegistersKernelRange pageSize (.munmap c)) :
    kernelLength pageSize c.length < 2 ^ 32 := by
  obtain ⟨⟨hlib, hok⟩, haligned, -, hfits⟩ := hcall
  obtain ⟨size, hleast, hchanges⟩ := h.changes
  obtain rfl := (isLeast_kernelLength hpage c.length).unique hleast
  by_contra hlarge
  rw [not_lt] at hlarge
  simp only [Call.pointer, Call.length] at haligned hfits hleast
  have hstart := toIntptr_eq hfits
  have hsize := toNat_roundUpToPageMultiple hpage c.length (by omega)
  have hdvd := hleast.1.2
  have hmod := mod_le_sub hlarge (hpage ▸ hdvd)
  have hle := Nat.le_of_dvd (by omega) hdvd
  have hpos : 0 < pageSize.toNat := hpage ▸ Nat.two_pow_pos k
  have hshort : Representable .lp64 c.addr.toNat (kernelLength pageSize c.length % 2 ^ 32) :=
    representable_toNat (by omega)
  -- a page at the end of the range of the kernel
  obtain ⟨w, hholds, hparts, hmem⟩ := exists_registered hpage
    (c.addr.toNat + (kernelLength pageSize c.length - pageSize.toNat)) (by omega)
  obtain ⟨w', hnext⟩ : ∃ w', w.next pageSize (.munmap c) = some w' := by
    apply hholds.exists_next_munmap ((and_mask_eq_zero hpage).mpr haligned)
    rw [hstart, hsize]
    exact hparts.isSome_registerUnmap hshort
  obtain ⟨known, hunmap, -⟩ := hchanges w w' hnext
  obtain ⟨_, hunmap', -⟩ := munmap_registers hlib hok hnext
  rw [hstart, hsize] at hunmap'
  obtain ⟨e, he, hkey⟩ := List.mem_map.mp
    ((MemoryMap.keys_registerUnmap hshort hunmap').2 _ hmem (by omega))
  refine (MemoryMap.keys_registerUnmap (representable_toNat hfits) hunmap).1 e he ?_
  rw [hkey]
  omega

/-- A successful call changes the map by the range of the kernel exactly when its pages
take less than 4 GiB and, if it maps them, they do not start at address zero. -/
theorem registersKernelRange_iff (hpage : ∃ k, pageSize.toNat = 2 ^ k)
    (hcall : call.Succeeds pageSize) : RegistersKernelRange pageSize call ↔
      kernelLength pageSize call.length < 2 ^ 32 ∧ (call.maps = true → call.pointer ≠ 0) := by
  obtain ⟨k, hpage⟩ := hpage
  constructor
  · intro h
    cases call with
    | mmap c => exact ⟨(h.of_mmap hpage hcall).1, fun _ => (h.of_mmap hpage hcall).2⟩
    | munmap c => exact ⟨h.of_munmap hpage hcall, nofun⟩
  · intro ⟨hsmall, hnull⟩
    have hchanges : ∀ w w', w.next pageSize call = some w' →
        Changes call (kernelLength pageSize call.length) w w' :=
      fun w w' hnext => changes_kernelLength hpage hcall hsmall hnull hnext
    obtain ⟨-, haligned, hlength, hfits⟩ := hcall
    refine ⟨⟨_, isLeast_kernelLength hpage call.length, hchanges⟩, ?_, ?_, ?_⟩
    · intro calls w hplaced hrun
      have h := attributes_run hpage calls hplaced hrun
      cases call with
      | mmap c => exact h.holds.exists_next_mmap pageSize c
      | munmap c => exact h.registers_munmap hpage haligned hfits
    · intro calls w time hplaced hrun
      have h := attributes_run hpage calls hplaced hrun
      obtain ⟨w', hnext⟩ := h.registers_munmap
        (c := ⟨false, call.pointer, call.length, true, time⟩) hpage haligned hfits
      exact ⟨w', hnext, fun e he c hc => h.unmaps hpage hlength hfits hsmall hnext he hc⟩
    · rintro rfl w w' hnext
      rw [ParseMmapLog.roundUpPage_eq]
      exact hchanges w w' hnext

/-- A mapping of so many bytes. -/
def mapping (length : UInt64) : Call := .mmap ⟨false, 0x7f0000000000, length, true, 0, []⟩

/-- A mapping of two pages. -/
theorem registersKernelRange_iff_twoPages : RegistersKernelRange 4096 (mapping 7500) :=
  (registersKernelRange_iff ⟨12, rfl⟩ (by decide)).mpr ⟨by decide, fun _ => by decide⟩

/-- A reservation of 4 GiB. -/
theorem not_registersKernelRange_reservation :
    ¬ ∀ (pageSize : UInt64) (call : Call), (∃ k, pageSize.toNat = 2 ^ k) →
      call.Succeeds pageSize → RegistersKernelRange pageSize call := by
  intro h
  have hsucceeds : (mapping 0x100000000).Succeeds 4096 := by decide
  have hrange := h 4096 (mapping 0x100000000) ⟨12, rfl⟩ hsucceeds
  exact absurd (hrange.of_mmap (k := 12) rfl hsucceeds).1 (by decide)

end Wrapper
end AllocCounter.MmapCounter
