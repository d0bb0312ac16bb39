import AllocCounter.EventLog
import AllocCounter.LabelledExecution

/-!
# Races with the kernel

Threads that call the wrapped `mmap` and `munmap`. The real function runs before
the lock is taken, so a call is two steps: what the kernel does, and what the
wrapper registers later. A range that one thread has unmapped may be mapped again
by another thread that registers first. Without that, and as long as rounded
lengths fit 32 bits, the map covers what the kernel has mapped and no call in
progress has yet to register, together with what is still to be unregistered.
-/
namespace AllocCounter

open MapAgreement

namespace MmapCounter

namespace Call

def maps : Call → Bool
  | .mmap _ => true
  | .munmap _ => false

def pointer : Call → Address
  | .mmap c => c.ret
  | .munmap c => c.addr

def length : Call → UInt64
  | .mmap c => c.len
  | .munmap c => c.length

/-- The address is in the pages of the call. -/
def Covers (call : Call) (x : ℤ) : Prop :=
  call.pointer.toNat ≤ x ∧ x < call.pointer.toNat + pageRounded call.length

/-- What the kernel does in the call. -/
def kernelEvent : Call → MapEvent Unit
  | .mmap c => .map c.ret.toNat (pageRounded c.len) ()
  | .munmap c => .unmap c.addr.toNat (pageRounded c.length)

/-- A successful call from outside the library, of aligned and anonymous memory
that is not empty and fits the addresses of a process. -/
def Ordinary (call : Call) : Prop :=
  (match call with
    | .mmap c => c.inLibrary = false ∧ c.anonymous = true
    | .munmap c => c.inLibrary = false ∧ c.succeeds = true) ∧
  call.pointer.toNat % 4096 = 0 ∧ call.length ≠ 0 ∧
    call.pointer.toNat + (pageRounded call.length : ℤ) ≤ Target.lp64.intptrMax

instance : (call : Call) → Decidable call.Ordinary
  | .mmap _ | .munmap _ => inferInstanceAs (Decidable (_ ∧ _))

end Call

theorem toIntptr_eq {pointer : Address} {size : ℕ}
    (h : pointer.toNat + (size : ℤ) ≤ Target.lp64.intptrMax) : toIntptr pointer = pointer.toNat :=
  Target.lp64.intptr_eq (by simp [Target.intptrMin, Target.bits]) (by omega)

theorem representable_toNat {pointer : Address} {size : ℕ}
    (h : pointer.toNat + (size : ℤ) ≤ Target.lp64.intptrMax) :
    Representable .lp64 pointer.toNat size := by
  refine ⟨?_, h⟩
  simp only [Target.intptrMin, Target.bits]
  omega

theorem roundUpToPageMultiple_eq {length : UInt64} (hfits : length.toNat + 4095 < 2 ^ 64)
    (hsmall : pageRounded length < 2 ^ 32) :
    (roundUpToPageMultiple 4096 length).toNat = pageRounded length := by
  have hround := toNat_add_mask_and_not (m := 4096) (k := 12) rfl hfits
  rw [roundUpToPageMultiple, UInt64.toNat_toUInt32, hround]
  exact Nat.mod_eq_of_lt hsmall

/-- Some slice has the address. -/
def MemoryMap.Covers {T : Type*} (m : MemoryMap T) (x : ℤ) : Prop :=
  ∃ e ∈ m.slices.entries, e.2.start ≤ x ∧ x < e.2.start + e.2.size

end MmapCounter

def ParseMmapLog.MemoryMap.Covers {S : Type*} (m : ParseMmapLog.MemoryMap S) (x : ℤ) : Prop :=
  ∃ e ∈ m.dict.entries, e.2.start ≤ x ∧ x < e.2.start + e.2.size

namespace MmapCounter

section

variable {T S : Type*} {m m' : MemoryMap T} {n n' : ParseMmapLog.MemoryMap S} {t : Target}

theorem MemoryMap.covers_iff {x : ℤ} : m.Covers x ↔ m.owner x ≠ none := by
  simp [MemoryMap.Covers, MemoryMap.owner, Extent.ownerOf_eq_none, MemoryMap.extents,
    SortedMap.extents, Extent.Covers, MemorySlice.extent]

theorem offline_covers_iff {x : ℤ} : n.Covers x ↔ n.owner x ≠ none := by
  simp [ParseMmapLog.MemoryMap.Covers, ParseMmapLog.MemoryMap.owner, Extent.ownerOf_eq_none,
    ParseMmapLog.MemoryMap.extents, SortedMap.extents, Extent.Covers,
    ParseMmapLog.MemorySlice.extent, ParseMmapLog.MemorySlice.stop]

theorem MemoryMap.covers_registerMap (hm : m.WellFormed t) (a : MMapAllocation T)
    (hsize : 0 < a.originalSize) (hrange : Representable t a.originalStart a.originalSize)
    (hfree : ∀ x, a.originalStart ≤ x → x < a.originalStart + a.originalSize → ¬ m.Covers x) :
    (m.registerMap a).WellFormed t ∧ ∀ x, (m.registerMap a).Covers x ↔
      (a.originalStart ≤ x ∧ x < a.originalStart + a.originalSize) ∨ m.Covers x := by
  obtain ⟨hwf, -, howner⟩ := registerMap_spec hm a hsize hrange fun x hlo hhi => by
    simpa [covers_iff] using hfree x hlo hhi
  refine ⟨hwf, fun x => ?_⟩
  rw [covers_iff, covers_iff, howner]
  split_ifs with hx <;> simp [hx]

theorem MemoryMap.covers_registerUnmap (hm : m.WellFormed t) {start : ℤ} {size : ℕ}
    (hsize : 0 < size) (hrange : Representable t start size) {known : Bool}
    (h : m.registerUnmap t start size = some (known, m')) :
    m'.WellFormed t ∧ (∀ x, m'.Covers x ↔ m.Covers x ∧ ¬ (start ≤ x ∧ x < start + size)) ∧
      (known = false → ∀ x, start ≤ x → x < start + size → ¬ m.Covers x) := by
  obtain ⟨b, m₁, hunmap, hwf, -, hext, hknown⟩ := registerUnmap_spec hm start size hsize hrange
  obtain ⟨rfl, rfl⟩ := Prod.mk.inj (Option.some.inj (h.symm.trans hunmap))
  refine ⟨hwf, fun x => ?_, fun hfalse x hlo hhi => ?_⟩
  · rw [covers_iff, covers_iff, owner, hext, hm.tiled.ownerOf_cut (by omega)]
    split_ifs with hx <;> simp [owner, hx]
  · have hnil : Extent.cutOff start (start + size) m.extents = [] := by
      simpa [hfalse] using hknown
    rw [covers_iff, not_not]
    exact hm.tiled.cutOff_eq_nil.mp hnil x hlo hhi

theorem offline_covers_registerMap (hn : n.WellFormed) (a : ParseMmapLog.MMapAllocation S)
    (hsize : 0 < a.originalSize) :
    ∃ slice erased n', n.registerMap a = some (slice, erased, n') ∧ n'.WellFormed ∧
      ∀ x, n'.Covers x ↔
        (a.originalStart ≤ x ∧ x < a.originalStart + a.originalSize) ∨ n.Covers x := by
  obtain ⟨erased, n', hmap, hwf, -, howner, -⟩ :=
    ParseMmapLog.MemoryMap.registerMap_spec hn a hsize
  refine ⟨_, erased, n', hmap, hwf, fun x => ?_⟩
  rw [offline_covers_iff, offline_covers_iff, howner]
  split_ifs with hx <;> simp [hx]

theorem offline_covers_registerUnmap (hn : n.WellFormed) (start : ℤ) {size : ℤ}
    (hsize : 0 < size) :
    ∃ erased n', n.registerUnmap start size = some (erased, n') ∧ n'.WellFormed ∧
      ∀ x, n'.Covers x ↔ n.Covers x ∧ ¬ (start ≤ x ∧ x < start + size) := by
  obtain ⟨erased, n', hunmap, hwf, hext, -⟩ :=
    ParseMmapLog.MemoryMap.registerUnmap_spec hn start hsize
  refine ⟨erased, n', hunmap, hwf, fun x => ?_⟩
  rw [offline_covers_iff, offline_covers_iff, ParseMmapLog.MemoryMap.owner, hext,
    hn.tiled.ownerOf_cut (by omega)]
  split_ifs with hx <;> simp [ParseMmapLog.MemoryMap.owner, hx]

end

namespace Call

variable {call : Call}

theorem Ordinary.aligned (h : call.Ordinary) : call.pointer &&& (4096 - 1) = 0 :=
  (and_mask_eq_zero (k := 12) rfl).mpr (Nat.dvd_of_mod_eq_zero h.2.1)

theorem Ordinary.length_le (h : call.Ordinary) :
    call.pointer.toNat + call.length.toNat + 4095 < 2 ^ 64 ∧ 0 < pageRounded call.length := by
  obtain ⟨-, -, hlength, hfits⟩ := h
  have hpos : 0 < call.length.toNat :=
    Nat.pos_of_ne_zero fun hzero => hlength (UInt64.toNat_inj.mp hzero)
  simp only [pageRounded, Target.intptrMax, Target.bits] at hfits ⊢
  omega

/-- The range that the wrapper computes is the range of the call. -/
theorem Ordinary.range_eq (h : call.Ordinary) (hsmall : pageRounded call.length < 2 ^ 32) :
    toIntptr call.pointer = call.pointer.toNat ∧
      (roundUpToPageMultiple 4096 call.length).toNat = pageRounded call.length ∧
      Representable .lp64 call.pointer.toNat (pageRounded call.length) := by
  have hle := h.length_le.1
  obtain ⟨-, -, -, hfits⟩ := h
  exact ⟨toIntptr_eq hfits, roundUpToPageMultiple_eq (by omega) hsmall, representable_toNat hfits⟩

end Call

namespace Wrapper

variable {w w' : Wrapper}

/-- Map and handles keep their invariants, and the logged events can be replayed
and give the same addresses. -/
structure Replays (w : Wrapper) : Prop where
  holds : w.Holds
  wellFormed : w.memoryMap.WellFormed .lp64
  replay : ∃ off, offline (w.eventLog.filterMap LogLine.mapEvent) = some off ∧
    off.map.WellFormed ∧ ∀ x, off.map.Covers x ↔ w.memoryMap.Covers x

theorem replays_initial : Replays {} where
  holds := holds_initial
  wellFormed := MemoryMap.wellFormed_empty
  replay := ⟨{}, rfl, ParseMmapLog.MemoryMap.wellFormed_empty, fun x => by
    simp [MemoryMap.Covers, ParseMmapLog.MemoryMap.Covers, MemoryMap.empty,
      ParseMmapLog.MemoryMap.empty]⟩

/-- A mapping of free memory is added to the map and to the log. -/
theorem Replays.mmap (h : w.Replays) {c : MmapCall} (hcall : (Call.mmap c).Ordinary)
    (hsmall : pageRounded c.len < 2 ^ 32) (hret : c.ret ≠ 0)
    (hfree : ∀ x, (Call.mmap c).Covers x → ¬ w.memoryMap.Covers x)
    (hnext : w.next 4096 (.mmap c) = some w') :
    w'.Replays ∧ ∀ x, w'.memoryMap.Covers x ↔ (Call.mmap c).Covers x ∨ w.memoryMap.Covers x := by
  obtain ⟨hstart, hsize, hrange⟩ := hcall.range_eq hsmall
  have hpos := hcall.length_le.2
  have hregisters : c.Registers := ⟨hcall.1.1, hret, hcall.1.2⟩
  have hfailed : c.ret ≠ MAP_FAILED := by
    intro hfailed
    have haligned := hcall.2.1
    simp [Call.pointer, hfailed, MAP_FAILED] at haligned
  have hholds := h.holds.next hnext
  rw [next, Wrapper.mmap, if_pos hregisters] at hnext
  obtain ⟨handle, _, id, -, -, hmap, hlog, -⟩ := registerMapping_spec hnext
  simp only [Call.pointer, Call.length] at hstart hsize hrange hpos
  rw [hstart, hsize] at hmap
  obtain ⟨hwf, hcovers⟩ := MemoryMap.covers_registerMap h.wellFormed
    ⟨handle, c.ret.toNat, pageRounded c.len⟩ hpos hrange fun x hlo hhi => hfree x ⟨hlo, hhi⟩
  rw [← hmap] at hwf hcovers
  obtain ⟨off, hreplay, hoff, hsame⟩ := h.replay
  obtain ⟨slice, erased, n, hregister, hn, hncovers⟩ := offline_covers_registerMap hoff
    ⟨c.ret.toNat, pageRounded c.len, id⟩ (Int.natCast_pos.mpr hpos)
  refine ⟨⟨hholds, hwf, ⟨n, off.erased⟩, ?_, hn, fun x => ?_⟩, hcovers⟩
  · simp [hlog, LogLine.mapEvent, hfailed, offline_concat, hreplay, Offline.step, hregister]
  · rw [hncovers, hcovers, hsame]

/-- An unmapping is taken from the map, and it is logged unless it took nothing. -/
theorem Replays.munmap (h : w.Replays) {c : MunmapCall} (hcall : (Call.munmap c).Ordinary)
    (hsmall : pageRounded c.length < 2 ^ 32) (hnext : w.next 4096 (.munmap c) = some w') :
    w'.Replays ∧ ∀ x, w'.memoryMap.Covers x ↔
      w.memoryMap.Covers x ∧ ¬ (Call.munmap c).Covers x := by
  obtain ⟨hstart, hsize, hrange⟩ := hcall.range_eq hsmall
  have hpos := hcall.length_le.2
  obtain ⟨⟨hlib, hok⟩, -⟩ := hcall
  have hholds := h.holds.next hnext
  obtain ⟨known, hunmap, hlog⟩ := munmap_registers hlib hok hnext
  simp only [Call.pointer, Call.length] at hstart hsize hrange hpos
  rw [hstart, hsize] at hunmap
  obtain ⟨hwf, hcovers, hunknown⟩ := MemoryMap.covers_registerUnmap h.wellFormed hpos hrange hunmap
  obtain ⟨off, hreplay, hoff, hsame⟩ := h.replay
  cases known with
  | true =>
      obtain ⟨erased, n, hregister, hn, hncovers⟩ := offline_covers_registerUnmap hoff
        c.addr.toNat (Int.natCast_pos.mpr hpos)
      refine ⟨⟨hholds, hwf, ⟨n, off.erased ++ [erased]⟩, ?_, hn, fun x => ?_⟩, hcovers⟩
      · simp [hlog, LogLine.mapEvent, offline_concat, hreplay, Offline.step, hregister]
      · exact (hncovers x).trans ((and_congr_left' (hsame x)).trans (hcovers x).symm)
  | false =>
      refine ⟨⟨hholds, hwf, off, by simpa [hlog] using hreplay, hoff, fun x => ?_⟩, hcovers⟩
      -- nothing of the range was in the map, so the log may leave the call out
      rw [hsame]
      exact ⟨fun hx => (hcovers x).mpr ⟨hx, fun hin => hunknown rfl x hin.1 hin.2 hx⟩,
        fun hx => ((hcovers x).mp hx).1⟩

/-- No registration fails an assertion. -/
theorem Replays.registers (h : w.Replays) {call : Call} (hcall : call.Ordinary)
    (hsmall : pageRounded call.length < 2 ^ 32) : ∃ w', w.next 4096 call = some w' := by
  cases call with
  | mmap c => exact h.holds.exists_next_mmap 4096 c
  | munmap c =>
      obtain ⟨hstart, hsize, hrange⟩ := hcall.range_eq hsmall
      simp only [Call.pointer, Call.length] at hstart hsize hrange
      obtain ⟨known, m, hunmap, -⟩ := MemoryMap.registerUnmap_spec h.wellFormed _ _
        hcall.length_le.2 hrange
      apply h.holds.exists_next_munmap hcall.aligned
      rw [hstart, hsize]
      exact Option.isSome_iff_exists.mpr ⟨_, hunmap⟩

end Wrapper
end MmapCounter

namespace KernelRaces

open MmapCounter

/-- The wrapper, the history of the kernel, and for each thread the call whose
kernel step is done and whose registration is not. -/
structure State where
  wrapper : Wrapper := {}
  kernel : List (MapEvent Unit) := []
  inProgress : ℕ → Option Call := fun _ => none

namespace State

variable (s : State)

/-- The address is mapped in the kernel. -/
def Mapped (x : ℤ) : Prop := mapped s.kernel x = some ()

/-- The address is in an `mmap` in progress, or in a `munmap` in progress. -/
def Within (maps : Bool) (x : ℤ) : Prop :=
  ∃ thread call, s.inProgress thread = some call ∧ call.maps = maps ∧ call.Covers x

/-- A completed `mmap` returned the address, and nothing unmapped it since. -/
def Returned (x : ℤ) : Prop := s.Mapped x ∧ ¬ s.Within true x

def Idle : Prop := ∀ thread, s.inProgress thread = none

/-- The kernel step of a call. -/
def start (thread : ℕ) (call : Call) : State :=
  { s with
    kernel := s.kernel ++ [call.kernelEvent]
    inProgress := Function.update s.inProgress thread (some call) }

/-- The call of a thread is registered. -/
def finish (thread : ℕ) (wrapper : Wrapper) : State :=
  { s with wrapper := wrapper, inProgress := Function.update s.inProgress thread none }

@[simp] theorem start_inProgress (thread : ℕ) (call : Call) (i : ℕ) :
    (s.start thread call).inProgress i = if i = thread then some call else s.inProgress i :=
  Function.update_apply _ _ _ _

@[simp] theorem finish_inProgress (thread : ℕ) (wrapper : Wrapper) (i : ℕ) :
    (s.finish thread wrapper).inProgress i = if i = thread then none else s.inProgress i :=
  Function.update_apply _ _ _ _

end State

inductive Event where
  | kernel (thread : ℕ) (call : Call)
  | register (thread : ℕ)

def next (s : State) : Event → Option State
  | .kernel thread call => some (s.start thread call)
  | .register thread =>
      (s.inProgress thread).bind fun call =>
        (s.wrapper.next 4096 call).map (s.finish thread)

/-- The kernel hands out free memory, and only what was returned is unmapped. -/
def Allowed (s : State) : Event → Prop
  | .kernel thread call => s.inProgress thread = none ∧ call.Ordinary ∧
      ∀ x, call.Covers x → if call.maps then ¬ s.Mapped x else s.Returned x
  | .register thread => s.inProgress thread ≠ none

/-- A registered length fits 32 bits when rounded. A registered mapping is not at
the null address, and no `munmap` of a part of it still has to be registered. -/
def Orderly (s : State) : Event → Prop
  | .kernel _ _ => True
  | .register thread => ∀ call, s.inProgress thread = some call →
      pageRounded call.length < 2 ^ 32 ∧
        (call.maps → call.pointer ≠ 0 ∧ ∀ x, call.Covers x → ¬ s.Within false x)

def Initial (s : State) : Prop := s = {}

abbrev Run := Execution Initial fun s e s' => Allowed s e ∧ next s e = some s'

/-- An unmapping in progress hides what it covers until it is registered, and a
mapping in progress is not in the map yet. -/
structure Consistent (s : State) : Prop where
  replays : s.wrapper.Replays
  covers : ∀ x, s.wrapper.memoryMap.Covers x ↔ s.Within false x ∨ s.Returned x
  ordinary : ∀ thread call, s.inProgress thread = some call → call.Ordinary
  disjoint : ∀ i j a b x, s.inProgress i = some a → s.inProgress j = some b →
    a.maps = b.maps → a.Covers x → b.Covers x → i = j
  mapping : ∀ x, s.Within true x → s.Mapped x
  unmapping : ∀ x, s.Within false x → s.Mapped x → s.Within true x

variable {s s' : State} {thread : ℕ} {call : Call}

theorem consistent_initial : Consistent {} where
  replays := Wrapper.replays_initial
  covers := by
    simp [MemoryMap.Covers, MemoryMap.empty, State.Within, State.Returned, State.Mapped, mapped]
  ordinary := nofun
  disjoint _ _ _ _ _ ha := nomatch ha
  mapping := by simp [State.Within]
  unmapping := by simp [State.Within]

/-- A kernel step decides what is mapped in the range of the call. -/
theorem mapped_start (x : ℤ) : (s.start thread call).Mapped x ↔
    call.Covers x ∧ call.maps = true ∨ ¬ call.Covers x ∧ s.Mapped x := by
  have hcovers : call.kernelEvent.Covers x ↔ call.Covers x := by
    cases call <;> rfl
  have htag : call.kernelEvent.tag = if call.maps then some () else none := by
    cases call <;> rfl
  rw [State.Mapped, State.start, mapped_concat]
  by_cases hx : call.Covers x
  · simp [hcovers.mpr hx, hx, htag]
  · simp [hcovers.not.mpr hx, hx, State.Mapped]

theorem within_start (hidle : s.inProgress thread = none) (maps : Bool) (x : ℤ) :
    (s.start thread call).Within maps x ↔
      s.Within maps x ∨ call.maps = maps ∧ call.Covers x := by
  constructor
  · rintro ⟨i, a, ha, hmaps, hx⟩
    rw [State.start_inProgress] at ha
    split_ifs at ha
    · obtain rfl := Option.some.inj ha
      exact .inr ⟨hmaps, hx⟩
    · exact .inl ⟨i, a, ha, hmaps, hx⟩
  · rintro (⟨i, a, ha, hmaps, hx⟩ | ⟨hmaps, hx⟩)
    · have hi : i ≠ thread := by
        rintro rfl
        exact nomatch hidle.symm.trans ha
      exact ⟨i, a, by simp [hi, ha], hmaps, hx⟩
    · exact ⟨thread, call, by simp, hmaps, hx⟩

/-- Calls of one kind do not overlap, so a registration clears exactly its range. -/
theorem Consistent.within_finish (h : Consistent s) (hcall : s.inProgress thread = some call)
    (wrapper : Wrapper) (maps : Bool) (x : ℤ) :
    (s.finish thread wrapper).Within maps x ↔
      s.Within maps x ∧ ¬ (call.maps = maps ∧ call.Covers x) := by
  constructor
  · rintro ⟨i, a, ha, hmaps, hx⟩
    rw [State.finish_inProgress] at ha
    split_ifs at ha with hi
    refine ⟨⟨i, a, ha, hmaps, hx⟩, fun ⟨hsame, hx'⟩ => ?_⟩
    exact hi (h.disjoint i thread a call x ha hcall (hmaps.trans hsame.symm) hx hx')
  · rintro ⟨⟨i, a, ha, hmaps, hx⟩, hnot⟩
    have hi : i ≠ thread := by
      rintro rfl
      obtain rfl := Option.some.inj (ha.symm.trans hcall)
      exact hnot ⟨hmaps, hx⟩
    exact ⟨i, a, by simp [hi, ha], hmaps, hx⟩

theorem Consistent.ordinary_start (h : Consistent s) (hcall : call.Ordinary) (i : ℕ) (a : Call)
    (ha : (s.start thread call).inProgress i = some a) : a.Ordinary := by
  rw [State.start_inProgress] at ha
  split_ifs at ha
  · exact Option.some.inj ha ▸ hcall
  · exact h.ordinary i a ha

/-- A new call that meets no call of its kind. -/
theorem Consistent.disjoint_start (h : Consistent s)
    (hnew : ∀ x, call.Covers x → ¬ s.Within call.maps x) (i j : ℕ) (a b : Call) (x : ℤ)
    (ha : (s.start thread call).inProgress i = some a)
    (hb : (s.start thread call).inProgress j = some b) (hmaps : a.maps = b.maps)
    (hax : a.Covers x) (hbx : b.Covers x) : i = j := by
  rw [State.start_inProgress] at ha hb
  split_ifs at ha hb with hi hj hj
  · exact hi.trans hj.symm
  · obtain rfl := Option.some.inj ha
    exact absurd ⟨j, b, hb, hmaps.symm, hbx⟩ (hnew x hax)
  · obtain rfl := Option.some.inj hb
    exact absurd ⟨i, a, ha, hmaps, hax⟩ (hnew x hbx)
  · exact h.disjoint i j a b x ha hb hmaps hax hbx

/-- The kernel maps free memory. -/
theorem Consistent.map (h : Consistent s) (hidle : s.inProgress thread = none)
    (hcall : call.Ordinary) (hmaps : call.maps = true)
    (hfree : ∀ x, call.Covers x → ¬ s.Mapped x) : Consistent (s.start thread call) := by
  have hmapped : ∀ x, (s.start thread call).Mapped x ↔ call.Covers x ∨ s.Mapped x := by
    intro x
    rw [mapped_start]
    by_cases hx : call.Covers x <;> simp [hx, hmaps]
  have htrue : ∀ x, (s.start thread call).Within true x ↔ s.Within true x ∨ call.Covers x := by
    simp [within_start hidle, hmaps]
  have hfalse : ∀ x, (s.start thread call).Within false x ↔ s.Within false x := by
    simp [within_start hidle, hmaps]
  refine ⟨h.replays, fun x => ?_, h.ordinary_start hcall, h.disjoint_start fun x hx hin => ?_,
    fun x hx => ?_, fun x hx hmap => ?_⟩
  · have hnot := hfree x
    simp only [State.Returned, hmapped, htrue, hfalse]
    rw [State.start, h.covers, State.Returned]
    tauto
  · exact hfree x hx (h.mapping x (hmaps ▸ hin))
  · exact (hmapped x).mpr (((htrue x).mp hx).symm.imp_right (h.mapping x))
  · have hbefore := h.unmapping x ((hfalse x).mp hx)
    exact (htrue x).mpr (((hmapped x).mp hmap).symm.imp_left hbefore)

/-- The kernel unmaps memory that some caller had. -/
theorem Consistent.unmap (h : Consistent s) (hidle : s.inProgress thread = none)
    (hcall : call.Ordinary) (hmaps : call.maps = false)
    (hreturned : ∀ x, call.Covers x → s.Returned x) : Consistent (s.start thread call) := by
  have hmapped : ∀ x, (s.start thread call).Mapped x ↔ ¬ call.Covers x ∧ s.Mapped x := by
    intro x
    rw [mapped_start]
    by_cases hx : call.Covers x <;> simp [hx, hmaps]
  have htrue : ∀ x, (s.start thread call).Within true x ↔ s.Within true x := by
    simp [within_start hidle, hmaps]
  have hfalse : ∀ x, (s.start thread call).Within false x ↔ s.Within false x ∨ call.Covers x := by
    simp [within_start hidle, hmaps]
  refine ⟨h.replays, fun x => ?_, h.ordinary_start hcall, h.disjoint_start fun x hx hin => ?_,
    fun x hx => ?_, fun x hx hmap => ?_⟩
  · have hcovered := hreturned x
    simp only [State.Returned, hmapped, htrue, hfalse] at hcovered ⊢
    rw [State.start, h.covers, State.Returned]
    tauto
  · obtain ⟨hmap, hnot⟩ := hreturned x hx
    exact hnot (h.unmapping x (hmaps ▸ hin) hmap)
  · have hin := (htrue x).mp hx
    exact (hmapped x).mpr ⟨fun hcovers => (hreturned x hcovers).2 hin, h.mapping x hin⟩
  · obtain ⟨hout, hmap⟩ := (hmapped x).mp hmap
    exact (htrue x).mpr (h.unmapping x (((hfalse x).mp hx).resolve_right hout) hmap)

theorem Consistent.ordinary_finish (h : Consistent s) (wrapper : Wrapper) (i : ℕ) (a : Call)
    (ha : (s.finish thread wrapper).inProgress i = some a) : a.Ordinary := by
  rw [State.finish_inProgress] at ha
  split_ifs at ha
  exact h.ordinary i a ha

theorem Consistent.disjoint_finish (h : Consistent s) (wrapper : Wrapper) (i j : ℕ) (a b : Call)
    (x : ℤ) (ha : (s.finish thread wrapper).inProgress i = some a)
    (hb : (s.finish thread wrapper).inProgress j = some b) (hmaps : a.maps = b.maps)
    (hax : a.Covers x) (hbx : b.Covers x) : i = j := by
  rw [State.finish_inProgress] at ha hb
  split_ifs at ha hb
  exact h.disjoint i j a b x ha hb hmaps hax hbx

/-- A mapping is registered, and no unmapping of a part of it is in progress. -/
theorem Consistent.registerMap (h : Consistent s) {c : MmapCall} {w : Wrapper}
    (hcall : s.inProgress thread = some (.mmap c)) (hsmall : pageRounded c.len < 2 ^ 32)
    (hret : c.ret ≠ 0) (horder : ∀ x, (Call.mmap c).Covers x → ¬ s.Within false x)
    (hnext : s.wrapper.next 4096 (.mmap c) = some w) : Consistent (s.finish thread w) := by
  have hin : ∀ x, (Call.mmap c).Covers x → s.Within true x := fun x hx => ⟨thread, _, hcall, rfl, hx⟩
  obtain ⟨hreplays, hcovers⟩ := h.replays.mmap (h.ordinary thread _ hcall) hsmall hret
    (fun x hx hcovered => ((h.covers x).mp hcovered).elim (horder x hx) fun hreturned =>
      hreturned.2 (hin x hx)) hnext
  have htrue : ∀ x, (s.finish thread w).Within true x ↔
      s.Within true x ∧ ¬ (Call.mmap c).Covers x := by
    simp [h.within_finish hcall, Call.maps]
  have hfalse : ∀ x, (s.finish thread w).Within false x ↔ s.Within false x := by
    simp [h.within_finish hcall, Call.maps]
  have hmapped : ∀ x, (s.finish thread w).Mapped x ↔ s.Mapped x := fun x => Iff.rfl
  refine ⟨hreplays, fun x => ?_, h.ordinary_finish w, h.disjoint_finish w, fun x hx => ?_,
    fun x hx hmap => ?_⟩
  · have hmap := h.mapping x
    have hin := hin x
    simp only [State.Returned, hmapped, htrue, hfalse]
    rw [State.finish, hcovers, h.covers, State.Returned]
    tauto
  · exact h.mapping x ((htrue x).mp hx).1
  · have hx := (hfalse x).mp hx
    exact (htrue x).mpr ⟨h.unmapping x hx hmap, fun hcovered => horder x hcovered hx⟩

/-- An unmapping is registered. What the kernel mapped there since is not in the
map yet. -/
theorem Consistent.registerUnmap (h : Consistent s) {c : MunmapCall} {w : Wrapper}
    (hcall : s.inProgress thread = some (.munmap c)) (hsmall : pageRounded c.length < 2 ^ 32)
    (hnext : s.wrapper.next 4096 (.munmap c) = some w) : Consistent (s.finish thread w) := by
  have hin : ∀ x, (Call.munmap c).Covers x → s.Within false x :=
    fun x hx => ⟨thread, _, hcall, rfl, hx⟩
  obtain ⟨hreplays, hcovers⟩ := h.replays.munmap (h.ordinary thread _ hcall) hsmall hnext
  have htrue : ∀ x, (s.finish thread w).Within true x ↔ s.Within true x := by
    simp [h.within_finish hcall, Call.maps]
  have hfalse : ∀ x, (s.finish thread w).Within false x ↔
      s.Within false x ∧ ¬ (Call.munmap c).Covers x := by
    simp [h.within_finish hcall, Call.maps]
  have hmapped : ∀ x, (s.finish thread w).Mapped x ↔ s.Mapped x := fun x => Iff.rfl
  refine ⟨hreplays, fun x => ?_, h.ordinary_finish w, h.disjoint_finish w, fun x hx => ?_,
    fun x hx hmap => ?_⟩
  · have hunmapping := h.unmapping x
    have hin := hin x
    simp only [State.Returned, hmapped, htrue, hfalse]
    rw [State.finish, hcovers, h.covers, State.Returned]
    tauto
  · exact h.mapping x ((htrue x).mp hx)
  · exact (htrue x).mpr (h.unmapping x ((hfalse x).mp hx).1 hmap)

theorem Consistent.next (h : Consistent s) {e : Event} (hok : Orderly s e) (hallowed : Allowed s e)
    (hnext : KernelRaces.next s e = some s') : Consistent s' := by
  cases e with
  | kernel thread call =>
      obtain ⟨hidle, hcall, hrange⟩ := hallowed
      obtain rfl := Option.some.inj hnext
      cases hmaps : call.maps with
      | true => exact h.map hidle hcall hmaps (by simpa [hmaps] using hrange)
      | false => exact h.unmap hidle hcall hmaps (by simpa [hmaps] using hrange)
  | register thread =>
      obtain ⟨call, hcall, hnext⟩ := Option.bind_eq_some_iff.mp hnext
      obtain ⟨w, hw, rfl⟩ := Option.map_eq_some_iff.mp hnext
      obtain ⟨hsmall, hmaps⟩ := hok call hcall
      cases call with
      | mmap c => exact h.registerMap hcall hsmall (hmaps rfl).1 (hmaps rfl).2 hw
      | munmap c => exact h.registerUnmap hcall hsmall hw


/-- Map and log have exactly what is mapped in the kernel. -/
def Agrees (s : State) : Prop :=
  (∀ x, s.wrapper.memoryMap.Covers x ↔ s.Mapped x) ∧
    ∃ off, offline (s.wrapper.eventLog.filterMap LogLine.mapEvent) = some off ∧
      ∀ x, off.map.Covers x ↔ s.Mapped x

theorem State.Idle.not_within (h : s.Idle) (maps : Bool) (x : ℤ) : ¬ s.Within maps x := by
  rintro ⟨i, a, ha, -, -⟩
  exact nomatch (h i).symm.trans ha

theorem Consistent.agrees (h : Consistent s) (hidle : s.Idle) : Agrees s := by
  have hcovers : ∀ x, s.wrapper.memoryMap.Covers x ↔ s.Mapped x := by
    simp [h.covers, State.Returned, hidle.not_within]
  obtain ⟨off, hreplay, -, hsame⟩ := h.replays.replay
  exact ⟨hcovers, off, hreplay, fun x => (hsame x).trans (hcovers x)⟩

/-- An orderly registration fails no assertion. -/
theorem Consistent.happens (h : Consistent s) {e : Event} (hok : Orderly s e)
    (hallowed : Allowed s e) : (KernelRaces.next s e).isSome := by
  cases e with
  | kernel thread call => rfl
  | register thread =>
      obtain ⟨call, hcall⟩ := Option.ne_none_iff_exists'.mp hallowed
      obtain ⟨w, hw⟩ := h.replays.registers (h.ordinary thread call hcall) (hok call hcall).1
      simp [KernelRaces.next, hcall, hw]

theorem consistent_at (x : Run) (hok : ∀ i < x.length, Orderly (x.state i) (x.event i)) :
    ∀ i ≤ x.length, Consistent (x.state i) := by
  refine x.invariant ?_ ?_ hok
  · rintro s rfl
    exact consistent_initial
  · exact fun s e s' h hok hstep => h.next hok hstep.1 hstep.2

/-- While every registration is orderly none fails, and whenever no call is in
progress the map and the replayed log have what is mapped in the kernel. -/
theorem agrees_of_orderly (x : Run) (hok : ∀ i < x.length, Orderly (x.state i) (x.event i)) :
    ∀ i ≤ x.length, ((x.state i).Idle → Agrees (x.state i)) ∧
      ∀ e, Allowed (x.state i) e → Orderly (x.state i) e → (next (x.state i) e).isSome := by
  intro i hi
  have h := consistent_at x hok i hi
  exact ⟨h.agrees, fun e hallowed hok => h.happens hok hallowed⟩

def firstMap : Call := .mmap ⟨false, 0x7f0000000000, 4096, true, 0, [1]⟩

def unmapping : Call := .munmap ⟨false, 0x7f0000000000, 4096, true, 1⟩

def secondMap : Call := .mmap ⟨false, 0x7f0000000000, 4096, true, 1, [2]⟩

/-- A page is mapped by one thread, which unmaps it in the kernel, and another one
maps it again in the kernel. Then these two calls are registered. -/
def race (i j : ℕ) : List Event :=
  [.kernel 0 firstMap, .register 0, .kernel 0 unmapping, .kernel 1 secondMap, .register i,
    .register j]

def mappedOnce (w : Wrapper) : State := (({} : State).start 0 firstMap).finish 0 w

theorem idle_mappedOnce (w : Wrapper) : (mappedOnce w).Idle := by
  intro i
  by_cases hi : i = 0 <;> simp [mappedOnce, hi]

theorem mapped_mappedOnce (w : Wrapper) (x : ℤ) : (mappedOnce w).Mapped x ↔ firstMap.Covers x := by
  change (({} : State).start 0 firstMap).Mapped x ↔ firstMap.Covers x
  rw [mapped_start]
  simp [State.Mapped, mapped, show firstMap.maps = true from rfl]

/-- The kernel allows all of it, whatever is registered. -/
theorem allowed_race (w : Wrapper) : Allowed {} (.kernel 0 firstMap) ∧
    Allowed (mappedOnce w) (.kernel 0 unmapping) ∧
    Allowed ((mappedOnce w).start 0 unmapping) (.kernel 1 secondMap) := by
  refine ⟨⟨rfl, by decide, fun x hx => ?_⟩, ⟨idle_mappedOnce w 0, by decide, fun x hx => ?_⟩,
    ⟨idle_mappedOnce w 1, by decide, fun x hx => ?_⟩⟩
  · rw [if_pos (by rfl)]
    exact nofun
  · rw [if_neg (by decide)]
    exact ⟨(mapped_mappedOnce w x).mpr hx, (idle_mappedOnce w).not_within true x⟩
  · rw [if_pos (by rfl), mapped_start]
    exact fun hmap => hmap.elim (fun h => nomatch h.2) fun h => h.1 hx

theorem next_register {w : Wrapper} (hcall : s.inProgress thread = some call)
    (hw : s.wrapper.next 4096 call = some w) :
    next s (.register thread) = some (s.finish thread w) := by
  rw [next, hcall, Option.bind_some, hw, Option.map_some]

/-- The two calls that the race leaves to be registered. -/
def recycled (w : Wrapper) : State := ((mappedOnce w).start 0 unmapping).start 1 secondMap

/-- The race as a run, with a condition that holds at its registrations. -/
theorem exists_race {C : State → Event → Prop} {i j : ℕ} {a b : Call} {w₁ w₂ w : Wrapper}
    (h₁ : ({} : Wrapper).next 4096 firstMap = some w₁) (h₂ : w₁.next 4096 a = some w₂)
    (h₃ : w₂.next 4096 b = some w) (hi : (recycled w₁).inProgress i = some a)
    (hj : ((recycled w₁).finish i w₂).inProgress j = some b)
    (hkernel : ∀ s thread call, C s (.kernel thread call))
    (hC₁ : C (({} : State).start 0 firstMap) (.register 0)) (hC₂ : C (recycled w₁) (.register i))
    (hC₃ : C ((recycled w₁).finish i w₂) (.register j)) :
    ∃ x : Run, x.length = 6 ∧ x.state 6 = ((recycled w₁).finish i w₂).finish j w ∧
      ∀ k < x.length, C (x.state k) (x.event k) := by
  obtain ⟨hfirst, hunmap, hsecond⟩ := allowed_race w₁
  have hn₁ : next (({} : State).start 0 firstMap) (.register 0) = some (mappedOnce w₁) :=
    next_register rfl h₁
  have hn₂ : next (recycled w₁) (.register i) = some ((recycled w₁).finish i w₂) :=
    next_register hi h₂
  have hn₃ : next ((recycled w₁).finish i w₂) (.register j) =
      some (((recycled w₁).finish i w₂).finish j w) := next_register hj h₃
  have hrace : Execution.Permitted (fun s e => Allowed s e ∧ C s e) next {} (race i j) :=
    .cons ⟨hfirst, hkernel _ _ _⟩ rfl <|
      .cons ⟨Option.ne_none_iff_exists'.mpr ⟨firstMap, rfl⟩, hC₁⟩ hn₁ <|
      .cons ⟨hunmap, hkernel _ _ _⟩ rfl <| .cons ⟨hsecond, hkernel _ _ _⟩ rfl <|
      .cons ⟨Option.ne_none_iff_exists'.mpr ⟨a, hi⟩, hC₂⟩ hn₂ <|
      .cons ⟨Option.ne_none_iff_exists'.mpr ⟨b, hj⟩, hC₃⟩ hn₃ trivial
  have hinitial : Initial {} := rfl
  let x := Execution.ofEvents (race i j) (.register j) hinitial hrace
  refine ⟨x.map id fun s e s' h => ⟨h.1.1, h.2⟩, rfl, ?_, fun k hk => (x.steps k hk).1.2⟩
  change Execution.statesOf next {} (race i j) 6 = _
  rw [race, Execution.statesOf_cons rfl, Execution.statesOf_cons hn₁, Execution.statesOf_cons rfl,
    Execution.statesOf_cons rfl, ← recycled, Execution.statesOf_cons hn₂,
    Execution.statesOf_cons hn₃]
  rfl

theorem idle_race {i j : ℕ} {w₁ w₂ w : Wrapper} (hij : i = 0 ∧ j = 1 ∨ i = 1 ∧ j = 0) :
    (((recycled w₁).finish i w₂).finish j w).Idle := by
  intro k
  have hidle := idle_mappedOnce w₁ k
  rcases hij with ⟨rfl, rfl⟩ | ⟨rfl, rfl⟩ <;> by_cases h0 : k = 0 <;> by_cases h1 : k = 1 <;>
    simp [recycled, h0, h1, hidle]

theorem mapped_race {i j : ℕ} {w₁ w₂ w : Wrapper} {x : ℤ} (hx : firstMap.Covers x) :
    (((recycled w₁).finish i w₂).finish j w).Mapped x := by
  change (recycled w₁).Mapped x
  rw [recycled, mapped_start]
  exact .inl ⟨hx, rfl⟩

theorem orderly_first : Orderly (({} : State).start 0 firstMap) (.register 0) := by
  intro call hcall
  obtain rfl : firstMap = call := Option.some.inj hcall
  refine ⟨by decide, fun _ => ⟨by decide, fun x _ hin => ?_⟩⟩
  rw [within_start rfl] at hin
  exact hin.elim (fun ⟨_, _, hnone, _⟩ => nomatch hnone) fun h => nomatch h.1

theorem orderly_unmapping (w : Wrapper) : Orderly (recycled w) (.register 0) := by
  intro call hcall
  obtain rfl : unmapping = call := Option.some.inj hcall
  exact ⟨by decide, nofun⟩

/-- Once the unmapping is registered, only the second mapping is in progress. -/
theorem orderly_second (w₁ w₂ : Wrapper) :
    Orderly ((recycled w₁).finish 0 w₂) (.register 1) := by
  intro call hcall
  obtain rfl : secondMap = call := Option.some.inj hcall
  refine ⟨by decide, fun _ => ⟨by decide, ?_⟩⟩
  rintro x - ⟨i, a, ha, hmaps, -⟩
  have hidle := idle_mappedOnce w₁ i
  simp only [recycled, State.finish_inProgress, State.start_inProgress, hidle] at ha
  split_ifs at ha
  obtain rfl := Option.some.inj ha
  exact nomatch hmaps

/-- Registered in the order of the kernel, the calls of the race leave its page. -/
theorem agrees_of_orderly_race :
    ∃ x : Run, x.length = 6 ∧ (x.state 6).Idle ∧ Agrees (x.state 6) := by
  obtain ⟨w, hrun⟩ : ∃ w, Wrapper.run 4096 [firstMap, unmapping, secondMap] = some w :=
    Option.isSome_iff_exists.mp (by decide +kernel)
  obtain ⟨w₁, h₁, w₂, h₂, h₃⟩ : ∃ w₁, ({} : Wrapper).next 4096 firstMap = some w₁ ∧
      ∃ w₂, w₁.next 4096 unmapping = some w₂ ∧ w₂.next 4096 secondMap = some w := by
    simpa [Wrapper.run, Option.bind_eq_some_iff] using hrun
  obtain ⟨x, hlength, hstate, hok⟩ := exists_race (C := Orderly) (i := 0) (j := 1) h₁ h₂ h₃ rfl rfl
    (fun _ _ _ => trivial) orderly_first (orderly_unmapping w₁) (orderly_second w₁ w₂)
  have hidle : (x.state 6).Idle := by
    rw [hstate]
    exact idle_race (.inl ⟨rfl, rfl⟩)
  exact ⟨x, hlength, hidle, (agrees_of_orderly x hok 6 hlength.ge).1 hidle⟩

/-- In the other order the unmapping takes the new mapping out of the map. -/
theorem not_agrees_race : ¬ ∀ (x : Run), ∀ i ≤ x.length, (x.state i).Idle → Agrees (x.state i) := by
  intro h
  obtain ⟨w, hrun⟩ : ∃ w, Wrapper.run 4096 [firstMap, secondMap, unmapping] = some w :=
    Option.isSome_iff_exists.mp (by decide +kernel)
  obtain ⟨w₁, h₁, w₂, h₂, h₃⟩ : ∃ w₁, ({} : Wrapper).next 4096 firstMap = some w₁ ∧
      ∃ w₂, w₁.next 4096 secondMap = some w₂ ∧ w₂.next 4096 unmapping = some w := by
    simpa [Wrapper.run, Option.bind_eq_some_iff] using hrun
  obtain ⟨x, hlength, hstate, -⟩ := exists_race (C := fun _ _ => True) (i := 1) (j := 0) h₁ h₂ h₃
    rfl rfl (fun _ _ _ => trivial) trivial trivial trivial
  have hagrees := h x 6 hlength.ge
  rw [hstate] at hagrees
  have hcovers := (hagrees (idle_race (.inr ⟨rfl, rfl⟩))).1 0x7f0000000000
  obtain ⟨e, he, -⟩ := hcovers.mpr (mapped_race (by simp [firstMap, Call.Covers, Call.pointer,
    Call.length, pageRounded]))
  have hempty : ∀ w ∈ Wrapper.run 4096 [firstMap, secondMap, unmapping],
      w.memoryMap.slices.entries.length = 0 := by decide +kernel
  exact List.ne_nil_of_mem he (List.length_eq_zero_iff.mp (hempty w hrun))

end KernelRaces
end AllocCounter
