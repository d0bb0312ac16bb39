import AllocCounter.OfflineMemoryMap
import AllocCounter.LogParser
import AllocCounter.OwnedPoints

/-!
# The memory log

`generate_memory_log` of `parse-mmap-log.py` adds and subtracts the sizes of the
slices that each event adds and erases, and prints the sum once per time value.
A printed line is the pair of its two numbers, and a raised assertion gives
`none`. The stack filter is a parameter.

What the log should say does not mention slices: at each time it is the number of
addresses whose last covering event so far is a mapping with a selected stack id.
-/
namespace AllocCounter.ParseMmapLog

namespace Event

def time : Event → ℚ≥0
  | .map time .. => time
  | .unmap time .. => time

def size : Event → ℕ
  | .map _ _ size .. => size
  | .unmap _ _ size _ => size

def call : Event → MemoryMap.Call ℕ
  | .map _ pointer size stackTraceId _ => .map ⟨pointer, size, stackTraceId⟩
  | .unmap _ pointer size _ => .unmap pointer size

theorem size_call (e : Event) : e.call.size = e.size := by cases e <;> rfl

end Event

/-- What an event does to the memory map: the added slice, the erased slices and
the new map. An unmapping of unknown memory should not have been logged. -/
def MemoryMap.register (m : MemoryMap ℕ) :
    Event → Option (Option (MemorySlice ℕ) × List (MemorySlice ℕ) × MemoryMap ℕ)
  | .map _ pointer size stackTraceId _ =>
      (m.registerMap ⟨pointer, size, stackTraceId⟩).map fun (addedSlice, erasedSlices, m') =>
        (some addedSlice, erasedSlices, m')
  | .unmap _ pointer size _ =>
      (m.registerUnmap pointer size).bind fun (erasedSlices, m') =>
        if 0 < erasedSlices.length ∧ (erasedSlices.map MemorySlice.size).sum ≤ size then
          some (none, erasedSlices, m')
        else none

/-- The sum of the sizes of the slices that pass the stack filter. -/
def filteredSize (stackFilter : ℕ → Bool) (slices : List (MemorySlice ℕ)) : ℤ :=
  ((slices.filter fun x => stackFilter x.allocation.stackTraceId).map MemorySlice.size).sum

structure MemoryLog where
  memoryMap : MemoryMap ℕ := .empty
  accumMemory : ℤ := 0
  lastTime : ℚ≥0 := 0
  printed : List (ℚ≥0 × ℤ) := []

namespace MemoryLog

def printMark (s : MemoryLog) (time : ℚ≥0) : MemoryLog :=
  -- print only one line per time value
  if s.lastTime < time then
    { s with printed := s.printed ++ [(s.lastTime, s.accumMemory)], lastTime := time }
  else s

/-- The body of the loop over the events. -/
def step (stackFilter : ℕ → Bool) (s : MemoryLog) (event : Event) : Option MemoryLog :=
  let s := s.printMark event.time
  (s.memoryMap.register event).map fun (addedSlice, erasedSlices, memoryMap) =>
    { s with
      memoryMap
      accumMemory := s.accumMemory +
        (filteredSize stackFilter addedSlice.toList - filteredSize stackFilter erasedSlices) }

def run (stackFilter : ℕ → Bool) (events : List Event) : Option MemoryLog :=
  events.foldlM (step stackFilter) {}

end MemoryLog

def generateMemoryLog (stackFilter : ℕ → Bool) (events : List Event) : Option (List (ℚ≥0 × ℤ)) :=
  (MemoryLog.run stackFilter events).map fun s => s.printed ++ [(s.lastTime, s.accumMemory)]

/-- The allocation that owns an address after the events. -/
def ownerAfter (events : List Event) (x : ℤ) : Option (MMapAllocation ℕ) :=
  MemoryMap.lastOwner (events.map Event.call) x

/-- The addresses owned after the events by allocations with a selected stack id. -/
def selectedAfter (stackFilter : ℕ → Bool) (events : List Event) : Set ℤ :=
  Extent.selected (fun a => stackFilter a.stackTraceId) (ownerAfter events)

noncomputable def memoryAfter (stackFilter : ℕ → Bool) (events : List Event) : ℕ :=
  (selectedAfter stackFilter events).ncard

/-- An unmapping touches memory owned after the events before it. -/
def Event.Known (before : List Event) : Event → Prop
  | .map .. => True
  | .unmap _ pointer size _ =>
      ∃ x : ℤ, pointer ≤ x ∧ x < pointer + size ∧ ownerAfter before x ≠ none

/-- Times do not decrease, sizes are positive and every unmapping is known. -/
structure Valid (events : List Event) : Prop where
  ordered : events.Pairwise fun e f => e.time ≤ f.time
  size_pos : ∀ e ∈ events, 0 < e.size
  known : ∀ before e after, events = before ++ e :: after → e.Known before

theorem ownerAfter_concat (events : List Event) (e : Event) (x : ℤ) :
    ownerAfter (events ++ [e]) x =
      if e.call.Covers x then e.call.owner else ownerAfter events x := by
  rw [ownerAfter, List.map_append, List.map_singleton, MemoryMap.lastOwner_concat]
  rfl

theorem valid_nil : Valid [] := ⟨.nil, by simp, by simp⟩

theorem Valid.before {before after : List Event} (h : Valid (before ++ after)) : Valid before := by
  refine ⟨(List.pairwise_append.mp h.ordered).1, ?_, ?_⟩
  · exact fun e he => h.size_pos e (List.mem_append_left _ he)
  · intro l e r heq
    exact h.known l e (r ++ after) (by simp [heq])

theorem valid_concat {events : List Event} {e : Event} : Valid (events ++ [e]) ↔
    Valid events ∧ (∀ d ∈ events, d.time ≤ e.time) ∧ 0 < e.size ∧ e.Known events := by
  constructor
  · intro h
    refine ⟨h.before, ?_, ?_, ?_⟩
    · exact fun d hd => (List.pairwise_append.mp h.ordered).2.2 d hd e List.mem_cons_self
    · exact h.size_pos e (List.mem_append_right _ List.mem_cons_self)
    · exact h.known events e [] rfl
  · intro ⟨h, hordered, hsize, hknown⟩
    refine ⟨List.pairwise_append.mpr ⟨h.ordered, List.pairwise_singleton _ _, ?_⟩, ?_, ?_⟩
    · exact fun d hd f hf => List.mem_singleton.mp hf ▸ hordered d hd
    · intro d hd
      rcases List.mem_append.mp hd with hd | hd
      · exact h.size_pos d hd
      · exact List.mem_singleton.mp hd ▸ hsize
    · intro before d after heq
      rcases after.eq_nil_or_concat' with rfl | ⟨after, f, rfl⟩
      · obtain ⟨rfl, hlast⟩ := List.append_inj' heq rfl
        exact List.singleton_inj.mp hlast ▸ hknown
      · rw [← List.cons_append, ← List.append_assoc] at heq
        exact h.known before d after (List.append_inj' heq rfl).1

namespace MemoryMap

variable {m : MemoryMap ℕ} {events : List Event}

/-- The map is well formed and owned as the events say. -/
structure Follows (events : List Event) (m : MemoryMap ℕ) : Prop where
  wellFormed : m.WellFormed
  owner_eq : ∀ x, m.owner x = ownerAfter events x

theorem follows_empty : Follows [] .empty := ⟨wellFormed_empty, fun _ => rfl⟩

/-- One event of a valid log: no assertion fails, the map follows, and the
selected memory changes by the added and the erased slices. -/
theorem Follows.register (h : Follows events m) {e : Event} (hsize : 0 < e.size)
    (hknown : e.Known events) :
    ∃ added erased m', m.register e = some (added, erased, m') ∧ Follows (events ++ [e]) m' ∧
      m.Tiles e.call.start e.size erased ∧
      ∀ stackFilter, filteredSize stackFilter added.toList =
        if e.call.owner.any fun a => stackFilter a.stackTraceId then (e.size : ℤ) else 0 := by
  have hcall : 0 < e.call.size := by
    rw [e.size_call]
    exact_mod_cast hsize
  obtain ⟨erased, m', happly, hm', htiles, howner⟩ := apply_spec h.wellFormed e.call hcall
  have hfollows : Follows (events ++ [e]) m' := by
    refine ⟨hm', fun x => ?_⟩
    rw [howner, ownerAfter_concat, h.owner_eq]
  cases e with
  | map time pointer size stackTraceId lineNumber =>
      obtain ⟨erased', m'', hmap, -⟩ :=
        registerMap_spec h.wellFormed ⟨pointer, size, stackTraceId⟩ hcall
      simp only [Event.call, apply, hmap, Option.map_some, Option.some.injEq,
        Prod.mk.injEq] at happly
      obtain ⟨rfl, rfl⟩ := happly
      refine ⟨some ⟨pointer, size, ⟨pointer, size, stackTraceId⟩⟩, erased', m'', ?_, hfollows,
        htiles, fun stackFilter => ?_⟩
      · simp only [MemoryMap.register, hmap, Option.map_some]
      · simp only [filteredSize, Option.toList_some, List.filter_singleton, Event.call, Call.owner,
          Option.any_some, Event.size]
        split_ifs <;> simp_all
  | unmap time pointer size lineNumber =>
      have hunmap : m.registerUnmap pointer size = some (erased, m') := happly
      obtain ⟨x, hlo, hhi, hx⟩ := hknown
      -- the touched address lies in an erased slice
      have hne : erased ≠ [] := by
        rintro rfl
        have hnone := htiles.owner_eq x
        rw [if_pos ⟨hlo, hhi⟩, h.owner_eq] at hnone
        exact hx hnone.symm
      have hcheck : 0 < erased.length ∧ (erased.map MemorySlice.size).sum ≤ size :=
        ⟨List.length_pos_iff.mpr hne, htiles.sum_le⟩
      refine ⟨none, erased, m', ?_, hfollows, htiles, ?_⟩
      · simp [MemoryMap.register, hunmap, hcheck]
      · simp [filteredSize, Event.call, Call.owner]

theorem filteredSize_eq (stackFilter : ℕ → Bool) (slices : List (MemorySlice ℕ)) :
    filteredSize stackFilter slices = (((slices.map MemorySlice.extent).filter
      fun e => stackFilter e.owner.stackTraceId).map fun e => e.stop - e.start).sum := by
  rw [List.filter_map, List.map_map, filteredSize]
  congr 2
  funext s
  simp [MemorySlice.extent, MemorySlice.stop]

/-- The selected memory is what the selected slices add up to. -/
theorem Follows.memoryAfter_eq (h : Follows events m) (stackFilter : ℕ → Bool) :
    (selectedAfter stackFilter events).Finite ∧
      (memoryAfter stackFilter events : ℤ) = filteredSize stackFilter (m.dict.entries.map Prod.snd) := by
  have howner : ownerAfter events = Extent.ownerOf m.extents :=
    funext fun x => (h.owner_eq x).symm
  obtain ⟨hfinite, hcount⟩ := h.wellFormed.tiled.ncard_selected
    fun a => stackFilter a.stackTraceId
  rw [← howner] at hfinite hcount
  refine ⟨hfinite, hcount.trans ?_⟩
  rw [filteredSize_eq, List.map_map]
  rfl

theorem Follows.memoryAfter_concat (h : Follows events m) {e : Event} {erased : List (MemorySlice ℕ)}
    (htiles : m.Tiles e.call.start e.size erased) (stackFilter : ℕ → Bool) :
    (memoryAfter stackFilter (events ++ [e]) : ℤ) =
      memoryAfter stackFilter events - filteredSize stackFilter erased +
        if e.call.owner.any fun a => stackFilter a.stackTraceId then (e.size : ℤ) else 0 := by
  have hall : Extent.Tiled (erased.map MemorySlice.extent) := by
    refine ⟨List.forall_mem_map.mpr fun s hs => extent_nonempty.mpr (htiles.size_pos s hs), ?_⟩
    exact List.pairwise_map.mpr htiles.ascending
  have htaken : ∀ x, Extent.ownerOf (erased.map MemorySlice.extent) x =
      if e.call.start ≤ x ∧ x < e.call.start + e.size then ownerAfter events x else none := by
    intro x
    rw [htiles.owner_eq, h.owner_eq]
  have howner : ∀ x, ownerAfter (events ++ [e]) x =
      if e.call.start ≤ x ∧ x < e.call.start + e.size then e.call.owner
      else ownerAfter events x := by
    intro x
    rw [ownerAfter_concat, ← e.size_call]
    rfl
  obtain ⟨-, hcount⟩ := Extent.ncard_selected_overwrite
    (fun a : MMapAllocation ℕ => stackFilter a.stackTraceId) (by omega) (h.memoryAfter_eq stackFilter).1 howner htaken
  have herased := (hall.ncard_selected fun a => stackFilter a.stackTraceId).2
  rw [filteredSize_eq, ← herased, memoryAfter, memoryAfter, selectedAfter, hcount,
    add_sub_cancel_left]
  rfl

end MemoryMap

/-- The number is the selected memory after the events. -/
def Shows (stackFilter : ℕ → Bool) (events : List Event) (memory : ℤ) : Prop :=
  (selectedAfter stackFilter events).Finite ∧ memory = memoryAfter stackFilter events

/-- There is one line for each time value of the events before a time, in order. -/
structure Lines (stackFilter : ℕ → Bool) (events : List Event) (time : ℚ≥0)
    (printed : List (ℚ≥0 × ℤ)) : Prop where
  ascending : (printed.map Prod.fst).Pairwise (· < ·)
  times : ∀ t, t ∈ printed.map Prod.fst ↔ t < time ∧ (t = 0 ∨ ∃ e ∈ events, e.time = t)
  memory : ∀ line ∈ printed, Shows stackFilter (events.filter fun e => e.time ≤ line.1) line.2

variable {stackFilter : ℕ → Bool} {events : List Event} {time : ℚ≥0} {printed : List (ℚ≥0 × ℤ)}

/-- The line of the last time value completes the lines before any later time. -/
theorem Lines.append (h : Lines stackFilter events time printed) (hle : ∀ e ∈ events, e.time ≤ time)
    (hlast : time = 0 ∨ ∃ e ∈ events, e.time = time) {memory : ℤ}
    (hmemory : Shows stackFilter events memory) {later : ℚ≥0} (hlater : time < later) :
    Lines stackFilter events later (printed ++ [(time, memory)]) where
  ascending := by
    rw [List.map_append, List.map_singleton, List.pairwise_append]
    refine ⟨h.ascending, List.pairwise_singleton _ _, fun t ht t' ht' => ?_⟩
    rw [List.mem_singleton.mp ht']
    exact ((h.times t).mp ht).1
  times := by
    intro t
    rw [List.map_append, List.mem_append, h.times, List.map_singleton, List.mem_singleton]
    constructor
    · rintro (⟨hlt, ht⟩ | rfl)
      · exact ⟨hlt.trans hlater, ht⟩
      · exact ⟨hlater, hlast⟩
    · intro ⟨_, ht⟩
      have hbound : t ≤ time := by
        rcases ht with rfl | ⟨e, he, rfl⟩
        · exact zero_le
        · exact hle e he
      rcases hbound.lt_or_eq with hlt | rfl
      · exact .inl ⟨hlt, ht⟩
      · exact .inr rfl
  memory := by
    intro line hline
    rcases List.mem_append.mp hline with hline | hline
    · exact h.memory line hline
    · rw [List.mem_singleton.mp hline]
      have hall : events.filter (fun e => e.time ≤ time) = events :=
        List.filter_eq_self.mpr (by simpa using hle)
      rwa [hall]

/-- A further event at the pending time is not shown yet. -/
theorem Lines.concat (h : Lines stackFilter events time printed) {e : Event} (he : e.time = time) :
    Lines stackFilter (events ++ [e]) time printed where
  ascending := h.ascending
  times := by
    intro t
    rw [h.times]
    refine and_congr_right fun hlt => or_congr_right ?_
    have hne : e.time ≠ t := he ▸ hlt.ne'
    simp [hne]
  memory := by
    intro line hline
    have hlt := ((h.times line.1).mp (List.mem_map_of_mem hline)).1
    have hne : ¬ e.time ≤ line.1 := he ▸ not_le.mpr hlt
    simpa [hne] using h.memory line hline

namespace MemoryLog

/-- What the loop keeps: the map, the sum, the pending time and the lines. -/
structure Inv (stackFilter : ℕ → Bool) (events : List Event) (s : MemoryLog) : Prop where
  follows : s.memoryMap.Follows events
  accum_eq : s.accumMemory = memoryAfter stackFilter events
  time_le : ∀ e ∈ events, e.time ≤ s.lastTime
  last_eq : s.lastTime = 0 ∨ ∃ e ∈ events, e.time = s.lastTime
  lines : Lines stackFilter events s.lastTime s.printed

variable {s : MemoryLog}

theorem inv_init : Inv stackFilter [] {} where
  follows := MemoryMap.follows_empty
  accum_eq := by
    have hcount := (MemoryMap.follows_empty.memoryAfter_eq stackFilter).2
    exact hcount.symm
  time_le := by simp
  last_eq := .inl rfl
  lines := ⟨.nil, by simp, by simp⟩

theorem Inv.shows (h : Inv stackFilter events s) : Shows stackFilter events s.accumMemory :=
  ⟨(h.follows.memoryAfter_eq stackFilter).1, h.accum_eq⟩

@[simp] theorem printMark_memoryMap : (s.printMark time).memoryMap = s.memoryMap := by
  unfold printMark
  split_ifs <;> rfl

@[simp] theorem printMark_accumMemory : (s.printMark time).accumMemory = s.accumMemory := by
  unfold printMark
  split_ifs <;> rfl

/-- Before an event is handled all earlier time values have their lines. -/
theorem Inv.printMark (h : Inv stackFilter events s) (hle : s.lastTime ≤ time) :
    (s.printMark time).lastTime = time ∧
      Lines stackFilter events time (s.printMark time).printed := by
  unfold MemoryLog.printMark
  split_ifs with hlt
  · exact ⟨rfl, h.lines.append h.time_le h.last_eq h.shows hlt⟩
  · obtain rfl := hle.eq_of_not_lt hlt
    exact ⟨rfl, h.lines⟩

theorem Inv.step (h : Inv stackFilter events s) {e : Event} (hvalid : Valid (events ++ [e])) :
    ∃ s', s.step stackFilter e = some s' ∧ Inv stackFilter (events ++ [e]) s' := by
  obtain ⟨-, hlater, hsize, hknown⟩ := valid_concat.mp hvalid
  have hle : s.lastTime ≤ e.time := by
    rcases h.last_eq with hzero | ⟨d, hd, heq⟩
    · exact hzero ▸ zero_le
    · exact heq ▸ hlater d hd
  obtain ⟨htime, hlines⟩ := h.printMark hle
  obtain ⟨added, erased, m', hregister, hfollows, htiles, hadded⟩ :=
    h.follows.register hsize hknown
  refine ⟨{ s.printMark e.time with
      memoryMap := m'
      accumMemory := s.accumMemory +
        (filteredSize stackFilter added.toList - filteredSize stackFilter erased) },
    by simp [MemoryLog.step, hregister], ⟨hfollows, ?_, ?_, ?_, ?_⟩⟩
  · have hcount := h.follows.memoryAfter_concat htiles stackFilter
    rw [hcount, ← hadded, h.accum_eq]
    ring
  · intro d hd
    rw [htime]
    rcases List.mem_append.mp hd with hd | hd
    · exact hlater d hd
    · rw [List.mem_singleton.mp hd]
  · exact .inr ⟨e, List.mem_append_right _ List.mem_cons_self, htime.symm⟩
  · rw [htime]
    exact hlines.concat rfl

/-- Every run on a valid log succeeds and keeps the invariant. -/
theorem run_inv (stackFilter : ℕ → Bool) (hvalid : Valid events) :
    ∃ s, run stackFilter events = some s ∧ Inv stackFilter events s := by
  induction events using List.reverseRecOn with
  | nil => exact ⟨{}, rfl, inv_init⟩
  | append_singleton events e ih =>
      obtain ⟨s, hrun, hinv⟩ := ih (valid_concat.mp hvalid).1
      obtain ⟨s', hstep, hinv'⟩ := hinv.step hvalid
      refine ⟨s', ?_, hinv'⟩
      rw [run, List.foldlM_append, ← run, hrun]
      simpa using hstep

end MemoryLog

/-- The lines of a log: a line for time zero and for each positive time value,
with the selected memory after the events up to that time. -/
structure IsMemoryLog (stackFilter : ℕ → Bool) (events : List Event)
    (lines : List (ℚ≥0 × ℤ)) : Prop where
  ascending : (lines.map Prod.fst).Pairwise (· < ·)
  starts : (lines.map Prod.fst).head? = some 0
  times : ∀ t, t ∈ lines.map Prod.fst ↔ t = 0 ∨ 0 < t ∧ ∃ e ∈ events, e.time = t
  memory : ∀ line ∈ lines, Shows stackFilter (events.filter fun e => e.time ≤ line.1) line.2

theorem head?_eq_zero {times : List ℚ≥0} (h : times.Pairwise (· < ·)) (hzero : 0 ∈ times) :
    times.head? = some 0 := by
  cases times with
  | nil => cases hzero
  | cons t times =>
      rcases List.mem_cons.mp hzero with rfl | hmem
      · rfl
      · exact absurd ((List.pairwise_cons.mp h).1 0 hmem) not_lt_zero

theorem MemoryLog.Inv.isMemoryLog {s : MemoryLog} (h : s.Inv stackFilter events) :
    IsMemoryLog stackFilter events (s.printed ++ [(s.lastTime, s.accumMemory)]) := by
  have hlines := h.lines.append h.time_le h.last_eq h.shows (lt_add_one s.lastTime)
  have htimes : ∀ t, t ∈ (s.printed ++ [(s.lastTime, s.accumMemory)]).map Prod.fst ↔
      t = 0 ∨ 0 < t ∧ ∃ e ∈ events, e.time = t := by
    intro t
    rw [hlines.times]
    constructor
    · rintro ⟨_, rfl | ht⟩
      · exact .inl rfl
      · exact (eq_zero_or_pos t).imp_right fun hpos => ⟨hpos, ht⟩
    · rintro (rfl | ⟨_, e, he, rfl⟩)
      · exact ⟨by positivity, .inl rfl⟩
      · exact ⟨(h.time_le e he).trans_lt (lt_add_one _), .inr ⟨e, he, rfl⟩⟩
  exact ⟨hlines.ascending, head?_eq_zero hlines.ascending ((htimes 0).mpr (.inl rfl)), htimes,
    hlines.memory⟩

/-- On a valid log no assertion fails, the lines are those of the log, and the
running sum is never negative. -/
theorem generateMemoryLog_exact (stackFilter : ℕ → Bool) (events : List Event)
    (h : Valid events) :
    (∃ lines, generateMemoryLog stackFilter events = some lines ∧
      IsMemoryLog stackFilter events lines) ∧
    ∀ before, before <+: events →
      ∃ s, MemoryLog.run stackFilter before = some s ∧ 0 ≤ s.accumMemory := by
  constructor
  · obtain ⟨s, hrun, hinv⟩ := MemoryLog.run_inv stackFilter h
    exact ⟨_, by rw [generateMemoryLog, hrun, Option.map_some], hinv.isMemoryLog⟩
  · intro before hbefore
    obtain ⟨after, rfl⟩ := hbefore
    obtain ⟨s, hrun, hinv⟩ := MemoryLog.run_inv stackFilter h.before
    exact ⟨s, hrun, hinv.accum_eq ▸ Nat.cast_nonneg _⟩

/-- A mapping, a second one over its end at the same time, and an unmapping
across both. -/
def overlappingLog : List Event :=
  [.map 1 4096 8192 7 1, .map 1 8192 8192 8 2, .unmap 3 4096 8192 3]

theorem valid_overlappingLog : Valid overlappingLog := by
  have h₁ : Valid ([] ++ [.map 1 4096 8192 7 1]) :=
    valid_concat.mpr ⟨valid_nil, by simp, by decide, trivial⟩
  have h₂ : Valid ([.map 1 4096 8192 7 1] ++ [.map 1 8192 8192 8 2]) :=
    valid_concat.mpr ⟨h₁, by simp [Event.time], by decide, trivial⟩
  have h₃ : Valid ([.map 1 4096 8192 7 1, .map 1 8192 8192 8 2] ++ [.unmap 3 4096 8192 3]) :=
    valid_concat.mpr ⟨h₂, by norm_num [Event.time], by decide, 4096, by decide⟩
  exact h₃

theorem generateMemoryLog_exact_overlapping :
    (∃ lines, generateMemoryLog (· == 8) overlappingLog = some lines ∧
      IsMemoryLog (· == 8) overlappingLog lines) ∧
    ∀ before, before <+: overlappingLog →
      ∃ s, MemoryLog.run (· == 8) before = some s ∧ 0 ≤ s.accumMemory :=
  generateMemoryLog_exact (· == 8) overlappingLog valid_overlappingLog

example : generateMemoryLog (· == 8) overlappingLog = some [(0, 0), (1, 8192), (3, 4096)] := by
  decide +kernel

end AllocCounter.ParseMmapLog
