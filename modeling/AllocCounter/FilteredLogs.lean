import AllocCounter.LoggedMemory
import AllocCounter.Ranking

/-!
# The outputs for one log

`parse-mmap-log.py` reads its log once for every output: the memory log of all
stacks, the memory log of selected stacks, and the ranking. The outputs agree on the
logs that the wrapper writes. The filter decides about no assertion and about no
time, disjoint selections add up line by line, and a memory log ends with what the
ranking finds at the end.
-/
namespace AllocCounter

namespace Dict

variable {K V : Type*} [DecidableEq K] [AddCommGroup V]

/-- The sum of the values of the selected keys. -/
def total (d : Dict K V) (select : K → Bool) : V :=
  ((d.items.filter fun e => select e.1).map Prod.snd).sum

theorem sum_assign (select : K → Bool) (k : K) (v : V) {items : List (K × V)}
    (hnodup : (items.map Prod.fst).Nodup) :
    (((assign k v items).filter fun e => select e.1).map Prod.snd).sum =
      ((items.filter fun e => select e.1).map Prod.snd).sum +
        if select k then v - ((items.find? fun e => e.1 = k).map Prod.snd).getD 0 else 0 := by
  induction items with
  | nil => cases hk : select k <;> simp [assign, hk]
  | cons e items ih =>
      obtain ⟨hnew, hrest⟩ := List.nodup_cons.mp hnodup
      unfold assign
      by_cases he : e.1 = k
      · rw [if_pos he, List.find?_cons_of_pos (by simpa using he), List.filter_cons,
          List.filter_cons, he]
        cases hk : select k with
        | false => simp
        | true => simp only [if_true, List.map_cons, List.sum_cons, Option.map_some,
            Option.getD_some]; abel
      · rw [if_neg he, List.find?_cons_of_neg (by simpa using he), List.filter_cons,
          List.filter_cons]
        cases hk : select e.1 with
        | false => simpa [hk] using ih hrest
        | true => simp only [if_true, List.map_cons, List.sum_cons, ih hrest, add_assoc]

theorem total_set (d : Dict K V) (select : K → Bool) (k : K) (v : V) :
    (d.set k v).total select = d.total select + if select k then v - d.getD k 0 else 0 :=
  sum_assign select k v d.nodup

theorem total_add (d : Dict K V) (select : K → Bool) (k : K) (v : V) :
    (d.add k v).total select = d.total select + if select k then v else 0 := by
  have hdefault : (d.setdefault k 0).total select = d.total select := by
    unfold setdefault
    split_ifs with h
    · rfl
    · rw [total_set, getD, Option.not_isSome_iff_eq_none.mp h, Option.getD_none, sub_self, ite_self,
        add_zero]
  rw [add, total_set, hdefault, add_sub_cancel_left]

end Dict

namespace ParseMmapLog

theorem filteredSize_cons (f : ℕ → Bool) (s : MemorySlice ℕ) (slices : List (MemorySlice ℕ)) :
    filteredSize f (s :: slices) =
      (if f s.allocation.stackTraceId then s.size else 0) + filteredSize f slices := by
  unfold filteredSize
  rw [List.filter_cons]
  split_ifs
  · rw [List.map_cons, List.sum_cons]
  · rw [zero_add]

theorem filteredSize_or {f g : ℕ → Bool} (hdisjoint : ∀ id, ¬ (f id = true ∧ g id = true))
    (slices : List (MemorySlice ℕ)) :
    filteredSize (fun id => f id || g id) slices = filteredSize f slices + filteredSize g slices := by
  induction slices with
  | nil => rfl
  | cons s slices ih =>
      have hs := hdisjoint s.allocation.stackTraceId
      rw [filteredSize_cons, filteredSize_cons, filteredSize_cons, ih]
      cases hf : f s.allocation.stackTraceId <;> cases hg : g s.allocation.stackTraceId
      · simp
      · simp only [Bool.or_true, if_true, Bool.false_eq_true, if_false]
        ring
      · simp only [Bool.or_false, if_true, Bool.false_eq_true, if_false]
        ring
      · exact absurd ⟨hf, hg⟩ hs

/-- Line by line, the sums of two memory logs. -/
def addLines (lines lines' : List (ℚ≥0 × ℤ)) : List (ℚ≥0 × ℤ) :=
  lines.zipWith (fun line line' => (line.1, line.2 + line'.2)) lines'

theorem addLines_concat {lines lines' : List (ℚ≥0 × ℤ)} (h : lines.length = lines'.length)
    (line line' : ℚ≥0 × ℤ) : addLines (lines ++ [line]) (lines' ++ [line']) =
      addLines lines lines' ++ [(line.1, line.2 + line'.2)] :=
  List.zipWith_append h

namespace MemoryLog

/-- The states of the loop for two filters, and for both of them together. -/
structure Splits (s s' t : MemoryLog) : Prop where
  memoryMap : s.memoryMap = t.memoryMap ∧ s'.memoryMap = t.memoryMap
  lastTime : s.lastTime = t.lastTime ∧ s'.lastTime = t.lastTime
  times : s.printed.map Prod.fst = s'.printed.map Prod.fst
  accum : t.accumMemory = s.accumMemory + s'.accumMemory
  printed : t.printed = addLines s.printed s'.printed

variable {s s' t : MemoryLog} {f g : ℕ → Bool}

theorem Splits.length_eq (h : Splits s s' t) : s.printed.length = s'.printed.length := by
  simpa using congrArg List.length h.times

/-- With the pending line. -/
theorem Splits.pending (h : Splits s s' t) :
    t.printed ++ [(t.lastTime, t.accumMemory)] =
      addLines (s.printed ++ [(s.lastTime, s.accumMemory)])
        (s'.printed ++ [(s'.lastTime, s'.accumMemory)]) := by
  rw [addLines_concat h.length_eq, h.printed, h.accum, h.lastTime.1]

theorem Splits.printMark (h : Splits s s' t) (time : ℚ≥0) :
    Splits (s.printMark time) (s'.printMark time) (t.printMark time) := by
  unfold MemoryLog.printMark
  rw [h.lastTime.1, h.lastTime.2]
  split_ifs with hlt
  · refine ⟨h.memoryMap, ⟨rfl, rfl⟩, ?_, h.accum, ?_⟩
    · simp [h.times]
    · simpa only [h.lastTime.1, h.lastTime.2] using h.pending
  · exact h

theorem Splits.step (h : Splits s s' t) (hdisjoint : ∀ id, ¬ (f id = true ∧ g id = true))
    (event : Event) :
    (s.step f event = none ∧ s'.step g event = none ∧
      t.step (fun id => f id || g id) event = none) ∨
    ∃ u u' v, s.step f event = some u ∧ s'.step g event = some u' ∧
      t.step (fun id => f id || g id) event = some v ∧ Splits u u' v := by
  have hmark := h.printMark event.time
  unfold MemoryLog.step
  dsimp only
  rw [hmark.memoryMap.1, hmark.memoryMap.2]
  cases hregister : (t.printMark event.time).memoryMap.register event with
  | none => exact .inl ⟨rfl, rfl, rfl⟩
  | some r =>
      obtain ⟨added, erased, m⟩ := r
      refine .inr ⟨_, _, _, rfl, rfl, rfl, ⟨rfl, rfl⟩, hmark.lastTime, hmark.times, ?_,
        hmark.printed⟩
      dsimp only
      rw [hmark.accum, filteredSize_or hdisjoint, filteredSize_or hdisjoint]
      ring

theorem run_concat (stackFilter : ℕ → Bool) (events : List Event) (event : Event) :
    run stackFilter (events ++ [event]) =
      (run stackFilter events).bind fun s => s.step stackFilter event := by
  simp only [run, List.foldlM_append, List.foldlM_cons, List.foldlM_nil, bind_pure]
  rfl

theorem splits_run (hdisjoint : ∀ id, ¬ (f id = true ∧ g id = true)) (events : List Event) :
    (run f events = none ∧ run g events = none ∧ run (fun id => f id || g id) events = none) ∨
    ∃ s s' t, run f events = some s ∧ run g events = some s' ∧
      run (fun id => f id || g id) events = some t ∧ Splits s s' t := by
  induction events using List.reverseRecOn with
  | nil => exact .inr ⟨{}, {}, {}, rfl, rfl, rfl, ⟨rfl, rfl⟩, ⟨rfl, rfl⟩, rfl, rfl, rfl⟩
  | append_singleton events event ih =>
      rw [run_concat, run_concat, run_concat]
      rcases ih with ⟨hs, hs', ht⟩ | ⟨s, s', t, hs, hs', ht, h⟩
      · simp [hs, hs', ht]
      · simpa only [hs, hs', ht, Option.bind_some] using h.step hdisjoint event

end MemoryLog

variable {before : List Event} {e : Event} {m : MemoryMap ℕ}

/-- An event that fails no assertion is known. -/
theorem MemoryMap.Follows.known (h : m.Follows before) (hsize : 0 < e.size)
    (hregister : (m.register e).isSome) : e.Known before := by
  cases e with
  | map => trivial
  | unmap time pointer size lineNumber =>
      have hpos : (0 : ℤ) < size := by exact_mod_cast hsize
      obtain ⟨erased, m', hunmap, -, -, hcut⟩ := registerUnmap_spec h.wellFormed pointer hpos
      simp only [MemoryMap.register, hunmap, Option.bind_some] at hregister
      split_ifs at hregister with hcheck
      · by_contra hnone
        have hempty : Extent.cutOff (pointer : ℤ) (pointer + size) m.extents = [] := by
          refine h.wellFormed.tiled.cutOff_eq_nil.mpr fun x hlo hhi => ?_
          have howner := h.owner_eq x
          rw [MemoryMap.owner] at howner
          rw [howner]
          by_contra hne
          exact hnone ⟨x, hlo, hhi, hne⟩
        rw [hempty, List.map_eq_nil_iff] at hcut
        simp [hcut] at hcheck
      · cases hregister

/-- On a log that fails no assertion the map follows the events, and the sum is
the selected memory, in whatever order the times are. -/
theorem MemoryLog.run_follows {stackFilter : ℕ → Bool} {events : List Event}
    (hsize : ∀ e ∈ events, 0 < e.size) {s : MemoryLog} (hrun : run stackFilter events = some s) :
    s.memoryMap.Follows events ∧ s.accumMemory = memoryAfter stackFilter events := by
  induction events using List.reverseRecOn generalizing s with
  | nil =>
      rw [← Option.some.inj hrun]
      exact ⟨MemoryMap.follows_empty, inv_init.accum_eq⟩
  | append_singleton events e ih =>
      rw [run_concat] at hrun
      obtain ⟨s₁, hrun₁, hstep⟩ := Option.bind_eq_some_iff.mp hrun
      obtain ⟨hfollows, haccum⟩ := ih (fun d hd => hsize d (List.mem_append_left _ hd)) hrun₁
      have hpos := hsize e (List.mem_append_right _ List.mem_cons_self)
      rw [step] at hstep
      obtain ⟨r, hregister, rfl⟩ := Option.map_eq_some_iff.mp hstep
      rw [printMark_memoryMap] at hregister
      have hknown := hfollows.known hpos (Option.isSome_iff_exists.mpr ⟨r, hregister⟩)
      obtain ⟨added, erased, m', hregister', hfollows', htiles, hadded⟩ :=
        hfollows.register hpos hknown
      obtain rfl := Option.some.inj (hregister.symm.trans hregister')
      refine ⟨hfollows', ?_⟩
      have hcount := hfollows.memoryAfter_concat htiles stackFilter
      dsimp only
      rw [hcount, ← hadded, printMark_accumMemory, haccum]
      ring

/-- The loop of `generate_ranking` fails the same assertions. -/
theorem exists_ranking {stackFilter : ℕ → Bool} {events : List Event} {s : MemoryLog}
    (hrun : MemoryLog.run stackFilter events = some s) :
    ∃ r, events.foldlM Ranking.step {} = some r ∧ r.memoryMap = s.memoryMap := by
  induction events using List.reverseRecOn generalizing s with
  | nil =>
      rw [← Option.some.inj hrun]
      exact ⟨{}, rfl, rfl⟩
  | append_singleton events e ih =>
      rw [MemoryLog.run_concat] at hrun
      obtain ⟨s₁, hrun₁, hstep⟩ := Option.bind_eq_some_iff.mp hrun
      obtain ⟨r, hranking, hmap⟩ := ih hrun₁
      rw [MemoryLog.step] at hstep
      obtain ⟨⟨added, erased, m'⟩, hregister, rfl⟩ := Option.map_eq_some_iff.mp hstep
      rw [MemoryLog.printMark_memoryMap, ← hmap] at hregister
      have hranked : (events ++ [e]).foldlM Ranking.step {} = r.step e := by
        rw [List.foldlM_append, hranking]
        simp
      rw [hranked, Ranking.step, hregister]
      exact ⟨_, rfl, rfl⟩

theorem total_calculateMemory (m : MemoryMap ℕ) (stackFilter : ℕ → Bool) :
    (calculateMemoryByStackId m).total stackFilter =
      filteredSize stackFilter (m.dict.entries.map Prod.snd) := by
  suffices h : ∀ (entries : List (ℤ × MemorySlice ℕ)) (d : Dict ℕ ℤ),
      (entries.foldl (fun d e => d.add e.2.allocation.stackTraceId e.2.size) d).total stackFilter =
        d.total stackFilter + filteredSize stackFilter (entries.map Prod.snd) from
    (h m.dict.entries .empty).trans (zero_add _)
  intro entries
  induction entries with
  | nil => exact fun d => (add_zero _).symm
  | cons e entries ih =>
      intro d
      rw [List.foldl_cons, ih, Dict.total_add, List.map_cons, filteredSize_cons, add_assoc]

theorem size_pos_of_parseLine {lineNumber : ℕ} {line : List Char}
    (h : parseLine lineNumber line = some e) : 0 < e.size := by
  have hchecked : ∀ {size checkedSize : ℕ}, checked size = some checkedSize → 0 < checkedSize := by
    intro size checkedSize hchecked
    unfold checked at hchecked
    split_ifs at hchecked with hsize
    rw [← Option.some.inj hchecked]
    exact Nat.pos_of_ne_zero hsize.2
  unfold parseLine at h
  split_ifs at h
  · split at h
    · obtain ⟨size, hsize, rfl⟩ := Option.map_eq_some_iff.mp h
      exact hchecked hsize
    · cases h
  · split at h
    · obtain ⟨size, hsize, rfl⟩ := Option.map_eq_some_iff.mp h
      exact hchecked hsize
    · cases h

theorem size_pos_of_parseMmapLog {eventLog : List Char} {events : List Event}
    (h : parseMmapLog eventLog = some events) : ∀ e ∈ events, 0 < e.size := by
  unfold parseMmapLog at h
  generalize (readlines eventLog).zipIdx 1 = lines at h
  induction lines generalizing events with
  | nil =>
      rw [← Option.some.inj h]
      simp
  | cons line lines ih =>
      rw [List.mapM_cons] at h
      obtain ⟨e, he, h⟩ := Option.bind_eq_some_iff.mp h
      obtain ⟨rest, hrest, heq⟩ := Option.bind_eq_some_iff.mp h
      rw [← Option.some.inj heq, List.forall_mem_cons]
      dsimp only at he
      split_ifs at he
      exact ⟨size_pos_of_parseLine he, ih hrest⟩

/-- The lines that `generate_memory_log` prints below its heading for the text of
an event log, or nothing if it raises an error. -/
def memoryLogOf (eventLog : List Char) (stackFilter : ℕ → Bool) : Option (List (ℚ≥0 × ℤ)) :=
  (parseMmapLog eventLog).bind (generateMemoryLog stackFilter)

/-- The memory logs of two disjoint selections of stacks fail or succeed together
and have the same times, and line by line they add up to the memory log of both. -/
theorem memoryLogOf_or (eventLog : List Char) {f g : ℕ → Bool}
    (hdisjoint : ∀ id, ¬ (f id = true ∧ g id = true)) :
    (memoryLogOf eventLog f).map (List.map Prod.fst) =
        (memoryLogOf eventLog g).map (List.map Prod.fst) ∧
      memoryLogOf eventLog (fun id => f id || g id) =
        (memoryLogOf eventLog f).bind fun lines =>
          (memoryLogOf eventLog g).map fun lines' => addLines lines lines' := by
  cases hparse : parseMmapLog eventLog with
  | none => simp [memoryLogOf, hparse]
  | some events =>
      simp only [memoryLogOf, hparse, Option.bind_some, generateMemoryLog]
      rcases MemoryLog.splits_run hdisjoint events with ⟨hs, hs', ht⟩ | ⟨s, s', t, hs, hs', ht, h⟩
      · simp [hs, hs', ht]
      · simp only [hs, hs', ht, Option.map_some, Option.bind_some, h.pending, and_true]
        simp [h.times, h.lastTime]

/-- The last line of a memory log is the memory that the ranking finds for the
selected stacks at the end. -/
theorem getLast?_memoryLogOf {eventLog : List Char} {stackFilter : ℕ → Bool}
    {lines : List (ℚ≥0 × ℤ)} (h : memoryLogOf eventLog stackFilter = some lines) :
    ∃ s : Ranking, ((parseMmapLog eventLog).bind fun events => events.foldlM Ranking.step {}) =
        some s ∧
      (lines.map Prod.snd).getLast? =
        some ((calculateMemoryByStackId s.memoryMap).total stackFilter) := by
  obtain ⟨events, hparse, hlog⟩ := Option.bind_eq_some_iff.mp h
  obtain ⟨s, hrun, rfl⟩ := Option.map_eq_some_iff.mp hlog
  obtain ⟨hfollows, haccum⟩ := MemoryLog.run_follows (size_pos_of_parseMmapLog hparse) hrun
  obtain ⟨r, hranking, hmap⟩ := exists_ranking hrun
  refine ⟨r, by rw [hparse, Option.bind_some, hranking], ?_⟩
  rw [List.map_append, List.map_singleton, List.getLast?_concat, total_calculateMemory, hmap,
    haccum, (hfollows.memoryAfter_eq stackFilter).2]

end ParseMmapLog

namespace MmapCounter

open ParseMmapLog

/-- The text of the event log that the calls leave, if no assertion fails. -/
def eventLogOf (calls : List Call) : Option (List Char) :=
  (Wrapper.run 4096 calls).map fun w => eventLogText w.eventLog

/-- Whatever calls are logged, the memory logs of two disjoint selections of stacks
fail or succeed together and have the same times, and line by line they add up to the
memory log of both selections. -/
theorem memory_logs_add_up (calls : List Call) {f g : ℕ → Bool}
    (hdisjoint : ∀ id, ¬ (f id = true ∧ g id = true)) :
    ((eventLogOf calls).bind fun log => (memoryLogOf log f).map (List.map Prod.fst)) =
        ((eventLogOf calls).bind fun log => (memoryLogOf log g).map (List.map Prod.fst)) ∧
      ((eventLogOf calls).bind fun log => memoryLogOf log fun id => f id || g id) =
        ((eventLogOf calls).bind fun log => (memoryLogOf log f).bind fun lines =>
          (memoryLogOf log g).map fun lines' => addLines lines lines') := by
  constructor
  · exact Option.bind_congr fun log _ => (memoryLogOf_or log hdisjoint).1
  · exact Option.bind_congr fun log _ => (memoryLogOf_or log hdisjoint).2

theorem memory_logs_add_up_threePages :
    ((eventLogOf threePages).bind fun log => (memoryLogOf log (· == 1)).map (List.map Prod.fst)) =
        ((eventLogOf threePages).bind fun log =>
          (memoryLogOf log (· == 2)).map (List.map Prod.fst)) ∧
      ((eventLogOf threePages).bind fun log => memoryLogOf log fun id => id == 1 || id == 2) =
        ((eventLogOf threePages).bind fun log => (memoryLogOf log (· == 1)).bind fun lines =>
          (memoryLogOf log (· == 2)).map fun lines' => addLines lines lines') :=
  memory_logs_add_up threePages (by intro id; simp only [beq_iff_eq]; omega)

/-- Where the memory log of the logged calls is produced, the loop of the ranking gets
through the log too, and the last line of the memory log is the memory that it finds
for the selected stacks. -/
theorem memory_log_ends_as_ranked (calls : List Call) (stackFilter : ℕ → Bool)
    {lines : List (ℚ≥0 × ℤ)}
    (h : ((eventLogOf calls).bind fun log => memoryLogOf log stackFilter) = some lines) :
    ∃ s : Ranking, (((eventLogOf calls).bind parseMmapLog).bind fun events =>
        events.foldlM Ranking.step {}) = some s ∧
      (lines.map Prod.snd).getLast? =
        some ((calculateMemoryByStackId s.memoryMap).total stackFilter) := by
  obtain ⟨log, hlog, hlines⟩ := Option.bind_eq_some_iff.mp h
  rw [hlog, Option.bind_some]
  exact getLast?_memoryLogOf hlines

theorem memory_log_ends_as_ranked_threePages :
    ∃ s : Ranking, (((eventLogOf threePages).bind parseMmapLog).bind fun events =>
        events.foldlM Ranking.step {}) = some s ∧
      (([(0, 8192), (1, 4096)] : List (ℚ≥0 × ℤ)).map Prod.snd).getLast? =
        some ((calculateMemoryByStackId s.memoryMap).total (· == 1)) :=
  memory_log_ends_as_ranked threePages (· == 1) (by decide +kernel)

end MmapCounter
end AllocCounter
