import AllocCounter.MmapWrapper
import AllocCounter.FirstAppearances

/-!
# The identity of stack traces

The wrapper interns stack traces and numbers them by their hash alone. In every
run the ids number the hashes in order of first appearance; they identify the
captured traces exactly when no two different ones have the same hash.
-/
namespace AllocCounter.MmapCounter

open FirstAppearances

def Call.captured : Call → Option StackTrace
  | .mmap c => if c.Registers then some c.stackTrace else none
  | .munmap _ => none

/-- The stack traces captured by a sequence of calls, in order. -/
def captured (calls : List Call) : List StackTrace := calls.filterMap Call.captured

def LogLine.stackTraceId? : LogLine → Option ℕ
  | .map _ _ _ stackTraceId => some stackTraceId
  | .unmap _ _ _ | .unmapFailed _ _ _ => none

/-- The ids of the logged mappings, in order. -/
def Wrapper.stackTraceIds (w : Wrapper) : List ℕ := w.eventLog.filterMap LogLine.stackTraceId?

theorem captured_concat (calls : List Call) (c : Call) :
    captured (calls ++ [c]) = captured calls ++ c.captured.toList := by
  cases h : c.captured <;> simp [captured, h]

namespace Wrapper

variable {pageSize : UInt64} {w w' : Wrapper} {c : MmapCall}

theorem run_concat (calls : List Call) (c : Call) :
    run pageSize (calls ++ [c]) = (run pageSize calls).bind fun w => w.next pageSize c := by
  simp only [run, List.foldlM_append, List.foldlM_cons, List.foldlM_nil, bind_pure]
  rfl

/-- The books of the ids: what is known of the hashes seen, and what was logged. -/
structure Numbers (hashes : List UInt64) (w : Wrapper) : Prop where
  known : ∀ hash, w.knownStackTraceHashToId.lookup hash =
    if hash ∈ hashes then some (rank hashes hash) else none
  size : UnorderedMap.size w.knownStackTraceHashToId = hashes.eraseDups.length
  ids : w.stackTraceIds = hashes.map (rank hashes)

/-- The books of the objects: a table entry is found under the hash of its trace,
a mapping has a trace with the hash of the one captured for it, every trace in use
was captured, and the first one of each hash is logged. -/
structure Interns (traces : List StackTrace) (w : Wrapper) : Prop where
  made : w.memoryMap.made = traces.length
  table : ∀ hash pointer, w.internedStackTraces.stackTraces.lookup hash = some pointer →
    pointer.target.hash = hash ∧ pointer.target ∈ traces
  slices : ∀ e ∈ w.memoryMap.slices.entries, e.2.allocation.target.stackTrace.get ∈ traces ∧
    ∃ trace, traces[e.2.allocation.object]? = some trace ∧
      e.2.allocation.target.stackTrace.get.hash = trace.hash
  logged : w.stackLog = ((firstsBy StackTrace.hash traces).zipIdx 1).map Prod.swap

theorem munmap_spec {c : MunmapCall} (h : w.munmap pageSize c = some w') :
    w'.knownStackTraceHashToId = w.knownStackTraceHashToId ∧ w'.stackLog = w.stackLog ∧
      w'.stackTraceIds = w.stackTraceIds ∧ w'.memoryMap.made = w.memoryMap.made ∧
      (∀ e' ∈ w'.memoryMap.slices.entries, ∃ e ∈ w.memoryMap.slices.entries,
        e'.2.allocation = e.2.allocation) ∧
      ∀ hash pointer, w'.internedStackTraces.stackTraces.lookup hash = some pointer →
        w.internedStackTraces.stackTraces.lookup hash = some pointer := by
  rcases munmap_cases h with ⟨-, rfl⟩ | ⟨-, -, -, known, m, interned, hunmap, rfl, hsub⟩ |
    ⟨-, -, rfl⟩
  · exact ⟨rfl, rfl, rfl, rfl, fun e he => ⟨e, he, rfl⟩, fun _ _ hlookup => hlookup⟩
  · have ⟨hmade, hslices⟩ := MemoryMap.of_mem_registerUnmap hunmap
    have hids : (w.eventLog ++ if known then [LogLine.unmap c.time c.addr c.length] else []).filterMap
        LogLine.stackTraceId? = w.eventLog.filterMap LogLine.stackTraceId? := by
      cases known <;> simp [LogLine.stackTraceId?]
    exact ⟨rfl, rfl, hids, hmade, hslices, hsub⟩
  · exact ⟨rfl, rfl, by simp [stackTraceIds, LogLine.stackTraceId?], rfl,
      fun e he => ⟨e, he, rfl⟩, fun _ _ hlookup => hlookup⟩

theorem numbers_initial : Numbers [] {} where
  known _ := rfl
  size := rfl
  ids := rfl

theorem interns_initial : Interns [] {} where
  made := rfl
  table _ _ h := nomatch h
  slices _ h := nomatch h
  logged := rfl

theorem Numbers.lookup_eq_none_iff {hashes : List UInt64} (h : Numbers hashes w) (hash : UInt64) :
    w.knownStackTraceHashToId.lookup hash = none ↔ hash ∉ hashes := by
  rw [h.known]
  split_ifs with hin <;> simp [hin]

theorem Numbers.mmap {hashes : List UInt64} (h : Numbers hashes w)
    (hreg : w.registerMapping pageSize c = some w')
    (hhash : (w.internedStackTraces.construct c.stackTrace).1.get.hash = c.stackTrace.hash) :
    Numbers (hashes ++ [c.stackTrace.hash]) w' := by
  obtain ⟨handle, interned, id, hbuilt, -, -, hlog, hcase⟩ := registerMapping_spec hreg
  rw [hbuilt] at hhash
  rw [hhash] at hcase
  have hids : w'.stackTraceIds = w.stackTraceIds ++ [id] := by
    simp [stackTraceIds, hlog, LogLine.stackTraceId?]
  have hstable : hashes.map (rank (hashes ++ [c.stackTrace.hash])) = hashes.map (rank hashes) :=
    List.map_congr_left fun hash hmem => rank_append hmem _
  cases hcase with
  | inl hold =>
      obtain ⟨hlookup, hknown, hstack⟩ := hold
      have hmem : c.stackTrace.hash ∈ hashes := by
        by_contra hnot
        cases hlookup.symm.trans ((h.lookup_eq_none_iff _).mpr hnot)
      rw [h.known, if_pos hmem] at hlookup
      refine ⟨fun hash => ?_, ?_, ?_⟩
      · rw [hknown, h.known]
        by_cases hin : hash ∈ hashes
        · rw [if_pos hin, if_pos (List.mem_append_left _ hin), rank_append hin]
        · have hne : hash ≠ c.stackTrace.hash := fun heq => hin (heq ▸ hmem)
          simp [hin, hne]
      · rw [hknown, h.size, eraseDups_concat, if_pos hmem]
      · rw [hids, h.ids, List.map_append, hstable, List.map_singleton, rank_append hmem,
          Option.some.inj hlookup]
  | inr hnew =>
      obtain ⟨hlookup, hid, hknown, hstack⟩ := hnew
      have hmem : c.stackTrace.hash ∉ hashes := (h.lookup_eq_none_iff _).mp hlookup
      rw [h.size] at hid
      have hrank : rank (hashes ++ [c.stackTrace.hash]) c.stackTrace.hash = id := by
        rw [rank_concat_self hmem, hid]
      refine ⟨fun hash => ?_, ?_, ?_⟩
      · rw [hknown, UnorderedMap.lookup_insert_eq, h.known]
        by_cases hnewest : hash = c.stackTrace.hash
        · rw [if_pos hnewest, hnewest, if_pos (by simp), hrank]
        · rw [if_neg hnewest]
          by_cases hin : hash ∈ hashes
          · rw [if_pos hin, if_pos (List.mem_append_left _ hin), rank_append hin]
          · simp [hin, hnewest]
      · rw [hknown, UnorderedMap.size_insert hlookup, h.size, eraseDups_concat, if_neg hmem,
          List.length_append, List.length_singleton]
      · rw [hids, h.ids, List.map_append, hstable, List.map_singleton, hrank]

theorem Interns.mmap {traces : List StackTrace} (h : Interns traces w)
    (hn : Numbers (traces.map StackTrace.hash) w)
    (hreg : w.registerMapping pageSize c = some w') :
    Interns (traces ++ [c.stackTrace]) w' ∧
      (w.internedStackTraces.construct c.stackTrace).1.get.hash = c.stackTrace.hash := by
  obtain ⟨handle, interned, id, hbuilt, hsub, hmap, -, hcase⟩ := registerMapping_spec hreg
  rw [hbuilt]
  have hobject : ∀ hash pointer, interned.stackTraces.lookup hash = some pointer →
      (pointer.target.hash = hash ∧ pointer.target ∈ traces) ∨
        hash = c.stackTrace.hash ∧ pointer.target = c.stackTrace := by
    intro hash pointer hlookup
    have hconstruct : (w.internedStackTraces.construct c.stackTrace).2.stackTraces.lookup hash =
        some pointer := by rw [hbuilt, hlookup]
    cases InternedStackTraces.of_lookup_construct hconstruct with
    | inl hold => exact .inl (h.table hash pointer hold)
    | inr hnew => exact .inr hnew
  have htable : ∀ hash pointer, interned.stackTraces.lookup hash = some pointer →
      pointer.target.hash = hash ∧ pointer.target ∈ traces ++ [c.stackTrace] := by
    intro hash pointer hlookup
    cases hobject hash pointer hlookup with
    | inl hold => exact ⟨hold.1, List.mem_append_left _ hold.2⟩
    | inr hnew => exact ⟨hnew.1 ▸ hnew.2 ▸ rfl, by simp [hnew.2]⟩
  have hself : interned.stackTraces.lookup c.stackTrace.hash = some handle.stackTrace := by
    have hlookup := InternedStackTraces.lookup_construct (s := w.internedStackTraces) c.stackTrace
    rwa [hbuilt] at hlookup
  have ⟨hhash, hget⟩ := htable _ _ hself
  refine ⟨⟨?_, fun hash pointer hlookup => htable hash pointer (hsub hash pointer hlookup), ?_, ?_⟩,
    hhash⟩
  · rw [hmap, List.length_append, List.length_singleton, ← h.made]
    rfl
  · intro e he
    rw [hmap] at he
    cases MemoryMap.of_mem_registerMap he with
    | inl hnew =>
        rw [hnew, h.made]
        exact ⟨hget, c.stackTrace, by simp, hhash⟩
    | inr hold =>
        obtain ⟨hmem, trace, hcaptured, heq⟩ := h.slices e hold
        refine ⟨List.mem_append_left _ hmem, trace, ?_, heq⟩
        rw [List.getElem?_append_left (List.getElem?_eq_some_iff.mp hcaptured).1, hcaptured]
  · have hget_hash : handle.get.hash = c.stackTrace.hash := hhash
    rw [hget_hash] at hcase
    rw [firstsBy_concat]
    cases hcase with
    | inl hold =>
        have hmem : c.stackTrace.hash ∈ traces.map StackTrace.hash := by
          by_contra hnot
          cases hold.1.symm.trans ((hn.lookup_eq_none_iff _).mpr hnot)
        rw [hold.2.2, h.logged, if_pos hmem]
    | inr hnew =>
        obtain ⟨hlookup, hid, -, hstack⟩ := hnew
        have hmem := (hn.lookup_eq_none_iff _).mp hlookup
        -- a hash that is new has no object in the table
        have hself' : handle.get = c.stackTrace := by
          cases hobject _ _ hself with
          | inl hold => exact absurd (List.mem_map.mpr ⟨_, hold.2, hold.1⟩) hmem
          | inr hnew => exact hnew.2
        rw [hstack, h.logged, if_neg hmem, List.zipIdx_append, List.map_append, length_firstsBy,
          hself', hid, hn.size]
        simp [Nat.add_comm]

theorem books_munmap {c : MunmapCall} {hashes : List UInt64} {traces : List StackTrace}
    (hn : Numbers hashes w) (hi : Interns traces w) (h : w.munmap pageSize c = some w') :
    Numbers hashes w' ∧ Interns traces w' := by
  obtain ⟨hknown, hstack, hids, hmade, hslices, hsub⟩ := munmap_spec h
  refine ⟨⟨?_, ?_, ?_⟩, ⟨?_, ?_, ?_, ?_⟩⟩
  · rw [hknown]
    exact hn.known
  · rw [hknown, hn.size]
  · rw [hids, hn.ids]
  · rw [hmade, hi.made]
  · exact fun hash pointer hlookup => hi.table hash pointer (hsub hash pointer hlookup)
  · intro e' he'
    obtain ⟨e, he, heq⟩ := hslices e' he'
    rw [heq]
    exact hi.slices e he
  · rw [hstack, hi.logged]

/-- The books after every sequence of calls. -/
theorem books_run (calls : List Call) (h : run pageSize calls = some w) :
    Numbers ((captured calls).map StackTrace.hash) w ∧ Interns (captured calls) w := by
  induction calls using List.reverseRecOn generalizing w with
  | nil =>
      rw [← Option.some.inj h]
      exact ⟨numbers_initial, interns_initial⟩
  | append_singleton calls call ih =>
      rw [run_concat] at h
      obtain ⟨w₀, h₀, hnext⟩ := Option.bind_eq_some_iff.mp h
      obtain ⟨hn, hi⟩ := ih h₀
      rw [captured_concat]
      cases call with
      | munmap c =>
          simp only [Call.captured, Option.toList_none, List.append_nil]
          exact books_munmap hn hi hnext
      | mmap c =>
          simp only [next, Wrapper.mmap] at hnext
          simp only [Call.captured]
          split_ifs at hnext ⊢
          · obtain ⟨hi', hhash⟩ := hi.mmap hn hnext
            rw [Option.toList_some, List.map_append, List.map_singleton]
            exact ⟨hn.mmap hnext hhash, hi'⟩
          · rw [Option.toList_none, List.append_nil, ← Option.some.inj hnext]
            exact ⟨hn, hi⟩

/-- At every point of a run, which has made the calls `before`: a mapping has the
stack trace that was captured for it, the ids number the captured traces of the
run in order of first appearance, the stack log has every trace once, under its
id, and two logged mappings have one id if and only if their traces are equal. -/
structure IdentityExact (pageSize : UInt64) (calls : List Call) : Prop where
  get : ∀ before w, before <+: calls → run pageSize before = some w →
    ∀ e ∈ w.memoryMap.slices.entries, (captured before)[e.2.allocation.object]? =
      some e.2.allocation.target.stackTrace.get
  ids : ∀ before w, before <+: calls → run pageSize before = some w →
    w.stackTraceIds = (captured before).map (rank (captured calls))
  stackLog : ∀ before w, before <+: calls → run pageSize before = some w →
    w.stackLog = ((captured before).eraseDups.zipIdx 1).map Prod.swap
  same_iff : ∀ before w, before <+: calls → run pageSize before = some w →
    ∀ (i j : ℕ) (trace trace' : StackTrace), (captured before)[i]? = some trace →
      (captured before)[j]? = some trace' →
      (w.stackTraceIds[i]? = w.stackTraceIds[j]? ↔ trace = trace')

theorem Interns.get {traces : List StackTrace} (h : Interns traces w)
    (hinj : Set.InjOn StackTrace.hash {trace | trace ∈ traces})
    {e : ℤ × MemorySlice InternedStackTrace} (he : e ∈ w.memoryMap.slices.entries) :
    traces[e.2.allocation.object]? = some e.2.allocation.target.stackTrace.get := by
  obtain ⟨hmem, trace, hcaptured, hhash⟩ := h.slices e he
  rw [hcaptured, hinj hmem (List.mem_of_getElem? hcaptured) hhash]

theorem Numbers.ids_eq {traces : List StackTrace} (h : Numbers (traces.map StackTrace.hash) w)
    (hinj : Set.InjOn StackTrace.hash {trace | trace ∈ traces}) :
    w.stackTraceIds = traces.map (rank traces) := by
  rw [h.ids, List.map_map]
  exact List.map_congr_left fun trace htrace => rank_map hinj htrace

/-- Equal ids are equal hashes. -/
theorem Numbers.same_id_iff {traces : List StackTrace}
    (h : Numbers (traces.map StackTrace.hash) w) {i j : ℕ} {trace trace' : StackTrace}
    (hi : traces[i]? = some trace) (hj : traces[j]? = some trace') :
    w.stackTraceIds[i]? = w.stackTraceIds[j]? ↔ trace.hash = trace'.hash := by
  rw [h.ids, List.map_map, List.getElem?_map, List.getElem?_map, hi, hj]
  simp only [Option.map_some, Option.some.injEq, Function.comp_apply]
  exact rank_inj (List.mem_map_of_mem (List.mem_of_getElem? hi))

/-- Stack identity is exact in a run that ends if and only if no two different
captured stack traces have the same hash. -/
theorem identityExact_iff {calls : List Call} (hrun : (run pageSize calls).isSome) :
    IdentityExact pageSize calls ↔
      ∀ trace ∈ captured calls, ∀ trace' ∈ captured calls, trace.hash = trace'.hash →
        trace = trace' := by
  constructor
  · intro h trace htrace trace' htrace' hhash
    obtain ⟨w, hw⟩ := Option.isSome_iff_exists.mp hrun
    obtain ⟨i, hi⟩ := List.mem_iff_getElem?.mp htrace
    obtain ⟨j, hj⟩ := List.mem_iff_getElem?.mp htrace'
    apply (h.same_iff calls w (List.prefix_refl _) hw i j trace trace' hi hj).mp
    exact ((books_run calls hw).1.same_id_iff hi hj).mpr hhash
  · intro hinj
    have hleading : ∀ before, before <+: calls →
        Set.InjOn StackTrace.hash {trace | trace ∈ captured before} := by
      intro before hbefore trace htrace trace' htrace' hhash
      have hsub := (hbefore.filterMap Call.captured).subset
      exact hinj trace (hsub htrace) trace' (hsub htrace') hhash
    constructor
    · intro before w hbefore hw e he
      exact (books_run before hw).2.get (hleading before hbefore) he
    · intro before w hbefore hw
      rw [(books_run before hw).1.ids_eq (hleading before hbefore)]
      obtain ⟨after, hafter⟩ := hbefore.filterMap Call.captured
      have hcalls : captured before ++ after = captured calls := hafter
      apply List.map_congr_left
      intro trace htrace
      rw [← hcalls, rank_append htrace]
    · intro before w hbefore hw
      rw [(books_run before hw).2.logged, firstsBy_eq_eraseDups (hleading before hbefore)]
    · intro before w hbefore hw i j trace trace' hi hj
      rw [(books_run before hw).1.same_id_iff hi hj]
      have hmem := List.mem_of_getElem? hi
      have hmem' := List.mem_of_getElem? hj
      exact ⟨fun hhash => hleading before hbefore hmem hmem' hhash, fun heq => heq ▸ rfl⟩

/-- Two pages mapped from two stacks of two frames, and the first one unmapped. -/
def twoStacks (first second : List Address) : List Call :=
  [.mmap ⟨false, 0x10000, 4096, true, 0, first⟩,
    .mmap ⟨false, 0x20000, 4096, true, 1, second⟩,
    .munmap ⟨false, 0x10000, 4096, true, 1⟩]

theorem identityExact_iff_twoStacks :
    IdentityExact 4096 (twoStacks [0x401000, 0x402000] [0x401800, 0x402000]) :=
  (identityExact_iff (by decide +kernel)).mpr (by decide +kernel)

/-- The bit shifted out of the first frame is put back by the second one. -/
theorem not_identityExact_twoStacks :
    ¬ ∀ calls, (run 4096 calls).isSome → IdentityExact 4096 calls := by
  intro h
  let calls := twoStacks [0x401000, 0x402000] [0x401800, 0x403000]
  have hexact := h calls (by decide +kernel)
  have hrun : run 4096 calls = some ((run 4096 calls).get (by decide +kernel)) :=
    (Option.some_get _).symm
  have hsame := (hexact.same_iff calls _ (List.prefix_refl _) hrun 0 1 ⟨[0x401000, 0x402000]⟩
    ⟨[0x401800, 0x403000]⟩ (by decide +kernel) (by decide +kernel)).mp (by decide +kernel)
  exact absurd hsame (by decide)

end Wrapper

end AllocCounter.MmapCounter
