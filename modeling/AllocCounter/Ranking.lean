import AllocCounter.MemoryLog
import AllocCounter.InsertionOrderedMaps
import Mathlib.Algebra.Order.BigOperators.Group.List

/-!
# The ranking of stacks

`generate_ranking` of `parse-mmap-log.py` compares the memory of each stack id at
the end of the log with a baseline. The loop takes the baseline at the first event
at or after two hours, and again at every later event as long as what it took is
empty. A printed line is the pair of a stack id and its growth; the millions of bytes
that are printed after the growth are left out. Using a baseline that was never taken
raises, which gives `none`.
-/
namespace AllocCounter.ParseMmapLog

def calculateMemoryByStackId (m : MemoryMap ℕ) : Dict ℕ ℤ :=
  m.dict.entries.foldl (fun d e => d.add e.2.allocation.stackTraceId e.2.size) .empty

structure Ranking where
  memoryMap : MemoryMap ℕ := .empty
  baseline : Option (Dict ℕ ℤ) := none

/-- Neither `None` nor an empty `dict`. -/
def truthy : Option (Dict ℕ ℤ) → Bool
  | none => false
  | some d => !d.items.isEmpty

namespace Ranking

/-- The body of the loop over the events. -/
def step (s : Ranking) (event : Event) : Option Ranking :=
  let baseline := if (2 * 3600 : ℕ) ≤ event.time ∧ ¬ truthy s.baseline
    then some (calculateMemoryByStackId s.memoryMap) else s.baseline
  (s.memoryMap.register event).map fun (_, _, memoryMap) => { memoryMap, baseline }

def memoryIncreaseByStackId (s : Ranking) : Option (Dict ℕ ℤ) :=
  let memoryByStackIdEnd := calculateMemoryByStackId s.memoryMap
  memoryByStackIdEnd.items.foldlM (fun increase e =>
    s.baseline.map fun (baseline : Dict ℕ ℤ) =>
      Dict.set increase e.1 (e.2 - baseline.getD e.1 0)) .empty

/-- The order of the keys `-x[1]`, by which the sorting is stable. -/
def KeyLE (x y : ℕ × ℤ) : Prop := -x.2 ≤ -y.2

instance : DecidableRel KeyLE := fun x y => inferInstanceAs (Decidable (-x.2 ≤ -y.2))

instance : Std.Total KeyLE := ⟨fun x y => le_total (-x.2) (-y.2)⟩

instance : IsTrans (ℕ × ℤ) KeyLE := ⟨fun _ _ _ hxy hyz => Int.le_trans hxy hyz⟩

/-- What follows the loop. -/
def worstStacks (s : Ranking) : Option (List (ℕ × ℤ)) :=
  s.memoryIncreaseByStackId.map fun increase => increase.items.insertionSort KeyLE

end Ranking

def generateRanking (events : List Event) : Option (List (ℕ × ℤ)) :=
  (events.foldlM Ranking.step {}).bind Ranking.worstStacks

/-- Some address is owned by an allocation with the stack id. -/
def Owns (events : List Event) (stackId : ℕ) : Prop :=
  ∃ x, ∃ a ∈ ownerAfter events x, a.stackTraceId = stackId

noncomputable def bytesAfter (events : List Event) (stackId : ℕ) : ℕ :=
  memoryAfter (fun id => id = stackId) events

/-- The events before the two-hour mark. -/
def beforeMark (events : List Event) : List Event := events.filter fun e => e.time < (2 * 3600 : ℕ)

def afterMark (events : List Event) : List Event := events.filter fun e => (2 * 3600 : ℕ) ≤ e.time

/-- The stack ids that own memory at the end, with their growth since the mark,
the greatest growth first. -/
structure IsRanking (events : List Event) (ranking : List (ℕ × ℤ)) : Prop where
  nodup : (ranking.map Prod.fst).Nodup
  mem_iff : ∀ stackId, stackId ∈ ranking.map Prod.fst ↔ Owns events stackId
  growth : ∀ r ∈ ranking, r.2 = bytesAfter events r.1 - bytesAfter (beforeMark events) r.1
  sorted : ranking.Pairwise fun r q => q.2 ≤ r.2

/-- The function returns the ranking. -/
def Ranks (events : List Event) : Prop :=
  ∃ ranking, generateRanking events = some ranking ∧ IsRanking events ranking

def Event.stackTraceId : Event → Option ℕ
  | .map _ _ _ stackTraceId _ => some stackTraceId
  | .unmap .. => none

/-- The log reaches the mark or ends without owned memory; and if it has two
events from the mark on, something is owned at the mark, or nothing that the
first of them maps is owned by its stack id at the end. -/
def BaselineKept (events : List Event) : Prop :=
  match afterMark events with
  | [] => ∀ stackId, ¬ Owns events stackId
  | [_] => True
  | first :: _ :: _ => (∃ stackId, Owns (beforeMark events) stackId) ∨
      ∀ stackId ∈ first.stackTraceId, ¬ Owns events stackId

variable {events before : List Event}

theorem Valid.mark (h : Valid events) : events = beforeMark events ++ afterMark events := by
  have hordered := h.ordered
  clear h
  induction events with
  | nil => rfl
  | cons e events ih =>
      obtain ⟨he, hrest⟩ := List.pairwise_cons.mp hordered
      rw [beforeMark, afterMark, List.filter_cons, List.filter_cons]
      by_cases hmark : e.time < (2 * 3600 : ℕ)
      · rw [if_pos (by simpa using hmark), if_neg (by simpa using hmark), List.cons_append]
        exact congrArg _ (ih hrest)
      · have hlate : ∀ d ∈ events, ¬ d.time < (2 * 3600 : ℕ) := fun d hd hlt =>
          hmark ((he d hd).trans_lt hlt)
        have hnil : events.filter (fun d : Event => d.time < (2 * 3600 : ℕ)) = [] := by
          simpa [List.filter_eq_nil_iff] using hlate
        have hall : events.filter (fun d : Event => (2 * 3600 : ℕ) ≤ d.time) = events := by
          simpa [List.filter_eq_self] using hlate
        rw [if_neg (by simpa using hmark), if_pos (by simpa using hmark), hnil, hall]
        rfl

namespace MemoryMap

variable {m : MemoryMap ℕ}

theorem Follows.owns_iff (h : Follows events m) (stackId : ℕ) :
    Owns events stackId ↔ bytesAfter events stackId ≠ 0 := by
  have hfinite := (h.memoryAfter_eq fun id => id = stackId).1
  rw [bytesAfter, memoryAfter, ne_eq, Set.ncard_eq_zero hfinite, ← ne_eq,
    ← Set.nonempty_iff_ne_empty]
  simp [Owns, selectedAfter, Extent.selected, Set.Nonempty]

/-- A stack id has an entry exactly if it owns memory, and the entry is its size. -/
theorem Follows.get?_calculateMemory (h : Follows events m) (stackId : ℕ) :
    (calculateMemoryByStackId m).get? stackId =
      if bytesAfter events stackId = 0 then none else some (bytesAfter events stackId : ℤ) := by
  have hcount := (h.memoryAfter_eq fun id => id = stackId).2
  have htotal : (bytesAfter events stackId : ℤ) = ((m.dict.entries.filter
      fun e => e.2.allocation.stackTraceId = stackId).map fun e => e.2.size).sum := by
    rw [bytesAfter, hcount, filteredSize, List.filter_map, List.map_map]
    rfl
  rw [calculateMemoryByStackId, Dict.get?_foldl_add, ← htotal]
  by_cases hmem : stackId ∈ m.dict.entries.map fun e => e.2.allocation.stackTraceId
  · -- a slice of the stack id makes the total positive
    obtain ⟨e, he, hid⟩ := List.mem_map.mp hmem
    have hpos : 0 < ((m.dict.entries.filter
        fun e => e.2.allocation.stackTraceId = stackId).map fun e => e.2.size).sum := by
      refine List.sum_pos _ ?_ ?_
      · simp only [List.mem_map, List.mem_filter]
        rintro _ ⟨d, ⟨hd, -⟩, rfl⟩
        exact h.wellFormed.size_pos d hd
      · rw [ne_eq, List.map_eq_nil_iff]
        exact List.ne_nil_of_mem (List.mem_filter.mpr ⟨he, by simpa using hid⟩)
    have hne : bytesAfter events stackId ≠ 0 := by omega
    rw [if_pos hmem, if_neg hne]
  · have hnil : m.dict.entries.filter (fun e => e.2.allocation.stackTraceId = stackId) = [] := by
      simpa [List.filter_eq_nil_iff] using hmem
    have hzero : bytesAfter events stackId = 0 := by
      rw [hnil, List.map_nil, List.sum_nil] at htotal
      exact_mod_cast htotal
    rw [if_neg hmem, if_pos hzero]

theorem Follows.getD_calculateMemory (h : Follows events m) (stackId : ℕ) :
    (calculateMemoryByStackId m).getD stackId 0 = bytesAfter events stackId := by
  rw [Dict.getD, h.get?_calculateMemory]
  split_ifs with hzero
  · simp [hzero]
  · rfl

theorem Follows.mem_keys_calculateMemory (h : Follows events m) (stackId : ℕ) :
    stackId ∈ (calculateMemoryByStackId m).items.map Prod.fst ↔ Owns events stackId := by
  rw [Dict.mem_keys, h.get?_calculateMemory, h.owns_iff]
  split_ifs with hzero <;> simp [hzero]

theorem Follows.truthy_iff (h : Follows events m) :
    truthy (some (calculateMemoryByStackId m)) ↔ ∃ stackId, Owns events stackId := by
  simp only [← h.mem_keys_calculateMemory, truthy, Bool.not_eq_true', List.isEmpty_eq_false_iff]
  rw [ne_eq, ← List.map_eq_nil_iff (f := Prod.fst), List.eq_nil_iff_forall_not_mem, not_forall]
  simp only [not_not]

end MemoryMap

theorem owns_of_owner {x : ℤ} (h : ownerAfter events x ≠ none) : ∃ stackId, Owns events stackId := by
  obtain ⟨a, ha⟩ := Option.ne_none_iff_exists'.mp h
  exact ⟨a.stackTraceId, x, a, ha, rfl⟩

/-- If nothing is owned, the next event of a valid log is a mapping and its stack
id is the only one that owns memory afterwards. -/
theorem owns_concat (hnone : ∀ stackId, ¬ Owns before stackId) {e : Event} (hsize : 0 < e.size)
    (hknown : e.Known before) (stackId : ℕ) :
    Owns (before ++ [e]) stackId ↔ stackId ∈ e.stackTraceId := by
  have hbefore : ∀ x, ownerAfter before x = none := by
    intro x
    by_contra hx
    obtain ⟨id, hid⟩ := owns_of_owner hx
    exact hnone id hid
  cases e with
  | unmap time pointer size lineNumber =>
      obtain ⟨x, -, -, hx⟩ := hknown
      exact absurd (hbefore x) hx
  | map time pointer size id lineNumber =>
      have howner : ∀ x : ℤ, ownerAfter (before ++ [.map time pointer size id lineNumber]) x =
          if (pointer : ℤ) ≤ x ∧ x < pointer + size then some ⟨pointer, size, id⟩ else none := by
        intro x
        rw [ownerAfter_concat, hbefore]
        rfl
      constructor
      · intro ⟨x, a, ha, hid⟩
        rw [howner, Option.mem_def] at ha
        split_ifs at ha
        rw [← hid, ← Option.some.inj ha]
        rfl
      · intro hid
        obtain rfl := Option.some.inj hid
        have hpos : 0 < size := hsize
        refine ⟨pointer, ⟨pointer, size, id⟩, ?_, rfl⟩
        rw [howner, if_pos ⟨le_rfl, by omega⟩]
        rfl

namespace Ranking

variable {s : Ranking}

/-- One event of a valid log: the map follows, and the baseline is taken if the
event is late and there is none yet, or an empty one. -/
theorem step_spec (h : s.memoryMap.Follows before) {e : Event} (hvalid : Valid (before ++ [e])) :
    ∃ m', s.step e = some ⟨m', if (2 * 3600 : ℕ) ≤ e.time ∧ ¬ truthy s.baseline
        then some (calculateMemoryByStackId s.memoryMap) else s.baseline⟩ ∧
      m'.Follows (before ++ [e]) := by
  obtain ⟨-, -, hsize, hknown⟩ := valid_concat.mp hvalid
  obtain ⟨added, erased, m', hregister, hfollows, -⟩ := h.register hsize hknown
  exact ⟨m', by simp only [step, hregister, Option.map_some], hfollows⟩

/-- Events before the mark, and events after a baseline with entries, take none. -/
theorem run_keeps {after : List Event} (h : s.memoryMap.Follows before)
    (hvalid : Valid (before ++ after))
    (hkeep : (∀ e ∈ after, e.time < (2 * 3600 : ℕ)) ∨ truthy s.baseline) :
    ∃ m', after.foldlM step s = some ⟨m', s.baseline⟩ ∧ m'.Follows (before ++ after) := by
  induction after generalizing before s with
  | nil => exact ⟨s.memoryMap, rfl, by simpa using h⟩
  | cons e after ih =>
      rw [List.append_cons] at hvalid
      obtain ⟨m₁, hstep, h₁⟩ := step_spec h hvalid.before
      have hnot : ¬ ((2 * 3600 : ℕ) ≤ e.time ∧ ¬ truthy s.baseline) := by
        intro ⟨hlate, hfalse⟩
        cases hkeep with
        | inl hearly => exact absurd (hearly e List.mem_cons_self) (not_lt.mpr hlate)
        | inr htrue => exact hfalse htrue
      rw [if_neg hnot] at hstep
      obtain ⟨m', hrun, h'⟩ := ih (s := ⟨m₁, s.baseline⟩) h₁ hvalid
        (hkeep.imp_left fun hearly d hd => hearly d (List.mem_cons_of_mem _ hd))
      refine ⟨m', ?_, by rwa [List.append_cons]⟩
      rw [List.foldlM_cons, hstep]
      exact hrun

/-- The first late event takes the baseline. -/
theorem step_first (h : s.memoryMap.Follows before) {e : Event} (hvalid : Valid (before ++ [e]))
    (hlate : (2 * 3600 : ℕ) ≤ e.time) (hfalse : ¬ truthy s.baseline) :
    ∃ m', s.step e = some ⟨m', some (calculateMemoryByStackId s.memoryMap)⟩ ∧
      m'.Follows (before ++ [e]) := by
  obtain ⟨m', hstep, h'⟩ := step_spec h hvalid
  rw [if_pos ⟨hlate, hfalse⟩] at hstep
  exact ⟨m', hstep, h'⟩

/-- The baseline is taken after a prefix of the log. -/
def TakenAfter (snapshot : List Event) (s : Ranking) : Prop :=
  ∃ m : MemoryMap ℕ, m.Follows snapshot ∧ s.baseline = some (calculateMemoryByStackId m)

/-- The loop on the late events of a valid log, after the early ones. -/
theorem run_late (h : s.memoryMap.Follows before) (hnone : s.baseline = none) {first : Event}
    {rest : List Event} (hvalid : Valid (before ++ first :: rest))
    (hlate : ∀ e ∈ first :: rest, (2 * 3600 : ℕ) ≤ e.time) :
    ∃ s', (first :: rest).foldlM step s = some s' ∧
      s'.memoryMap.Follows (before ++ first :: rest) ∧
      (rest = [] ∨ (∃ stackId, Owns before stackId) → s'.TakenAfter before) ∧
      (rest ≠ [] → (∀ stackId, ¬ Owns before stackId) → s'.TakenAfter (before ++ [first])) := by
  rw [List.append_cons] at hvalid
  obtain ⟨m₁, hstep₁, h₁⟩ := step_first h hvalid.before (hlate first List.mem_cons_self)
    (by simp [hnone, truthy])
  have hkept : ∀ m₂ : MemoryMap ℕ, truthy (some (calculateMemoryByStackId m₂)) →
      ∀ s₁ : Ranking, s₁.baseline = some (calculateMemoryByStackId m₂) →
      ∀ l r, s₁.memoryMap.Follows l → Valid (l ++ r) →
      ∃ s', r.foldlM step s₁ = some s' ∧ s'.memoryMap.Follows (l ++ r) ∧
        s'.baseline = some (calculateMemoryByStackId m₂) := by
    intro m₂ htrue s₁ hs₁ l r hl hv
    obtain ⟨m', hrun, h'⟩ := run_keeps hl hv (.inr (hs₁ ▸ htrue))
    exact ⟨⟨m', s₁.baseline⟩, hrun, h', hs₁⟩
  rw [List.foldlM_cons, hstep₁]
  by_cases htrue : truthy (some (calculateMemoryByStackId s.memoryMap))
  · obtain ⟨s', hrun, h', hbase⟩ := hkept _ htrue ⟨m₁, _⟩ rfl _ _ h₁ hvalid
    refine ⟨s', hrun, by rwa [List.append_cons], fun _ => ⟨_, h, hbase⟩, ?_⟩
    exact fun _ hnobody => absurd (h.truthy_iff.mp htrue) (not_exists.mpr hnobody)
  · have hnobody : ∀ stackId, ¬ Owns before stackId :=
      not_exists.mp fun howns => htrue (h.truthy_iff.mpr howns)
    cases rest with
    | nil =>
        exact ⟨⟨m₁, _⟩, rfl, h₁, fun _ => ⟨_, h, rfl⟩, fun hrest => absurd rfl hrest⟩
    | cons second rest =>
        -- nothing was owned, so the second late event takes the baseline again
        rw [List.append_cons] at hvalid
        obtain ⟨m₂, hstep₂, h₂⟩ := step_first (s := ⟨m₁, _⟩) h₁ hvalid.before
          (hlate second (by simp)) htrue
        obtain ⟨-, -, hsize, hknown⟩ := valid_concat.mp hvalid.before.before
        have htrue₁ : truthy (some (calculateMemoryByStackId m₁)) := by
          obtain ⟨id, hid⟩ : ∃ id, id ∈ first.stackTraceId := by
            cases first with
            | map _ _ _ id _ => exact ⟨id, rfl⟩
            | unmap _ _ _ _ =>
                obtain ⟨x, -, -, hx⟩ := hknown
                obtain ⟨id, hid⟩ := owns_of_owner hx
                exact absurd hid (hnobody id)
          exact h₁.truthy_iff.mpr ⟨id, (owns_concat hnobody hsize hknown id).mpr hid⟩
        obtain ⟨s', hrun, h', hbase⟩ := hkept _ htrue₁ ⟨m₂, _⟩ rfl _ _ h₂ hvalid
        refine ⟨s', ?_, by rwa [List.append_cons, List.append_cons], ?_,
          fun _ _ => ⟨m₁, h₁, hbase⟩⟩
        · rw [Option.bind_eq_bind, Option.bind_some, List.foldlM_cons, hstep₂]
          exact hrun
        · rintro (hrest | howns)
          · cases hrest
          · exact absurd howns (not_exists.mpr hnobody)

/-- Without a baseline only an empty map can be ranked. -/
theorem worstStacks_none (hnone : s.baseline = none) :
    s.worstStacks = if (calculateMemoryByStackId s.memoryMap).items = [] then some [] else none := by
  simp only [worstStacks, memoryIncreaseByStackId, hnone]
  cases hitems : (calculateMemoryByStackId s.memoryMap).items with
  | nil => simp [Dict.empty]
  | cons e items => simp

/-- With a baseline taken after a prefix, the growth since that prefix is ranked. -/
theorem worstStacks_taken (h : s.memoryMap.Follows events) {snapshot : List Event}
    (htaken : s.TakenAfter snapshot) :
    ∃ ranking, s.worstStacks = some ranking ∧ (ranking.map Prod.fst).Nodup ∧
      (∀ stackId, stackId ∈ ranking.map Prod.fst ↔ Owns events stackId) ∧
      (∀ r ∈ ranking, r.2 = bytesAfter events r.1 - bytesAfter snapshot r.1) ∧
      ranking.Pairwise fun r q => q.2 ≤ r.2 := by
  obtain ⟨m, hm, hbase⟩ := htaken
  let usage := calculateMemoryByStackId s.memoryMap
  let growth : ℕ → ℤ → ℤ := fun stackId memoryUsageEnd =>
    memoryUsageEnd - (calculateMemoryByStackId m).getD stackId 0
  have hincrease : s.memoryIncreaseByStackId = some
      (usage.items.foldl (fun d e => d.set e.1 (growth e.1 e.2)) .empty) := by
    simp only [memoryIncreaseByStackId, hbase, Option.map_some]
    exact List.foldlM_pure
  have hitems := usage.foldl_set growth
  have hperm := List.perm_insertionSort KeyLE
    (usage.items.foldl (fun d e => d.set e.1 (growth e.1 e.2)) (Dict.empty : Dict ℕ ℤ)).items
  refine ⟨_, by rw [worstStacks, hincrease, Option.map_some], ?_, ?_, ?_, ?_⟩
  · exact (hperm.map Prod.fst).nodup_iff.mpr (Dict.nodup _)
  · intro stackId
    rw [(hperm.map Prod.fst).mem_iff, hitems, List.map_map, ← h.mem_keys_calculateMemory]
    rfl
  · intro r hr
    rw [hperm.mem_iff, hitems, List.mem_map] at hr
    obtain ⟨e, he, rfl⟩ := hr
    have hend := h.get?_calculateMemory e.1
    rw [Dict.get?_eq_some.mpr he] at hend
    split_ifs at hend
    simp only [growth, hm.getD_calculateMemory, Option.some.inj hend]
  · exact (List.pairwise_insertionSort KeyLE _).imp fun hxy => neg_le_neg_iff.mp hxy

end Ranking

/-- The final baseline decides whether the log is ranked. -/
theorem ranks_iff_of_taken {s : Ranking} (hrun : events.foldlM Ranking.step {} = some s)
    (h : s.memoryMap.Follows events) {snapshot : List Event} (htaken : s.TakenAfter snapshot) :
    Ranks events ↔ ∀ stackId, Owns events stackId →
      bytesAfter snapshot stackId = bytesAfter (beforeMark events) stackId := by
  obtain ⟨ranking, hworst, hnodup, hmem, hgrowth, hsorted⟩ := s.worstStacks_taken h htaken
  have hranking : generateRanking events = some ranking := by
    rw [generateRanking, hrun, Option.bind_some, hworst]
  constructor
  · intro ⟨ranking', hranking', hright⟩ stackId howns
    obtain rfl := Option.some.inj (hranking.symm.trans hranking')
    obtain ⟨r, hr, rfl⟩ := List.mem_map.mp ((hmem stackId).mpr howns)
    have hboth := (hgrowth r hr).symm.trans (hright.growth r hr)
    omega
  · intro hsame
    refine ⟨ranking, hranking, hnodup, hmem, fun r hr => ?_, hsorted⟩
    rw [hgrowth r hr, hsame r.1 ((hmem r.1).mp (List.mem_map_of_mem hr))]

theorem ranks_iff_of_none {s : Ranking} (hrun : events.foldlM Ranking.step {} = some s)
    (h : s.memoryMap.Follows events) (hnone : s.baseline = none) :
    Ranks events ↔ ∀ stackId, ¬ Owns events stackId := by
  have hranking := s.worstStacks_none hnone
  have hempty : (calculateMemoryByStackId s.memoryMap).items = [] ↔
      ∀ stackId, ¬ Owns events stackId := by
    simp only [← h.mem_keys_calculateMemory]
    rw [← List.map_eq_nil_iff (f := Prod.fst), List.eq_nil_iff_forall_not_mem]
  constructor
  · intro ⟨ranking, hsome, _⟩
    rw [generateRanking, hrun, Option.bind_some, hranking] at hsome
    split_ifs at hsome with hitems
    exact hempty.mp hitems
  · intro hnobody
    rw [if_pos (hempty.mpr hnobody)] at hranking
    refine ⟨[], by rw [generateRanking, hrun, Option.bind_some, hranking], ?_⟩
    exact ⟨.nil, fun stackId => by simpa using hnobody stackId, by simp, .nil⟩

/-- The second late event takes the baseline again. It then holds the memory of
the first, which must not matter. -/
theorem retaken_iff {m : MemoryMap ℕ} (hm : m.Follows before)
    (hnobody : ∀ stackId, ¬ Owns before stackId) {first : Event} (hsize : 0 < first.size)
    (hknown : first.Known before) :
    (∀ stackId, Owns events stackId →
      bytesAfter (before ++ [first]) stackId = bytesAfter before stackId) ↔
      ∀ stackId ∈ first.stackTraceId, ¬ Owns events stackId := by
  obtain ⟨-, -, m', -, hm', -⟩ := hm.register hsize hknown
  have hzero : ∀ stackId, bytesAfter before stackId = 0 := fun stackId =>
    not_not.mp ((hm.owns_iff stackId).not.mp (hnobody stackId))
  have hfirst : ∀ stackId, bytesAfter (before ++ [first]) stackId ≠ 0 ↔
      stackId ∈ first.stackTraceId := fun stackId => by
    rw [← hm'.owns_iff, owns_concat hnobody hsize hknown]
  constructor
  · intro hsame stackId hid howns
    exact (hfirst stackId).mpr hid ((hsame stackId howns).trans (hzero stackId))
  · intro hnot stackId howns
    rw [hzero]
    by_contra hne
    exact hnot stackId ((hfirst stackId).mp hne) howns

/-- On a valid log the function returns the ranking exactly if the baseline it
ends with is the memory at the mark. -/
theorem ranks_iff (events : List Event) (h : Valid events) : Ranks events ↔ BaselineKept events := by
  have hsplit := h.mark
  have hvalid : Valid (beforeMark events ++ afterMark events) := hsplit ▸ h
  have hearly : ∀ e ∈ beforeMark events, e.time < (2 * 3600 : ℕ) := fun e he => by
    simpa using (List.mem_filter.mp he).2
  have hlate : ∀ e ∈ afterMark events, (2 * 3600 : ℕ) ≤ e.time := fun e he => by
    simpa using (List.mem_filter.mp he).2
  obtain ⟨m, hrun, hm⟩ := Ranking.run_keeps (s := {}) MemoryMap.follows_empty
    (by simpa using hvalid.before) (.inl hearly)
  rw [List.nil_append] at hm
  unfold BaselineKept
  cases hafter : afterMark events with
  | nil =>
      rw [hafter, List.append_nil] at hsplit
      rw [← hsplit] at hrun hm
      exact ranks_iff_of_none hrun hm rfl
  | cons first rest =>
      rw [hafter] at hlate hvalid hsplit
      obtain ⟨s, hlast, hs, htaken, hretaken⟩ :=
        Ranking.run_late (s := ⟨m, none⟩) hm rfl hvalid hlate
      have hall : events.foldlM Ranking.step {} = some s := by
        rw [hsplit, List.foldlM_append, hrun]
        exact hlast
      rw [← hsplit] at hs
      cases rest with
      | nil => simp [ranks_iff_of_taken hall hs (htaken (.inl rfl))]
      | cons second rest =>
          by_cases howns : ∃ stackId, Owns (beforeMark events) stackId
          · simp [ranks_iff_of_taken hall hs (htaken (.inr howns)), howns]
          · have hnobody := not_exists.mp howns
            rw [List.append_cons] at hvalid
            obtain ⟨-, -, hsize, hknown⟩ := valid_concat.mp hvalid.before
            rw [ranks_iff_of_taken hall hs (hretaken (by simp) hnobody),
              retaken_iff hm hnobody hsize hknown]
            simp [howns]

/-- A mapping in the first hour and another one after the mark. -/
def twoHourLog : List Event := [.map 60 4096 8192 7 1, .map 7300 16384 4096 8 2]

theorem valid_twoHourLog : Valid twoHourLog := by
  have h₁ : Valid ([] ++ [.map 60 4096 8192 7 1]) :=
    valid_concat.mpr ⟨valid_nil, by simp, by decide, trivial⟩
  have h₂ : Valid ([.map 60 4096 8192 7 1] ++ [.map 7300 16384 4096 8 2]) :=
    valid_concat.mpr ⟨h₁, by norm_num [Event.time], by decide, trivial⟩
  exact h₂

theorem ranks_iff_twoHourLog : Ranks twoHourLog ↔ BaselineKept twoHourLog :=
  ranks_iff twoHourLog valid_twoHourLog

/-- Without memory at the mark the baseline includes the first late mapping. -/
example : generateRanking [.map 7300 4096 4096 7 1, .map 7400 16384 4096 8 2] =
    some [(8, 4096), (7, 0)] := by decide +kernel

/-- One mapping in the first second, and nothing at or after the mark. -/
def shortLog : List Event := [.map 1 4096 4096 7 1]

theorem not_ranks_shortLog : Valid shortLog ∧ generateRanking shortLog = none ∧ ¬ Ranks shortLog := by
  have hvalid : Valid ([] ++ [.map 1 4096 4096 7 1]) :=
    valid_concat.mpr ⟨valid_nil, by simp, by decide, trivial⟩
  have hraises : generateRanking shortLog = none := by decide +kernel
  refine ⟨hvalid, hraises, fun ⟨ranking, hsome, _⟩ => ?_⟩
  rw [hraises] at hsome
  cases hsome

end AllocCounter.ParseMmapLog
