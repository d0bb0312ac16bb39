import AllocCounter.Environment
import AllocCounter.StackTraces
import AllocCounter.SortedMap
import AllocCounter.LabelledExecution

/-!
# The memory protector

`alloc-counter/memory-protector.h`. The protection of the pages is the set of the
addresses that `mprotect` has made inaccessible. Its calls succeed, and the ranges
they are given consist of whole pages. A `std::set` of ranges is a sorted map from
their starts. A failed assertion returns `none`.

A callback is the number of the call of `watchRange` that brought it. The calls
of callbacks are recorded.
-/
namespace AllocCounter

structure PointerRange where
  start : Address
  stop : Address
  onAccess : ℕ
deriving DecidableEq, Repr

namespace PointerRange

def size (r : PointerRange) : UInt64 := r.stop - r.start

def Contains (r : PointerRange) (pointer : Address) : Prop := r.start ≤ pointer ∧ pointer < r.stop

instance (r : PointerRange) (pointer : Address) : Decidable (r.Contains pointer) :=
  inferInstanceAs (Decidable (_ ∧ _))

end PointerRange

/-- The ranges in the order of their starts, which are the keys. -/
abbrev PointerRangeList := SortedMap ℕ PointerRange

namespace PointerRangeList

def ranges (l : PointerRangeList) : List PointerRange := l.entries.map Prod.snd

def insert (l : PointerRangeList) (r : PointerRange) : PointerRangeList :=
  l.insertNew r.start.toNat r

def findContainingPointer (l : PointerRangeList) (pointer : Address) : Option PointerRange :=
  l.ranges.find? fun r => r.Contains pointer

def contains (l : PointerRangeList) (pointer : Address) : Bool :=
  l.ranges.any fun r => r.Contains pointer

end PointerRangeList

inductive Protection where
  | none | readWrite
deriving DecidableEq, Repr

structure MemoryProtector where
  watchedPages : PointerRangeList
  inaccessible : Address → Bool
  called : List ℕ
  watches : ℕ

namespace MemoryProtector

def mprotect (s : MemoryProtector) (start : Address) (size : UInt64) (protection : Protection) :
    MemoryProtector :=
  { s with
    inaccessible := fun x =>
      if start.toNat ≤ x.toNat ∧ x.toNat < start.toNat + size.toNat then protection = .none
      else s.inaccessible x }

variable (env : Environment)

/-- The first assertion. The mask has the 32 bits of `pageSize`. -/
def PageAligned (start : Address) : Prop := start = start &&& (~~~(env.pageSize - 1)).toUInt64

instance (start : Address) : Decidable (PageAligned env start) :=
  inferInstanceAs (Decidable (_ = _))

/-- The other two assertions: "No intersections". -/
def NoIntersections (s : MemoryProtector) (start : Address) (size : UInt64) : Prop :=
  ¬ s.watchedPages.contains start ∧ ¬ s.watchedPages.contains (start + size)

instance (s : MemoryProtector) (start : Address) (size : UInt64) :
    Decidable (s.NoIntersections start size) :=
  inferInstanceAs (Decidable (_ ∧ _))

def watchRange (s : MemoryProtector) (start : Address) (size : UInt64) : Option MemoryProtector :=
  if PageAligned env start ∧ s.NoIntersections start size then
    some { s.mprotect start size .none with
      watchedPages := s.watchedPages.insert ⟨start, start + size, s.watches⟩
      watches := s.watches + 1 }
  else none

/-- Making a range accessible and erasing it. -/
def unprotect (s : MemoryProtector) (r : PointerRange) : MemoryProtector :=
  { s.mprotect r.start r.size .readWrite with
    watchedPages := s.watchedPages.erase r.start.toNat }

def removeWatch (s : MemoryProtector) (start : Address) : MemoryProtector :=
  match s.watchedPages.findContainingPointer start with
  | some r => s.unprotect r
  | none => s

/-- The handler of a fault outside the handler. If no range is found it accesses
the pointer itself, and a fault inside the handler ends the process. -/
def segfaultHandler (s : MemoryProtector) (accessedAddress : Address) : Option MemoryProtector :=
  match s.watchedPages.findContainingPointer accessedAddress with
  | some r => some { s.unprotect r with called := s.called ++ [r.onAccess] }
  | none => if s.inaccessible accessedAddress then none else some s

/-- On a 64-bit machine the first assertion also rejects all addresses from `2 ^ 32`
on. -/
theorem pageAligned_iff (start : Address) :
    PageAligned env start ↔ start.toNat < 2 ^ 32 ∧ env.pageSize.toNat ∣ start.toNat := by
  obtain ⟨k, hk⟩ := env.pageSize_pow
  have hlow : ∀ mask : UInt32, (start &&& mask.toUInt64).toNat =
      (start.toUInt32 &&& mask).toNat := by
    intro mask
    have hmask : mask.toNat &&& (2 ^ 32 - 1) = mask.toNat := by
      rw [Nat.and_two_pow_sub_one_eq_mod, Nat.mod_eq_of_lt mask.toNat_lt]
    rw [UInt64.toNat_and, UInt32.toNat_toUInt64, UInt32.toNat_and, UInt64.toNat_toUInt32,
      ← Nat.and_two_pow_sub_one_eq_mod, Nat.and_assoc, Nat.and_comm (2 ^ 32 - 1), hmask]
  have hand : (start.toUInt32 &&& ~~~(env.pageSize - 1)).toNat =
      start.toUInt32.toNat.ldiff (env.pageSize - 1).toNat := toNat_and_not _ _
  rw [PageAligned, ← UInt64.toNat_inj, hlow, hand, env.pageSize_sub_one, hk, ldiff_two_pow_sub_one,
    UInt64.toNat_toUInt32]
  constructor
  · intro h
    have hle := Nat.div_mul_le_self (start.toNat % 2 ^ 32) (2 ^ k)
    exact ⟨by omega, h ▸ Nat.dvd_mul_left _ _⟩
  · intro ⟨hlt, hdvd⟩
    rw [Nat.mod_eq_of_lt hlt, Nat.div_mul_cancel hdvd]

inductive Event where
  | watchRange (start : Address) (size : UInt64)
  | removeWatch (start : Address)
  | access (address : Address)
deriving DecidableEq, Repr

def next (s : MemoryProtector) : Event → Option MemoryProtector
  | .watchRange start size => s.watchRange env start size
  | .removeWatch start => some (s.removeWatch start)
  | .access address => s.segfaultHandler address

/-- A positive number of whole pages, the end of which is a pointer. -/
structure IsRange (start : Address) (size : UInt64) : Prop where
  start_dvd : env.pageSize.toNat ∣ start.toNat
  size_dvd : env.pageSize.toNat ∣ size.toNat
  pos : 0 < size.toNat
  stop_lt : start.toNat + size.toNat < 2 ^ 64

/-- Ranges are ranges of pages, and an access that is handled is an access to an
inaccessible address. -/
def Allowed (s : MemoryProtector) : Event → Prop
  | .watchRange start size => IsRange env start size
  | .removeWatch _ => True
  | .access address => s.inaccessible address = true

def Step (s : MemoryProtector) (e : Event) (s' : MemoryProtector) : Prop :=
  s.Allowed env e ∧ s.next env e = some s'

def initial : MemoryProtector := ⟨.empty, fun _ => false, [], 0⟩

def Initial (s : MemoryProtector) : Prop := s = initial

variable {env} {s s' : MemoryProtector}

theorem contains_iff {l : PointerRangeList} {pointer : Address} :
    l.contains pointer = true ↔ ∃ r ∈ l.ranges, r.Contains pointer := by
  simp [PointerRangeList.contains]

theorem of_findContainingPointer {l : PointerRangeList} {pointer : Address} {r : PointerRange}
    (h : l.findContainingPointer pointer = some r) : r ∈ l.ranges ∧ r.Contains pointer :=
  ⟨List.mem_of_find?_eq_some h, by simpa using List.find?_some h⟩

def Event.IsWatch : Event → Prop
  | .watchRange _ _ => True
  | .removeWatch _ | .access _ => False

/-- A step watches a range, removes one, perhaps with a call of its callback, or
changes nothing. -/
inductive StepCase (env : Environment) (s : MemoryProtector) : Event → MemoryProtector → Prop
  | watches (start : Address) (size : UInt64) : IsRange env start size →
      s.NoIntersections start size → StepCase env s (.watchRange start size)
        { s.mprotect start size .none with
          watchedPages := s.watchedPages.insert ⟨start, start + size, s.watches⟩
          watches := s.watches + 1 }
  | removes (e : Event) (r : PointerRange) (called : List ℕ) : ¬ e.IsWatch →
      r ∈ s.watchedPages.ranges → called = s.called ∨ called = s.called ++ [r.onAccess] →
      StepCase env s e { s.unprotect r with called := called }
  | same (e : Event) : ¬ e.IsWatch → StepCase env s e s

theorem Step.cases {e : Event} (h : s.Step env e s') : StepCase env s e s' := by
  obtain ⟨hallowed, hnext⟩ := h
  cases e with
  | watchRange start size =>
      simp only [next, watchRange] at hnext
      split_ifs at hnext with hpasses
      obtain rfl := Option.some.inj hnext
      exact .watches start size hallowed hpasses.2
  | removeWatch start =>
      obtain rfl := Option.some.inj hnext
      unfold removeWatch
      split
      · rename_i r hfind
        exact .removes _ r s.called id (of_findContainingPointer hfind).1 (.inl rfl)
      · exact .same _ id
  | access address =>
      simp only [next, segfaultHandler] at hnext
      split at hnext
      · rename_i r hfind
        obtain rfl := Option.some.inj hnext
        exact .removes _ r _ id (of_findContainingPointer hfind).1 (.inr rfl)
      · split_ifs at hnext
        obtain rfl := Option.some.inj hnext
        exact .same _ id

/-- Ranges are kept under their starts and are not empty. They have different
callbacks, none of which has been called. -/
structure Sound (s : MemoryProtector) : Prop where
  keyed : ∀ e ∈ s.watchedPages.entries, e.1 = e.2.start.toNat
  nonempty : ∀ r ∈ s.watchedPages.ranges, r.start.toNat < r.stop.toNat
  number_lt : ∀ r ∈ s.watchedPages.ranges, r.onAccess < s.watches
  number_inj : ∀ r ∈ s.watchedPages.ranges, ∀ r' ∈ s.watchedPages.ranges,
    r.onAccess = r'.onAccess → r = r'
  called_lt : ∀ n ∈ s.called, n < s.watches
  uncalled : ∀ r ∈ s.watchedPages.ranges, r.onAccess ∉ s.called
  once : s.called.Nodup

theorem sound_initial : initial.Sound where
  keyed := nofun
  nonempty := nofun
  number_lt := nofun
  number_inj := nofun
  called_lt := nofun
  uncalled := nofun
  once := .nil

theorem toNat_contains {r : PointerRange} {p : Address} :
    r.Contains p ↔ r.start.toNat ≤ p.toNat ∧ p.toNat < r.stop.toNat :=
  and_congr UInt64.le_iff_toNat_le UInt64.lt_iff_toNat_lt

theorem IsRange.toNat_stop {start : Address} {size : UInt64} (h : IsRange env start size) :
    (start + size).toNat = start.toNat + size.toNat := by
  rw [UInt64.toNat_add, Nat.mod_eq_of_lt h.stop_lt]

theorem Sound.mem_ranges (h : s.Sound) {r : PointerRange} :
    r ∈ s.watchedPages.ranges ↔ (r.start.toNat, r) ∈ s.watchedPages.entries := by
  constructor
  · intro hr
    obtain ⟨e, he, rfl⟩ := List.mem_map.mp hr
    rwa [← h.keyed e he]
  · exact fun hr => List.mem_map_of_mem hr

theorem Sound.eq_of_start (h : s.Sound) {r r' : PointerRange} (hr : r ∈ s.watchedPages.ranges)
    (hr' : r' ∈ s.watchedPages.ranges) (hstart : r.start.toNat = r'.start.toNat) : r = r' :=
  congrArg Prod.snd (SortedMap.eq_of_key_eq (h.mem_ranges.mp hr) (h.mem_ranges.mp hr') hstart)

/-- A start that no range contains is not the start of a range. -/
theorem Sound.mem_insert (h : s.Sound) {r : PointerRange}
    (hfree : ¬ s.watchedPages.contains r.start) (r' : PointerRange) :
    r' ∈ (s.watchedPages.insert r).ranges ↔ r' = r ∨ r' ∈ s.watchedPages.ranges := by
  have hnew : r.start.toNat ∉ s.watchedPages.entries.map Prod.fst := by
    intro hkey
    obtain ⟨e, he, hstart⟩ := List.mem_map.mp hkey
    have hmem : e.2 ∈ s.watchedPages.ranges := List.mem_map_of_mem he
    rw [h.keyed e he] at hstart
    exact hfree (contains_iff.mpr ⟨e.2, hmem,
      toNat_contains.mpr ⟨hstart.le, hstart ▸ h.nonempty e.2 hmem⟩⟩)
  obtain ⟨-, l₁, l₂, hold, hplace⟩ :=
    (s.watchedPages.insertNew_cases r.start.toNat r).resolve_left fun hpresent => hnew hpresent.1
  rw [PointerRangeList.ranges, PointerRangeList.insert, hplace, PointerRangeList.ranges, hold]
  simp only [List.map_append, List.map_cons, List.mem_append, List.mem_cons]
  exact or_left_comm

theorem Sound.mem_erase (h : s.Sound) {r : PointerRange} (hr : r ∈ s.watchedPages.ranges)
    (r' : PointerRange) :
    r' ∈ PointerRangeList.ranges (s.watchedPages.erase r.start.toNat) ↔
      r' ∈ s.watchedPages.ranges ∧ r' ≠ r := by
  simp only [PointerRangeList.ranges, SortedMap.erase, List.mem_map, List.mem_filter,
    decide_eq_true_eq]
  constructor
  · rintro ⟨e, ⟨he, hkey⟩, rfl⟩
    refine ⟨⟨e, he, rfl⟩, fun heq => hkey ?_⟩
    rw [h.keyed e he, heq]
  · rintro ⟨⟨e, he, rfl⟩, hne⟩
    refine ⟨e, ⟨he, fun hkey => hne ?_⟩, rfl⟩
    exact h.eq_of_start (List.mem_map_of_mem he) hr ((h.keyed e he).symm.trans hkey)

theorem Sound.watch (h : s.Sound) {start : Address} {size : UInt64}
    (hrange : IsRange env start size) (hpasses : s.NoIntersections start size) :
    Sound { s.mprotect start size .none with
      watchedPages := s.watchedPages.insert ⟨start, start + size, s.watches⟩
      watches := s.watches + 1 } := by
  have hmem := h.mem_insert (r := ⟨start, start + size, s.watches⟩) hpasses.1
  refine ⟨?_, ?_, ?_, ?_, ?_, ?_, h.once⟩
  · intro e he
    cases SortedMap.eq_or_mem_of_mem_place (fun _ => .inl rfl) he with
    | inl hnew => rw [hnew]
    | inr hold => exact h.keyed e hold
  · intro r hr
    rcases (hmem r).mp hr with rfl | hold
    · have hpos := hrange.pos
      dsimp only
      rw [hrange.toNat_stop]
      omega
    · exact h.nonempty r hold
  · intro r hr
    rcases (hmem r).mp hr with rfl | hold
    · exact Nat.lt_succ_self _
    · exact (h.number_lt r hold).trans (Nat.lt_succ_self _)
  · intro r hr r' hr' hnumber
    rcases (hmem r).mp hr with rfl | hold <;> rcases (hmem r').mp hr' with rfl | hold'
    · rfl
    · exact absurd hnumber.symm (h.number_lt r' hold').ne
    · exact absurd hnumber (h.number_lt r hold).ne
    · exact h.number_inj r hold r' hold' hnumber
  · exact fun n hn => (h.called_lt n hn).trans (Nat.lt_succ_self _)
  · intro r hr hcalled
    rcases (hmem r).mp hr with rfl | hold
    · exact lt_irrefl _ (h.called_lt _ hcalled)
    · exact h.uncalled r hold hcalled

/-- The callback of a range that is removed may be called then, and not any more. -/
theorem Sound.remove (h : s.Sound) {r : PointerRange} (hr : r ∈ s.watchedPages.ranges)
    {called : List ℕ} (hcalled : called = s.called ∨ called = s.called ++ [r.onAccess]) :
    Sound { s.unprotect r with called := called } := by
  have hmem := h.mem_erase hr
  have hold : ∀ r' ∈ PointerRangeList.ranges (s.watchedPages.erase r.start.toNat),
      r' ∈ s.watchedPages.ranges := fun r' hr' => ((hmem r').mp hr').1
  have hentries : ∀ n ∈ called, n ∈ s.called ∨ n = r.onAccess := by
    rcases hcalled with rfl | rfl
    · exact fun n hn => .inl hn
    · simp
  refine ⟨fun e he => h.keyed e (List.mem_filter.mp he).1,
    fun r' hr' => h.nonempty r' (hold r' hr'), fun r' hr' => h.number_lt r' (hold r' hr'),
    fun r₁ h₁ r₂ h₂ => h.number_inj r₁ (hold r₁ h₁) r₂ (hold r₂ h₂), ?_, ?_, ?_⟩
  · intro n hn
    rcases hentries n hn with hn | rfl
    · exact h.called_lt n hn
    · exact h.number_lt r hr
  · intro r' hr' hn
    rcases hentries _ hn with hn | heq
    · exact h.uncalled r' (hold r' hr') hn
    · exact ((hmem r').mp hr').2 (h.number_inj r' (hold r' hr') r hr heq)
  · rcases hcalled with rfl | rfl
    · exact h.once
    · dsimp only
      rw [← List.concat_eq_append]
      exact h.once.concat (h.uncalled r hr)

theorem Sound.step (h : s.Sound) {e : Event} (hstep : s.Step env e s') : s'.Sound := by
  cases hstep.cases with
  | same => exact h
  | watches start size hrange hpasses => exact h.watch hrange hpasses
  | removes _ r called _ hr hcalled => exact h.remove hr hcalled

/-- The watched ranges share no address, the inaccessible addresses are those of
the watched ranges, and no callback was called twice. -/
structure InStep (s : MemoryProtector) : Prop where
  disjoint : ∀ r ∈ s.watchedPages.ranges, ∀ r' ∈ s.watchedPages.ranges, r ≠ r' →
    ∀ p, ¬ (r.Contains p ∧ r'.Contains p)
  inaccessible_iff : ∀ p, s.inaccessible p = true ↔ ∃ r ∈ s.watchedPages.ranges, r.Contains p
  once : s.called.Nodup

/-- The range `[start, start + size)` shares no address with a watched one. -/
def Free (s : MemoryProtector) (start : Address) (size : UInt64) : Prop :=
  ∀ r ∈ s.watchedPages.ranges, ∀ p : Address,
    start.toNat ≤ p.toNat → p.toNat < start.toNat + size.toNat → ¬ r.Contains p

/-- Whatever range the new one encloses behind its start, one of its two ends is in
a watched range; and if a range begins right behind the new one, some range
overlaps the new one. -/
structure EndsDecide (s : MemoryProtector) (start : Address) (size : UInt64) : Prop where
  enclosed : ∀ r ∈ s.watchedPages.ranges, start < r.start → r.stop ≤ start + size →
    s.watchedPages.contains start ∨ s.watchedPages.contains (start + size)
  adjacent : ∀ r ∈ s.watchedPages.ranges, r.start = start + size →
    ∃ r' ∈ s.watchedPages.ranges, r'.start < start + size ∧ start < r'.stop

theorem inStep_initial : initial.InStep where
  disjoint := nofun
  inaccessible_iff _ := by simp [initial, PointerRangeList.ranges]
  once := .nil

/-- Two ranges share an address if and only if each starts before the other ends. -/
theorem free_iff (h : s.Sound) {start : Address} {size : UInt64} (hrange : IsRange env start size) :
    s.Free start size ↔
      ∀ r ∈ s.watchedPages.ranges, ¬ (r.start < start + size ∧ start < r.stop) := by
  refine forall₂_congr fun r hr => ?_
  have hnonempty := h.nonempty r hr
  have hpos := hrange.pos
  rw [UInt64.lt_iff_toNat_lt, UInt64.lt_iff_toNat_lt, hrange.toNat_stop]
  constructor
  · intro hfree ⟨hlo, hhi⟩
    cases le_total start.toNat r.start.toNat with
    | inl hle => exact hfree r.start hle hlo (toNat_contains.mpr ⟨le_rfl, hnonempty⟩)
    | inr hle => exact hfree start le_rfl (by omega) (toNat_contains.mpr ⟨hle, hhi⟩)
  · intro hapart p hlo hhi hcontains
    have ⟨hstart, hstop⟩ := toNat_contains.mp hcontains
    exact hapart ⟨by omega, by omega⟩

/-- In every sound state the two assertions pass exactly on the free ranges if and
only if the two ends decide. -/
theorem noIntersections_iff_free (h : s.Sound) {start : Address} {size : UInt64}
    (hrange : IsRange env start size) :
    (s.NoIntersections start size ↔ s.Free start size) ↔ s.EndsDecide start size := by
  have hpos := hrange.pos
  have hstop := hrange.toNat_stop
  rw [free_iff h hrange, NoIntersections]
  constructor
  · intro hright
    refine ⟨fun r hr hlo hhi => ?_, fun r hr hadjacent => ?_⟩
    · by_contra hneither
      rw [not_or] at hneither
      refine hright.mp hneither r hr ⟨?_, ?_⟩
      · exact UInt64.lt_of_lt_of_le (UInt64.lt_iff_toNat_lt.mpr (h.nonempty r hr)) hhi
      · exact UInt64.lt_trans hlo (UInt64.lt_iff_toNat_lt.mpr (h.nonempty r hr))
    · by_contra hnone
      push Not at hnone
      refine (hright.mpr fun r' hr' hoverlap => hnone r' hr' hoverlap.1 hoverlap.2).2 ?_
      exact contains_iff.mpr ⟨r, hr, hadjacent ▸ toNat_contains.mpr ⟨le_rfl, h.nonempty r hr⟩⟩
  · intro hdecide
    constructor
    · intro ⟨hstart, hend⟩ r hr ⟨hlo, hhi⟩
      rw [contains_iff] at hstart hend
      have hbehind : start < r.start := by
        rw [← UInt64.not_le]
        exact fun hle => hstart ⟨r, hr, hle, hhi⟩
      have hinside : r.stop ≤ start + size := by
        rw [← UInt64.not_lt]
        exact fun hlt => hend ⟨r, hr, UInt64.le_of_lt hlo, hlt⟩
      have hfound := hdecide.enclosed r hr hbehind hinside
      rw [contains_iff, contains_iff] at hfound
      exact hfound.elim hstart hend
    · intro hfree
      refine ⟨fun hstart => ?_, fun hend => ?_⟩
      · obtain ⟨r, hr, hlo, hhi⟩ := contains_iff.mp hstart
        refine hfree r hr ⟨?_, hhi⟩
        rw [UInt64.le_iff_toNat_le] at hlo
        rw [UInt64.lt_iff_toNat_lt]
        omega
      · obtain ⟨r, hr, hlo, hhi⟩ := contains_iff.mp hend
        by_cases hadjacent : r.start = start + size
        · obtain ⟨r', hr', hoverlap⟩ := hdecide.adjacent r hr hadjacent
          exact hfree r' hr' hoverlap
        · refine hfree r hr ⟨UInt64.lt_of_le_of_ne hlo hadjacent, ?_⟩
          rw [UInt64.lt_iff_toNat_lt] at hhi ⊢
          omega

/-- The addresses of a new range. -/
theorem IsRange.contains_iff {start : Address} {size : UInt64} (h : IsRange env start size)
    {number : ℕ} {p : Address} : (⟨start, start + size, number⟩ : PointerRange).Contains p ↔
      start.toNat ≤ p.toNat ∧ p.toNat < start.toNat + size.toNat := by
  rw [toNat_contains, h.toNat_stop]

theorem toNat_size {r : PointerRange} (h : r.start.toNat < r.stop.toNat) :
    r.start.toNat + r.size.toNat = r.stop.toNat := by
  rw [PointerRange.size, UInt64.toNat_sub_of_le _ _ (UInt64.le_iff_toNat_le.mpr h.le)]
  omega

/-- A watch of a free range. -/
theorem InStep.watch (h : s.Sound) (hin : s.InStep) {start : Address} {size : UInt64}
    (hrange : IsRange env start size) (hpasses : s.NoIntersections start size)
    (hfree : s.Free start size) :
    InStep { s.mprotect start size .none with
      watchedPages := s.watchedPages.insert ⟨start, start + size, s.watches⟩
      watches := s.watches + 1 } := by
  have hmem := h.mem_insert (r := ⟨start, start + size, s.watches⟩) hpasses.1
  refine ⟨fun r hr r' hr' hne p ⟨hp, hp'⟩ => ?_, fun p => ?_, hin.once⟩
  · rcases (hmem r).mp hr with rfl | hold <;> rcases (hmem r').mp hr' with rfl | hold'
    · exact hne rfl
    · have ⟨hlo, hhi⟩ := hrange.contains_iff.mp hp
      exact hfree r' hold' p hlo hhi hp'
    · have ⟨hlo, hhi⟩ := hrange.contains_iff.mp hp'
      exact hfree r hold p hlo hhi hp
    · exact hin.disjoint r hold r' hold' hne p ⟨hp, hp'⟩
  · simp only [hmem, exists_eq_or_imp, hrange.contains_iff, ← hin.inaccessible_iff, mprotect]
    split_ifs with hinside
    · simp [hinside]
    · simp [hinside]

/-- Whatever removes a range makes exactly its addresses accessible. -/
theorem InStep.remove (h : s.Sound) (hin : s.InStep) {r : PointerRange}
    (hr : r ∈ s.watchedPages.ranges) {called : List ℕ} (honce : called.Nodup) :
    InStep { s.unprotect r with called := called } := by
  have hmem := h.mem_erase hr
  refine ⟨fun r₁ h₁ r₂ h₂ => ?_, fun p => ?_, honce⟩
  · exact hin.disjoint r₁ ((hmem r₁).mp h₁).1 r₂ ((hmem r₂).mp h₂).1
  · have hinside : r.Contains p ↔
        r.start.toNat ≤ p.toNat ∧ p.toNat < r.start.toNat + r.size.toNat := by
      rw [toNat_size (h.nonempty r hr), toNat_contains]
    simp only [unprotect, mprotect, hmem, ← hinside]
    split_ifs with hp
    · simp only [decide_false, Bool.false_eq_true, false_iff, not_exists, not_and]
      exact fun r' ⟨hr', hne⟩ hp' => hin.disjoint r' hr' r hr hne p ⟨hp', hp⟩
    · rw [hin.inaccessible_iff]
      constructor
      · exact fun ⟨r', hr', hp'⟩ => ⟨r', ⟨hr', fun heq => hp (heq ▸ hp')⟩, hp'⟩
      · exact fun ⟨r', hr', hp'⟩ => ⟨r', hr'.1, hp'⟩

/-- The condition on a step: the ends of the range decide. -/
def EndsDecideStep (s : MemoryProtector) : Event → Prop
  | .watchRange start size => s.EndsDecide start size
  | .removeWatch _ | .access _ => True

theorem endsDecideStep_of_not_isWatch {e : Event} (h : ¬ e.IsWatch) : s.EndsDecideStep e := by
  cases e with
  | watchRange => exact absurd trivial h
  | removeWatch | access => trivial

theorem InStep.step (h : s.Sound) (hin : s.InStep) {e : Event} (hstep : s.Step env e s')
    (hdecide : s.EndsDecideStep e) : s'.InStep := by
  have honce := (h.step hstep).once
  cases hstep.cases with
  | same => exact hin
  | watches start size hrange hpasses =>
      have hright := (noIntersections_iff_free h hrange).mpr hdecide
      exact hin.watch h hrange hpasses (hright.mp hpasses)
  | removes _ r called _ hr => exact hin.remove h hr honce

/-- The ends decided about a range that was watched and leaves the table in step. -/
theorem endsDecideStep_of_inStep (h : s.Sound) {e : Event} (hstep : s.Step env e s')
    (hin : s'.InStep) : s.EndsDecideStep e := by
  cases hstep.cases with
  | same _ hwatch => exact endsDecideStep_of_not_isWatch hwatch
  | removes _ r called hwatch => exact endsDecideStep_of_not_isWatch hwatch
  | watches start size hrange hpasses =>
      refine (noIntersections_iff_free h hrange).mp (iff_of_true hpasses ?_)
      intro r hr p hlo hhi hp
      have hmem := h.mem_insert (r := ⟨start, start + size, s.watches⟩) hpasses.1
      have hne : r ≠ ⟨start, start + size, s.watches⟩ := fun heq =>
        (h.number_lt r hr).ne (congrArg PointerRange.onAccess heq)
      exact hin.disjoint r ((hmem r).mpr (.inr hr)) _ ((hmem _).mpr (.inl rfl)) hne p
        ⟨hp, hrange.contains_iff.mpr ⟨hlo, hhi⟩⟩

theorem sound_at (x : Execution Initial (Step env)) : ∀ i ≤ x.length, (x.state i).Sound :=
  x.holds_at _ (by rw [x.starts]; exact sound_initial) fun i hi h => h.step (x.steps i hi)

/-- In every run, table and protections are in step in every state if and only if
the ends decide about every range that was watched. In every state the two
assertions about a range pass exactly if it shares no address with a watched one,
if and only if its ends decide. -/
theorem in_step_iff (x : Execution Initial (Step env)) :
    ((∀ i ≤ x.length, (x.state i).InStep) ↔
      ∀ i < x.length, (x.state i).EndsDecideStep (x.event i)) ∧
    ∀ i ≤ x.length, ∀ start size, IsRange env start size →
      (((x.state i).NoIntersections start size ↔ (x.state i).Free start size) ↔
        (x.state i).EndsDecide start size) := by
  refine ⟨⟨fun h i hi => ?_, fun h => ?_⟩, fun i hi start size hrange => ?_⟩
  · exact endsDecideStep_of_inStep (sound_at x i hi.le) (x.steps i hi) (h (i + 1) hi)
  · refine x.holds_at _ (by rw [x.starts]; exact inStep_initial) fun i hi hin => ?_
    exact hin.step (sound_at x i hi.le) (x.steps i hi) (h i hi)
  · exact noIntersections_iff_free (sound_at x i hi) hrange

instance (start : Address) (size : UInt64) : Decidable (IsRange env start size) :=
  decidable_of_iff (env.pageSize.toNat ∣ start.toNat ∧ env.pageSize.toNat ∣ size.toNat ∧
    0 < size.toNat ∧ start.toNat + size.toNat < 2 ^ 64)
    ⟨fun ⟨h₁, h₂, h₃, h₄⟩ => ⟨h₁, h₂, h₃, h₄⟩, fun h => ⟨h.1, h.2, h.3, h.4⟩⟩

instance (s : MemoryProtector) : (e : Event) → Decidable (s.Allowed env e)
  | .watchRange _ _ => inferInstanceAs (Decidable (IsRange _ _ _))
  | .removeWatch _ => inferInstanceAs (Decidable True)
  | .access _ => inferInstanceAs (Decidable (_ = _))

/-- A page is watched, and then three pages around it. -/
def enclosingRun : Execution Initial (Step .default) :=
  Execution.ofEvents [.watchRange 0x4000 0x1000, .watchRange 0x3000 0x3000] (.access 0) rfl
    (by decide +kernel)

/-- The enclosing range passes the assertions, and the page is watched twice. -/
theorem not_in_step_enclosingRun :
    ¬ ∀ x : Execution Initial (Step .default), ∀ i ≤ x.length, (x.state i).InStep ∧
      ∀ start size, IsRange .default start size →
        ((x.state i).NoIntersections start size ↔ (x.state i).Free start size) := by
  intro h
  have hfree := ((h enclosingRun 1 (by decide)).2 0x3000 0x3000 (by decide +kernel)).mp
    (by decide +kernel)
  exact hfree ⟨0x4000, 0x5000, 0⟩ (by decide +kernel) 0x4000 (by decide) (by decide) (by decide)

end MemoryProtector

end AllocCounter
