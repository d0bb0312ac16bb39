import AllocCounter.LeakSoundness
import AllocCounter.Monitor
import AllocCounter.NumberScanning

/-!
# The settings of a process

`common/environment.cpp`. A setting is the number that its environment variable
begins with, or the default where there is no variable or its number is not positive.
The number becomes an `int` on the way, so every setting has 31 bits, and the times
that are computed from them fit until the clock of the process has more.
-/
namespace AllocCounter

open NumberScanning

/-- The conversion of `strtol` to an `int`. -/
def atoi (t : Target) (text : List Char) : ℤ := (strtol t.bits text).bmod (2 ^ 32)

/-- `getenv` gives the text of a variable. -/
def Environment.parseEnvironIntGreaterThanZero (t : Target) (getenv : String → Option (List Char))
    (name : String) (defaultValue : ℕ) : UInt32 :=
  match getenv name with
  | none => UInt32.ofNat defaultValue
  | some envString =>
      let envInteger := atoi t envString
      if 0 < envInteger then UInt32.ofNat envInteger.toNat else UInt32.ofNat defaultValue

variable (t : Target) (getenv : String → Option (List Char)) (name : String) (defaultValue : ℕ)

theorem atoi_lt (text : List Char) : atoi t text < 2 ^ 31 := by
  have hlt := Int.bmod_lt (x := strtol t.bits text) (m := 2 ^ 32) (by decide)
  rw [atoi]
  omega

namespace Environment

/-- A setting is its default or a positive number with 31 bits. -/
theorem parseEnviron_cases : ∃ n, (n = defaultValue ∨ 0 < n ∧ n < 2 ^ 31) ∧
    parseEnvironIntGreaterThanZero t getenv name defaultValue = UInt32.ofNat n := by
  unfold parseEnvironIntGreaterThanZero
  cases getenv name with
  | none => exact ⟨defaultValue, .inl rfl, rfl⟩
  | some text =>
      have hlt := atoi_lt t text
      dsimp only
      split_ifs with hpos
      · exact ⟨_, .inr ⟨by omega, by omega⟩, rfl⟩
      · exact ⟨defaultValue, .inl rfl, rfl⟩

theorem toNat_parseEnviron_lt (hdefault : defaultValue < 2 ^ 31) :
    (parseEnvironIntGreaterThanZero t getenv name defaultValue).toNat < 2 ^ 31 := by
  obtain ⟨n, hn, heq⟩ := parseEnviron_cases t getenv name defaultValue
  have hlt : n < 2 ^ 31 := hn.elim (fun h => h ▸ hdefault) And.right
  rwa [heq, UInt32.toNat_ofNat_of_lt' (hlt.trans (by decide))]

theorem toNat_parseEnviron_pos (hpos : 0 < defaultValue) (hdefault : defaultValue < 2 ^ 31) :
    0 < (parseEnvironIntGreaterThanZero t getenv name defaultValue).toNat := by
  obtain ⟨n, hn, heq⟩ := parseEnviron_cases t getenv name defaultValue
  have hlt : n < 2 ^ 31 := hn.elim (fun h => h ▸ hdefault) And.right
  rw [heq, UInt32.toNat_ofNat_of_lt' (hlt.trans (by decide))]
  exact hn.elim (fun h => h ▸ hpos) And.left

/-- The digits of a number with 31 bits, alone or with something after them, are read. -/
theorem parseEnviron_toDigits {n : ℕ} (hpos : 0 < n) (hn : n < 2 ^ 31) {blanks rest : List Char}
    (hblanks : ∀ c ∈ blanks, isSpace c = true) (hrest : ∀ c ∈ rest.head?, c.isDigit = false)
    (hname : getenv name = some (blanks ++ (Nat.toDigits 10 n ++ rest))) :
    (parseEnvironIntGreaterThanZero t getenv name defaultValue).toNat = n := by
  have hbits : n < 2 ^ (t.bits - 1) := hn.trans_le (by cases t <;> decide)
  have hatoi : atoi t (blanks ++ (Nat.toDigits 10 n ++ rest)) = n := by
    rw [atoi, strtol_toDigits hblanks hbits hrest]
    exact Int.bmod_eq_of_le (by omega) (by omega)
  simp only [parseEnvironIntGreaterThanZero, hname, hatoi, Int.natCast_pos, if_pos hpos,
    Int.toNat_natCast]
  exact UInt32.toNat_ofNat_of_lt' (hn.trans (by decide))

end Environment

namespace PatrolSettings

open Environment

variable (pageSize : UInt32) (hpage : ∃ k, pageSize.toNat = 2 ^ k)

/-- The settings of a process with this environment. -/
def load : PatrolSettings where
  timeForAllocationToBecomeSuspicious :=
    parseEnvironIntGreaterThanZero t getenv "ALLOC_TIME_SUSPICIOUS" 30
  closelyWatchedAllocationsAccessMaxInterval :=
    parseEnvironIntGreaterThanZero t getenv "ALLOC_MAX_ACCESS_INTERVAL" 1
  closelyWatchedAllocationsRestTime :=
    parseEnvironIntGreaterThanZero t getenv "ALLOC_REST_TIME" 10
  enoughSamplesToProveNoLeak :=
    parseEnvironIntGreaterThanZero t getenv "ALLOC_ENOUGH_SAMPLES_TO_PROVE_NO_LEAK" 5
  globalMaxLiveCloselyWatchedAllocations :=
    parseEnvironIntGreaterThanZero t getenv "ALLOC_GLOBAL_MAX_CLOSELY_WATCHED" 50000
  maxLiveCloselyWatchedAllocationsPerTrace :=
    parseEnvironIntGreaterThanZero t getenv "ALLOC_MAX_CLOSELY_WATCHED" 30
  pageSize := pageSize
  pageSize_pow := hpage
  leakReportInterval := parseEnvironIntGreaterThanZero t getenv "ALLOC_LEAK_REPORT_INTERVAL" 30
  autoStartTime := parseEnvironIntGreaterThanZero t getenv "ALLOC_AUTO_START_TIME" 0
  leakReportInterval_pos :=
    UInt32.lt_iff_toNat_lt.mpr (toNat_parseEnviron_pos t getenv _ 30 (by decide) (by decide))

/-- Without any of the variables the settings are the defaults of the structures. -/
example (hunset : getenv = fun _ => none) :
    load t getenv 4096 ⟨12, rfl⟩ =
      { toEnvironment := .default, leakReportInterval_pos := by decide } := by
  subst hunset
  rfl

/-- Every time and every limit is positive but the time of the automatic start, which
may be zero, and none of the numbers has more than 31 bits. -/
structure InRange (settings : PatrolSettings) : Prop where
  times : ∀ n ∈ [settings.timeForAllocationToBecomeSuspicious,
    settings.closelyWatchedAllocationsAccessMaxInterval,
    settings.closelyWatchedAllocationsRestTime, settings.leakReportInterval],
    0 < n.toNat ∧ n.toNat < 2 ^ 31
  limits : ∀ n ∈ [settings.enoughSamplesToProveNoLeak,
    settings.globalMaxLiveCloselyWatchedAllocations,
    settings.maxLiveCloselyWatchedAllocationsPerTrace], 0 < n.toNat ∧ n.toNat < 2 ^ 31
  start : settings.autoStartTime.toNat < 2 ^ 31

theorem inRange_load : (load t getenv pageSize hpage).InRange := by
  have hin : ∀ name defaultValue, 0 < defaultValue → defaultValue < 2 ^ 31 →
      0 < (parseEnvironIntGreaterThanZero t getenv name defaultValue).toNat ∧
        (parseEnvironIntGreaterThanZero t getenv name defaultValue).toNat < 2 ^ 31 :=
    fun name _ hpos hlt =>
      ⟨toNat_parseEnviron_pos t getenv name _ hpos hlt, toNat_parseEnviron_lt t getenv name _ hlt⟩
  refine ⟨?_, ?_, toNat_parseEnviron_lt t getenv _ 0 (by decide)⟩
  · simp only [List.forall_mem_cons]
    exact ⟨hin _ 30 (by decide) (by decide), hin _ 1 (by decide) (by decide),
      hin _ 10 (by decide) (by decide), hin _ 30 (by decide) (by decide), List.forall_mem_nil _⟩
  · simp only [List.forall_mem_cons]
    exact ⟨hin _ 5 (by decide) (by decide), hin _ 50000 (by decide) (by decide),
      hin _ 30 (by decide) (by decide), List.forall_mem_nil _⟩

/-- The clock of the process has 31 bits, as it has until 2038. -/
def ClockFits : Event → Prop
  | .allocate c _ _ _ => c.time.toNat < 2 ^ 31
  | .patrol time _ _ => time.toNat < 2 ^ 31
  | _ => True

/-- Whatever the environment says, the settings are in range and no deadline wraps. A
variable that begins with a positive number of 31 bits gives that number. -/
theorem load_fits :
    (load t getenv pageSize hpage).InRange ∧
    (∀ e, ClockFits e → System.TimesFit (load t getenv pageSize hpage).toEnvironment e) ∧
    ∀ name defaultValue n (blanks rest : List Char), 0 < n → n < 2 ^ 31 →
      (∀ c ∈ blanks, isSpace c = true) → (∀ c ∈ rest.head?, c.isDigit = false) →
      getenv name = some (blanks ++ (Nat.toDigits 10 n ++ rest)) →
        (parseEnvironIntGreaterThanZero t getenv name defaultValue).toNat = n := by
  have hrange := inRange_load t getenv pageSize hpage
  refine ⟨hrange, fun e hclock => ?_, fun name defaultValue n blanks rest hpos hn hblanks hrest =>
    parseEnviron_toDigits t getenv name defaultValue hpos hn hblanks hrest⟩
  have htimes := hrange.times
  simp only [List.forall_mem_cons] at htimes
  cases e with
  | allocate c =>
      have hsum := Nat.add_lt_add hclock htimes.1.2
      exact hsum.trans_eq (by decide)
  | patrol time =>
      have hsum := Nat.add_lt_add hclock htimes.2.1.2
      exact hsum.trans_eq (by decide)
  | setWatchState | reallocate | free => exact trivial

/-- A suspicion time of one minute, and a number that is not one. -/
def minuteEnvironment (name : String) : Option (List Char) :=
  if name = "ALLOC_TIME_SUSPICIOUS" then some " 60s".toList
  else if name = "ALLOC_MAX_CLOSELY_WATCHED" then some "-1".toList
  else none

theorem load_fits_minuteEnvironment :
    (load .lp64 minuteEnvironment 4096 ⟨12, rfl⟩).InRange ∧
    System.TimesFit (load .lp64 minuteEnvironment 4096 ⟨12, rfl⟩).toEnvironment
      (.patrol 1500000000 [] []) ∧
    (parseEnvironIntGreaterThanZero .lp64 minuteEnvironment "ALLOC_TIME_SUSPICIOUS" 30).toNat =
      60 := by
  have h := load_fits .lp64 minuteEnvironment 4096 ⟨12, rfl⟩
  have hclock : (1500000000 : UInt64).toNat < 2 ^ 31 := by decide
  exact ⟨h.1, h.2.1 _ hclock,
    h.2.2 _ 30 60 [' '] ['s'] (by decide) (by decide) (by simp [isSpace]) (by simp) rfl⟩

example : (load .lp64 minuteEnvironment 4096 ⟨12, rfl⟩).maxLiveCloselyWatchedAllocationsPerTrace =
    30 := by decide +kernel

end PatrolSettings

end AllocCounter
