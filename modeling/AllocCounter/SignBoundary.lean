import AllocCounter.MapAgreement

/-!
# Unsigned ranges in a map with signed keys

An address is a `uintptr_t`, and the map of the wrapper orders the slices as
`intptr_t`. A range that lies on one side of the sign boundary keeps its order.
The end of a range that reaches the boundary from below is not above its start:
a slice there is never split, and an unmapping searches from back to front.
-/
namespace AllocCounter

namespace Target

variable (t : Target)

/-- The sign boundary, the first address that is negative as an `intptr_t`. -/
def half : ℤ := 2 ^ (t.bits - 1)

theorem half_pos : 0 < t.half := by
  rw [half]
  positivity

theorem two_half : (2 : ℤ) ^ t.bits = 2 * t.half := by
  cases t <;> simp [half, bits]

theorem intptr_cases {x : ℤ} (hlo : 0 ≤ x) (hhi : x ≤ 2 * t.half) :
    (x < t.half ∧ t.intptr x = x) ∨ (t.half ≤ x ∧ t.intptr x = x - 2 * t.half) := by
  cases t <;> simp only [intptr, half, bits, Int.bmod_def] at * <;> omega

theorem sizeT_cases {x : ℤ} (hlo : -t.half ≤ x) (hhi : x < t.half) :
    (0 ≤ x ∧ (t.sizeT x : ℤ) = x) ∨ (x < 0 ∧ (t.sizeT x : ℤ) = x + 2 * t.half) := by
  cases t <;> simp only [sizeT, half, bits] at * <;> omega

theorem intptr_intptr_add (x y : ℤ) : t.intptr (t.intptr x + y) = t.intptr (x + y) :=
  Int.bmod_add_bmod

end Target

namespace MmapCounter

variable {T : Type*} (t : Target)

namespace MemorySlice

/-- The first address of a slice, and the first one behind it. -/
def low (s : MemorySlice T) : ℤ := t.sizeT s.start

def high (s : MemorySlice T) : ℤ := s.low t + s.size

/-- The slice starts below the sign boundary and reaches it. -/
def Reaches (s : MemorySlice T) : Prop := s.low t < t.half ∧ t.half ≤ s.high t

instance (s : MemorySlice T) : Decidable (s.Reaches t) := inferInstanceAs (Decidable (_ ∧ _))

end MemorySlice

namespace MemoryMap

def ownedAddresses (m : MemoryMap T) : Set ℤ :=
  {x | ∃ e ∈ m.slices.entries, e.2.low t ≤ x ∧ x < e.2.high t}

theorem mem_ownedAddresses {m : MemoryMap T} {x : ℤ} : x ∈ m.ownedAddresses t ↔
    ∃ e ∈ m.slices.entries, e.2.low t ≤ x ∧ x < e.2.high t := Iff.rfl

/-- Every slice is kept under its start and is a part of the address space, and
no two share an address. -/
structure Circular (m : MemoryMap T) : Prop where
  key_eq : ∀ e ∈ m.slices.entries, e.1 = e.2.start
  size_pos : ∀ e ∈ m.slices.entries, 0 < e.2.size
  start_mem : ∀ e ∈ m.slices.entries, -t.half ≤ e.2.start ∧ e.2.start < t.half
  high_le : ∀ e ∈ m.slices.entries, e.2.high t ≤ 2 * t.half
  apart : ∀ e ∈ m.slices.entries, ∀ f ∈ m.slices.entries, e.1 ≠ f.1 →
    e.2.high t ≤ f.2.low t ∨ f.2.high t ≤ e.2.low t

variable {t} {m m' : MemoryMap T}

theorem circular_empty : (empty : MemoryMap T).Circular t where
  key_eq := nofun
  size_pos := nofun
  start_mem := nofun
  high_le := nofun
  apart := nofun

/-- Where a slice lies: it reaches the boundary, and its end is not above zero; or
it lies on one side, and its end is its start plus its size. -/
inductive Side (t : Target) (s : MemorySlice T) : Prop
  | reaching : s.Reaches t → s.start = s.low t → 0 ≤ s.start → s.stop t ≤ 0 → Side t s
  | lower : ¬ s.Reaches t → s.start = s.low t → 0 ≤ s.start → s.start + s.size < t.half → Side t s
  | upper : ¬ s.Reaches t → s.start + 2 * t.half = s.low t → -t.half ≤ s.start → s.start < 0 →
      s.start + s.size ≤ 0 → Side t s

theorem Circular.side (h : m.Circular t) {e : ℤ × MemorySlice T} (he : e ∈ m.slices.entries) :
    Side t e.2 := by
  have ⟨hlo, hhi⟩ := h.start_mem e he
  have hhigh := h.high_le e he
  have hhalf := t.half_pos
  rcases t.sizeT_cases hlo hhi with ⟨hside, hlow⟩ | ⟨hside, hlow⟩
  · by_cases hreaches : e.2.Reaches t
    · refine .reaching hreaches hlow.symm hside ?_
      have hend : e.2.start + e.2.size = e.2.high t := by
        rw [MemorySlice.high, MemorySlice.low, hlow]
      rw [MemorySlice.stop, hend]
      rcases t.intptr_cases (hhalf.le.trans hreaches.2) hhigh with ⟨hbelow, -⟩ | ⟨-, heq⟩
      · exact absurd hbelow (not_lt.mpr hreaches.2)
      · rw [heq]
        exact sub_nonpos.mpr hhigh
    · refine .lower hreaches hlow.symm hside ?_
      simp only [MemorySlice.Reaches, MemorySlice.high, MemorySlice.low] at hreaches hhigh
      omega
  · refine .upper ?_ hlow.symm hlo hside ?_
    all_goals
      simp only [MemorySlice.Reaches, MemorySlice.high, MemorySlice.low] at hhigh ⊢
      omega

/-- A slice on one side does not overflow `intptr_t`. -/
theorem Side.representable {s : MemorySlice T} (h : Side t s) (hreaches : ¬ s.Reaches t) :
    Representable t s.start s.size := by
  have hhalf := t.half_pos
  have hmin : t.intptrMin = -t.half := rfl
  have hmax : t.intptrMax = t.half - 1 := rfl
  rw [Representable, hmin, hmax]
  cases h with
  | reaching hreach => exact absurd hreach hreaches
  | lower hside hlow hnonneg hstop => constructor <;> omega
  | upper hside hlow hmem hneg hstop => constructor <;> omega

/-- A slice on one side ends before another one starts, or starts after its end. -/
theorem Circular.signed_apart (h : m.Circular t) {e f : ℤ × MemorySlice T}
    (he : e ∈ m.slices.entries) (hf : f ∈ m.slices.entries) (hne : e.1 ≠ f.1)
    (hside : ¬ e.2.Reaches t) :
    e.2.start + e.2.size ≤ f.2.start ∨ (¬ f.2.Reaches t ∧ f.2.start + f.2.size ≤ e.2.start) := by
  have hapart := h.apart e he f hf hne
  have hpos := h.size_pos f hf
  simp only [MemorySlice.high] at hapart
  cases h.side he with
  | reaching hreaches => exact absurd hreaches hside
  | lower _ hlow hnonneg hstop =>
      cases h.side hf with
      | reaching hreaches hlow' =>
          have hbelow := hreaches.2
          simp only [MemorySlice.high] at hbelow
          omega
      | lower hside' hlow' => exact hapart.imp (by omega) fun hle => ⟨hside', by omega⟩
      | upper hside' hlow' hmem hneg hstop' => exact .inr ⟨hside', by omega⟩
  | upper _ hlow hmem hneg hstop =>
      cases h.side hf with
      | reaching hreaches hlow' hnonneg => exact .inl (by omega)
      | lower hside' hlow' hnonneg => exact .inl (by omega)
      | upper hside' hlow' => exact hapart.imp (by omega) fun hle => ⟨hside', by omega⟩

/-- The halves of a slice that lies on one side. -/
structure Halves (t : Target) (pointer : ℤ) (c left right : MemorySlice T) : Prop where
  side : ¬ c.Reaches t
  inside : c.start < pointer ∧ pointer < c.start + c.size
  left_start : left.start = c.start
  left_stop : left.start + left.size = pointer
  right_start : right.start = pointer
  right_stop : right.start + right.size = c.start + c.size

/-- Both halves lie on the side of the slice, one behind the other. -/
structure HalvesApart (t : Target) (c left right : MemorySlice T) : Prop where
  left_low : left.low t = c.low t
  left_high : left.high t = right.low t
  right_high : right.high t = c.high t
  low_lt : c.low t < right.low t
  lt_high : right.low t < c.high t
  right_start : -t.half ≤ right.start ∧ right.start < t.half
  left_side : ¬ left.Reaches t
  right_side : ¬ right.Reaches t

section Halves

variable {pointer key : ℤ} {c left right : MemorySlice T}

theorem Halves.apart (h : Halves t pointer c left right) (hside : Side t c) :
    HalvesApart t c left right := by
  obtain ⟨hreaches, ⟨hlo, hhi⟩, hleft, hleftStop, hright, hrightStop⟩ := h
  have hleftLow : left.low t = c.low t := by rw [MemorySlice.low, hleft, MemorySlice.low]
  have hrightLow : right.low t = t.sizeT right.start := rfl
  have hhigh : ∀ s : MemorySlice T, s.high t = s.low t + s.size := fun _ => rfl
  have hleftHigh := hhigh left
  have hrightHigh := hhigh right
  have hchigh := hhigh c
  have hhalf := t.half_pos
  cases hside with
  | reaching hreach => exact absurd hreach hreaches
  | lower _ hlow hnonneg hstop =>
      rcases t.sizeT_cases (x := right.start) (by omega) (by omega) with ⟨_, hp⟩ | ⟨hneg, _⟩
      · refine ⟨hleftLow, by omega, by omega, by omega, by omega, by omega, ?_, ?_⟩
        all_goals
          rw [MemorySlice.Reaches]
          omega
      · omega
  | upper _ hlow hmem hneg hstop =>
      rcases t.sizeT_cases (x := right.start) (by omega) (by omega) with ⟨hnonneg, _⟩ | ⟨_, hp⟩
      · omega
      · refine ⟨hleftLow, by omega, by omega, by omega, by omega, by omega, ?_, ?_⟩
        all_goals
          rw [MemorySlice.Reaches]
          omega

/-- The entries after a slice has been replaced by its halves. -/
theorem mem_halved {l r : List (ℤ × MemorySlice T)}
    (hm : m.slices.entries = l ++ (key, c) :: r)
    (hm' : m'.slices.entries = l ++ (key, left) :: (pointer, right) :: r)
    (e : ℤ × MemorySlice T) : e ∈ m'.slices.entries ↔
      (e ∈ m.slices.entries ∧ e.1 ≠ key) ∨ e = (key, left) ∨ e = (pointer, right) := by
  have ⟨hkeyl, hkeyr⟩ := SortedMap.keys_around hm
  rw [hm', hm]
  simp only [List.mem_append, List.mem_cons]
  constructor
  · rintro (he | rfl | rfl | he)
    · exact .inl ⟨.inl he, (hkeyl e he).ne⟩
    · exact .inr (.inl rfl)
    · exact .inr (.inr rfl)
    · exact .inl ⟨.inr (.inr he), (hkeyr e he).ne'⟩
  · rintro (⟨he | rfl | he, hne⟩ | rfl | rfl)
    · exact .inl he
    · exact absurd rfl hne
    · exact .inr (.inr (.inr he))
    · exact .inr (.inl rfl)
    · exact .inr (.inr (.inl rfl))

variable (h : m.Circular t) (hc : (key, c) ∈ m.slices.entries)
  (hhalves : Halves t pointer c left right)
  (hmem : ∀ e, e ∈ m'.slices.entries ↔
    (e ∈ m.slices.entries ∧ e.1 ≠ key) ∨ e = (key, left) ∨ e = (pointer, right))

include h hc hhalves hmem

theorem Circular.halve : m'.Circular t := by
  have hboth := hhalves.apart (h.side hc)
  have hstart : -t.half ≤ c.start ∧ c.start < t.half := h.start_mem _ hc
  have hhigh : c.high t ≤ 2 * t.half := h.high_le _ hc
  have hapart : ∀ e ∈ m.slices.entries, e.1 ≠ key → e.2.high t ≤ c.low t ∨ c.high t ≤ e.2.low t :=
    fun e he hne => h.apart e he _ hc hne
  obtain ⟨hreaches, ⟨hlo, hhi⟩, hleft, hleftStop, hright, hrightStop⟩ := hhalves
  obtain ⟨hleftLow, hmiddle, hrightHigh, hlt, hlt', hrightStart, -, -⟩ := hboth
  constructor
  · intro e he
    rcases (hmem e).mp he with ⟨he, -⟩ | rfl | rfl
    · exact h.key_eq e he
    · exact (h.key_eq _ hc).trans hleft.symm
    · exact hright.symm
  · intro e he
    rcases (hmem e).mp he with ⟨he, -⟩ | rfl | rfl
    · exact h.size_pos e he
    · dsimp only
      omega
    · dsimp only
      omega
  · intro e he
    rcases (hmem e).mp he with ⟨he, -⟩ | rfl | rfl
    · exact h.start_mem e he
    · exact hleft ▸ hstart
    · exact hrightStart
  · intro e he
    rcases (hmem e).mp he with ⟨he, -⟩ | rfl | rfl
    · exact h.high_le e he
    · dsimp only
      omega
    · exact hrightHigh ▸ hhigh
  · intro e he f hf hne
    rcases (hmem e).mp he with ⟨he, hek⟩ | rfl | rfl <;>
      rcases (hmem f).mp hf with ⟨hf, hfk⟩ | rfl | rfl
    · exact h.apart e he f hf hne
    · exact (hapart e he hek).imp (by dsimp only; omega) (by dsimp only; omega)
    · exact (hapart e he hek).imp (by dsimp only; omega) (by dsimp only; omega)
    · exact (hapart f hf hfk).symm.imp (by dsimp only; omega) (by dsimp only; omega)
    · exact absurd rfl hne
    · exact .inl hmiddle.le
    · exact (hapart f hf hfk).symm.imp (by dsimp only; omega) (by dsimp only; omega)
    · exact .inr hmiddle.le
    · exact absurd rfl hne

theorem Circular.owned_halve : m'.ownedAddresses t = m.ownedAddresses t := by
  obtain ⟨hleftLow, hmiddle, hrightHigh, hlt, hlt', -⟩ := hhalves.apart (h.side hc)
  ext x
  simp only [mem_ownedAddresses, hmem]
  constructor
  · rintro ⟨e, ⟨he, -⟩ | rfl | rfl, hx⟩
    · exact ⟨e, he, hx⟩
    · exact ⟨_, hc, by dsimp only at hx ⊢; omega⟩
    · exact ⟨_, hc, by dsimp only at hx ⊢; omega⟩
  · rintro ⟨e, he, hx⟩
    by_cases hek : e.1 = key
    · obtain rfl := SortedMap.eq_of_key_eq he hc hek
      by_cases hxp : x < right.low t
      · exact ⟨_, .inr (.inl rfl), by dsimp only at hx ⊢; omega⟩
      · exact ⟨_, .inr (.inr rfl), by dsimp only at hx ⊢; omega⟩
    · exact ⟨e, .inl ⟨he, hek⟩, hx⟩

end Halves

/-- What a split at `pointer` does: only slices on one side are split, and of those
none has the pointer inside afterwards. -/
structure Splits (t : Target) (pointer : ℤ) (m m' : MemoryMap T) : Prop where
  circular : m'.Circular t
  owned : m'.ownedAddresses t = m.ownedAddresses t
  reaching : ∀ e, e.2.Reaches t → (e ∈ m'.slices.entries ↔ e ∈ m.slices.entries)
  part : ∀ e' ∈ m'.slices.entries, ¬ e'.2.Reaches t → ∃ e ∈ m.slices.entries,
    ¬ e.2.Reaches t ∧ e.2.start ≤ e'.2.start ∧ e'.2.start + e'.2.size ≤ e.2.start + e.2.size
  clear : ∀ e ∈ m'.slices.entries, ¬ e.2.Reaches t →
    ¬ (e.2.start < pointer ∧ pointer < e.2.start + e.2.size)

theorem Splits.refl {pointer : ℤ} (h : m.Circular t)
    (hclear : ∀ e ∈ m.slices.entries, ¬ e.2.Reaches t →
      ¬ (e.2.start < pointer ∧ pointer < e.2.start + e.2.size)) : Splits t pointer m m :=
  ⟨h, rfl, fun _ _ => Iff.rfl, fun e he hside => ⟨e, he, hside, le_rfl, le_rfl⟩, hclear⟩

theorem Splits.of_halves {pointer key : ℤ} {c left right : MemorySlice T} (h : m.Circular t)
    (hc : (key, c) ∈ m.slices.entries) (hhalves : Halves t pointer c left right)
    (hmem : ∀ e, e ∈ m'.slices.entries ↔
      (e ∈ m.slices.entries ∧ e.1 ≠ key) ∨ e = (key, left) ∨ e = (pointer, right)) :
    Splits t pointer m m' := by
  have hboth := hhalves.apart (h.side hc)
  refine ⟨h.halve hc hhalves hmem, h.owned_halve hc hhalves hmem, ?_, ?_, ?_⟩
  · intro e hreaches
    rw [hmem]
    constructor
    · rintro (⟨he, -⟩ | rfl | rfl)
      · exact he
      · exact absurd hreaches hboth.left_side
      · exact absurd hreaches hboth.right_side
    · intro he
      refine .inl ⟨he, fun hek => hhalves.side ?_⟩
      obtain rfl := SortedMap.eq_of_key_eq he hc hek
      exact hreaches
  all_goals
    obtain ⟨hreaches, ⟨hlo, hhi⟩, hleft, hleftStop, hright, hrightStop⟩ := hhalves
    intro e he hside
    rcases (hmem e).mp he with ⟨he, hek⟩ | rfl | rfl
  · exact ⟨e, he, hside, le_rfl, le_rfl⟩
  · exact ⟨_, hc, hreaches, by dsimp only; omega, by dsimp only; omega⟩
  · exact ⟨_, hc, hreaches, by dsimp only; omega, by dsimp only; omega⟩
  · have hapart := h.signed_apart he hc hek hside
    dsimp only at hapart
    omega
  · dsimp only
    omega
  · dsimp only
    omega

/-- `splitAt` fails no assertion and splits the slice, if any, that lies on one
side and has the pointer inside. -/
theorem Circular.splitAt (h : m.Circular t) (pointer : ℤ) :
    ∃ m', m.splitAt t pointer = some m' ∧ Splits t pointer m m' := by
  obtain ⟨l, r, hlr, hl, hr⟩ :=
    m.slices.exists_cut (· ≤ pointer) fun a b hab hb => hab.le.trans hb
  replace hr : ∀ e ∈ r, pointer < e.1 := fun e he => not_le.mp (hr e he)
  have hsearch := SortedMap.upperBound_eq hlr hl hr
  have hbehind : ∀ e ∈ r, ¬ e.2.start < pointer := by
    intro e he
    rw [← h.key_eq e (hlr ▸ List.mem_append_right l he)]
    exact (hr e he).not_gt
  rcases l.eq_nil_or_concat' with rfl | ⟨l, ⟨key, c⟩, rfl⟩
  · refine ⟨m, by simp [MemoryMap.splitAt, hsearch], .refl h fun e he _ hinside => ?_⟩
    exact hbehind e (by simpa [hlr] using he) hinside.1
  · rw [List.append_assoc, List.singleton_append] at hlr
    have hc : (key, c) ∈ m.slices.entries := by simp [hlr]
    have hkey : key = c.start := h.key_eq _ hc
    have hle : c.start ≤ pointer := hkey ▸ hl (key, c) (by simp)
    have hiter : m.slices.entries[m.slices.upperBound pointer - 1]? = some (key, c) := by
      simp [hsearch, hlr]
    have hcside : Side t c := h.side hc
    by_cases hin : ¬ c.Reaches t ∧ c.start < pointer ∧ pointer < c.start + c.size
    · obtain ⟨hside, hlo, hhi⟩ := hin
      have hrep := hcside.representable hside
      obtain ⟨m', hsplit, -, hentries⟩ := splitAt_entries hlr hkey hrep hlo hhi hr
      have hleft := t.sizeT_sub hrep.1 hlo.le (hhi.le.trans hrep.2)
      have hright := t.sizeT_sub (hrep.1.trans hlo.le) hhi.le hrep.2
      refine ⟨m', hsplit, .of_halves h hc ?_ (mem_halved hlr hentries)⟩
      exact ⟨hside, ⟨hlo, hhi⟩, rfl, by simp only; omega, rfl, by simp only; omega⟩
    · have hout : pointer = c.start ∨ c.stop t ≤ pointer := by
        by_cases hside : c.Reaches t
        · cases hcside with
          | reaching _ _ hnonneg hstop => exact .inr (hstop.trans (hnonneg.trans hle))
          | lower hreaches | upper hreaches => exact absurd hside hreaches
        · have houtside : ¬ (c.start < pointer ∧ pointer < c.start + c.size) :=
            fun hinside => hin ⟨hside, hinside⟩
          rw [stop_eq (hcside.representable hside)]
          omega
      refine ⟨m, by simp [MemoryMap.splitAt, hiter, hle, hout], .refl h ?_⟩
      intro e he hside hinside
      by_cases hek : e.1 = key
      · obtain rfl := SortedMap.eq_of_key_eq he hc hek
        exact hin ⟨hside, hinside⟩
      · -- a slice that starts before the last one ends before it
        have hapart := h.signed_apart he hc hek hside
        have hnot := hbehind e
        rw [hlr] at he
        rcases List.mem_append.mp he with he' | he'
        · have hbefore := (SortedMap.keys_around hlr).1 e he'
          rw [h.key_eq e (hlr ▸ he)] at hbefore
          dsimp only at hapart
          have hpos := h.size_pos _ hc
          dsimp only at hpos
          omega
        · exact hnot ((List.mem_cons.mp he').resolve_left fun heq => hek (congrArg Prod.fst heq))
            hinside.1

/-- Some addresses: a positive number of them, up to the end of the address space. -/
structure InAddressSpace (t : Target) (start : ℤ) (size : ℕ) : Prop where
  nonneg : 0 ≤ start
  size_pos : 0 < size
  size_lt : (size : ℤ) < 2 ^ t.bits
  stop_le : start + size ≤ 2 ^ t.bits

namespace InAddressSpace

variable {start : ℤ} {size : ℕ} (h : InAddressSpace t start size)

include h

/-- The two ends as an `intptr_t`. -/
theorem intptr_cases :
    ((start < t.half ∧ t.intptr start = start) ∨
      (t.half ≤ start ∧ t.intptr start = start - 2 * t.half)) ∧
    ((start + size < t.half ∧ t.intptr (start + size) = start + size) ∨
      (t.half ≤ start + size ∧ t.intptr (start + size) = start + size - 2 * t.half)) := by
  obtain ⟨hnonneg, hpos, -, hstop⟩ := h
  rw [t.two_half] at hstop
  exact ⟨t.intptr_cases hnonneg (by omega), t.intptr_cases (by omega) hstop⟩

/-- The ends keep their order on one side of the boundary, and there only. -/
theorem intptr_le_iff : t.intptr start ≤ t.intptr (start + size) ↔
    ¬ (start < t.half ∧ t.half ≤ start + size) := by
  have hends := h.intptr_cases
  obtain ⟨hnonneg, hpos, hsize, -⟩ := h
  rw [t.two_half] at hsize
  omega

end InAddressSpace

/-- The map is empty, or neither the range nor a slice that it meets reaches the
sign boundary from below. -/
def Manages (t : Target) (m : MemoryMap T) (start : ℤ) (size : ℕ) : Prop :=
  m.slices.entries = [] ∨ (¬ (start < t.half ∧ t.half ≤ start + size) ∧
    ∀ e ∈ m.slices.entries, e.2.Reaches t → e.2.high t ≤ start ∨ start + size ≤ e.2.low t)

/-- The map after the two splits of an unmapping. -/
structure Cleared (t : Target) (start stop : ℤ) (m m' : MemoryMap T) : Prop where
  circular : m'.Circular t
  owned : m'.ownedAddresses t = m.ownedAddresses t
  reaching : ∀ e, e.2.Reaches t → (e ∈ m'.slices.entries ↔ e ∈ m.slices.entries)
  clear_start : ∀ e ∈ m'.slices.entries, ¬ e.2.Reaches t →
    ¬ (e.2.start < start ∧ start < e.2.start + e.2.size)
  clear_stop : ∀ e ∈ m'.slices.entries, ¬ e.2.Reaches t →
    ¬ (e.2.start < stop ∧ stop < e.2.start + e.2.size)

theorem Circular.cleared (h : m.Circular t) (start : ℤ) (size : ℕ) :
    ∃ m₂, Cleared t (t.intptr start) (t.intptr (start + size)) m m₂ ∧
      m.registerUnmap t (t.intptr start) size =
        (m₂.slices.eraseRange (m₂.slices.lowerBound (t.intptr start))
          (m₂.slices.lowerBound (t.intptr (start + size)))).map fun s =>
            (m₂.slices.lowerBound (t.intptr start) !=
              m₂.slices.lowerBound (t.intptr (start + size)), { m₂ with slices := s }) := by
  obtain ⟨m₁, hsplit₁, h₁⟩ := h.splitAt (t.intptr start)
  obtain ⟨m₂, hsplit₂, h₂⟩ := h₁.circular.splitAt (t.intptr (start + size))
  refine ⟨m₂, ⟨h₂.circular, h₂.owned.trans h₁.owned, fun e hreaches => ?_, ?_, h₂.clear⟩, ?_⟩
  · exact (h₂.reaching e hreaches).trans (h₁.reaching e hreaches)
  · intro e' he' hside hinside
    obtain ⟨e, he, hside₁, hlo, hhi⟩ := h₂.part e' he' hside
    exact h₁.clear e he hside₁ ⟨by omega, by omega⟩
  · simp only [MemoryMap.registerUnmap, t.intptr_intptr_add, hsplit₁, hsplit₂, Option.bind_some]

theorem Circular.subset (h : m.Circular t) (hsub : ∀ e ∈ m'.slices.entries, e ∈ m.slices.entries) :
    m'.Circular t where
  key_eq e he := h.key_eq e (hsub e he)
  size_pos e he := h.size_pos e (hsub e he)
  start_mem e he := h.start_mem e (hsub e he)
  high_le e he := h.high_le e (hsub e he)
  apart e he f hf := h.apart e (hsub e he) f (hsub f hf)

theorem Circular.low_mem (h : m.Circular t) {e : ℤ × MemorySlice T} (he : e ∈ m.slices.entries) :
    e.2.low t ∈ m.ownedAddresses t := by
  have hpos := h.size_pos e he
  exact ⟨e, he, le_rfl, by rw [MemorySlice.high]; omega⟩

/-- Who owns nothing has no slices. -/
theorem Circular.entries_eq_nil (h : m.Circular t) (hnone : ∀ x, x ∉ m.ownedAddresses t) :
    m.slices.entries = [] :=
  List.eq_nil_iff_forall_not_mem.mpr fun _ he => hnone _ (h.low_mem he)

/-- On one side of the boundary, a slice that has neither end of the range inside
is in the range if its key is. -/
theorem Cleared.mem_range_iff {start : ℤ} {size : ℕ} (hrange : InAddressSpace t start size)
    (hside : ¬ (start < t.half ∧ t.half ≤ start + size)) {m₂ : MemoryMap T}
    (h : Cleared t (t.intptr start) (t.intptr (start + size)) m m₂) {e : ℤ × MemorySlice T}
    (he : e ∈ m₂.slices.entries)
    (hreaching : e.2.Reaches t → e.2.high t ≤ start ∨ start + size ≤ e.2.low t) {x : ℤ}
    (hx : e.2.low t ≤ x ∧ x < e.2.high t) :
    (start ≤ x ∧ x < start + size) ↔ t.intptr start ≤ e.1 ∧ e.1 < t.intptr (start + size) := by
  have hkey := h.circular.key_eq e he
  have hclearStart := h.clear_start e he
  have hclearStop := h.clear_stop e he
  have hends := hrange.intptr_cases
  obtain ⟨hnonneg, hpos, -, hstop⟩ := hrange
  rw [t.two_half] at hstop
  have hhalf := t.half_pos
  have hhigh : e.2.high t = e.2.low t + e.2.size := rfl
  cases h.circular.side he with
  | reaching hreaches hlow hzero =>
      have haway := hreaching hreaches
      have hboundary := hreaches.2
      have hboundary' := hreaches.1
      omega
  | lower hreaches hlow =>
      replace hclearStart := hclearStart hreaches
      replace hclearStop := hclearStop hreaches
      omega
  | upper hreaches hlow =>
      replace hclearStart := hclearStart hreaches
      replace hclearStop := hclearStop hreaches
      omega

/-- The erasure is valid and exactly the range is no longer owned. -/
def Unmaps (t : Target) (m : MemoryMap T) (start : ℤ) (size : ℕ) (m' : MemoryMap T) : Prop :=
  (∃ known, m.registerUnmap t (t.intptr start) size = some (known, m')) ∧
    ∀ x, x ∈ m'.ownedAddresses t ↔ x ∈ m.ownedAddresses t ∧ ¬ (start ≤ x ∧ x < start + size)

/-- The empty map is left as it is. -/
theorem Circular.unmaps_of_entries_eq_nil (h : m.Circular t) (start : ℤ) (size : ℕ)
    (hnil : m.slices.entries = []) : ∃ m', m.Unmaps t start size m' ∧ m'.Circular t := by
  obtain ⟨m₂, hcleared, hunmap⟩ := h.cleared start size
  have hnone : ∀ x, x ∉ m.ownedAddresses t := by simp [mem_ownedAddresses, hnil]
  have hnil₂ := hcleared.circular.entries_eq_nil fun x hx => hnone x (hcleared.owned ▸ hx)
  have herase : m₂.slices.eraseRange 0 0 = some m₂.slices := by
    simp [SortedMap.eraseRange]
  simp only [SortedMap.lowerBound, hnil₂, List.takeWhile_nil, List.length_nil, herase,
    Option.map_some] at hunmap
  refine ⟨m₂, ⟨⟨_, hunmap⟩, fun x => ?_⟩, hcleared.circular⟩
  simp [hcleared.owned, hnone x]

/-- On one side of the boundary the erasure is valid. -/
theorem Circular.erases (h : m.Circular t) {start : ℤ} {size : ℕ}
    (hrange : InAddressSpace t start size) (hside : ¬ (start < t.half ∧ t.half ≤ start + size)) :
    ∃ m₂ m' known, Cleared t (t.intptr start) (t.intptr (start + size)) m m₂ ∧
      m.registerUnmap t (t.intptr start) size = some (known, m') ∧
      ∀ e, e ∈ m'.slices.entries ↔ e ∈ m₂.slices.entries ∧
        ¬ (t.intptr start ≤ e.1 ∧ e.1 < t.intptr (start + size)) := by
  obtain ⟨m₂, hcleared, hunmap⟩ := h.cleared start size
  have hle := hrange.intptr_le_iff.mpr hside
  rw [SortedMap.eraseRange_lowerBound _ hle, Option.map_some] at hunmap
  refine ⟨m₂, _, _, hcleared, hunmap, fun e => ?_⟩
  rw [List.mem_filter, decide_eq_true_eq]

theorem Circular.unmaps_of_apart (h : m.Circular t) {start : ℤ} {size : ℕ}
    (hrange : InAddressSpace t start size) (hside : ¬ (start < t.half ∧ t.half ≤ start + size))
    (hreaching : ∀ e ∈ m.slices.entries, e.2.Reaches t →
      e.2.high t ≤ start ∨ start + size ≤ e.2.low t) :
    ∃ m', m.Unmaps t start size m' ∧ m'.Circular t := by
  obtain ⟨m₂, m', known, hcleared, hunmap, hmem⟩ := h.erases hrange hside
  refine ⟨m', ⟨⟨known, hunmap⟩, fun x => ?_⟩,
    hcleared.circular.subset fun e he => ((hmem e).mp he).1⟩
  have hin : ∀ e ∈ m₂.slices.entries, e.2.low t ≤ x ∧ x < e.2.high t →
      ((start ≤ x ∧ x < start + size) ↔
        t.intptr start ≤ e.1 ∧ e.1 < t.intptr (start + size)) := fun e he hx =>
    hcleared.mem_range_iff hrange hside he
      (fun hreaches => hreaching e ((hcleared.reaching e hreaches).mp he) hreaches) hx
  rw [← hcleared.owned]
  simp only [mem_ownedAddresses, hmem]
  constructor
  · rintro ⟨e, ⟨he, hkey⟩, hx⟩
    exact ⟨⟨e, he, hx⟩, (hin e he hx).not.mpr hkey⟩
  · rintro ⟨⟨e, he, hx⟩, hout⟩
    exact ⟨e, ⟨he, (hin e he hx).not.mp hout⟩, hx⟩

theorem Circular.unmaps (h : m.Circular t) {start : ℤ} {size : ℕ}
    (hrange : InAddressSpace t start size) (hmanages : m.Manages t start size) :
    ∃ m', m.Unmaps t start size m' ∧ m'.Circular t := by
  rcases hmanages with hnil | ⟨hside, hreaching⟩
  · exact h.unmaps_of_entries_eq_nil start size hnil
  · exact h.unmaps_of_apart hrange hside hreaching

/-- A range that reaches the boundary is searched from back to front, so nothing is
erased: that is right for the empty map only. -/
theorem Circular.entries_eq_nil_of_unmaps (h : m.Circular t) {start : ℤ} {size : ℕ}
    (hrange : InAddressSpace t start size) (hreaches : start < t.half ∧ t.half ≤ start + size)
    (hunmaps : m.Unmaps t start size m') : m.slices.entries = [] := by
  obtain ⟨⟨known, hsome⟩, hexact⟩ := hunmaps
  obtain ⟨m₂, hcleared, hunmap⟩ := h.cleared start size
  rw [hsome, eq_comm, Option.map_eq_some_iff] at hunmap
  obtain ⟨slices, herase, heq⟩ := hunmap
  have hle : t.intptr (start + size) ≤ t.intptr start :=
    (not_le.mp (hrange.intptr_le_iff.not.mpr (not_not.mpr hreaches))).le
  have hsame := SortedMap.lowerBound_eq_of_eraseRange hle herase
  have hkept : slices.entries = m₂.slices.entries := by
    rw [(SortedMap.eraseRange_eq_some herase).2, hsame, List.take_append_drop]
  have hbetween := (SortedMap.lowerBound_ne_iff m₂.slices hle).not.mp (not_not.mpr hsame.symm)
  have howned : ∀ x, x ∈ m.ownedAddresses t → ¬ (start ≤ x ∧ x < start + size) := by
    intro x hx
    rw [← hcleared.owned] at hx
    refine ((hexact x).mp ?_).2
    obtain ⟨-, rfl⟩ := Prod.mk.inj heq
    simpa only [mem_ownedAddresses, hkept] using hx
  refine h.entries_eq_nil fun x hx => hbetween ?_
  rw [← hcleared.owned] at hx
  obtain ⟨e, he, -⟩ := hx
  have hlow := howned _ (hcleared.owned ▸ hcleared.circular.low_mem he)
  have hkey := hcleared.circular.key_eq e he
  have hends := hrange.intptr_cases
  obtain ⟨hnonneg, -, -, hstop⟩ := hrange
  rw [t.two_half] at hstop
  refine ⟨e, he, ?_⟩
  cases hcleared.circular.side he with
  | reaching hbelow hlow' =>
      have hlt := hbelow.1
      omega
  | lower _ hlow' | upper _ hlow' => omega

/-- A slice that reaches the boundary is never split. So it keeps addresses of the
range, or it loses the last one below the boundary. -/
theorem Circular.apart_of_unmaps (h : m.Circular t) {start : ℤ} {size : ℕ}
    (hrange : InAddressSpace t start size) (hside : ¬ (start < t.half ∧ t.half ≤ start + size))
    (hunmaps : m.Unmaps t start size m') {e : ℤ × MemorySlice T} (he : e ∈ m.slices.entries)
    (hreaches : e.2.Reaches t) : e.2.high t ≤ start ∨ start + size ≤ e.2.low t := by
  obtain ⟨⟨known, hsome⟩, hexact⟩ := hunmaps
  obtain ⟨m₂, m₃, known₃, hcleared, hunmap, hmem⟩ := h.erases hrange hside
  obtain ⟨-, rfl⟩ := Prod.mk.inj (Option.some.inj (hsome.symm.trans hunmap))
  have hends := hrange.intptr_cases
  obtain ⟨hnonneg, hpos, -, hstop⟩ := hrange
  rw [t.two_half] at hstop
  have he₂ := (hcleared.reaching e hreaches).mpr he
  have hkey := hcleared.circular.key_eq e he₂
  have hbelow := hreaches.1
  have hboundary := hreaches.2
  have hlow : e.2.start = e.2.low t := by
    cases hcleared.circular.side he₂ with
    | reaching _ hlow => exact hlow
    | lower hnot | upper hnot => exact absurd hreaches hnot
  by_contra hmeets
  rw [not_or, not_le, not_le] at hmeets
  by_cases hkept : ¬ (t.intptr start ≤ e.1 ∧ e.1 < t.intptr (start + size))
  · -- the slice is kept with the greater of the two starts
    have hx := (hexact (max start (e.2.low t))).mp
      ⟨e, (hmem e).mpr ⟨he₂, hkept⟩, le_max_right _ _, by omega⟩
    exact hx.2 ⟨le_max_left _ _, by omega⟩
  · rw [not_not] at hkept
    have hx := (hexact (t.half - 1)).mpr ⟨⟨e, he, by omega, by omega⟩, by omega⟩
    obtain ⟨f, hf, hxf⟩ := hx
    obtain ⟨hf, hkeyf⟩ := (hmem f).mp hf
    have hne : e.1 ≠ f.1 := fun heq => hkeyf (heq ▸ hkept)
    have hapart := hcleared.circular.apart e he₂ f hf hne
    omega

/-- An unmapping of a circular map is right exactly if the map manages it. -/
theorem Circular.unmaps_iff (h : m.Circular t) {start : ℤ} {size : ℕ}
    (hrange : InAddressSpace t start size) :
    (∃ m', m.Unmaps t start size m') ↔ m.Manages t start size := by
  constructor
  · intro ⟨m', hunmaps⟩
    by_cases hside : start < t.half ∧ t.half ≤ start + size
    · exact .inl (h.entries_eq_nil_of_unmaps hrange hside hunmaps)
    · exact .inr ⟨hside, fun e he hreaches => h.apart_of_unmaps hrange hside hunmaps he hreaches⟩
  · intro hmanages
    obtain ⟨m', hunmaps, -⟩ := h.unmaps hrange hmanages
    exact ⟨m', hunmaps⟩

/-- A range that nobody owns meets no slice. -/
theorem Circular.away_of_free (h : m.Circular t) {start : ℤ} {size : ℕ} (hpos : 0 < size)
    (hfree : ∀ x, start ≤ x → x < start + size → x ∉ m.ownedAddresses t) {e : ℤ × MemorySlice T}
    (he : e ∈ m.slices.entries) : e.2.high t ≤ start ∨ start + size ≤ e.2.low t := by
  by_contra hmeets
  rw [not_or, not_le, not_le] at hmeets
  have hsize := h.size_pos e he
  have hhigh : e.2.high t = e.2.low t + e.2.size := rfl
  exact hfree (max start (e.2.low t)) (le_max_left _ _) (by omega)
    ⟨e, he, le_max_right _ _, by omega⟩

section Add

variable (h : m.Circular t) {added : MemorySlice T} (hpos : 0 < added.size)
  (haway : ∀ e ∈ m.slices.entries, e.2.high t ≤ added.low t ∨ added.high t ≤ e.2.low t)

include h hpos haway

/-- Its start is not a key yet. -/
theorem Circular.mem_insertNew (e : ℤ × MemorySlice T) :
    e ∈ (m.slices.insertNew added.start added).entries ↔
      e = (added.start, added) ∨ e ∈ m.slices.entries := by
  rcases m.slices.insertNew_cases added.start added with ⟨hkey, -⟩ | ⟨-, l, r, hm, hnew⟩
  · obtain ⟨f, hf, hkey⟩ := List.mem_map.mp hkey
    have hsame : f.2.low t = added.low t := by
      rw [MemorySlice.low, ← h.key_eq f hf, hkey, MemorySlice.low]
    have hapart := haway f hf
    have hsize := h.size_pos f hf
    simp only [MemorySlice.high] at hapart
    omega
  · rw [hnew, hm]
    simp only [List.mem_append, List.mem_cons]
    exact or_left_comm

theorem Circular.insertNew (hstart : -t.half ≤ added.start ∧ added.start < t.half)
    (hhigh : added.high t ≤ 2 * t.half) (made : ℕ) :
    Circular t ⟨m.slices.insertNew added.start added, made⟩ := by
  have hmem := h.mem_insertNew hpos haway
  constructor
  · intro e he
    rcases (hmem e).mp he with rfl | he
    · rfl
    · exact h.key_eq e he
  · intro e he
    rcases (hmem e).mp he with rfl | he
    · exact hpos
    · exact h.size_pos e he
  · intro e he
    rcases (hmem e).mp he with rfl | he
    · exact hstart
    · exact h.start_mem e he
  · intro e he
    rcases (hmem e).mp he with rfl | he
    · exact hhigh
    · exact h.high_le e he
  · intro e he f hf hne
    rcases (hmem e).mp he with rfl | he <;> rcases (hmem f).mp hf with rfl | hf
    · exact absurd rfl hne
    · exact (haway f hf).symm
    · exact haway e he
    · exact h.apart e he f hf hne

end Add

/-- A range that nobody owns is mapped right, wherever it lies. -/
theorem Circular.registerMap (h : m.Circular t) {start : ℤ} {size : ℕ}
    (hrange : InAddressSpace t start size)
    (hfree : ∀ x, start ≤ x → x < start + size → x ∉ m.ownedAddresses t) (stackTrace : T) :
    (m.registerMap ⟨stackTrace, t.intptr start, size⟩).Circular t ∧
      ∀ x, x ∈ (m.registerMap ⟨stackTrace, t.intptr start, size⟩).ownedAddresses t ↔
        x ∈ m.ownedAddresses t ∨ (start ≤ x ∧ x < start + size) := by
  obtain ⟨hnonneg, hpos, -, hstop⟩ := hrange
  rw [t.two_half] at hstop
  have hhalf := t.half_pos
  have hstart := t.intptr_cases (x := start) hnonneg (by omega)
  have hpointer := t.sizeT_cases (x := t.intptr start) (by omega) (by omega)
  rw [MemoryMap.registerMap]
  generalize hadded : (⟨t.intptr start, size, ⟨m.made, ⟨stackTrace, t.intptr start, size⟩⟩⟩ :
    MemorySlice T) = added
  have haddedStart : added.start = t.intptr start := hadded ▸ rfl
  have haddedSize : added.size = size := hadded ▸ rfl
  have hlow : added.low t = start := by
    rw [MemorySlice.low, haddedStart]
    omega
  have hhigh : added.high t = start + size := by rw [MemorySlice.high, hlow, haddedSize]
  have haway : ∀ e ∈ m.slices.entries, e.2.high t ≤ added.low t ∨ added.high t ≤ e.2.low t := by
    intro e he
    rw [hlow, hhigh]
    exact h.away_of_free hpos hfree he
  dsimp only
  rw [← haddedStart]
  refine ⟨h.insertNew (haddedSize ▸ hpos) haway (by omega) (by omega) _, fun x => ?_⟩
  simp only [mem_ownedAddresses, h.mem_insertNew (haddedSize ▸ hpos) haway, or_and_right,
    exists_or, exists_eq_left, hlow, hhigh]
  exact or_comm

end MemoryMap

end MmapCounter

namespace MapAgreement

open MmapCounter.MemoryMap

variable {E : Type*}

/-- `P` holds of every event and those before it. -/
def Throughout (P : List (MapEvent E) → MapEvent E → Prop) (es : List (MapEvent E)) : Prop :=
  ∀ before e after, es = before ++ e :: after → P before e

theorem throughout_nil (P : List (MapEvent E) → MapEvent E → Prop) : Throughout P [] := by
  intro before e after h
  simp at h

theorem throughout_concat {P : List (MapEvent E) → MapEvent E → Prop} {es : List (MapEvent E)}
    {e : MapEvent E} : Throughout P (es ++ [e]) ↔ Throughout P es ∧ P es e := by
  constructor
  · intro h
    refine ⟨fun before d after hd => h before d (after ++ [e]) (by simp [hd]), h es e [] rfl⟩
  · rintro ⟨h, hlast⟩ before d after hd
    rcases List.eq_nil_or_concat' after with rfl | ⟨after, e', rfl⟩
    · obtain ⟨rfl, hed⟩ := List.append_inj' hd rfl
      obtain rfl := List.singleton_inj.mp hed
      exact hlast
    · rw [← List.cons_append, ← List.append_assoc] at hd
      exact h before d after (List.append_inj' hd rfl).1

/-- The wrapper takes the address of an event as an `intptr_t`. -/
def MapEvent.signed (t : Target) : MapEvent E → MapEvent E
  | .map start size event => .map (t.intptr start) size event
  | .unmap start size => .unmap (t.intptr start) size

def signedRun (t : Target) (es : List (MapEvent E)) : Option (Online E) :=
  online t (es.map (MapEvent.signed t))

theorem signedRun_concat (t : Target) (es : List (MapEvent E)) (e : MapEvent E) :
    signedRun t (es ++ [e]) = (signedRun t es).bind fun s => s.step t (e.signed t) := by
  rw [signedRun, List.map_append, List.map_singleton, online_concat, signedRun]

/-- A range of the unsigned address space, and a mapped range is disjoint from what
is mapped at that point. -/
def Unsigned (t : Target) (before : List (MapEvent E)) (e : MapEvent E) : Prop :=
  InAddressSpace t e.start e.size ∧ (e.tag.isSome → ∀ x, e.Covers x → mapped before x = none)

/-- The erasure of a step is valid, and the step adds or removes exactly the range. -/
def StepsRight (t : Target) (s : Online E) (e : MapEvent E) : Prop :=
  ∃ s', s.step t (e.signed t) = some s' ∧ ∀ x, x ∈ s'.map.ownedAddresses t ↔
    if e.Covers x then e.tag ≠ none else x ∈ s.map.ownedAddresses t

/-- Mappings are always managed. -/
def ManagedBy (t : Target) (s : Online E) : MapEvent E → Prop
  | .map _ _ _ => True
  | .unmap start size => s.map.Manages t start size

def RightRun (t : Target) (es : List (MapEvent E)) : Prop :=
  Throughout (fun before e => ∃ s, signedRun t before = some s ∧ StepsRight t s e) es

/-- The condition on a run: the map before each step manages it. -/
def ManagedRun (t : Target) (es : List (MapEvent E)) : Prop :=
  Throughout (fun before e => ∀ s, signedRun t before = some s → ManagedBy t s e) es

variable {t : Target} {es : List (MapEvent E)} {s : Online E} {e : MapEvent E}

structure OwnsMapped (t : Target) (es : List (MapEvent E)) (s : Online E) : Prop where
  circular : s.map.Circular t
  owned : ∀ x, x ∈ s.map.ownedAddresses t ↔ mapped es x ≠ none

theorem ownsMapped_init : OwnsMapped t ([] : List (MapEvent E)) {} :=
  ⟨circular_empty, fun x => by simp [mem_ownedAddresses, mapped, MmapCounter.MemoryMap.empty]⟩

theorem mapped_iff {start x : ℤ} {size : ℕ} {event : E} {before : Prop} :
    (if (MapEvent.map start size event).Covers x then
      (MapEvent.map start size event).tag ≠ none else before) ↔
      before ∨ (start ≤ x ∧ x < start + size) := by
  simp only [MapEvent.Covers, MapEvent.start, MapEvent.size, MapEvent.tag]
  split_ifs with hin <;> simp [hin]

theorem unmapped_iff {start x : ℤ} {size : ℕ} {before : Prop} :
    (if (MapEvent.unmap start size : MapEvent E).Covers x then
      (MapEvent.unmap start size : MapEvent E).tag ≠ none else before) ↔
      before ∧ ¬ (start ≤ x ∧ x < start + size) := by
  simp only [MapEvent.Covers, MapEvent.start, MapEvent.size, MapEvent.tag]
  split_ifs with hin <;> simp [hin]

theorem StepsRight.unmaps {start : ℤ} {size : ℕ} (h : StepsRight t s (.unmap start size)) :
    ∃ m', s.map.Unmaps t start size m' := by
  obtain ⟨s', hstep, howned⟩ := h
  obtain ⟨⟨known, m'⟩, hunmap, rfl⟩ := Option.map_eq_some_iff.mp hstep
  exact ⟨m', ⟨known, hunmap⟩, fun x => (howned x).trans unmapped_iff⟩

theorem OwnsMapped.managedBy (h : OwnsMapped t es s) (hok : Unsigned t es e)
    (hright : StepsRight t s e) : ManagedBy t s e := by
  cases e with
  | map start size event => trivial
  | unmap start size => exact (h.circular.unmaps_iff hok.1).mp hright.unmaps

theorem OwnsMapped.exists_step (h : OwnsMapped t es s) (hok : Unsigned t es e)
    (hmanaged : ManagedBy t s e) : ∃ s', s.step t (e.signed t) = some s' ∧ s'.map.Circular t ∧
      ∀ x, x ∈ s'.map.ownedAddresses t ↔
        if e.Covers x then e.tag ≠ none else x ∈ s.map.ownedAddresses t := by
  obtain ⟨hrange, hfree⟩ := hok
  cases e with
  | map start size event =>
      have hunowned : ∀ x, start ≤ x → x < start + size → x ∉ s.map.ownedAddresses t := by
        intro x hlo hhi
        rw [h.owned, not_not]
        exact hfree rfl x ⟨hlo, hhi⟩
      obtain ⟨hcircular, howned⟩ := h.circular.registerMap hrange hunowned event
      exact ⟨_, rfl, hcircular, fun x => (howned x).trans mapped_iff.symm⟩
  | unmap start size =>
      obtain ⟨m', ⟨⟨known, hunmap⟩, howned⟩, hcircular⟩ := h.circular.unmaps hrange hmanaged
      exact ⟨_, congrArg (Option.map _) hunmap, hcircular,
        fun x => (howned x).trans unmapped_iff.symm⟩

theorem OwnsMapped.stepsRight (h : OwnsMapped t es s) (hok : Unsigned t es e)
    (hmanaged : ManagedBy t s e) : StepsRight t s e := by
  obtain ⟨s', hstep, -, howned⟩ := h.exists_step hok hmanaged
  exact ⟨s', hstep, howned⟩

theorem OwnsMapped.concat (h : OwnsMapped t es s) (hok : Unsigned t es e)
    (hmanaged : ManagedBy t s e) :
    ∃ s', s.step t (e.signed t) = some s' ∧ OwnsMapped t (es ++ [e]) s' := by
  obtain ⟨s', hstep, hcircular, howned⟩ := h.exists_step hok hmanaged
  refine ⟨s', hstep, hcircular, fun x => (howned x).trans ?_⟩
  rw [mapped_concat]
  split_ifs
  · rfl
  · exact h.owned x

/-- While every step is managed, the owned addresses are the mapped ones. -/
theorem ManagedRun.ownsMapped (hmanaged : ManagedRun t es) (hes : Throughout (Unsigned t) es) :
    ∃ s, signedRun t es = some s ∧ OwnsMapped t es s := by
  induction es using List.reverseRecOn with
  | nil => exact ⟨{}, rfl, ownsMapped_init⟩
  | append_singleton es e ih =>
      obtain ⟨hes, hok⟩ := throughout_concat.mp hes
      obtain ⟨hbefore, hlast⟩ := throughout_concat.mp hmanaged
      obtain ⟨s, hrun, howns⟩ := ih hbefore hes
      obtain ⟨s', hstep, howns'⟩ := howns.concat hok (hlast s hrun)
      exact ⟨s', by rw [signedRun_concat, hrun, Option.bind_some, hstep], howns'⟩

/-- Every step of a run is right exactly if every unmapping is managed by the map
before it. -/
theorem rightRun_iff_managedRun (es : List (MapEvent E)) (hes : Throughout (Unsigned t) es) :
    RightRun t es ↔ ManagedRun t es := by
  induction es using List.reverseRecOn with
  | nil => exact iff_of_true (throughout_nil _) (throughout_nil _)
  | append_singleton es e ih =>
      obtain ⟨hes, hok⟩ := throughout_concat.mp hes
      refine (throughout_concat.trans ?_).trans throughout_concat.symm
      refine (and_congr_left fun _ => ih hes).trans (and_congr_right fun hmanaged => ?_)
      obtain ⟨s, hrun, howns⟩ := ManagedRun.ownsMapped hmanaged hes
      simp only [hrun, Option.some.injEq, exists_eq_left', forall_eq']
      exact ⟨howns.managedBy hok, howns.stepsRight hok⟩

/-- A page far below the boundary, and a range that reaches two pages around it. -/
def crossingMaps : List (MapEvent ℕ) := [.map 0x10000 0x1000 0, .map 0x7ffff000 0x2000 1]

theorem unsigned_crossingMaps : Throughout (Unsigned .ilp32) crossingMaps := by
  have hlow : Unsigned .ilp32 [] (.map 0x10000 0x1000 0) :=
    ⟨⟨by decide, by decide, by decide, by decide⟩, fun _ _ _ => rfl⟩
  have hcrossing : Unsigned .ilp32 [.map 0x10000 0x1000 0] (.map 0x7ffff000 0x2000 1) := by
    refine ⟨⟨by decide, by decide, by decide, by decide⟩, fun _ x hx => ?_⟩
    simp only [MapEvent.Covers, MapEvent.start, MapEvent.size] at hx
    have hout : ¬ (MapEvent.map 0x10000 0x1000 0).Covers x := by
      simp only [MapEvent.Covers, MapEvent.start, MapEvent.size]
      omega
    simp [mapped, hout]
  exact throughout_concat.mpr ⟨throughout_concat.mpr ⟨throughout_nil _, hlow⟩, hcrossing⟩

theorem unsigned_unmap_crossingMaps {start : ℤ} {size : ℕ} (h : InAddressSpace .ilp32 start size) :
    Throughout (Unsigned .ilp32) (crossingMaps ++ [.unmap start size]) := by
  refine throughout_concat.mpr ⟨unsigned_crossingMaps, h, fun hsome => ?_⟩
  simp [MapEvent.tag] at hsome

/-- The page far below the boundary is unmapped right. -/
theorem rightRun_unmap_below : RightRun .ilp32 (crossingMaps ++ [.unmap 0x10000 0x1000]) := by
  have hrange : InAddressSpace .ilp32 0x10000 0x1000 :=
    ⟨by decide, by decide, by decide, by decide⟩
  refine (rightRun_iff_managedRun _ (unsigned_unmap_crossingMaps hrange)).mpr ?_
  have hfirst : ManagedRun .ilp32 ([] ++ [MapEvent.map 0x10000 0x1000 0]) :=
    throughout_concat.mpr ⟨throughout_nil _, fun _ _ => trivial⟩
  have hmaps : ManagedRun .ilp32 ([MapEvent.map 0x10000 0x1000 0] ++ [.map 0x7ffff000 0x2000 1]) :=
    throughout_concat.mpr ⟨hfirst, fun _ _ => trivial⟩
  refine throughout_concat.mpr ⟨hmaps, fun s hs => ?_⟩
  obtain rfl := Option.some.inj hs
  exact .inr ⟨by decide, by decide⟩

/-- The end of the range that reaches the boundary is negative as an `intptr_t`, so
the erasure starts behind its end. -/
theorem not_rightRun_unmap_crossing : ¬ ∀ es : List (MapEvent ℕ),
    Throughout (Unsigned .ilp32) es → RightRun .ilp32 es := by
  intro h
  have hrange : InAddressSpace .ilp32 0x7ffff000 0x2000 :=
    ⟨by decide, by decide, by decide, by decide⟩
  obtain ⟨s, hs, s', hstep, -⟩ :=
    (throughout_concat.mp (h _ (unsigned_unmap_crossingMaps hrange))).2
  have hrun := signedRun_concat .ilp32 crossingMaps (.unmap 0x7ffff000 0x2000)
  rw [hs, Option.bind_some, hstep] at hrun
  have hnone : (signedRun .ilp32 (crossingMaps ++ [.unmap 0x7ffff000 0x2000])).isNone := by decide
  simp [hrun] at hnone

-- the upper page of a slice that reaches the boundary is not split off, and stays owned
example : (signedRun .ilp32 [.map 0x7ffff000 0x2000 0, .unmap 0x80000000 0x1000]).map
    (fun s => s.map.slices.entries.map fun e => (e.2.low .ilp32, e.2.high .ilp32)) =
      some [(0x7ffff000, 0x80001000)] := by decide

end MapAgreement

end AllocCounter
