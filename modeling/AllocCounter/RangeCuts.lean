import AllocCounter.Extents
import Mathlib.Data.List.Induction

/-!
# Cutting out several ranges

Cutting ranges out of a tiled list one after the other leaves of each extent
pieces with gaps between them. Such pieces are determined by the points that they
cover, so the order of the cuts does not matter, and neither does how the points
are divided into ranges.
-/
namespace AllocCounter.Extent

variable {K A : Type*} [LinearOrder K] {e : Extent K A} {l r : List (Extent K A)}

/-- Nonempty members, each ending strictly before the later ones start. -/
def Apart (l : List (Extent K A)) : Prop :=
  (∀ p ∈ l, p.start < p.stop) ∧ l.Pairwise fun p q => p.stop < q.start

/-- Some member covers the point. -/
def Covered (l : List (Extent K A)) (x : K) : Prop := ∃ p ∈ l, p.Covers x

theorem apart_cons : Apart (e :: l) ↔ e.start < e.stop ∧ (∀ p ∈ l, e.stop < p.start) ∧ Apart l := by
  simp only [Apart, List.mem_cons, forall_eq_or_imp, List.pairwise_cons]
  tauto

theorem covered_cons {x : K} : Covered (e :: l) x ↔ e.Covers x ∨ Covered l x := by
  simp [Covered]

/-- The first extent that is apart from the others starts with the first covered point. -/
theorem Apart.start_le (h : Apart (e :: l)) {x : K} (hx : Covered (e :: l) x) : e.start ≤ x := by
  obtain ⟨hne, hafter, -⟩ := apart_cons.mp h
  cases covered_cons.mp hx with
  | inl he => exact he.1
  | inr hl =>
      obtain ⟨p, hp, hpx⟩ := hl
      exact (hne.trans (hafter p hp)).le.trans hpx.1

/-- What the later extents cover lies behind the first one. -/
theorem Apart.covered_tail (h : Apart (e :: l)) {x : K} :
    Covered l x ↔ Covered (e :: l) x ∧ e.stop ≤ x := by
  obtain ⟨-, hafter, -⟩ := apart_cons.mp h
  constructor
  · intro hx
    obtain ⟨p, hp, hpx⟩ := hx
    exact ⟨covered_cons.mpr (.inr ⟨p, hp, hpx⟩), (hafter p hp).le.trans hpx.1⟩
  · intro ⟨hx, hstop⟩
    exact (covered_cons.mp hx).resolve_left fun he => absurd he.2 (not_lt.mpr hstop)

/-- An extent reaches as far as points after its start are covered. -/
theorem Apart.stop_le {f : Extent K A} (h : Apart (f :: r))
    (hstart : e.start = f.start) (hcovered : ∀ x, Covered (e :: l) x → Covered (f :: r) x) :
    e.stop ≤ f.stop := by
  by_contra hlt
  rw [not_le] at hlt
  obtain ⟨hne, hafter, -⟩ := apart_cons.mp h
  have hx := hcovered f.stop (covered_cons.mpr (.inl ⟨hstart ▸ hne.le, hlt⟩))
  -- the point just behind the first extent is not in a later one
  obtain ⟨p, hp, hpx⟩ := h.covered_tail.mpr ⟨hx, le_rfl⟩
  exact absurd hpx.1 (not_le.mpr (hafter p hp))

theorem Apart.eq_of_covered (hl : Apart l) (hr : Apart r) {a : A}
    (hla : ∀ p ∈ l, p.owner = a) (hra : ∀ p ∈ r, p.owner = a)
    (h : ∀ x, Covered l x ↔ Covered r x) : l = r := by
  induction l generalizing r with
  | nil =>
      cases r with
      | nil => rfl
      | cons f r =>
          obtain ⟨p, hp, -⟩ := (h f.start).mpr ⟨f, List.mem_cons_self, le_rfl,
            (apart_cons.mp hr).1⟩
          cases hp
  | cons e l ih =>
      have hestart : Covered (e :: l) e.start :=
        ⟨e, List.mem_cons_self, le_rfl, (apart_cons.mp hl).1⟩
      cases r with
      | nil =>
          obtain ⟨p, hp, -⟩ := (h e.start).mp hestart
          cases hp
      | cons f r =>
          have hfstart : Covered (f :: r) f.start :=
            ⟨f, List.mem_cons_self, le_rfl, (apart_cons.mp hr).1⟩
          have hstart : e.start = f.start :=
            le_antisymm (hl.start_le ((h _).mpr hfstart)) (hr.start_le ((h _).mp hestart))
          have hstop : e.stop = f.stop :=
            le_antisymm (hr.stop_le hstart fun x => (h x).mp)
              (hl.stop_le hstart.symm fun x => (h x).mpr)
          have howner : e.owner = f.owner :=
            (hla e List.mem_cons_self).trans (hra f List.mem_cons_self).symm
          have htail : l = r := by
            refine ih (apart_cons.mp hl).2.2 (apart_cons.mp hr).2.2
              (fun p hp => hla p (List.mem_cons_of_mem _ hp))
              (fun p hp => hra p (List.mem_cons_of_mem _ hp)) fun x => ?_
            rw [hl.covered_tail, hr.covered_tail, h, hstop]
          obtain ⟨start, stop, owner⟩ := e
          obtain ⟨start', stop', owner'⟩ := f
          dsimp only at hstart hstop howner
          rw [hstart, hstop, howner, htail]

/-- What remains of a list outside every range. -/
def cuts (ranges : List (K × K)) (l : List (Extent K A)) : List (Extent K A) :=
  ranges.foldl (fun l range => cut range.1 range.2 l) l

/-- The point is in one of the ranges. -/
def InRanges (ranges : List (K × K)) (x : K) : Prop := ∃ r ∈ ranges, r.1 ≤ x ∧ x < r.2

theorem cuts_concat (ranges : List (K × K)) (range : K × K) (l : List (Extent K A)) :
    cuts (ranges ++ [range]) l = cut range.1 range.2 (cuts ranges l) := by
  rw [cuts, List.foldl_append]
  rfl

/-- Each extent is cut for itself. -/
theorem cuts_eq_flatMap (ranges : List (K × K)) (l : List (Extent K A)) :
    cuts ranges l = l.flatMap fun e => cuts ranges [e] := by
  induction ranges using List.reverseRecOn with
  | nil => exact (List.flatMap_singleton' l).symm
  | append_singleton ranges range ih =>
      simp only [cuts_concat]
      rw [ih, cut, List.flatMap_assoc]
      rfl

/-- The parts of one extent that lie outside some points, with gaps between them. -/
structure Remains (S : K → Prop) (e : Extent K A) (l : List (Extent K A)) : Prop where
  apart : Apart l
  owner : ∀ p ∈ l, p.owner = e.owner
  covered : ∀ x, Covered l x ↔ e.Covers x ∧ ¬ S x

theorem Remains.eq {S : K → Prop} (hl : Remains S e l) (hr : Remains S e r) : l = r :=
  hl.apart.eq_of_covered hr.apart hl.owner hr.owner fun x => by rw [hl.covered, hr.covered]

theorem mem_outside_bounds {lo hi : K} {p q : Extent K A} (hq : q ∈ p.outside lo hi) :
    p.start ≤ q.start ∧ q.stop ≤ p.stop ∧ q.start < q.stop ∧ q.owner = p.owner := by
  cases List.mem_append.mp hq with
  | inl hq =>
      obtain ⟨hne, rfl⟩ := mem_before.mp hq
      exact ⟨le_rfl, min_le_left _ _, hne, rfl⟩
  | inr hq =>
      obtain ⟨hne, rfl⟩ := mem_after.mp hq
      exact ⟨le_max_left _ _, le_rfl, hne, rfl⟩

/-- A cut of a nonempty range leaves a gap. -/
theorem apart_outside {lo hi : K} (h : lo < hi) (p : Extent K A) : Apart (p.outside lo hi) := by
  refine ⟨fun q hq => (mem_outside_bounds hq).2.2.1, List.pairwise_append.mpr ⟨?_, ?_, ?_⟩⟩
  · unfold before
    split_ifs <;> simp
  · unfold after
    split_ifs <;> simp
  · intro q hq q' hq'
    obtain ⟨-, rfl⟩ := mem_before.mp hq
    obtain ⟨-, rfl⟩ := mem_after.mp hq'
    exact ((min_le_right _ _).trans_lt h).trans_le (le_max_right _ _)

theorem Apart.cut (hl : Apart l) {lo hi : K} (h : lo < hi) : Apart (cut lo hi l) := by
  constructor
  · intro q hq
    obtain ⟨p, -, hqp⟩ := List.mem_flatMap.mp hq
    exact (mem_outside_bounds hqp).2.2.1
  · rw [Extent.cut, List.pairwise_flatMap]
    refine ⟨fun p _ => (apart_outside h p).2, hl.2.imp fun hpq q hq q' hq' => ?_⟩
    exact ((mem_outside_bounds hq).2.1.trans_lt hpq).trans_le (mem_outside_bounds hq').1

theorem covered_cut (lo hi : K) (l : List (Extent K A)) (x : K) :
    Covered (cut lo hi l) x ↔ Covered l x ∧ ¬ (lo ≤ x ∧ x < hi) := by
  have hpiece : Covered (cut lo hi l) x ↔ ∃ p ∈ l, ∃ q ∈ p.outside lo hi, q.Covers x := by
    simp only [Covered, cut, List.mem_flatMap]
    tauto
  rw [hpiece]
  simp only [covers_outside, Covered, ← and_assoc, exists_and_right]

theorem remains_cuts {ranges : List (K × K)} (hranges : ∀ r ∈ ranges, r.1 < r.2)
    (he : e.start < e.stop) : Remains (InRanges ranges) e (cuts ranges [e]) := by
  induction ranges using List.reverseRecOn with
  | nil =>
      refine ⟨⟨by simpa [cuts] using he, by simp [cuts]⟩, by simp [cuts], fun x => ?_⟩
      simp [cuts, Covered, InRanges]
  | append_singleton ranges range ih =>
      have h := ih fun r hr => hranges r (List.mem_append_left _ hr)
      have hrange := hranges range (List.mem_append_right _ List.mem_cons_self)
      rw [cuts_concat]
      refine ⟨h.apart.cut hrange, fun q hq => ?_, fun x => ?_⟩
      · obtain ⟨p, hp, hqp⟩ := List.mem_flatMap.mp hq
        exact (mem_outside_bounds hqp).2.2.2.trans (h.owner p hp)
      · have hin : InRanges (ranges ++ [range]) x ↔
            InRanges ranges x ∨ range.1 ≤ x ∧ x < range.2 := by
          simp [InRanges, or_and_right, exists_or]
        rw [covered_cut, h.covered, hin]
        tauto

/-- Cuts of the same points leave the same extents. -/
theorem cuts_eq_of_points {ranges ranges' : List (K × K)} (hranges : ∀ r ∈ ranges, r.1 < r.2)
    (hranges' : ∀ r ∈ ranges', r.1 < r.2)
    (hpoints : ∀ x, InRanges ranges x ↔ InRanges ranges' x) (hl : ∀ e ∈ l, e.start < e.stop) :
    cuts ranges l = cuts ranges' l := by
  rw [cuts_eq_flatMap, cuts_eq_flatMap ranges']
  refine List.flatMap_congr fun e he => ?_
  have hsame : InRanges ranges = InRanges ranges' := funext fun x => propext (hpoints x)
  exact (remains_cuts hranges (hl e he)).eq (hsame ▸ remains_cuts hranges' (hl e he))

end AllocCounter.Extent
