import AllocCounter.MemoryMap
import AllocCounter.OfflineMemoryMap

/-!
# The wrapper's map and the parser's map agree

One sequence of map and unmap events drives both memory maps. Each map event
carries a tag of any type, which both maps store with the slices it owns; with
tags that tell the events apart, equal tags mean the same owning event. The
online side also collects the events that the wrapper logs: every map, and the
unmaps for which `registerUnmap` returned true.
-/
namespace AllocCounter.MapAgreement

variable {E : Type*}

inductive MapEvent (E : Type*) where
  | map (start : ℤ) (size : ℕ) (event : E)
  | unmap (start : ℤ) (size : ℕ)
deriving DecidableEq, Repr

namespace MapEvent

def start : MapEvent E → ℤ
  | .map start _ _ => start
  | .unmap start _ => start

def size : MapEvent E → ℕ
  | .map _ size _ => size
  | .unmap _ size => size

def Covers (e : MapEvent E) (x : ℤ) : Prop := e.start ≤ x ∧ x < e.start + e.size

instance (e : MapEvent E) (x : ℤ) : Decidable (e.Covers x) := inferInstanceAs (Decidable (_ ∧ _))

def tag : MapEvent E → Option E
  | .map _ _ event => some event
  | .unmap _ _ => none

end MapEvent

/-- What is mapped at an address after a sequence of events. -/
def mapped (es : List (MapEvent E)) (x : ℤ) : Option E :=
  (es.reverse.find? fun e => e.Covers x).bind MapEvent.tag

theorem mapped_concat (es : List (MapEvent E)) (e : MapEvent E) (x : ℤ) :
    mapped (es ++ [e]) x = if e.Covers x then e.tag else mapped es x := by
  unfold mapped
  rw [List.reverse_append]
  split_ifs with h <;> simp [h]

structure Online (E : Type*) where
  map : MmapCounter.MemoryMap E := .empty
  answers : List Bool := []
  logged : List (MapEvent E) := []

def Online.step (t : Target) (s : Online E) : MapEvent E → Option (Online E)
  | .map start size event =>
      some ⟨s.map.registerMap ⟨event, start, size⟩, s.answers, s.logged ++ [.map start size event]⟩
  | .unmap start size =>
      (s.map.registerUnmap t start size).map fun r =>
        ⟨r.2, s.answers ++ [r.1], if r.1 then s.logged ++ [.unmap start size] else s.logged⟩

def online (t : Target) (es : List (MapEvent E)) : Option (Online E) := es.foldlM (Online.step t) {}

/-- `erased` collects the `erased_slices` of every unmap. -/
structure Offline (E : Type*) where
  map : ParseMmapLog.MemoryMap E := .empty
  erased : List (List (ParseMmapLog.MemorySlice E)) := []

def Offline.step (s : Offline E) : MapEvent E → Option (Offline E)
  | .map start size event =>
      (s.map.registerMap ⟨start, size, event⟩).map fun r => ⟨r.2.2, s.erased⟩
  | .unmap start size =>
      (s.map.registerUnmap start size).map fun r => ⟨r.2, s.erased ++ [r.1]⟩

def offline (es : List (MapEvent E)) : Option (Offline E) := es.foldlM Offline.step {}

theorem online_concat (t : Target) (es : List (MapEvent E)) (e : MapEvent E) :
    online t (es ++ [e]) = (online t es).bind fun s => s.step t e := by
  simp only [online, List.foldlM_append, List.foldlM_cons, List.foldlM_nil, bind_pure]
  rfl

theorem offline_concat (es : List (MapEvent E)) (e : MapEvent E) :
    offline (es ++ [e]) = (offline es).bind fun s => s.step e := by
  simp only [offline, List.foldlM_append, List.foldlM_cons, List.foldlM_nil, bind_pure]
  rfl

/-- Same keys, starts, sizes and owning events. -/
def SameSlices (m : MmapCounter.MemoryMap E) (n : ParseMmapLog.MemoryMap E) : Prop :=
  m.slices.entries.map (fun e =>
      (e.1, e.2.start, (e.2.size : ℤ), e.2.allocation.target.stackTrace)) =
    n.dict.entries.map fun e => (e.1, e.2.start, e.2.size, e.2.allocation.stackTraceId)

/-- Positive sizes, no overflow, and a mapped range is disjoint from what is
mapped at that point. -/
def Admissible (t : Target) (before : List (MapEvent E)) (e : MapEvent E) : Prop :=
  0 < e.size ∧ MmapCounter.Representable t e.start e.size ∧
    (e.tag.isSome → ∀ x, e.Covers x → mapped before x = none)

/-- The extents of either map, owned by events. -/
def onlineView (m : MmapCounter.MemoryMap E) : List (Extent ℤ E) :=
  m.extents.map (Extent.mapOwner fun p => p.target.stackTrace)

def offlineView (m : ParseMmapLog.MemoryMap E) : List (Extent ℤ E) :=
  m.extents.map (Extent.mapOwner fun a => a.stackTraceId)

structure Agree (t : Target) (es : List (MapEvent E)) (m : MmapCounter.MemoryMap E)
    (n : ParseMmapLog.MemoryMap E) : Prop where
  onlineWF : m.WellFormed t
  offlineWF : n.WellFormed
  view : onlineView m = offlineView n
  owner : ∀ x, (n.owner x).map (fun a => a.stackTraceId) = mapped es x

variable {t : Target} {es : List (MapEvent E)} {m : MmapCounter.MemoryMap E}
  {n : ParseMmapLog.MemoryMap E}

theorem Agree.sameSlices (h : Agree t es m n) : SameSlices m n := by
  have hon : m.slices.entries.map (fun e =>
      (e.1, e.2.start, (e.2.size : ℤ), e.2.allocation.target.stackTrace)) =
      (onlineView m).map fun e => (e.start, e.start, e.stop - e.start, e.owner) := by
    rw [onlineView, MmapCounter.MemoryMap.extents, SortedMap.extents, List.map_map, List.map_map]
    refine List.map_congr_left fun e he => ?_
    simp [Extent.mapOwner, MmapCounter.MemorySlice.extent, h.onlineWF.key_eq e he]
  have hoff : n.dict.entries.map (fun e =>
      (e.1, e.2.start, e.2.size, e.2.allocation.stackTraceId)) =
      (offlineView n).map fun e => (e.start, e.start, e.stop - e.start, e.owner) := by
    rw [offlineView, ParseMmapLog.MemoryMap.extents, SortedMap.extents, List.map_map, List.map_map]
    refine List.map_congr_left fun e he => ?_
    simp [Extent.mapOwner, ParseMmapLog.MemorySlice.extent, ParseMmapLog.MemorySlice.stop,
      h.offlineWF.key_eq e he]
  rw [SameSlices, hon, hoff, h.view]

theorem Agree.cutOff_iff (h : Agree t es m n) (lo hi : ℤ) :
    Extent.cutOff lo hi m.extents = [] ↔ Extent.cutOff lo hi n.extents = [] := by
  have hview := congrArg (Extent.cutOff lo hi) h.view
  rw [onlineView, offlineView, Extent.cutOff_map, Extent.cutOff_map] at hview
  rw [← List.map_eq_nil_iff (f := Extent.mapOwner fun p => p.target.stackTrace), hview,
    List.map_eq_nil_iff]

/-- A range without mapped addresses meets no slice of either map. -/
theorem Agree.free (h : Agree t es m n) (lo hi : ℤ)
    (hfree : ∀ x, lo ≤ x → x < hi → mapped es x = none) :
    (∀ x, lo ≤ x → x < hi → m.owner x = none) ∧ Extent.cutOff lo hi n.extents = [] := by
  have hn : ∀ x, lo ≤ x → x < hi → n.owner x = none := by
    intro x hlo hhi
    have := h.owner x
    rwa [hfree x hlo hhi, Option.map_eq_none_iff] at this
  refine ⟨?_, h.offlineWF.tiled.cutOff_eq_nil.mpr hn⟩
  intro x hlo hhi
  have hview := congrArg (fun l => Extent.ownerOf l x) h.view
  simp only [onlineView, offlineView, Extent.ownerOf_map] at hview
  have hx := hn x hlo hhi
  rw [ParseMmapLog.MemoryMap.owner] at hx
  rwa [hx, Option.map_none, Option.map_eq_none_iff] at hview

theorem Agree.map (h : Agree t es m n) {start : ℤ} {size : ℕ} {event : E}
    (hok : Admissible t es (.map start size event)) :
    ∃ erased n', n.registerMap ⟨start, size, event⟩ = some (⟨start, size, ⟨start, size, event⟩⟩,
        erased, n') ∧
      Agree t (es ++ [.map start size event]) (m.registerMap ⟨event, start, size⟩) n' := by
  obtain ⟨hpos, hrange, hfree⟩ := hok
  have hsize : (0 : ℤ) < size := by exact_mod_cast hpos
  obtain ⟨hm, hnone⟩ := h.free start (start + size)
    fun x hlo hhi => hfree rfl x ⟨hlo, hhi⟩
  obtain ⟨hwf, hext, -⟩ := MmapCounter.MemoryMap.registerMap_spec h.onlineWF
    ⟨event, start, size⟩ hpos hrange hm
  obtain ⟨erased, n', hreg, hwf', hext', howner', -⟩ :=
    ParseMmapLog.MemoryMap.registerMap_spec h.offlineWF ⟨start, size, event⟩ hsize
  refine ⟨erased, n', hreg, hwf, hwf', ?_, ?_⟩
  · rw [h.offlineWF.tiled.cut_of_disjoint (by simpa using hsize) hnone] at hext'
    have hview := h.view
    rw [onlineView, offlineView] at hview ⊢
    rw [hext, hext', ← Extent.insert_map, ← Extent.insert_map, hview]
    rfl
  · intro x
    rw [howner', mapped_concat, ← h.owner, apply_ite (Option.map _)]
    rfl

theorem Agree.unmap (h : Agree t es m n) {start : ℤ} {size : ℕ}
    (hok : Admissible t es (.unmap start size : MapEvent E)) :
    ∃ b m' erased n', m.registerUnmap t start size = some (b, m') ∧
      n.registerUnmap start size = some (erased, n') ∧ b = !erased.isEmpty ∧
      (erased = [] → n' = n) ∧ Agree t (es ++ [.unmap start size]) m' n' := by
  obtain ⟨hpos, hrange, -⟩ := hok
  have hsize : (0 : ℤ) < size := by exact_mod_cast hpos
  obtain ⟨b, m', hreg, hwf, -, hext, hb⟩ :=
    MmapCounter.MemoryMap.registerUnmap_spec h.onlineWF start size hpos hrange
  obtain ⟨erased, n', hreg', hwf', hext', herased⟩ :=
    ParseMmapLog.MemoryMap.registerUnmap_spec h.offlineWF start hsize
  have hempty : Extent.cutOff start (start + size) n.extents = [] ↔ erased = [] := by
    rw [← herased, List.map_eq_nil_iff]
  refine ⟨b, m', erased, n', hreg, hreg', ?_, ?_, hwf, hwf', ?_, ?_⟩
  · rw [Bool.eq_iff_iff, hb, ne_eq, h.cutOff_iff, hempty]
    simp
  · intro hnil
    refine hwf'.eq_of_extents h.offlineWF ?_
    rw [hext', h.offlineWF.tiled.cut_of_disjoint (by omega) (hempty.mpr hnil)]
  · have hview := congrArg (Extent.cut start (start + size)) h.view
    rwa [onlineView, offlineView, Extent.cut_map, Extent.cut_map, ← hext, ← hext'] at hview
  · intro x
    rw [mapped_concat, ← h.owner, ParseMmapLog.MemoryMap.owner, hext',
      h.offlineWF.tiled.ownerOf_cut (by omega), apply_ite (Option.map _)]
    rfl

theorem Agree.init : Agree t ([] : List (MapEvent E)) .empty .empty :=
  ⟨MmapCounter.MemoryMap.wellFormed_empty, ParseMmapLog.MemoryMap.wellFormed_empty, rfl,
    fun _ => rfl⟩

/-- What a common prefix of events leaves on both sides. Replaying the logged
events gives the same parser map, and every replayed unmap erases something. -/
structure Simulates (t : Target) (es : List (MapEvent E)) (on : Online E) (off : Offline E) :
    Prop where
  agree : Agree t es on.map off.map
  answers : on.answers = off.erased.map fun l => !l.isEmpty
  replay : ∃ off', offline on.logged = some off' ∧ off'.map = off.map ∧ ∀ l ∈ off'.erased, l ≠ []

theorem simulates_step {on : Online E} {off : Offline E} (h : Simulates t es on off)
    {e : MapEvent E} (hok : Admissible t es e) :
    ∃ on' off', on.step t e = some on' ∧ off.step e = some off' ∧
      Simulates t (es ++ [e]) on' off' := by
  obtain ⟨off₀, hlog, hmap, hne⟩ := h.replay
  cases e with
  | map start size event =>
      obtain ⟨erased, n', hreg, hagree⟩ := h.agree.map hok
      refine ⟨_, ⟨n', off.erased⟩, rfl, by simp [Offline.step, hreg], hagree, h.answers, ?_⟩
      exact ⟨⟨n', off₀.erased⟩, by simp [offline_concat, hlog, Offline.step, hmap, hreg], rfl, hne⟩
  | unmap start size =>
      obtain ⟨b, m', erased, n', hreg, hreg', hb, hsame, hagree⟩ := h.agree.unmap hok
      refine ⟨⟨m', on.answers ++ [b], if b then on.logged ++ [.unmap start size] else on.logged⟩,
        ⟨n', off.erased ++ [erased]⟩, by simp [Online.step, hreg], by simp [Offline.step, hreg'],
        hagree, by simp [h.answers, hb], ?_⟩
      by_cases hnil : erased = []
      · -- the unmap is not logged, and it left the parser map alone
        have hfalse : b = false := by simp [hb, hnil]
        exact ⟨off₀, by simpa [hfalse] using hlog, hmap.trans (hsame hnil).symm, hne⟩
      · have htrue : b = true := by simp [hb, hnil]
        refine ⟨⟨n', off₀.erased ++ [erased]⟩, ?_, rfl, ?_⟩
        · simp [htrue, offline_concat, hlog, Offline.step, hmap, hreg']
        · intro l hl
          rcases List.mem_append.mp hl with hl | hl
          · exact hne l hl
          · exact List.mem_singleton.mp hl ▸ hnil

theorem simulates_run (t : Target) (es : List (MapEvent E))
    (hes : ∀ before e after, es = before ++ e :: after → Admissible t before e) :
    ∃ on off, online t es = some on ∧ offline es = some off ∧ Simulates t es on off := by
  induction es using List.reverseRecOn with
  | nil =>
      exact ⟨{}, {}, rfl, rfl, .init, rfl, {}, rfl, rfl, by simp⟩
  | append_singleton es e ih =>
      obtain ⟨on, off, hon, hoff, h⟩ := ih fun before d after hd =>
        hes before d (after ++ [e]) (by simp [hd])
      obtain ⟨on', off', hon', hoff', h'⟩ := simulates_step h (hes es e [] rfl)
      exact ⟨on', off', by simp [online_concat, hon, hon'], by simp [offline_concat, hoff, hoff'],
        h'⟩

/-- After every admissible sequence of events the two maps are equal slice by
slice, the online answers say which unmaps erased slices offline, and a replay
of the logged events succeeds, erases something at each unmap and ends in the
same map. -/
theorem online_offline_agree (t : Target) (es : List (MapEvent E))
    (hes : ∀ before e after, es = before ++ e :: after → Admissible t before e) :
    ∃ on off replayed, online t es = some on ∧ offline es = some off ∧
      SameSlices on.map off.map ∧ on.answers = off.erased.map (fun l => !l.isEmpty) ∧
      offline on.logged = some replayed ∧ replayed.map = off.map ∧
      ∀ l ∈ replayed.erased, 0 < l.length := by
  obtain ⟨on, off, hon, hoff, h⟩ := simulates_run t es hes
  obtain ⟨replayed, hlog, hmap, hne⟩ := h.replay
  exact ⟨on, off, replayed, hon, hoff, h.agree.sameSlices, h.answers, hlog, hmap,
    fun l hl => List.length_pos_of_ne_nil (hne l hl)⟩

/-- Two pages mapped, a foreign page unmapped, the second page unmapped. -/
theorem online_offline_agree_partial :
    ∃ on off replayed,
      online .lp64 [.map 4096 8192 0, .unmap 16384 4096, .unmap 8192 4096] = some on ∧
      offline [.map 4096 8192 0, .unmap 16384 4096, .unmap 8192 4096] = some off ∧
      SameSlices on.map off.map ∧ on.answers = off.erased.map (fun l => !l.isEmpty) ∧
      offline on.logged = some replayed ∧ replayed.map = off.map ∧
      ∀ l ∈ replayed.erased, 0 < l.length := by
  refine online_offline_agree (E := ℕ) .lp64 _ ?_
  intro before e after h
  have hcases : (before = [] ∧ e = .map 4096 8192 0) ∨ e = .unmap 16384 4096 ∨
      e = .unmap 8192 4096 := by
    rcases before with _ | ⟨_, _ | ⟨_, _ | ⟨_, before⟩⟩⟩ <;> simp_all
  rcases hcases with ⟨rfl, rfl⟩ | rfl | rfl
  · exact ⟨by decide, ⟨by decide, by decide⟩, fun _ _ _ => rfl⟩
  · exact ⟨by decide, ⟨by decide, by decide⟩, fun hsome => by simp [MapEvent.tag] at hsome⟩
  · exact ⟨by decide, ⟨by decide, by decide⟩, fun hsome => by simp [MapEvent.tag] at hsome⟩

end AllocCounter.MapAgreement
