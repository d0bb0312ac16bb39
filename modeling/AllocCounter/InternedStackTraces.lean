import AllocCounter.StackTraces
import AllocCounter.UnorderedMaps

/-!
# Interned stack traces

This is `mmap-counter/interned-stack-trace.h`. A `shared_ptr` to a stack trace is
the number of the object that `make_shared` built, together with the object. The
use counts of the objects are kept by number. The destructor is user-declared, so
a handle that is moved is copied.
-/
namespace AllocCounter.MmapCounter

structure StackTracePointer where
  object : ℕ
  target : StackTrace
deriving DecidableEq, Repr

structure InternedStackTrace where
  stackTrace : StackTracePointer
deriving DecidableEq, Repr

def InternedStackTrace.get (h : InternedStackTrace) : StackTrace := h.stackTrace.target

/-- The static table, and the objects behind the pointers; `made` counts those
built so far. -/
structure InternedStackTraces where
  stackTraces : UnorderedMap UInt64 StackTracePointer := ∅
  useCount : ℕ → ℕ := fun _ => 0
  made : ℕ := 0

namespace InternedStackTraces

variable (s : InternedStackTraces)

def addUse (object : ℕ) : InternedStackTraces :=
  { s with useCount := Function.update s.useCount object (s.useCount object + 1) }

def dropUse (object : ℕ) : InternedStackTraces :=
  { s with useCount := Function.update s.useCount object (s.useCount object - 1) }

/-- The constructor. A new object is used by the handle and by the table. -/
def construct (stackTrace : StackTrace) : InternedStackTrace × InternedStackTraces :=
  match s.stackTraces.lookup stackTrace.hash with
  | some pointer => (⟨pointer⟩, s.addUse pointer.object)
  | none =>
      let pointer : StackTracePointer := ⟨s.made, stackTrace⟩
      (⟨pointer⟩,
        { stackTraces := s.stackTraces.insert stackTrace.hash pointer
          useCount := Function.update s.useCount s.made 2
          made := s.made + 1 })

def copy (h : InternedStackTrace) : InternedStackTraces := s.addUse h.stackTrace.object

/-- `s_stackTraces.erase`. -/
def erase (hash : UInt64) : InternedStackTraces :=
  match s.stackTraces.lookup hash with
  | some pointer => { s with stackTraces := s.stackTraces.erase hash }.dropUse pointer.object
  | none => s

/-- The destructor, then that of its member. A failed assertion is `none`. -/
def destroy (h : InternedStackTrace) : Option InternedStackTraces :=
  let object := h.stackTrace.object
  if s.useCount object < 2 then none
  else if s.useCount object = 2 then
    let s := s.erase h.get.hash
    if s.useCount object = 1 then some (s.dropUse object) else none
  else some (s.dropUse object)

/-- The destructors of several handles, in order. -/
def destroyAll (handles : List InternedStackTrace) : Option InternedStackTraces :=
  handles.foldlM destroy s

variable {s} {s' : InternedStackTraces}

theorem lookup_construct (stackTrace : StackTrace) :
    (s.construct stackTrace).2.stackTraces.lookup stackTrace.hash =
      some (s.construct stackTrace).1.stackTrace := by
  unfold construct
  cases h : s.stackTraces.lookup stackTrace.hash with
  | some pointer => exact h
  | none => exact Finmap.lookup_insert _

/-- The constructor adds at most the new object. -/
theorem of_lookup_construct {stackTrace : StackTrace} {hash : UInt64}
    {pointer : StackTracePointer}
    (h : (s.construct stackTrace).2.stackTraces.lookup hash = some pointer) :
    s.stackTraces.lookup hash = some pointer ∨
      hash = stackTrace.hash ∧ pointer.target = stackTrace := by
  unfold construct at h
  cases hfind : s.stackTraces.lookup stackTrace.hash with
  | some found =>
      rw [hfind] at h
      exact .inl h
  | none =>
      rw [hfind] at h
      dsimp only at h
      rw [UnorderedMap.lookup_insert_eq] at h
      split_ifs at h with hhash
      · exact .inr ⟨hhash, (Option.some.inj h) ▸ rfl⟩
      · exact .inl h

theorem of_lookup_erase {hash hash' : UInt64} {pointer : StackTracePointer}
    (h : (s.erase hash).stackTraces.lookup hash' = some pointer) :
    s.stackTraces.lookup hash' = some pointer := by
  unfold erase at h
  cases hfind : s.stackTraces.lookup hash with
  | none =>
      rw [hfind] at h
      exact h
  | some found =>
      rw [hfind] at h
      dsimp only [dropUse] at h
      rw [UnorderedMap.lookup_erase_eq] at h
      split_ifs at h
      exact h

theorem of_lookup_destroy {handle : InternedStackTrace} (hs' : s.destroy handle = some s')
    {hash : UInt64} {pointer : StackTracePointer}
    (h : s'.stackTraces.lookup hash = some pointer) : s.stackTraces.lookup hash = some pointer := by
  simp only [destroy] at hs'
  split_ifs at hs'
  · rw [← Option.some.inj hs'] at h
    exact of_lookup_erase h
  · rw [← Option.some.inj hs'] at h
    exact h

theorem of_lookup_destroyAll {handles : List InternedStackTrace}
    (hs' : s.destroyAll handles = some s') {hash : UInt64} {pointer : StackTracePointer}
    (h : s'.stackTraces.lookup hash = some pointer) : s.stackTraces.lookup hash = some pointer := by
  induction handles generalizing s with
  | nil => exact Option.some.inj hs' ▸ h
  | cons handle rest ih =>
      obtain ⟨s₁, hs₁, hrest⟩ := Option.bind_eq_some_iff.mp hs'
      exact of_lookup_destroy hs₁ (ih hrest)

/-- The handles that use an object. -/
def uses (handles : List InternedStackTrace) (object : ℕ) : ℕ :=
  handles.countP fun h => h.stackTrace.object = object

/-- With these live handles the table holds exactly their traces, and every use
count is that of the table and of the handles. -/
structure Counted (s : InternedStackTraces) (handles : List InternedStackTrace) : Prop where
  hash_eq : ∀ hash, ∀ p ∈ s.stackTraces.lookup hash, p.target.hash = hash
  object_lt : ∀ hash, ∀ p ∈ s.stackTraces.lookup hash, p.object < s.made
  apart : ∀ hash, ∀ p ∈ s.stackTraces.lookup hash, ∀ hash', ∀ p' ∈ s.stackTraces.lookup hash',
    p.object = p'.object → p = p'
  held : ∀ h ∈ handles, s.stackTraces.lookup h.get.hash = some h.stackTrace
  needed : ∀ hash, ∀ p ∈ s.stackTraces.lookup hash, ∃ h ∈ handles, h.stackTrace = p
  useCount_eq : ∀ hash, ∀ p ∈ s.stackTraces.lookup hash,
    s.useCount p.object = 1 + uses handles p.object

variable {handles handles' : List InternedStackTrace} {h : InternedStackTrace}

theorem uses_cons (object : ℕ) : uses (h :: handles) object =
    uses handles object + if h.stackTrace.object = object then 1 else 0 := by
  simp [uses, List.countP_cons]

theorem counted_empty : Counted {} [] where
  hash_eq := by simp
  object_lt := by simp
  apart := by simp
  held := by simp
  needed := by simp
  useCount_eq := by simp

theorem Counted.perm (hc : s.Counted handles) (hp : handles.Perm handles') :
    s.Counted handles' where
  hash_eq := hc.hash_eq
  object_lt := hc.object_lt
  apart := hc.apart
  held := fun h hh => hc.held h (hp.mem_iff.mpr hh)
  needed := by
    intro hash p hlookup
    obtain ⟨h, hh, heq⟩ := hc.needed hash p hlookup
    exact ⟨h, hp.mem_iff.mp hh, heq⟩
  useCount_eq := by
    intro hash p hlookup
    rw [hc.useCount_eq hash p hlookup, uses, uses, hp.countP_eq]

/-- One more handle on a trace of the table. -/
theorem Counted.addUse (hc : s.Counted handles)
    (hlookup : s.stackTraces.lookup h.get.hash = some h.stackTrace) :
    (s.addUse h.stackTrace.object).Counted (h :: handles) where
  hash_eq := hc.hash_eq
  object_lt := hc.object_lt
  apart := hc.apart
  held := by
    intro h' hh'
    rcases List.mem_cons.mp hh' with rfl | hh'
    · exact hlookup
    · exact hc.held h' hh'
  needed := by
    intro hash p hp
    obtain ⟨h', hh', heq⟩ := hc.needed hash p hp
    exact ⟨h', List.mem_cons_of_mem _ hh', heq⟩
  useCount_eq := by
    intro hash p hp
    have hcount := hc.useCount_eq hash p hp
    rw [uses_cons]
    by_cases hobject : h.stackTrace.object = p.object
    · simp [InternedStackTraces.addUse, hobject, hcount, add_assoc]
    · simp [InternedStackTraces.addUse, hobject, Ne.symm hobject, hcount]

theorem Counted.copy (hc : s.Counted handles) (hh : h ∈ handles) :
    (s.copy h).Counted (h :: handles) :=
  hc.addUse (hc.held h hh)

/-- A new object is used by the table and by the handle that made it. -/
theorem Counted.insert (hc : s.Counted handles) {stackTrace : StackTrace}
    (hlookup : s.stackTraces.lookup stackTrace.hash = none) :
    Counted ⟨s.stackTraces.insert stackTrace.hash ⟨s.made, stackTrace⟩,
      Function.update s.useCount s.made 2, s.made + 1⟩ (⟨⟨s.made, stackTrace⟩⟩ :: handles) := by
  have hfresh : ∀ hash, ∀ p ∈ s.stackTraces.lookup hash, p.object ≠ s.made :=
    fun hash p hp => (hc.object_lt hash p hp).ne
  have hunused : uses handles s.made = 0 := by
    have hnot := fun h hh => hfresh _ _ (hc.held h hh)
    simpa [uses, List.countP_eq_zero] using hnot
  -- an entry is the new one or an old one
  have hentry : ∀ hash, ∀ p ∈
      (s.stackTraces.insert stackTrace.hash ⟨s.made, stackTrace⟩).lookup hash,
      hash = stackTrace.hash ∧ p = ⟨s.made, stackTrace⟩ ∨ p ∈ s.stackTraces.lookup hash := by
    intro hash p hp
    rw [UnorderedMap.lookup_insert_eq] at hp
    split_ifs at hp with hhash
    · exact .inl ⟨hhash, (Option.some.inj hp).symm⟩
    · exact .inr hp
  refine ⟨?_, ?_, ?_, ?_, ?_, ?_⟩
  · intro hash p hp
    rcases hentry hash p hp with ⟨rfl, rfl⟩ | hp
    · rfl
    · exact hc.hash_eq hash p hp
  · intro hash p hp
    rcases hentry hash p hp with ⟨-, rfl⟩ | hp
    · exact Nat.lt_succ_self _
    · exact (hc.object_lt hash p hp).trans (Nat.lt_succ_self _)
  · intro hash p hp hash' p' hp' hobject
    rcases hentry hash p hp with ⟨-, rfl⟩ | hp <;> rcases hentry hash' p' hp' with ⟨-, rfl⟩ | hp'
    · rfl
    · exact absurd hobject.symm (hfresh hash' p' hp')
    · exact absurd hobject (hfresh hash p hp)
    · exact hc.apart hash p hp hash' p' hp' hobject
  · intro h hh
    rcases List.mem_cons.mp hh with rfl | hh
    · exact Finmap.lookup_insert _
    · have hheld := hc.held h hh
      have hne : h.get.hash ≠ stackTrace.hash := by
        intro heq
        rw [heq, hlookup] at hheld
        cases hheld
      rw [UnorderedMap.lookup_insert_eq, if_neg hne, hheld]
  · intro hash p hp
    rcases hentry hash p hp with ⟨-, rfl⟩ | hp
    · exact ⟨_, List.mem_cons_self, rfl⟩
    · obtain ⟨h, hh, heq⟩ := hc.needed hash p hp
      exact ⟨h, List.mem_cons_of_mem _ hh, heq⟩
  · intro hash p hp
    rw [uses_cons]
    rcases hentry hash p hp with ⟨-, rfl⟩ | hp
    · simp [hunused]
    · have hne := hfresh hash p hp
      simp [hne, hne.symm, hc.useCount_eq hash p hp]

theorem Counted.construct (hc : s.Counted handles) (stackTrace : StackTrace) :
    (s.construct stackTrace).2.Counted ((s.construct stackTrace).1 :: handles) := by
  unfold InternedStackTraces.construct
  cases hlookup : s.stackTraces.lookup stackTrace.hash with
  | some pointer =>
      refine hc.addUse (h := ⟨pointer⟩) ?_
      rw [InternedStackTrace.get, hc.hash_eq _ pointer hlookup]
      exact hlookup
  | none => exact hc.insert hlookup

/-- Destroying one of several handles on a trace. -/
theorem Counted.dropUse (hc : s.Counted (h :: handles))
    (hother : uses handles h.stackTrace.object ≠ 0) :
    (s.dropUse h.stackTrace.object).Counted handles where
  hash_eq := hc.hash_eq
  object_lt := hc.object_lt
  apart := hc.apart
  held := fun h' hh' => hc.held h' (List.mem_cons_of_mem _ hh')
  needed := by
    intro hash p hp
    obtain ⟨h', hh', heq⟩ := hc.needed hash p hp
    rcases List.mem_cons.mp hh' with rfl | hh'
    · obtain ⟨h'', hh'', hobject⟩ := List.countP_pos_iff.mp (Nat.pos_of_ne_zero hother)
      have hheld := hc.held h'' (List.mem_cons_of_mem _ hh'')
      have hsame := hc.apart _ _ hheld _ _ hp ((of_decide_eq_true hobject).trans (by rw [heq]))
      exact ⟨h'', hh'', hsame⟩
    · exact ⟨h', hh', heq⟩
  useCount_eq := by
    intro hash p hp
    have hcount := hc.useCount_eq hash p hp
    rw [uses_cons] at hcount
    by_cases hobject : h.stackTrace.object = p.object
    · simp only [InternedStackTraces.dropUse, hobject, Function.update_self]
      rw [if_pos hobject] at hcount
      omega
    · rw [if_neg hobject, add_zero] at hcount
      simp [InternedStackTraces.dropUse, Ne.symm hobject, hcount]

/-- Destroying the last handle on a trace takes it out of the table. -/
theorem Counted.eraseLast (hc : s.Counted (h :: handles))
    (hlast : uses handles h.stackTrace.object = 0) :
    ((s.erase h.get.hash).dropUse h.stackTrace.object).Counted handles := by
  have hheld := hc.held h List.mem_cons_self
  rw [erase, hheld]
  have hentry : ∀ hash, ∀ p ∈ (s.stackTraces.erase h.get.hash).lookup hash,
      hash ≠ h.get.hash ∧ p ∈ s.stackTraces.lookup hash := by
    intro hash p hp
    rw [UnorderedMap.lookup_erase_eq] at hp
    split_ifs at hp with hhash
    · cases hp
    · exact ⟨hhash, hp⟩
  have hne : ∀ hash, ∀ p ∈ s.stackTraces.lookup hash, hash ≠ h.get.hash →
      h.stackTrace.object ≠ p.object := by
    intro hash p hp hhash hobject
    have hsame := hc.apart _ _ hheld _ _ hp hobject
    exact hhash ((hc.hash_eq hash p hp).symm.trans (congrArg (fun p => p.target.hash) hsame.symm))
  refine ⟨?_, ?_, ?_, ?_, ?_, ?_⟩
  · exact fun hash p hp => hc.hash_eq hash p (hentry hash p hp).2
  · exact fun hash p hp => hc.object_lt hash p (hentry hash p hp).2
  · exact fun hash p hp hash' p' hp' =>
      hc.apart hash p (hentry hash p hp).2 hash' p' (hentry hash' p' hp').2
  · intro h' hh'
    have hheld' := hc.held h' (List.mem_cons_of_mem _ hh')
    change (s.stackTraces.erase h.get.hash).lookup h'.get.hash = _
    have hhash : h'.get.hash ≠ h.get.hash := by
      intro heq
      rw [heq, hheld] at hheld'
      have hobject : h'.stackTrace.object = h.stackTrace.object :=
        congrArg StackTracePointer.object (Option.some.inj hheld').symm
      exact List.countP_eq_zero.mp hlast h' hh' (decide_eq_true hobject)
    rw [UnorderedMap.lookup_erase_eq, if_neg hhash, hheld']
  · intro hash p hp
    have ⟨hhash, hp'⟩ := hentry hash p hp
    obtain ⟨h', hh', heq⟩ := hc.needed hash p hp'
    rcases List.mem_cons.mp hh' with rfl | hh'
    · exact absurd (by rw [heq]) (hne hash p hp' hhash)
    · exact ⟨h', hh', heq⟩
  · intro hash p hp
    have ⟨hhash, hp'⟩ := hentry hash p hp
    have hobject := hne hash p hp' hhash
    have hcount := hc.useCount_eq hash p hp'
    rw [uses_cons, if_neg hobject, add_zero] at hcount
    simp [InternedStackTraces.dropUse, hobject.symm, hcount]

theorem made_erase (hash : UInt64) : (s.erase hash).made = s.made := by
  unfold erase
  cases s.stackTraces.lookup hash <;> rfl

/-- The destructor of a live handle fails no assertion. -/
theorem Counted.destroy (hc : s.Counted (h :: handles)) :
    ∃ s', s.destroy h = some s' ∧ s'.Counted handles ∧ s'.made = s.made := by
  have hheld := hc.held h List.mem_cons_self
  have hcount := hc.useCount_eq _ _ hheld
  rw [uses_cons, if_pos rfl] at hcount
  unfold InternedStackTraces.destroy
  by_cases hlast : uses handles h.stackTrace.object = 0
  · have htwo : s.useCount h.stackTrace.object = 2 := by omega
    have hone : (s.erase h.get.hash).useCount h.stackTrace.object = 1 := by
      simp [erase, hheld, InternedStackTraces.dropUse, htwo]
    exact ⟨_, by simp [htwo, hone], hc.eraseLast hlast, made_erase _⟩
  · have hmany : 2 < s.useCount h.stackTrace.object := by omega
    exact ⟨_, by simp [hmany.not_gt, hmany.ne'], hc.dropUse hlast, rfl⟩

theorem Counted.destroyAll (hs : List InternedStackTrace) (hc : s.Counted (hs ++ handles)) :
    ∃ s', s.destroyAll hs = some s' ∧ s'.Counted handles ∧ s'.made = s.made := by
  induction hs generalizing s with
  | nil => exact ⟨s, rfl, hc, rfl⟩
  | cons h hs ih =>
      obtain ⟨s₁, hs₁, hc₁, hmade₁⟩ := hc.destroy
      obtain ⟨s', hs', hc', hmade'⟩ := ih hc₁
      exact ⟨s', Option.bind_eq_some_iff.mpr ⟨s₁, hs₁, hs'⟩, hc', hmade'.trans hmade₁⟩

end InternedStackTraces

end AllocCounter.MmapCounter
