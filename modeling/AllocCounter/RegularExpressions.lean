import Mathlib.Data.List.Basic

/-!
# Matching with captured groups

A regular expression is a sequence of items, some of them captured in groups.
Matching at the start of a text tries the alternatives of every item in order of
preference, the longest first, and goes back to the next one when what follows
does not match; the matches are listed in the order in which they are tried, and
the result is the first one.
-/
namespace AllocCounter.RegularExpressions

inductive Item where
  | text (t : List Char)
  | star (p : Char → Bool)
  | plus (p : Char → Bool)
  | optional (c : Char)

inductive Part where
  | item (item : Item)
  | group (items : List Item)

/-- The ways to split a text after characters of a class, the longest first. -/
def greedy (p : Char → Bool) : List Char → List (List Char × List Char)
  | [] => [([], [])]
  | c :: s => if p c then (greedy p s).map (fun m => (c :: m.1, m.2)) ++ [([], c :: s)]
      else [([], c :: s)]

/-- What an item may match at the start of a text, and what is left. -/
def Item.splits : Item → List Char → List (List Char × List Char)
  | text t, s => if t.isPrefixOf s then [(t, s.drop t.length)] else []
  | star p, s => greedy p s
  | plus _, [] => []
  | plus p, c :: s => if p c then (greedy p s).map fun m => (c :: m.1, m.2) else []
  | optional _, [] => [([], [])]
  | optional d, c :: s => if c = d then [([c], s), ([], c :: s)] else [([], c :: s)]

def splits : List Item → List Char → List (List Char × List Char)
  | [], s => [([], s)]
  | item :: items, s =>
      (item.splits s).flatMap fun m => (splits items m.2).map fun n => (m.1 ++ n.1, n.2)

/-- The captured groups of every match. -/
def captures : List Part → List Char → List (List (List Char))
  | [], _ => [[]]
  | .item item :: parts, s => (item.splits s).flatMap fun m => captures parts m.2
  | .group items :: parts, s =>
      (splits items s).flatMap fun m => (captures parts m.2).map fun groups => m.1 :: groups

/-- The groups of a match at the start of the text. -/
def match? (regex : List Part) (s : List Char) : Option (List (List Char)) :=
  (captures regex s).head?

theorem head?_flatMap {α β : Type*} {l : List α} {a : α} {f : α → List β} {b : β}
    (hl : l.head? = some a) (hf : (f a).head? = some b) : (l.flatMap f).head? = some b := by
  obtain ⟨tail, rfl⟩ := List.head?_eq_some_iff.mp hl
  obtain ⟨rest, hrest⟩ := List.head?_eq_some_iff.mp hf
  rw [List.flatMap_cons, hrest]
  rfl

theorem head?_greedy {p : Char → Bool} {xs s : List Char} (hxs : ∀ c ∈ xs, p c = true)
    (hs : ∀ c ∈ s.head?, p c = false) : (greedy p (xs ++ s)).head? = some (xs, s) := by
  induction xs with
  | nil =>
      cases s with
      | nil => rfl
      | cons c s => simp [greedy, hs c rfl]
  | cons c xs ih =>
      have hrec := ih fun d hd => hxs d (List.mem_cons_of_mem _ hd)
      obtain ⟨tail, htail⟩ := List.head?_eq_some_iff.mp hrec
      simp [greedy, hxs c List.mem_cons_self, htail]

theorem head?_plus {p : Char → Bool} {xs s : List Char} (hne : xs ≠ [])
    (hxs : ∀ c ∈ xs, p c = true) (hs : ∀ c ∈ s.head?, p c = false) :
    ((Item.plus p).splits (xs ++ s)).head? = some (xs, s) := by
  cases xs with
  | nil => exact absurd rfl hne
  | cons c xs =>
      have hrec := head?_greedy (fun d hd => hxs d (List.mem_cons_of_mem _ hd)) hs
      simp only [List.cons_append, Item.splits, hxs c List.mem_cons_self, if_true, List.head?_map,
        hrec, Option.map_some]

theorem head?_optional (c : Char) (s : List Char) :
    ((Item.optional c).splits (c :: s)).head? = some ([c], s) := by
  simp [Item.splits]

theorem head?_optional_of_ne {c : Char} {s : List Char} (hs : ∀ d ∈ s.head?, d ≠ c) :
    ((Item.optional c).splits s).head? = some ([], s) := by
  cases s with
  | nil => rfl
  | cons d s => simp [Item.splits, hs d rfl]

theorem head?_splits_cons {item : Item} {items : List Item} {s x y r r' : List Char}
    (h : (item.splits s).head? = some (x, r)) (hrest : (splits items r).head? = some (y, r')) :
    (splits (item :: items) s).head? = some (x ++ y, r') :=
  head?_flatMap h (by rw [List.head?_map, hrest]; rfl)

theorem captures_text (t : List Char) (parts : List Part) (s : List Char) :
    captures (.item (.text t) :: parts) (t ++ s) = captures parts s := by
  simp [captures, Item.splits]

theorem match?_group {items : List Item} {parts : List Part} {s x r : List Char}
    {groups : List (List Char)} (h : (splits items s).head? = some (x, r))
    (hrest : match? parts r = some groups) :
    match? (.group items :: parts) s = some (x :: groups) :=
  head?_flatMap h (by
    rw [List.head?_map]
    exact congrArg (Option.map fun groups => x :: groups) hrest)

theorem match?_text (t : List Char) (parts : List Part) (s : List Char) :
    match? (.item (.text t) :: parts) (t ++ s) = match? parts s :=
  congrArg List.head? (captures_text t parts s)

def Item.Allows : Item → Char → Prop
  | text t, c => c ∈ t
  | star p, c | plus p, c => p c = true
  | optional d, c => c = d

theorem of_mem_greedy {p : Char → Bool} {s : List Char} {m : List Char × List Char}
    (h : m ∈ greedy p s) : s = m.1 ++ m.2 ∧ ∀ c ∈ m.1, p c = true := by
  induction s generalizing m with
  | nil =>
      rw [List.mem_singleton.mp h]
      exact ⟨rfl, nofun⟩
  | cons c s ih =>
      unfold greedy at h
      split_ifs at h with hc
      · cases List.mem_append.mp h with
        | inr hlast =>
            rw [List.mem_singleton.mp hlast]
            exact ⟨rfl, nofun⟩
        | inl hmore =>
            obtain ⟨n, hn, rfl⟩ := List.mem_map.mp hmore
            have ⟨heq, hall⟩ := ih hn
            refine ⟨by rw [List.cons_append, ← heq], ?_⟩
            exact List.forall_mem_cons.mpr ⟨hc, hall⟩
      · rw [List.mem_singleton.mp h]
        exact ⟨rfl, nofun⟩

theorem Item.of_mem_splits {item : Item} {s : List Char} {m : List Char × List Char}
    (h : m ∈ item.splits s) : s = m.1 ++ m.2 ∧ ∀ c ∈ m.1, item.Allows c := by
  cases item with
  | star p => exact of_mem_greedy h
  | text t =>
      simp only [splits] at h
      split_ifs at h with hleading
      · obtain ⟨rest, rfl⟩ := List.isPrefixOf_iff_prefix.mp hleading
        rw [List.mem_singleton.mp h, List.drop_left]
        exact ⟨rfl, fun c hc => hc⟩
      · exact nomatch h
  | plus p =>
      cases s with
      | nil => exact nomatch h
      | cons c s =>
          simp only [splits] at h
          split_ifs at h with hc
          · obtain ⟨n, hn, rfl⟩ := List.mem_map.mp h
            have ⟨heq, hall⟩ := of_mem_greedy hn
            exact ⟨by rw [List.cons_append, ← heq], List.forall_mem_cons.mpr ⟨hc, hall⟩⟩
          · exact nomatch h
  | optional d =>
      cases s with
      | nil =>
          rw [List.mem_singleton.mp h]
          exact ⟨rfl, nofun⟩
      | cons c s =>
          simp only [splits] at h
          split_ifs at h with hc
          · cases List.mem_cons.mp h with
            | inl hfirst =>
                rw [hfirst]
                exact ⟨rfl, fun e he => (List.mem_singleton.mp he).trans hc⟩
            | inr hlast =>
                rw [List.mem_singleton.mp hlast]
                exact ⟨rfl, nofun⟩
          · rw [List.mem_singleton.mp h]
            exact ⟨rfl, nofun⟩

theorem of_mem_splits {items : List Item} {s : List Char} {m : List Char × List Char}
    (h : m ∈ splits items s) :
    s = m.1 ++ m.2 ∧ ∀ c ∈ m.1, ∃ item ∈ items, item.Allows c := by
  induction items generalizing s m with
  | nil =>
      rw [List.mem_singleton.mp h]
      exact ⟨rfl, nofun⟩
  | cons item items ih =>
      obtain ⟨m₁, hm₁, hm⟩ := List.mem_flatMap.mp h
      obtain ⟨m₂, hm₂, rfl⟩ := List.mem_map.mp hm
      have ⟨heq₁, hall₁⟩ := Item.of_mem_splits hm₁
      have ⟨heq₂, hall₂⟩ := ih hm₂
      refine ⟨by rw [List.append_assoc, ← heq₂, ← heq₁], fun c hc => ?_⟩
      cases List.mem_append.mp hc with
      | inl hc => exact ⟨item, List.mem_cons_self, hall₁ c hc⟩
      | inr hc =>
          obtain ⟨other, hother, hallows⟩ := hall₂ c hc
          exact ⟨other, List.mem_cons_of_mem _ hother, hallows⟩

/-- The text before the first separator is unique. -/
theorem append_sep_inj {sep : Char} {x y u v : List Char} (hx : sep ∉ x) (hy : sep ∉ y)
    (h : x ++ sep :: u = y ++ sep :: v) : x = y ∧ u = v := by
  induction x generalizing y with
  | nil =>
      cases y with
      | nil => exact ⟨rfl, (List.cons.inj h).2⟩
      | cons d y =>
          have hd : sep = d := (List.cons.inj h).1
          exact absurd (hd ▸ List.mem_cons_self) hy
  | cons c x ih =>
      cases y with
      | nil =>
          have hc : c = sep := (List.cons.inj h).1
          exact absurd (hc ▸ List.mem_cons_self) hx
      | cons d y =>
          obtain ⟨rfl, htail⟩ := List.cons.inj h
          obtain ⟨rfl, hrest⟩ := ih (fun hm => hx (List.mem_cons_of_mem _ hm))
            (fun hm => hy (List.mem_cons_of_mem _ hm)) htail
          exact ⟨rfl, hrest⟩

/-- A separator that the group does not allow marks where the group has to end. -/
theorem match?_eq_none {items : List Item} {sep : Char} {t : List Char} {parts : List Part}
    {field u : List Char} (hsep : ∀ item ∈ items, ¬ item.Allows sep) (hfield : sep ∉ field)
    (h : (∃ c ∈ field, ∀ item ∈ items, ¬ item.Allows c) ∨ ¬ (sep :: t) <+: sep :: u) :
    match? (.group items :: .item (.text (sep :: t)) :: parts) (field ++ sep :: u) = none := by
  rw [match?, List.head?_eq_none_iff, captures, List.flatMap_eq_nil_iff]
  intro m hm
  rw [List.map_eq_nil_iff, captures, List.flatMap_eq_nil_iff]
  intro n hn
  exfalso
  obtain ⟨heq, hall⟩ := of_mem_splits hm
  have hstart : (sep :: t) <+: m.2 := by
    simp only [Item.splits] at hn
    split_ifs at hn with hleading
    · exact List.isPrefixOf_iff_prefix.mp hleading
    · exact nomatch hn
  obtain ⟨rest, hrest⟩ := hstart
  rw [← hrest, List.cons_append] at heq
  have hclean : sep ∉ m.1 := fun hmem => by
    obtain ⟨item, hitem, hallows⟩ := hall sep hmem
    exact hsep item hitem hallows
  obtain ⟨hsame, htail⟩ := append_sep_inj hfield hclean heq
  cases h with
  | inl hbad =>
      obtain ⟨c, hc, hnone⟩ := hbad
      obtain ⟨item, hitem, hallows⟩ := hall c (hsame ▸ hc)
      exact hnone item hitem hallows
  | inr hleading => exact hleading ⟨rest, by rw [List.cons_append, htail]⟩

end AllocCounter.RegularExpressions
