/-
# Sets built by insertion

A set of matches is a row in ascending order of their ends. A match is put into
it where a binary search says, unless the search finds its end taken. Such a
search is right about ascending rows only, so a single insertion at a wrong
place would mislead all that follow. The rows here are plain lists: nothing in
their type keeps them in order, the insertions do.

Whatever way a set is built, all that counts is which matches were offered and
in which order: of those with one end the first is in the set. The laws of
joining two sets are laws of lists that are appended.

Key definitions: `bisect`, `insertRow`, `Matches.Recipe`.
Key theorems: `bisect_spec`, `insertRow_items`, `Matches.Recipe.row_eq`,
`Matches.Recipe.built_eq`, `Matches.Recipe.first_offers`.
-/
import Curtail.Parse.Match
import Curtail.Parse.Tally

namespace Curtail

/-! ### Binary search -/

/-- What a search for a key in a row comes to: the index where it was found, or the index where it
would have to be inserted. -/
inductive Spot where
  | taken (i : Nat)
  | free (i : Nat)
deriving DecidableEq, Repr

section Rows

variable {α : Type} (key : α → Nat)

/-- Looks for the key `k` between the indices `lo` and `hi` of a row, in halves. -/
def bisect (row : List α) (k lo hi : Nat) : Spot :=
  if _hlt : lo < hi then
    let mid := lo + (hi - lo) / 2
    match row[mid]? with
    | none => .free lo
    | some a =>
      if key a < k then bisect row k (mid + 1) hi
      else if k < key a then bisect row k lo mid
      else .taken mid
  else .free lo
termination_by hi - lo

/-- Inserts an element into a row unless its key is taken, and says whether it was inserted. -/
def insertRow (row : List α) (a : α) : List α × Bool :=
  match bisect key row (key a) 0 row.length with
  | .taken _ => (row, false)
  | .free i => (row.insertIdx i a, true)

/-- The key `k` can only be between the indices `lo` and `hi`. -/
structure Narrowed (row : List α) (k lo hi : Nat) : Prop where
  le : lo ≤ hi
  inside : hi ≤ row.length
  below : ∀ a ∈ row.take lo, key a < k
  above : ∀ a ∈ row.drop hi, k < key a

/-- What a search is documented to yield: an element with the key, or the one index where an element
with the key keeps the row ascending. -/
def Spot.Right (row : List α) (k : Nat) : Spot → Prop
  | .taken i => ∃ a, row[i]? = some a ∧ key a = k
  | .free i => Narrowed key row k i i

variable {key} {row : List α} {k lo hi i : Nat} {a : α}

/-- Up to an element of an ascending row no key is greater. -/
theorem key_le_of_mem_take (hrow : row.Pairwise fun a b => key a < key b) (ha : row[i]? = some a)
    {b : α} (hb : b ∈ row.take (i + 1)) : key b ≤ key a := by
  obtain ⟨hi, rfl⟩ := List.getElem?_eq_some_iff.mp ha
  obtain ⟨j, hj, rfl⟩ := List.mem_take_iff_getElem.mp hb
  rcases Nat.lt_or_ge j i with hlt | hge
  · exact Nat.le_of_lt (List.pairwise_iff_getElem.mp hrow j i (by omega) hi hlt)
  · obtain rfl : j = i := by omega
    exact Nat.le_refl _

/-- From an element of an ascending row on no key is less. -/
theorem key_le_of_mem_drop (hrow : row.Pairwise fun a b => key a < key b) (ha : row[i]? = some a)
    {b : α} (hb : b ∈ row.drop i) : key a ≤ key b := by
  obtain ⟨hi, rfl⟩ := List.getElem?_eq_some_iff.mp ha
  obtain ⟨j, hj, rfl⟩ := List.mem_drop_iff_getElem.mp hb
  cases j with
  | zero => exact Nat.le_refl _
  | succ j =>
    have hlt : i + (j + 1) < row.length := by omega
    exact Nat.le_of_lt (List.pairwise_iff_getElem.mp hrow i (i + (j + 1)) hi hlt (by omega))

/-- **Binary search.** In an ascending row a search is right about every key. -/
theorem bisect_spec (hrow : row.Pairwise fun a b => key a < key b) (h : Narrowed key row k lo hi) :
    (bisect key row k lo hi).Right key row k := by
  fun_induction bisect key row k lo hi with
  | case1 lo hi hlt mid hnone =>
    -- the middle of a nonempty range is inside of the row
    have := h.inside
    have := List.getElem?_eq_none_iff.mp hnone
    omega
  | case2 lo hi hlt mid a ha hless ih =>
    refine ih ⟨by omega, h.inside, fun b hb => ?_, h.above⟩
    exact Nat.lt_of_le_of_lt (key_le_of_mem_take hrow ha hb) hless
  | case3 lo hi hlt mid a ha _ hgreater ih =>
    have := h.inside
    refine ih ⟨by omega, by omega, h.below, fun b hb => ?_⟩
    exact Nat.lt_of_lt_of_le hgreater (key_le_of_mem_drop hrow ha hb)
  | case4 lo hi hlt mid a ha hnotless hnotgreater => exact ⟨a, ha, by omega⟩
  | case5 lo hi hge =>
    obtain rfl : lo = hi := Nat.le_antisymm h.le (Nat.le_of_not_lt hge)
    exact h

/-! ### Insertion -/

/-- An element put where its key is narrowed down to leaves the row ascending. -/
theorem sorted_insertIdx (hrow : row.Pairwise fun a b => key a < key b)
    (h : Narrowed key row (key a) i i) : (row.insertIdx i a).Pairwise fun a b => key a < key b := by
  induction row generalizing i with
  | nil =>
    obtain rfl : i = 0 := Nat.le_zero.mp h.inside
    exact List.pairwise_singleton _ a
  | cons b row ih =>
    obtain ⟨hmin, hrow'⟩ := List.pairwise_cons.mp hrow
    cases i with
    | zero => exact List.pairwise_cons.mpr ⟨h.above, hrow⟩
    | succ i =>
      have hi : i ≤ row.length := Nat.le_of_succ_le_succ h.inside
      have hb : key b < key a := h.below b List.mem_cons_self
      refine List.pairwise_cons.mpr ⟨fun c hc => ?_, ih hrow' ⟨Nat.le_refl i, hi, ?_, h.above⟩⟩
      · rcases (List.mem_insertIdx hi).mp hc with rfl | hc
        · exact hb
        · exact hmin c hc
      · exact fun c hc => h.below c (List.mem_cons_of_mem b hc)

/-- A key is in a row before or behind every index. -/
theorem Narrowed.ne (h : Narrowed key row k i i) {b : α} (hb : b ∈ row) : key b ≠ k := by
  rw [← List.take_append_drop i row] at hb
  rcases List.mem_append.mp hb with hb | hb
  · exact Nat.ne_of_lt (h.below b hb)
  · exact Nat.ne_of_gt (h.above b hb)

namespace Ascending

theorem hasKey_iff {s : Ascending key} {k : Nat} : s.hasKey k = true ↔ ∃ a ∈ s.items, key a = k := by
  simp [hasKey]

/-- Inserting into the row of a set is inserting into the set; it is done if the key is new. -/
theorem insertRow_items (s : Ascending key) (a : α) :
    insertRow key s.items a = ((s.insert a).items, !s.hasKey (key a)) := by
  have hstart : Narrowed key s.items (key a) 0 s.items.length :=
    ⟨Nat.zero_le _, Nat.le_refl _, by simp, by simp⟩
  have hright := bisect_spec s.sorted hstart
  unfold insertRow
  cases hspot : bisect key s.items (key a) 0 s.items.length with
  | taken i =>
    rw [hspot] at hright
    obtain ⟨b, hb, hkey⟩ := hright
    have hmem := List.mem_of_getElem? hb
    have hkeep : s.insert a = s :=
      append_eq_left fun c hc => ⟨b, hmem, by rw [List.mem_singleton.mp hc, hkey]⟩
    rw [hkeep, hasKey_iff.mpr ⟨b, hmem, hkey⟩]
    rfl
  | free i =>
    rw [hspot] at hright
    have hnew : s.hasKey (key a) = false :=
      Bool.eq_false_iff.mpr fun h => by
        obtain ⟨b, hb, hkey⟩ := hasKey_iff.mp h
        exact hright.ne hb hkey
    have hitems : (s.insert a).items = s.items.insertIdx i a := by
      refine items_eq_of_mem_iff (sorted_insertIdx s.sorted hright) fun b => ?_
      rw [insert, mem_append, items_single, List.mem_singleton, List.mem_insertIdx hright.inside,
        Or.comm]
      intro x hx y hy hkey
      exact absurd (by rw [hkey, List.mem_singleton.mp hy]) (hright.ne hx)
    rw [hitems, hnew]
    rfl

/-! ### What is in a set -/

variable {s t : Ascending key}

theorem ofList_items (s : Ascending key) : ofList key s.items = s :=
  ext_find? fun k => find?_ofList s.items k

/-- Of the elements of a list those are kept before which none has their key. -/
theorem mem_ofList {as : List α} : a ∈ (ofList key as).items ↔
    ∃ before after, as = before ++ a :: after ∧ ∀ b ∈ before, key b ≠ key a := by
  have hfind : a ∈ (ofList key as).items ↔ (as.find? fun b => key b == key a) = some a := by
    rw [← find?_ofList, find?_eq_some_iff]
    exact (and_iff_left rfl).symm
  rw [hfind, List.find?_eq_some_iff_append]
  simp

/-- Every key of a list is kept. -/
theorem exists_mem_ofList {as : List α} (h : a ∈ as) : ∃ b ∈ (ofList key as).items, key b = key a := by
  cases hfind : (ofList key as).find? (key a) with
  | some b => exact ⟨b, find?_eq_some_iff.mp hfind⟩
  | none =>
    rw [find?_ofList] at hfind
    simpa using List.find?_eq_none.mp hfind a h

theorem first?_eq_some_iff : s.first? = some a ↔ a ∈ s.items ∧ ∀ b ∈ s.items, key a ≤ key b := by
  unfold first?
  obtain ⟨items, sorted⟩ := s
  cases items with
  | nil => simp
  | cons b items =>
    have hmin := (List.pairwise_cons.mp sorted).1
    rw [List.head?_cons, Option.some.injEq]
    constructor
    · rintro rfl
      refine ⟨List.mem_cons_self, fun c hc => ?_⟩
      rcases List.mem_cons.mp hc with rfl | hc
      · exact Nat.le_refl _
      · exact Nat.le_of_lt (hmin c hc)
    · rintro ⟨ha, hle⟩
      rcases List.mem_cons.mp ha with rfl | ha
      · rfl
      · exact absurd (hle b List.mem_cons_self) (Nat.not_le.mpr (hmin a ha))

theorem last?_eq_some_iff : s.last? = some a ↔ a ∈ s.items ∧ ∀ b ∈ s.items, key b ≤ key a := by
  constructor
  · intro hlast
    obtain ⟨c, hc, hmem, hmax⟩ := exists_last (List.ne_nil_of_mem (List.mem_of_getLast? hlast))
    obtain rfl : c = a := Option.some.inj (hc.symm.trans hlast)
    exact ⟨hmem, hmax⟩
  · rintro ⟨ha, hmax⟩
    obtain ⟨c, hc, hmem, hle⟩ := exists_last (List.ne_nil_of_mem ha)
    rw [hc, eq_of_key_eq hmem ha (Nat.le_antisymm (hmax c hmem) (hle a ha))]

/-- What joining adds to the left side are elements with new keys. -/
theorem mem_append_iff : a ∈ (s ++ t).items ↔
    a ∈ s.items ∨ a ∈ t.items ∧ ∀ b ∈ s.items, key b ≠ key a := by
  have hmem : ∀ {u : Ascending key}, a ∈ u.items ↔ u.find? (key a) = some a := by
    intro u
    rw [find?_eq_some_iff]
    exact (and_iff_left rfl).symm
  have hnone : s.find? (key a) = none ↔ ∀ b ∈ s.items, key b ≠ key a := by
    simp [find?, List.find?_eq_none]
  rw [hmem, hmem (u := s), hmem (u := t), find?_append, Option.or_eq_some_iff, hnone, and_comm]

theorem mem_keys_append {k : Nat} :
    k ∈ (s ++ t).items.map key ↔ k ∈ s.items.map key ∨ k ∈ t.items.map key := by
  have hmem : ∀ u : Ascending key, k ∈ u.items.map key ↔ u.find? k ≠ none := by
    intro u
    simp [find?, List.find?_eq_none]
  rw [hmem, hmem, hmem, find?_append, ne_eq, Option.or_eq_none_iff,
    Classical.not_and_iff_not_or_not]

/-- The keys of two joined sets do not depend on which is on the left. -/
theorem keys_append_comm (s t : Ascending key) :
    (s ++ t).items.map key = (t ++ s).items.map key := by
  have hsorted : ∀ u : Ascending key, (u.items.map key).Pairwise (· < ·) := fun u =>
    List.pairwise_map.mpr u.sorted
  refine items_eq_of_mem_iff (s := (⟨_, hsorted (s ++ t)⟩ : IdSet)) (hsorted (t ++ s)) fun k => ?_
  show k ∈ (s ++ t).items.map key ↔ _
  rw [mem_keys_append, mem_keys_append, or_comm]

end Ascending

end Rows

/-! ### Sets of matches -/

namespace Matches

/-- A way of building a set of matches. -/
inductive Recipe where
  | new
  | one (m : Match)
  | insert (set : Recipe) (m : Match)
  | append (set other : Recipe)
  | collect (ms : List Match)

namespace Recipe

/-- Inserts matches into a row, one after the other. -/
def insertAll (row ms : List Match) : List Match :=
  ms.foldl (fun row m => (insertRow Match.stopOffset row m).1) row

/-- The row that is built when every match is inserted where a binary search says. -/
def row : Recipe → List Match
  | new => []
  | one m => [m]
  | insert t m => (insertRow Match.stopOffset t.row m).1
  | append t u => insertAll t.row u.row
  | collect ms => insertAll [] ms

/-- The set that is built. -/
def built : Recipe → Matches
  | new => ∅
  | one m => .single _ m
  | insert t m => t.built.insert m
  | append t u => t.built ++ u.built
  | collect ms => .ofList _ ms

/-- All matches that are offered, in order. -/
def offers : Recipe → List Match
  | new => []
  | one m => [m]
  | insert t m => t.offers ++ [m]
  | append t u => t.offers ++ u.offers
  | collect ms => ms

variable {t u : Recipe}

theorem insertAll_items (s : Matches) (ms : List Match) :
    insertAll s.items ms = (s ++ .ofList _ ms).items := by
  rw [← Ascending.foldl_insert]
  induction ms generalizing s with
  | nil => rfl
  | cons m ms ih =>
    unfold insertAll
    rw [List.foldl_cons, Ascending.insertRow_items]
    exact ih (s.insert m)

/-- **Insertions keep a row in order**: it is the row of the set that is built. -/
theorem row_eq (t : Recipe) : t.row = t.built.items := by
  induction t with
  | new => rfl
  | one m => rfl
  | insert t m ih => rw [row, ih, Ascending.insertRow_items]; rfl
  | append t u iht ihu => rw [row, iht, ihu, insertAll_items, Ascending.ofList_items]; rfl
  | collect ms => exact insertAll_items ∅ ms

/-- All that counts are the offers. -/
theorem built_eq (t : Recipe) : t.built = .ofList _ t.offers := by
  induction t with
  | new => rfl
  | one m => rfl
  | insert t m ih => rw [built, ih, offers, Ascending.ofList_append]; rfl
  | append t u iht ihu => rw [built, iht, ihu, offers, Ascending.ofList_append]
  | collect ms => rfl

theorem row_congr (h : t.offers = u.offers) : t.row = u.row := by
  rw [row_eq, row_eq, built_eq, built_eq, h]

/-- What can be said of a set of matches. -/
structure FirstOffers (t : Recipe) : Prop where
  /-- Insertion by binary search builds the set. -/
  items : t.row = t.built.items
  /-- It is in strictly ascending order of the ends. -/
  ascending : t.row.Pairwise fun a b => a.stopOffset < b.stopOffset
  /-- A match is inserted if and only if none with its end is there. -/
  inserted : ∀ m, (insertRow Match.stopOffset t.row m).2 = true ↔
    ∀ x ∈ t.row, x.stopOffset ≠ m.stopOffset
  /-- The matches in it are those offered first with their end. -/
  mem_iff : ∀ m, m ∈ t.row ↔ ∃ before after, t.offers = before ++ m :: after ∧
    ∀ x ∈ before, x.stopOffset ≠ m.stopOffset
  /-- No end that was offered is missing. -/
  complete : ∀ m ∈ t.offers, ∃ x ∈ t.row, x.stopOffset = m.stopOffset
  first : ∀ m, t.built.first? = some m ↔ m ∈ t.row ∧ ∀ x ∈ t.row, m.stopOffset ≤ x.stopOffset
  last : ∀ m, t.built.last? = some m ↔ m ∈ t.row ∧ ∀ x ∈ t.row, x.stopOffset ≤ m.stopOffset

/-- **Sets of matches are left-biased maps ordered by end.** A set keeps the first match offered for
each end, however it is built. So building from two sequences one after the other is joining what is
built from each; joining is associative and idempotent, keeps what the left side has and takes from
the right side what ends elsewhere, and which ends there are does not depend on the side. -/
theorem first_offers :
    (∀ t : Recipe, t.FirstOffers) ∧
      (∀ ms ns, (collect (ms ++ ns)).row = (append (collect ms) (collect ns)).row) ∧
      (∀ t u v : Recipe, (append (append t u) v).row = (append t (append u v)).row) ∧
      (∀ t : Recipe, (append t t).row = t.row) ∧
      (∀ (t u : Recipe) (m : Match), m ∈ (append t u).row ↔
        m ∈ t.row ∨ m ∈ u.row ∧ ∀ x ∈ t.row, x.stopOffset ≠ m.stopOffset) ∧
      ∀ t u : Recipe,
        (append t u).row.map Match.stopOffset = (append u t).row.map Match.stopOffset := by
  refine ⟨fun t => ?_, fun ms ns => row_congr rfl, fun t u v => ?_, fun t => ?_, fun t u m => ?_,
    fun t u => ?_⟩
  · have hrow := t.row_eq
    refine ⟨hrow, ?_, fun m => ?_, fun m => ?_, fun m hm => ?_, fun m => ?_, fun m => ?_⟩
    · rw [hrow]
      exact t.built.sorted
    · rw [hrow, Ascending.insertRow_items, Bool.not_eq_true', Bool.eq_false_iff, ne_eq,
        Ascending.hasKey_iff]
      simp only [not_exists, not_and, ne_eq]
    · rw [hrow, built_eq, Ascending.mem_ofList]
    · rw [hrow, built_eq]
      exact Ascending.exists_mem_ofList hm
    · rw [hrow, Ascending.first?_eq_some_iff]
    · rw [hrow, Ascending.last?_eq_some_iff]
  · exact row_congr (List.append_assoc ..)
  · rw [row_eq, row_eq, built, Ascending.append_self]
  · rw [row_eq, row_eq, row_eq, built, Ascending.mem_append_iff]
  · rw [row_eq, row_eq, built, built, Ascending.keys_append_comm]

end Recipe

end Matches

end Curtail
