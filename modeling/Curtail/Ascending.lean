/-
# Lists in ascending order of a key

A list whose elements stand in strictly ascending order of a key, so that no
two share one. Joining two of them keeps, of two elements with one key, the
one on the left; joining is therefore associative, and inserting is joining
with a single element on the right.

Identities, recursion depths and matches are all kept in this form.

Key definitions: `Ascending`, `Ascending.append`, `Ascending.insert`,
`Ascending.find?`, `Ascending.ofList`.
Key theorems: `Ascending.find?_append`, `Ascending.ext_find?`,
`Ascending.append_assoc`, `Ascending.find?_ofList`, `Ascending.ext_mem`,
`Ascending.mem_append`.
-/

namespace Curtail

/-- Elements in strictly ascending order of `key`. -/
structure Ascending {α : Type} (key : α → Nat) where
  items : List α
  sorted : items.Pairwise fun a b => key a < key b

namespace Ascending

variable {α : Type} {key : α → Nat}

/-! ### Joining sorted lists -/

/-- The elements of both lists in order; of two with one key the one of the first list. -/
def merge (key : α → Nat) : List α → List α → List α
  | [], ys => ys
  | x :: xs, ys =>
    ys.takeWhile (fun y => decide (key y < key x)) ++
      x :: merge key xs (ys.dropWhile fun y => decide (key y ≤ key x))

theorem mem_merge {z : α} {xs ys : List α} (h : z ∈ merge key xs ys) : z ∈ xs ∨ z ∈ ys := by
  induction xs generalizing ys with
  | nil => exact .inr h
  | cons x xs ih =>
    simp only [merge, List.mem_append, List.mem_cons] at h
    rcases h with h | rfl | h
    · exact .inr ((List.takeWhile_sublist _).mem h)
    · simp
    · rcases ih h with h | h
      · simp [h]
      · exact .inr ((List.dropWhile_sublist _).mem h)

theorem lt_of_mem_dropWhile {ys : List α} {n : Nat} {z : α}
    (hs : ys.Pairwise fun a b => key a < key b)
    (h : z ∈ ys.dropWhile fun y => decide (key y ≤ n)) : n < key z := by
  induction ys with
  | nil => simp at h
  | cons y ys ih =>
    obtain ⟨hy, hs⟩ := List.pairwise_cons.mp hs
    by_cases hn : key y ≤ n
    · simp only [List.dropWhile_cons, hn, decide_true, if_true] at h
      exact ih hs h
    · simp only [List.dropWhile_cons, hn, decide_false] at h
      rcases List.mem_cons.mp (by simpa using h) with rfl | hz
      · omega
      · exact Nat.lt_trans (by omega) (hy z hz)

theorem lt_of_mem_takeWhile {ys : List α} {n : Nat} {z : α}
    (h : z ∈ ys.takeWhile fun y => decide (key y < n)) : key z < n := by
  induction ys with
  | nil => simp at h
  | cons y ys ih =>
    by_cases hn : key y < n
    · simp only [List.takeWhile_cons, hn, decide_true, if_true, List.mem_cons] at h
      rcases h with rfl | h
      · exact hn
      · exact ih h
    · simp [hn] at h

theorem sorted_merge {xs ys : List α} (hx : xs.Pairwise fun a b => key a < key b)
    (hy : ys.Pairwise fun a b => key a < key b) :
    (merge key xs ys).Pairwise fun a b => key a < key b := by
  induction xs generalizing ys with
  | nil => exact hy
  | cons x xs ih =>
    obtain ⟨hmin, hx⟩ := List.pairwise_cons.mp hx
    have hdrop := hy.sublist (List.dropWhile_sublist (fun y => decide (key y ≤ key x)))
    have habove : ∀ z ∈ merge key xs (ys.dropWhile fun y => decide (key y ≤ key x)), key x < key z := by
      intro z hz
      rcases mem_merge hz with hz | hz
      · exact hmin z hz
      · exact lt_of_mem_dropWhile hy hz
    refine List.pairwise_append.mpr ⟨hy.sublist (List.takeWhile_sublist _), ?_, ?_⟩
    · exact List.pairwise_cons.mpr ⟨habove, ih hx hdrop⟩
    · intro a ha b hb
      have := lt_of_mem_takeWhile ha
      rcases List.mem_cons.mp hb with rfl | hb
      · exact this
      · exact Nat.lt_trans this (habove b hb)

/-! ### Operations -/

/-- No element. -/
def empty : Ascending key := ⟨[], .nil⟩

instance : EmptyCollection (Ascending key) := ⟨empty⟩

instance : Inhabited (Ascending key) := ⟨empty⟩

/-- One element. -/
def single (key : α → Nat) (a : α) : Ascending key := ⟨[a], by simp⟩

/-- The elements of both; of two with one key the left one. -/
def append (s t : Ascending key) : Ascending key :=
  ⟨merge key s.items t.items, sorted_merge s.sorted t.sorted⟩

instance : Append (Ascending key) := ⟨append⟩

/-- Adds an element unless there is one with its key. -/
def insert (s : Ascending key) (a : α) : Ascending key := s ++ single key a

/-- The elements of a list; of several with one key the first. -/
def ofList (key : α → Nat) (as : List α) : Ascending key := as.foldl insert ∅

/-- The element with a key. -/
def find? (s : Ascending key) (k : Nat) : Option α := s.items.find? fun a => key a == k

/-- Whether an element has the key. -/
def hasKey (s : Ascending key) (k : Nat) : Bool := s.items.any fun a => key a == k

def isEmpty (s : Ascending key) : Bool := s.items.isEmpty

def size (s : Ascending key) : Nat := s.items.length

/-- The element with the least key. -/
def first? (s : Ascending key) : Option α := s.items.head?

/-- The element with the greatest key. -/
def last? (s : Ascending key) : Option α := s.items.getLast?

/-! ### Laws -/

@[ext] theorem ext {s t : Ascending key} (h : s.items = t.items) : s = t := by
  cases s; cases t; cases h; rfl

@[simp] theorem items_empty : (∅ : Ascending key).items = [] := rfl

@[simp] theorem items_single (a : α) : (single key a).items = [a] := rfl

@[simp] theorem empty_append (s : Ascending key) : ∅ ++ s = s := rfl

theorem merge_nil (xs : List α) : merge key xs [] = xs := by
  induction xs with
  | nil => rfl
  | cons x xs ih => simp [merge, ih]

@[simp] theorem append_empty (s : Ascending key) : s ++ ∅ = s := by
  ext1
  exact merge_nil s.items

theorem find?_items_cons (a : α) (as : List α) (k : Nat) :
    (a :: as).find? (fun a => key a == k) = if key a = k then some a else as.find? fun a => key a == k := by
  by_cases h : key a = k <;> simp [h]

theorem find?_takeWhile_lt {ys : List α} {n k : Nat} (hs : ys.Pairwise fun a b => key a < key b) :
    (ys.takeWhile fun y => decide (key y < n)).find? (fun a => key a == k) =
      if k < n then ys.find? fun a => key a == k else none := by
  induction ys with
  | nil => simp
  | cons y ys ih =>
    obtain ⟨hy, hs⟩ := List.pairwise_cons.mp hs
    by_cases hn : key y < n
    · simp only [List.takeWhile_cons, hn, decide_true, if_true, find?_items_cons, ih hs]
      grind
    · have hnone : k < n → ys.find? (fun a => key a == k) = none := by
        intro hk
        rw [List.find?_eq_none]
        intro z hz
        have := hy z hz
        simp; omega
      by_cases hk : k < n
      · have hne : key y ≠ k := by omega
        simp [hn, hk, hne, hnone hk]
      · simp [hn, hk]

theorem find?_dropWhile_le {ys : List α} {n k : Nat} (hs : ys.Pairwise fun a b => key a < key b) :
    (ys.dropWhile fun y => decide (key y ≤ n)).find? (fun a => key a == k) =
      if n < k then ys.find? fun a => key a == k else none := by
  induction ys with
  | nil => simp
  | cons y ys ih =>
    obtain ⟨hy, hs⟩ := List.pairwise_cons.mp hs
    by_cases hn : key y ≤ n
    · simp only [List.dropWhile_cons, hn, decide_true, if_true, find?_items_cons, ih hs]
      grind
    · have hnone : ¬ n < k → ys.find? (fun a => key a == k) = none := by
        intro hk
        rw [List.find?_eq_none]
        intro z hz
        have := hy z hz
        simp; omega
      by_cases hk : n < k
      · simp [hn, hk]
      · have hne : key y ≠ k := by omega
        simpa [hn, hk, hne] using hnone hk

theorem find?_merge {xs ys : List α} (hx : xs.Pairwise fun a b => key a < key b)
    (hy : ys.Pairwise fun a b => key a < key b) (k : Nat) :
    (merge key xs ys).find? (fun a => key a == k) =
      (xs.find? fun a => key a == k).or (ys.find? fun a => key a == k) := by
  induction xs generalizing ys with
  | nil => simp [merge]
  | cons x xs ih =>
    obtain ⟨hmin, hx⟩ := List.pairwise_cons.mp hx
    have hdrop := hy.sublist (List.dropWhile_sublist (fun y => decide (key y ≤ key x)))
    rw [merge, List.find?_append, find?_takeWhile_lt hy, find?_items_cons, find?_items_cons,
      ih hx hdrop, find?_dropWhile_le hy]
    have hnone : k < key x → xs.find? (fun a => key a == k) = none := by
      intro hk
      rw [List.find?_eq_none]
      intro z hz
      have := hmin z hz
      simp; omega
    by_cases h1 : key x = k
    · simp [h1]
    · by_cases h2 : k < key x
      · simp only [h1, h2, if_true, if_false, hnone h2, Option.none_or]
        have h3 : ¬ key x < k := by omega
        simp [h3]
      · have h3 : key x < k := by omega
        simp [h1, h2, h3]

/-- **Left bias.** What is found after joining is what the left side has, else what the right has. -/
theorem find?_append (s t : Ascending key) (k : Nat) :
    (s ++ t).find? k = (s.find? k).or (t.find? k) :=
  find?_merge s.sorted t.sorted k

theorem eq_of_find?_items {xs ys : List α} (hx : xs.Pairwise fun a b => key a < key b)
    (hy : ys.Pairwise fun a b => key a < key b)
    (h : ∀ k, xs.find? (fun a => key a == k) = ys.find? fun a => key a == k) : xs = ys := by
  induction xs generalizing ys with
  | nil =>
    cases ys with
    | nil => rfl
    | cons y ys => simpa using h (key y)
  | cons x xs ih =>
    cases ys with
    | nil => simpa using h (key x)
    | cons y ys =>
      obtain ⟨hxmin, hx⟩ := List.pairwise_cons.mp hx
      obtain ⟨hymin, hys⟩ := List.pairwise_cons.mp hy
      have above : ∀ {z : α} {zs : List α}, (∀ w ∈ zs, key z < key w) → ∀ k ≤ key z,
          zs.find? (fun a => key a == k) = none := by
        intro z zs hmin k hk
        rw [List.find?_eq_none]
        intro w hw
        have := hmin w hw
        simp; omega
      have hkey : key x = key y := by
        have h1 := h (key x)
        have h2 := h (key y)
        rw [find?_items_cons, find?_items_cons] at h1 h2
        rcases Nat.lt_trichotomy (key x) (key y) with hlt | heq | hgt
        · rw [above hymin _ (by omega)] at h1; grind
        · exact heq
        · rw [above hxmin _ (by omega)] at h2; grind
      have hxy : x = y := by
        have h1 := h (key x)
        rw [find?_items_cons, find?_items_cons] at h1
        simpa [hkey] using h1
      subst hxy
      congr 1
      refine ih hx hys fun k => ?_
      have hk := h k
      rw [find?_items_cons, find?_items_cons] at hk
      by_cases hkx : key x = k
      · rw [above hxmin _ (by omega), above hymin _ (by omega)]
      · simpa [hkx] using hk

/-- Two of them are equal when the same is found in both under every key. -/
theorem ext_find? {s t : Ascending key} (h : ∀ k, s.find? k = t.find? k) : s = t :=
  ext (eq_of_find?_items s.sorted t.sorted h)

theorem append_assoc (s t u : Ascending key) : s ++ t ++ u = s ++ (t ++ u) :=
  ext_find? fun k => by simp [find?_append, Option.or_assoc]

theorem append_self (s : Ascending key) : s ++ s = s :=
  ext_find? fun k => by simp [find?_append]

@[simp] theorem find?_empty (k : Nat) : (∅ : Ascending key).find? k = none := rfl

theorem find?_single (a : α) (k : Nat) :
    (single key a).find? k = if key a = k then some a else none := by
  simp only [find?, items_single, find?_items_cons, List.find?_nil]

/-! ### From lists -/

@[simp] theorem ofList_nil : ofList key [] = ∅ := rfl

@[simp] theorem ofList_singleton (a : α) : ofList key [a] = single key a := rfl

theorem foldl_insert (s : Ascending key) (as : List α) : as.foldl insert s = s ++ ofList key as := by
  induction as generalizing s with
  | nil => exact s.append_empty.symm
  | cons a as ih =>
    have htail : ofList key (a :: as) = single key a ++ ofList key as := ih _
    rw [List.foldl_cons, ih, htail, insert, append_assoc]

theorem ofList_append (as bs : List α) : ofList key (as ++ bs) = ofList key as ++ ofList key bs := by
  rw [ofList, List.foldl_append, foldl_insert]
  rfl

/-- A list is kept as what its first elements are: of several with one key, the first is found. -/
theorem find?_ofList (as : List α) (k : Nat) :
    (ofList key as).find? k = as.find? fun a => key a == k := by
  induction as with
  | nil => rfl
  | cons a as ih =>
    rw [← List.singleton_append, ofList_append, find?_append, ih, ofList_singleton, find?_single,
      List.find?_append, find?_items_cons]
    rfl

/-! ### Elements -/

theorem eq_of_key_eq {s : Ascending key} {a b : α} (ha : a ∈ s.items) (hb : b ∈ s.items)
    (h : key a = key b) : a = b := by
  obtain ⟨items, sorted⟩ := s
  induction sorted with
  | nil => cases ha
  | cons hmin _ ih =>
    rcases List.mem_cons.mp ha with rfl | ha' <;> rcases List.mem_cons.mp hb with rfl | hb'
    · rfl
    · exact absurd h (Nat.ne_of_lt (hmin b hb'))
    · exact absurd h.symm (Nat.ne_of_lt (hmin a ha'))
    · exact ih ha' hb'

/-- The last element has the greatest key. -/
theorem exists_last {s : Ascending key} (h : s.items ≠ []) :
    ∃ last, s.last? = some last ∧ last ∈ s.items ∧ ∀ a ∈ s.items, key a ≤ key last := by
  obtain ⟨before, last, hitems⟩ := (List.eq_nil_or_concat s.items).resolve_left h
  rw [List.concat_eq_append] at hitems
  have hsorted := s.sorted
  rw [hitems] at hsorted
  have hbefore := (List.pairwise_append.mp hsorted).2.2
  refine ⟨last, by simp [last?, hitems], by simp [hitems], fun a ha => ?_⟩
  rcases List.mem_append.mp (hitems ▸ ha) with ha | ha
  · exact Nat.le_of_lt (hbefore a ha last (List.mem_singleton_self last))
  · exact Nat.le_of_eq (congrArg key (List.mem_singleton.mp ha))

theorem find?_eq_some_iff {s : Ascending key} {k : Nat} {a : α} :
    s.find? k = some a ↔ a ∈ s.items ∧ key a = k := by
  constructor
  · intro h
    exact ⟨List.mem_of_find?_eq_some h, by simpa using List.find?_some h⟩
  · rintro ⟨ha, rfl⟩
    cases h : s.find? (key a) with
    | none => simpa using List.find?_eq_none.mp h a ha
    | some b =>
      have hb : key b = key a := by simpa using List.find?_some h
      rw [eq_of_key_eq (List.mem_of_find?_eq_some h) ha hb]

theorem mem_of_mem_ofList {as : List α} {a : α} (h : a ∈ (ofList key as).items) : a ∈ as := by
  have hfind : (ofList key as).find? (key a) = some a := find?_eq_some_iff.mpr ⟨h, rfl⟩
  rw [find?_ofList] at hfind
  exact List.mem_of_find?_eq_some hfind

/-- Joining adds nothing for keys that are there already. -/
theorem append_eq_left {s t : Ascending key} (h : ∀ b ∈ t.items, ∃ a ∈ s.items, key a = key b) :
    s ++ t = s := by
  refine ext_find? fun k => ?_
  rw [find?_append]
  cases ht : t.find? k with
  | none => exact Option.or_none
  | some b =>
    obtain ⟨hb, rfl⟩ := find?_eq_some_iff.mp ht
    obtain ⟨a, ha, hkey⟩ := h b hb
    rw [find?_eq_some_iff.mpr ⟨ha, hkey⟩]
    rfl

/-- Two of them with the same elements are equal. -/
theorem ext_mem {s t : Ascending key} (h : ∀ a, a ∈ s.items ↔ a ∈ t.items) : s = t := by
  refine ext_find? fun k => Option.ext fun a => ?_
  rw [find?_eq_some_iff, find?_eq_some_iff, h]

/-- An ascending list with the elements of one of them is its list of items. -/
theorem items_eq_of_mem_iff {s : Ascending key} {l : List α}
    (hl : l.Pairwise fun a b => key a < key b) (h : ∀ a, a ∈ s.items ↔ a ∈ l) : s.items = l :=
  congrArg items (ext_mem (t := ⟨l, hl⟩) h)

/-- Where equal keys mean equal elements, joining keeps every element. -/
theorem mem_append {s t : Ascending key} {a : α}
    (h : ∀ x ∈ s.items, ∀ y ∈ t.items, key x = key y → x = y) :
    a ∈ (s ++ t).items ↔ a ∈ s.items ∨ a ∈ t.items := by
  refine ⟨mem_merge, fun ha => ?_⟩
  have hfind : (s ++ t).find? (key a) = some a := by
    rw [find?_append]
    cases hs : s.find? (key a) with
    | none =>
      rcases ha with ha | ha
      · rw [find?_eq_some_iff.mpr ⟨ha, rfl⟩] at hs
        cases hs
      · exact find?_eq_some_iff.mpr ⟨ha, rfl⟩
    | some b =>
      obtain ⟨hb, hkey⟩ := find?_eq_some_iff.mp hs
      rcases ha with ha | ha
      · rw [eq_of_key_eq hb ha hkey]
        rfl
      · rw [h b hb a ha hkey]
        rfl
  exact (find?_eq_some_iff.mp hfind).1

end Ascending

end Curtail
