/-
# Identities stay

A memo hands an identity to each key once: registering only ever adds keys at
the end, so an identity handed out is kept, and no two keys share one. What is
remembered is filed under identities, hence indirectly under keys.

Depths are counted by identity, hence also under keys.

A property of all that is remembered is kept when matches that have it are
filed: that is how it gets into every session that calls leave behind.

Key definitions: `Memo.idOf?`, `Memo.depth`, `Session.Grows`.
Key theorems: `Memo.idOf?_register`, `Memo.idOf?_mono`, `Memo.idOf?_of_prefix`,
`Memo.idOf?_inj`, `Memo.depth_of_prefix`, `Session.forall_grow`.
-/
import Curtail.Parse.Session

namespace Curtail

namespace Memo

/-- The identity of a key, if it has one. -/
def idOf? (m : Memo) (key : Key) : Option Nat := m.keys.findIdx? (· == key)

theorem idOf?_eq_some {m : Memo} {key : Key} {id : Nat} (h : m.idOf? key = some id) :
    m.keys[id]? = some key := by
  obtain ⟨hlt, hkey, -⟩ := List.findIdx?_eq_some_iff_getElem.mp h
  rw [List.getElem?_eq_getElem hlt, Option.some.injEq]
  simpa using hkey

theorem idOf?_lt {m : Memo} {key : Key} {id : Nat} (h : m.idOf? key = some id) :
    id < m.keys.length :=
  (List.getElem?_eq_some_iff.mp (idOf?_eq_some h)).1

/-- No two keys share an identity. -/
theorem idOf?_inj {m : Memo} {key key' : Key} {id : Nat} (h : m.idOf? key = some id)
    (h' : m.idOf? key' = some id) : key = key' :=
  Option.some.inj ((idOf?_eq_some h).symm.trans (idOf?_eq_some h'))

/-- An identity handed out is kept when further keys are registered. -/
theorem idOf?_mono {m m' : Memo} (hm : m.keys <+: m'.keys) {key : Key} {id : Nat}
    (h : m.idOf? key = some id) : m'.idOf? key = some id := by
  obtain ⟨more, hmore⟩ := hm
  unfold idOf? at h ⊢
  rw [← hmore, List.findIdx?_append, h]
  rfl

/-- Further keys get identities that were not handed out before. -/
theorem idOf?_of_prefix {m m' : Memo} (hm : m.keys <+: m'.keys) {key : Key} {id : Nat}
    (h : m'.idOf? key = some id) :
    m.idOf? key = some id ∨ m.idOf? key = none ∧ m.keys.length ≤ id := by
  cases hold : m.idOf? key with
  | some id' => exact .inl (by rw [← idOf?_mono hm hold, h])
  | none =>
    refine .inr ⟨rfl, Nat.le_of_not_lt fun hlt => ?_⟩
    have hmem := idOf?_eq_some h
    obtain ⟨more, hmore⟩ := hm
    rw [← hmore, List.getElem?_append_left hlt] at hmem
    have := List.findIdx?_eq_none_iff.mp hold key (List.mem_of_getElem? hmem)
    simp at this

theorem idOf?_eq_none_of_prefix {m m' : Memo} (hm : m.keys <+: m'.keys) {key : Key}
    (h : m'.idOf? key = none) : m.idOf? key = none := by
  cases hold : m.idOf? key with
  | none => rfl
  | some id => rw [idOf?_mono hm hold] at h; cases h

/-! ### Registering -/

theorem keys_register (m : Memo) (key : Key) : m.keys <+: (m.register key).2.keys := by
  unfold register
  split
  · exact List.prefix_rfl
  · exact List.prefix_append _ _

/-- After registering, the key has the identity that was handed out. -/
theorem idOf?_register (m : Memo) (key : Key) :
    (m.register key).2.idOf? key = some (m.register key).1 := by
  unfold register
  split
  · rename_i id hid
    exact hid
  · rename_i hnone
    simp only [idOf?, List.findIdx?_append, hnone, Option.none_or]
    simp

@[simp] theorem known_register (m : Memo) (key : Key) (id offset : Nat) :
    (m.register key).2.known id offset = m.known id offset := by
  unfold register
  split <;> rfl

/-! ### Depths -/

/-- How often the sequence with a key has been entered. -/
def depth (memo : Memo) (d : Tally) (key : Key) : Nat := (memo.idOf? key).elim 0 d.get

theorem depth_of_idOf? {memo : Memo} {d : Tally} {key : Key} {id : Nat}
    (h : memo.idOf? key = some id) : memo.depth d key = d.get id := by
  rw [depth, h]
  rfl

theorem depth_mono {memo memo' : Memo} {d : Tally} (h : memo.keys <+: memo'.keys) (key : Key) :
    memo.depth d key ≤ memo'.depth d key := by
  cases hid : memo.idOf? key with
  | none => rw [depth, hid]; exact Nat.zero_le _
  | some id =>
    apply Nat.le_of_eq
    rw [depth_of_idOf? hid, depth_of_idOf? (idOf?_mono h hid)]

theorem depth_inc (memo : Memo) (d : Tally) (id : Nat) (key : Key) :
    memo.depth d key ≤ memo.depth (d.inc id) key := by
  cases hkey : memo.idOf? key with
  | none => rw [depth, hkey]; exact Nat.zero_le _
  | some id' =>
    rw [depth_of_idOf? hkey, depth_of_idOf? hkey, Tally.get_inc]
    split
    · rename_i heq
      subst heq
      exact Nat.le_succ _
    · exact Nat.le_refl _

theorem depth_inc_self {memo : Memo} {key : Key} {id : Nat} (h : memo.idOf? key = some id)
    (d : Tally) : memo.depth (d.inc id) key = memo.depth d key + 1 := by
  rw [depth_of_idOf? h, depth_of_idOf? h, Tally.get_inc, if_pos rfl]

theorem depth_inc_ne {memo : Memo} {key key' : Key} {id : Nat} (h : memo.idOf? key = some id)
    (hne : key ≠ key') (d : Tally) : memo.depth (d.inc id) key' = memo.depth d key' := by
  cases hkey : memo.idOf? key' with
  | none => rw [depth, depth, hkey]; rfl
  | some id' =>
    rw [depth_of_idOf? hkey, depth_of_idOf? hkey, Tally.get_inc, if_neg]
    rintro rfl
    exact hne (idOf?_inj h hkey)

/-- Further keys change no depth, if identities not handed out yet count for nothing. -/
theorem depth_of_prefix {memo memo' : Memo} (hm : memo.keys <+: memo'.keys) {d : Tally}
    (h : ∀ id, memo.keys.length ≤ id → d.get id = 0) (key : Key) :
    memo'.depth d key = memo.depth d key := by
  cases hnew : memo'.idOf? key with
  | none => rw [depth, depth, idOf?_eq_none_of_prefix hm hnew, hnew]
  | some id =>
    rcases idOf?_of_prefix hm hnew with hold | ⟨hold, hge⟩
    · rw [depth_of_idOf? hnew, depth_of_idOf? hold]
    · rw [depth_of_idOf? hnew, h id hge, depth, hold]
      rfl

theorem depth_register {memo : Memo} {d : Tally} (h : ∀ id, memo.keys.length ≤ id → d.get id = 0)
    (key key' : Key) : (memo.register key).2.depth d key' = memo.depth d key' :=
  depth_of_prefix (memo.keys_register key) h key'

end Memo

namespace Session

/-- `s'` has all identities of `s`, and perhaps more. -/
def Grows (s s' : Session) : Prop := s.memo.keys <+: s'.memo.keys

theorem Grows.refl (s : Session) : s.Grows s := List.prefix_rfl

theorem Grows.trans {s s' s'' : Session} (h : s.Grows s') (h' : s'.Grows s'') : s.Grows s'' :=
  List.IsPrefix.trans h h'

theorem grows_register (s : Session) (key : Key) : s.Grows (s.countCall.register key).2 :=
  Memo.keys_register s.memo.countCall key

theorem calls_register (s : Session) (key : Key) :
    (s.register key).2.memo.calls = s.memo.calls := by
  simp only [register, Memo.register]
  split <;> rfl

theorem idOf?_register (s : Session) (key : Key) :
    (s.countCall.register key).2.memo.idOf? key = some (s.countCall.register key).1 :=
  Memo.idOf?_register s.memo.countCall key

@[simp] theorem known_register (s : Session) (key : Key) (id offset : Nat) :
    (s.register key).2.memo.known id offset = s.memo.known id offset :=
  Memo.known_register s.memo key id offset

theorem known_grow (s : Session) (id offset id' offset' : Nat) (found : Matches) :
    (s.grow id offset found).2.memo.known id' offset' =
      if id = id' ∧ offset = offset' then found ++ s.memo.known id offset
      else s.memo.known id' offset' :=
  Memo.known_grow s.memo id offset id' offset' found

@[simp] theorem known_forget (s : Session) (id offset : Nat) :
    s.forget.memo.known id offset = ∅ :=
  Memo.known_forget s.memo id offset

/-! ### Properties of all that is remembered -/

section Remembered

variable {Q : Nat → Nat → Match → Prop} {s s' : Session}

theorem forall_of_forgotten (h : ∀ id offset, s.memo.known id offset = ∅) :
    ∀ id offset, ∀ m ∈ (s.memo.known id offset).items, Q id offset m := by
  intro id offset m hm
  rw [h] at hm
  cases hm

theorem forall_of_known (hs : ∀ id offset, ∀ m ∈ (s.memo.known id offset).items, Q id offset m)
    (hknown : ∀ id offset, s'.memo.known id offset = s.memo.known id offset) :
    ∀ id offset, ∀ m ∈ (s'.memo.known id offset).items, Q id offset m := by
  intro id offset m hm
  rw [hknown] at hm
  exact hs id offset m hm

/-- What is filed in addition has the property too. -/
theorem forall_grow (hs : ∀ id offset, ∀ m ∈ (s.memo.known id offset).items, Q id offset m)
    {id offset : Nat} {found : Matches} (hfound : ∀ m ∈ Ascending.items found, Q id offset m) :
    ∀ id' offset', ∀ m ∈ ((s.grow id offset found).2.memo.known id' offset').items,
      Q id' offset' m := by
  intro id' offset' m hm
  rw [known_grow] at hm
  split at hm
  · rename_i heq
    obtain ⟨rfl, rfl⟩ := heq
    rcases Ascending.mem_merge hm with hm | hm
    · exact hfound m hm
    · exact hs id offset m hm
  · exact hs id' offset' m hm

end Remembered

end Session

end Curtail
