/-
# What a memo keeps over time

A memo serves requests in any order: keys are registered, calls are counted,
matches are passed for many identities and offsets, and now and then all
matches are forgotten or everything is. What is remembered for an identity and
an offset is settled by the sets passed for just those two since matches were
last forgotten: every end in one of them is there, with the match of the newest
set that has it. Identities are settled by the registrations since the last
reset: a key keeps its identity, no two keys share one, and a new key gets the
least that is free.

Requests come newest first, like the events of a journal.

Key definitions: `Memo.Request`, `Memo.after`, `Memo.passed`, `Memo.named`.
Key theorems: `Memo.known_after`, `Memo.mem_named`, `Memo.newest_kept`.
-/
import Curtail.Proofs.Identity
import Curtail.Proofs.Insertion

namespace Curtail

/-! ### Sets in order of precedence -/

namespace Ascending

variable {α : Type} {key : α → Nat}

/-- Joins sets; of elements with one key the one in the earliest set is kept. -/
def joinAll (sets : List (Ascending key)) : Ascending key := sets.foldr (· ++ ·) ∅

/-- An element is kept if no set before its own has its key. -/
theorem mem_joinAll {sets : List (Ascending key)} {a : α} : a ∈ (joinAll sets).items ↔
    ∃ before s after, sets = before ++ s :: after ∧ a ∈ s.items ∧
      ∀ t ∈ before, ∀ b ∈ t.items, key b ≠ key a := by
  induction sets with
  | nil => exact ⟨nofun, fun ⟨before, _, _, h, _⟩ => by cases before <;> cases h⟩
  | cons first sets ih =>
    show a ∈ (first ++ joinAll sets).items ↔ _
    rw [mem_append_iff, ih]
    constructor
    · rintro (ha | ⟨⟨before, s, after, rfl, ha, hbefore⟩, hfirst⟩)
      · exact ⟨[], first, sets, rfl, ha, nofun⟩
      · exact ⟨first :: before, s, after, rfl, ha, List.forall_mem_cons.mpr ⟨hfirst, hbefore⟩⟩
    · rintro ⟨before, s, after, hsplit, ha, hbefore⟩
      cases before with
      | nil =>
        obtain ⟨rfl, rfl⟩ := List.cons.inj hsplit
        exact .inl ha
      | cons t before =>
        obtain ⟨rfl, htail⟩ := List.cons.inj hsplit
        obtain ⟨hfirst, hbefore⟩ := List.forall_mem_cons.mp hbefore
        exact .inr ⟨⟨before, s, after, htail, ha, hbefore⟩, hfirst⟩

/-- No key is lost. -/
theorem mem_keys_joinAll {sets : List (Ascending key)} {k : Nat} :
    k ∈ (joinAll sets).items.map key ↔ ∃ s ∈ sets, k ∈ s.items.map key := by
  induction sets with
  | nil => simp [joinAll]
  | cons first sets ih =>
    show k ∈ (first ++ joinAll sets).items.map key ↔ _
    simp only [mem_keys_append, ih, List.mem_cons, exists_eq_or_imp]

end Ascending

namespace Memo

/-! ### Requests -/

/-- What a memo can be asked to do. -/
inductive Request where
  | register (key : Key)
  | countCall
  | grow (id offset : Nat) (found : Matches)
  | forget
  | reset

/-- The memo after a request. -/
def serve (m : Memo) : Request → Memo
  | .register key => (m.register key).2
  | .countCall => m.countCall
  | .grow id offset found => (m.grow id offset found).2
  | .forget => m.forget
  | .reset => m.reset

/-- The memo after some requests, the newest first. -/
def after : List Request → Memo
  | [] => .fresh
  | q :: earlier => (after earlier).serve q

/-- The sets that were passed for an identity and an offset since matches were last forgotten, the
newest first. -/
def passed (id offset : Nat) : List Request → List Matches
  | [] => []
  | .forget :: _ => []
  | .reset :: _ => []
  | .grow id' offset' found :: earlier =>
    if id' = id ∧ offset' = offset then found :: passed id offset earlier
    else passed id offset earlier
  | _ :: earlier => passed id offset earlier

/-- The keys that were registered since the last reset, with what was handed out for them, the newest
first. -/
def named : List Request → List (Key × Nat)
  | [] => []
  | .reset :: _ => []
  | .register key :: earlier => (key, ((after earlier).register key).1) :: named earlier
  | _ :: earlier => named earlier

/-! ### Matches -/

/-- What is remembered is what was passed, joined with the newest first. -/
theorem known_after (requests : List Request) (id offset : Nat) :
    (after requests).known id offset = .joinAll (passed id offset requests) := by
  induction requests with
  | nil => exact known_forget .fresh id offset
  | cons q earlier ih =>
    cases q with
    | register key => exact (known_register _ key id offset).trans ih
    | countCall => exact ih
    | grow id' offset' found =>
      show ((after earlier).grow id' offset' found).2.known id offset = _
      rw [known_grow, passed]
      split
      · rename_i heq
        obtain ⟨rfl, rfl⟩ := heq
        rw [ih]
        rfl
      · exact ih
    | forget => exact known_forget _ id offset
    | reset => exact known_forget .fresh id offset

/-! ### Identities -/

theorem idOf?_register_iff {m : Memo} {key key' : Key} {id : Nat} :
    (m.register key).2.idOf? key' = some id ↔
      key' = key ∧ id = (m.register key).1 ∨ m.idOf? key' = some id := by
  constructor
  · intro h
    by_cases heq : key' = key
    · subst heq
      rw [idOf?_register, Option.some.injEq] at h
      exact .inl ⟨rfl, h.symm⟩
    · rcases idOf?_of_prefix (m.keys_register key) h with hold | ⟨hnone, hge⟩
      · exact .inr hold
      · -- only one key was added, and it is another one
        have hadded : (m.register key).2.keys = m.keys ∨
            (m.register key).2.keys = m.keys ++ [key] := by
          unfold register
          split
          · exact .inl rfl
          · exact .inr rfl
        have hmem := idOf?_eq_some h
        rcases hadded with hsame | hmore
        · rw [hsame, List.getElem?_eq_none hge] at hmem
          cases hmem
        · rw [hmore] at hmem
          have hnew : key' ∈ m.keys ∨ key' = key := by simpa using List.mem_of_getElem? hmem
          rcases hnew with hold | hnew
          · simpa using List.findIdx?_eq_none_iff.mp hnone key' hold
          · exact absurd hnew heq
  · rintro (⟨rfl, rfl⟩ | hold)
    · exact m.idOf?_register key'
    · exact idOf?_mono (m.keys_register key) hold

/-- What was handed out since the last reset are the identities that keys have. -/
theorem mem_named {requests : List Request} {key : Key} {id : Nat} :
    (key, id) ∈ named requests ↔ (after requests).idOf? key = some id := by
  induction requests with
  | nil => exact ⟨nofun, nofun⟩
  | cons q earlier ih =>
    cases q with
    | register key' =>
      show (key, id) ∈ (key', ((after earlier).register key').1) :: named earlier ↔
        ((after earlier).register key').2.idOf? key = some id
      rw [idOf?_register_iff, List.mem_cons, Prod.mk.injEq, ih]
    | countCall => exact ih
    | grow id' offset found => exact ih
    | forget => exact ih
    | reset => exact ⟨nofun, nofun⟩

theorem nodup_register {m : Memo} (h : m.keys.Nodup) (key : Key) :
    (m.register key).2.keys.Nodup := by
  unfold register
  split
  · exact h
  · rename_i hnone
    refine List.nodup_append.mpr ⟨h, List.pairwise_singleton _ key, fun a ha b hb => ?_⟩
    rw [List.mem_singleton.mp hb]
    simpa using List.findIdx?_eq_none_iff.mp hnone a ha

theorem nodup_after (requests : List Request) : (after requests).keys.Nodup := by
  induction requests with
  | nil => exact List.nodup_nil
  | cons q earlier ih =>
    cases q with
    | register key => exact nodup_register ih key
    | countCall => exact ih
    | grow id offset found => exact ih
    | forget => exact ih
    | reset => exact List.nodup_nil

/-- The identities in use are those below the number of keys. -/
theorem exists_idOf?_iff {m : Memo} (h : m.keys.Nodup) {id : Nat} :
    (∃ key, m.idOf? key = some id) ↔ id < m.keys.length := by
  constructor
  · rintro ⟨key, hkey⟩
    exact idOf?_lt hkey
  · intro hlt
    refine ⟨m.keys[id], List.findIdx?_eq_some_iff_getElem.mpr ⟨hlt, by simp, fun j hj => ?_⟩⟩
    have hne := List.pairwise_iff_getElem.mp h j id (by omega) hlt hj
    simpa using hne

theorem register_of_idOf?_eq_none {m : Memo} {key : Key} (h : m.idOf? key = none) :
    (m.register key).1 = m.keys.length := by
  unfold idOf? at h
  unfold register
  rw [h]

/-! ### All requests together -/

/-- **The newest match is kept, and identities are dense.** Whatever a memo was asked before, passing
matches for an identity and an offset yields the set of all ends passed for the two since matches
were last forgotten, each with its newest match, and leaves what is remembered otherwise. A key that
was registered since the last reset has the identity it was given then, no other key has it, and a
new key is given the least identity that is free. -/
theorem newest_kept (requests : List Request) :
    (∀ (id offset : Nat) (found : Matches),
      let grown := (after requests).grow id offset found
      let sets := found :: passed id offset requests
      (grown.1.items.Pairwise fun a b => a.stopOffset < b.stopOffset) ∧
        (∀ stop, (∃ m ∈ grown.1.items, m.stopOffset = stop) ↔
          ∃ s ∈ sets, ∃ m ∈ s.items, m.stopOffset = stop) ∧
        (∀ m, m ∈ grown.1.items ↔ ∃ newer s older, sets = newer ++ s :: older ∧ m ∈ s.items ∧
          ∀ t ∈ newer, ∀ x ∈ t.items, x.stopOffset ≠ m.stopOffset) ∧
        grown.2.known id offset = grown.1 ∧
        (∀ id' offset', (id', offset') ≠ (id, offset) →
          grown.2.known id' offset' = (after requests).known id' offset') ∧
        grown.2.keys = (after requests).keys) ∧
    (∀ key id, (key, id) ∈ named requests → ((after requests).register key).1 = id) ∧
    (∀ key key' id, (key, id) ∈ named requests → (key', id) ∈ named requests → key = key') ∧
    (∀ key, (∀ id, (key, id) ∉ named requests) →
      ∀ id, id < ((after requests).register key).1 ↔ ∃ key', (key', id) ∈ named requests) := by
  refine ⟨fun id offset found => ?_, fun key id h => ?_, fun key key' id h h' => ?_,
    fun key hnew id => ?_⟩
  · have hgrown : ((after requests).grow id offset found).1 =
        .joinAll (found :: passed id offset requests) :=
      congrArg (found ++ ·) (known_after requests id offset)
    refine ⟨Ascending.sorted _, fun stop => ?_, fun m => ?_, ?_, fun id' offset' hne => ?_, rfl⟩
    · rw [hgrown]
      simpa only [List.mem_map] using
        Ascending.mem_keys_joinAll
    · rw [hgrown, Ascending.mem_joinAll]
    · rw [known_grow, if_pos ⟨rfl, rfl⟩]
      rfl
    · rw [known_grow, if_neg]
      rintro ⟨rfl, rfl⟩
      exact hne rfl
  · have hkept := idOf?_mono ((after requests).keys_register key) (mem_named.mp h)
    rw [idOf?_register] at hkept
    exact Option.some.inj hkept
  · exact idOf?_inj (mem_named.mp h) (mem_named.mp h')
  · have hnone : (after requests).idOf? key = none :=
      Option.eq_none_iff_forall_ne_some.mpr fun id hid => hnew id (mem_named.mpr hid)
    rw [register_of_idOf?_eq_none hnone, ← exists_idOf?_iff (nodup_after requests)]
    simp only [mem_named]

end Memo

end Curtail
