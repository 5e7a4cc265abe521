/-
# The language of JSON documents

What a document is and what it stands for, said without the engine: a value is
one token, or items between brackets with a comma between any two of them. An
object keeps, of several members with one key, the last.

The language is given twice, as a relation with one constructor for each
production, and as a plain reader that looks at each place once and never goes
back. The two agree because of what tokens can start with: where a list may
end no item can start, and no two kinds of value start alike, but for the two
kinds of numbers.

Key definitions: `Json.Denotes`, `Json.LastWins`, `Json.readValue`,
`Json.read?`.
Key theorems: `Json.denotes_iff`, `Json.lastWins_iff`.
-/
import Curtail.Json.Grammar
import Curtail.Proofs.Tokens
import Mathlib.Data.String.Basic

namespace Curtail
namespace Json

/-! ### Productions -/

/-- Items with a comma between any two of them. If it has `begun`, a comma comes first. -/
inductive Series {α : Type} (Item : Reader → α → Reader → Prop) :
    Bool → Reader → List α → Reader → Prop
  | stop {begun : Bool} {r : Reader} : Series Item begun r [] r
  | first {r r₁ r₂ : Reader} {a : α} {as : List α} :
    Item r a r₁ → Series Item true r₁ as r₂ → Series Item false r (a :: as) r₂
  | more {r r₁ r₂ r₃ : Reader} {c : Value} {a : α} {as : List α} :
    token? (.rune ',' ",") r = some (c, r₁) → Item r₁ a r₂ → Series Item true r₂ as r₃ →
      Series Item true r (a :: as) r₃

/-- The map that some entries make: its keys ascend, and each has the value it was given last. -/
structure LastWins (entries map : List (String × Value)) : Prop where
  sorted : map.Pairwise fun a b => a.1 < b.1
  lookup : ∀ key, map.lookup key = entries.reverse.lookup key

mutual

/-- From the first reader up to the second stands a document of the value. Each of its tokens is looked
for behind the blanks before it, where the source skips blanks, as `token?_behind_blanks` says. -/
inductive Denotes : Reader → Value → Reader → Prop
  | text {r r' : Reader} {v : Value} : token? .quoted r = some (v, r') → Denotes r v r'
  | fraction {r r' : Reader} {v : Value} : token? .fraction r = some (v, r') → Denotes r v r'
  | integer {r r' : Reader} {v : Value} : token? .fraction r = none →
    token? .integer r = some (v, r') → Denotes r v r'
  | truth {r r' : Reader} {v : Value} : token? .truth r = some (v, r') → Denotes r v r'
  | null {r r' : Reader} {v : Value} : token? (.nil "null") r = some (v, r') → Denotes r v r'
  | array {r r₁ r₂ r₃ : Reader} {b c : Value} {vs : List Value} :
    token? (.rune '[' "ARR_START") r = some (b, r₁) → Series Denotes false r₁ vs r₂ →
      token? (.rune ']' "ARR_END") r₂ = some (c, r₃) → Denotes r (.list vs) r₃
  | object {r r₁ r₂ r₃ : Reader} {b c : Value} {es map : List (String × Value)} :
    token? (.rune '\x7b' "OBJ_START") r = some (b, r₁) → Series Member false r₁ es r₂ →
      token? (.rune '\x7d' "OBJ_END") r₂ = some (c, r₃) → LastWins es map →
      Denotes r (.map map) r₃

/-- From the first reader up to the second stands a key with a value. -/
inductive Member : Reader → String × Value → Reader → Prop
  | mk {r r₁ r₂ r₃ : Reader} {key : String} {c v : Value} :
    token? .quoted r = some (.text key, r₁) → token? (.rune ':' ":") r₁ = some (c, r₂) →
      Denotes r₂ v r₃ → Member r (key, v) r₃

end

/-! ### A plain reader -/

/-- The items after the first, each with a comma before it, as many as there are. -/
def readTail {α : Type} (item : Reader → Option (α × Reader)) : Nat → Reader → List α × Reader
  | 0, r => ([], r)
  | n + 1, r =>
    match (token? (.rune ',' ",") r).bind fun x => item x.2 with
    | none => ([], r)
    | some (a, r') => (a :: (readTail item n r').1, (readTail item n r').2)

/-- As many items as there are. -/
def readItems {α : Type} (item : Reader → Option (α × Reader)) (n : Nat) (r : Reader) :
    List α × Reader :=
  match item r with
  | none => ([], r)
  | some (a, r') => (a :: (readTail item n r').1, (readTail item n r').2)

/-- Items between brackets. -/
def readBetween {α : Type} (opening closing : Terminal) (items : Reader → List α × Reader)
    (make : List α → Value) (r : Reader) : Option (Value × Reader) :=
  (token? opening r).bind fun x =>
    (token? closing (items x.2).2).map fun y => (make (items x.2).1, y.2)

/-- A key with a value. -/
def readMember (value : Reader → Option (Value × Reader)) (r : Reader) :
    Option ((String × Value) × Reader) :=
  match token? .quoted r with
  | some (.text key, r₁) =>
    (token? (.rune ':' ":") r₁).bind fun x => (value x.2).map fun y => ((key, y.1), y.2)
  | _ => none

def readArray (value : Reader → Option (Value × Reader)) (n : Nat) (r : Reader) :
    Option (Value × Reader) :=
  readBetween (.rune '[' "ARR_START") (.rune ']' "ARR_END") (readItems value n) .list r

def readObject (value : Reader → Option (Value × Reader)) (n : Nat) (r : Reader) :
    Option (Value × Reader) :=
  readBetween (.rune '\x7b' "OBJ_START") (.rune '\x7d' "OBJ_END")
    (readItems (readMember value) n) Value.ofEntries r

/-- One value; the fuel bounds how deep brackets nest and how many items they hold. -/
def readValue : Nat → Reader → Option (Value × Reader)
  | 0, _ => none
  | n + 1, r =>
    (token? .quoted r).or <| (token? .fraction r).or <| (token? .integer r).or <|
      (token? .truth r).or <| (token? (.nil "null") r).or <|
      (readArray (readValue n) n r).or <| readObject (readValue n) n r

/-- The value that a document starts with, and the reader after it. -/
def read? (r : Reader) : Option (Value × Reader) := readValue (r.remaining + 1) r

/-! ### Maps -/

section Maps

variable {key : String} {value : Value} {entries map map' : List (String × Value)}

theorem lookup_cons (k : String) (e : String × Value) (es : List (String × Value)) :
    (e :: es).lookup k = if k = e.1 then some e.2 else es.lookup k := by
  rw [List.lookup_cons]
  by_cases h : k = e.1
  · simp [h]
  · simp [h, beq_eq_false_iff_ne.mpr h]

theorem lookup_insertEntry (k : String) : ∀ es : List (String × Value),
    (Value.insertEntry key value es).lookup k = if k = key then some value else es.lookup k
  | [] => lookup_cons k (key, value) []
  | (k', v') :: es => by
    unfold Value.insertEntry
    split
    · exact lookup_cons k (key, value) _
    · split
      · rename_i heq
        subst heq
        rw [lookup_cons, lookup_cons]
        by_cases h : k = key <;> simp [h]
      · rename_i hne
        rw [lookup_cons, lookup_cons, lookup_insertEntry k es]
        by_cases h : k = k'
        · have : k ≠ key := fun heq => hne (heq.symm.trans h)
          simp [h, Ne.symm hne]
        · simp [h]

theorem sorted_insertEntry (key : String) (value : Value) (h : map.Pairwise fun a b => a.1 < b.1) :
    (Value.insertEntry key value map).Pairwise fun a b => a.1 < b.1 := by
  induction map with
  | nil => simp [Value.insertEntry]
  | cons e es ih =>
    obtain ⟨k, v⟩ := e
    obtain ⟨hmin, hes⟩ := List.pairwise_cons.mp h
    unfold Value.insertEntry
    split
    · rename_i hlt
      refine List.pairwise_cons.mpr ⟨fun e he => ?_, h⟩
      rcases List.mem_cons.mp he with rfl | he
      · exact hlt
      · exact hlt.trans (hmin e he)
    · split
      · rename_i heq
        subst heq
        exact List.pairwise_cons.mpr ⟨hmin, hes⟩
      · rename_i hnlt hne
        refine List.pairwise_cons.mpr ⟨fun e he => ?_, ih hes⟩
        have hkeys := (Value.keys_insertEntry key e.1 value es).mp (List.mem_map_of_mem he)
        rcases hkeys with heq | hmem
        · rw [heq]
          exact lt_of_le_of_ne (not_lt.mp hnlt) (Ne.symm hne)
        · obtain ⟨e', he', heq⟩ := List.mem_map.mp hmem
          rw [← heq]
          exact hmin e' he'

theorem foldl_insertEntry (entries : List (String × Value))
    (h : map.Pairwise fun a b => a.1 < b.1) :
    ((entries.foldl (fun m e => Value.insertEntry e.1 e.2 m) map).Pairwise fun a b => a.1 < b.1) ∧
      ∀ k, (entries.foldl (fun m e => Value.insertEntry e.1 e.2 m) map).lookup k =
        (entries.reverse.lookup k).or (map.lookup k) := by
  induction entries generalizing map with
  | nil => exact ⟨h, fun k => rfl⟩
  | cons e es ih =>
    obtain ⟨hsorted, hlookup⟩ := ih (sorted_insertEntry e.1 e.2 h)
    refine ⟨hsorted, fun k => (hlookup k).trans ?_⟩
    rw [lookup_insertEntry, List.reverse_cons, List.lookup_append, lookup_cons, Option.or_assoc]
    by_cases hk : k = e.1 <;> simp [hk]

theorem lookup_eq_none {k : String} (h : ∀ e ∈ map, k < e.1) : map.lookup k = none := by
  rw [List.lookup_eq_none_iff]
  intro e he
  exact bne_iff_ne.mpr (ne_of_lt (h e he))

/-- Two maps in ascending order are equal if they give every key the same value. -/
theorem eq_of_lookup (h : map.Pairwise fun a b => a.1 < b.1)
    (h' : map'.Pairwise fun a b => a.1 < b.1) (hlookup : ∀ k, map.lookup k = map'.lookup k) :
    map = map' := by
  induction map generalizing map' with
  | nil =>
    cases map' with
    | nil => rfl
    | cons e' es' =>
      have := hlookup e'.1
      rw [lookup_cons, if_pos rfl] at this
      cases this
  | cons e es ih =>
    cases map' with
    | nil =>
      have := hlookup e.1
      rw [lookup_cons, if_pos rfl] at this
      cases this
    | cons e' es' =>
      obtain ⟨hmin, hes⟩ := List.pairwise_cons.mp h
      obtain ⟨hmin', hes'⟩ := List.pairwise_cons.mp h'
      have hkey : e.1 = e'.1 := by
        rcases lt_trichotomy e.1 e'.1 with hlt | heq | hgt
        · have := hlookup e.1
          rw [lookup_cons, if_pos rfl, lookup_cons, if_neg (ne_of_lt hlt),
            lookup_eq_none fun x hx => hlt.trans (hmin' x hx)] at this
          cases this
        · exact heq
        · have := hlookup e'.1
          rw [lookup_cons, if_neg (ne_of_lt hgt), lookup_cons, if_pos rfl,
            lookup_eq_none fun x hx => hgt.trans (hmin x hx)] at this
          cases this
      have hvalue : e.2 = e'.2 := by
        have := hlookup e.1
        rw [lookup_cons, if_pos rfl, lookup_cons, if_pos hkey] at this
        exact Option.some.inj this
      obtain rfl : e = e' := Prod.ext hkey hvalue
      refine congrArg (e :: ·) (ih hes hes' fun k => ?_)
      have := hlookup k
      rw [lookup_cons, lookup_cons] at this
      by_cases hk : k = e.1
      · subst hk
        rw [lookup_eq_none hmin, lookup_eq_none hmin']
      · rwa [if_neg hk, if_neg hk] at this

/-- What entries make is the map they are put into one after the other. -/
theorem lastWins_iff : LastWins entries map ↔ Value.map map = Value.ofEntries entries := by
  obtain ⟨hsorted, hlookup⟩ := foldl_insertEntry entries .nil
  simp only [List.lookup_nil, Option.or_none] at hlookup
  constructor
  · intro h
    exact congrArg Value.map (eq_of_lookup h.sorted hsorted fun k =>
      (h.lookup k).trans (hlookup k).symm)
  · intro h
    simp only [Value.ofEntries, Value.map.injEq] at h
    subst h
    exact ⟨hsorted, hlookup⟩

theorem mem_keys_iff_lookup : key ∈ entries.map Prod.fst ↔ entries.lookup key ≠ none := by
  rw [Ne, List.lookup_eq_none_iff, List.mem_map]
  constructor
  · rintro ⟨e, he, rfl⟩ h
    exact absurd (h e he) (by simp)
  · intro h
    by_contra hno
    exact h fun e he => bne_iff_ne.mpr fun heq => hno ⟨e, he, heq.symm⟩

/-- No key is lost in a map and none is added. -/
theorem LastWins.mem_keys_iff (h : LastWins entries map) (key : String) :
    key ∈ map.map Prod.fst ↔ key ∈ entries.map Prod.fst := by
  rw [mem_keys_iff_lookup, h.lookup, ← mem_keys_iff_lookup, List.map_reverse, List.mem_reverse]

end Maps

/-! ### The reader reads documents -/

section Sound

variable {α : Type} {item : Reader → Option (α × Reader)} {Item : Reader → α → Reader → Prop}

theorem readTail_sound (hitem : ∀ {r a r'}, item r = some (a, r') → Item r a r') :
    ∀ (n : Nat) (r : Reader), Series Item true r (readTail item n r).1 (readTail item n r).2
  | 0, _ => .stop
  | n + 1, r => by
    unfold readTail
    split
    · exact .stop
    · rename_i a r' hread
      obtain ⟨⟨c, r₁⟩, hcomma, ha⟩ := Option.bind_eq_some_iff.mp hread
      exact .more hcomma (hitem ha) (readTail_sound hitem n r')

theorem readItems_sound (hitem : ∀ {r a r'}, item r = some (a, r') → Item r a r') (n : Nat)
    (r : Reader) : Series Item false r (readItems item n r).1 (readItems item n r).2 := by
  unfold readItems
  split
  · exact .stop
  · rename_i ha
    exact .first (hitem ha) (readTail_sound hitem n _)

theorem readBetween_eq_some {opening closing : Terminal} {items : Reader → List α × Reader}
    {make : List α → Value} {r r₃ : Reader} {v : Value} :
    readBetween opening closing items make r = some (v, r₃) ↔ ∃ b r₁ c,
      token? opening r = some (b, r₁) ∧ token? closing (items r₁).2 = some (c, r₃) ∧
        v = make (items r₁).1 := by
  unfold readBetween
  constructor
  · intro h
    obtain ⟨⟨b, r₁⟩, hb, hrest⟩ := Option.bind_eq_some_iff.mp h
    obtain ⟨⟨c, r₃'⟩, hc, heq⟩ := Option.map_eq_some_iff.mp hrest
    simp only [Prod.mk.injEq] at heq
    obtain ⟨rfl, rfl⟩ := heq
    exact ⟨b, r₁, c, hb, hc, rfl⟩
  · rintro ⟨b, r₁, c, hb, hc, rfl⟩
    rw [hb, Option.bind_some, hc]
    rfl

theorem readMember_eq_some {value : Reader → Option (Value × Reader)} {r r₃ : Reader}
    {e : String × Value} : readMember value r = some (e, r₃) ↔ ∃ r₁ c r₂,
      token? .quoted r = some (.text e.1, r₁) ∧ token? (.rune ':' ":") r₁ = some (c, r₂) ∧
        value r₂ = some (e.2, r₃) := by
  obtain ⟨key, v⟩ := e
  unfold readMember
  constructor
  · intro h
    split at h
    · rename_i key' r₁ hkey
      obtain ⟨⟨c, r₂⟩, hc, hrest⟩ := Option.bind_eq_some_iff.mp h
      obtain ⟨⟨v', r₃'⟩, hv, heq⟩ := Option.map_eq_some_iff.mp hrest
      simp only [Prod.mk.injEq] at heq
      obtain ⟨⟨rfl, rfl⟩, rfl⟩ := heq
      exact ⟨r₁, c, r₂, hkey, hc, hv⟩
    · cases h
  · rintro ⟨r₁, c, r₂, hkey, hc, hv⟩
    simp only at hkey hv
    simp only [hkey, hc, Option.bind_some, hv]
    rfl

end Sound

/-- Whatever the reader reads is a document. -/
theorem readValue_sound (n : Nat) : ∀ {r v r'}, readValue n r = some (v, r') → Denotes r v r' := by
  induction n with
  | zero => intro r v r' h; cases h
  | succ n ih =>
    intro r v r' h
    rw [readValue] at h
    rcases Option.or_eq_some_iff.mp h with h | ⟨-, h⟩
    · exact .text h
    rcases Option.or_eq_some_iff.mp h with h | ⟨hfraction, h⟩
    · exact .fraction h
    rcases Option.or_eq_some_iff.mp h with h | ⟨-, h⟩
    · exact .integer hfraction h
    rcases Option.or_eq_some_iff.mp h with h | ⟨-, h⟩
    · exact .truth h
    rcases Option.or_eq_some_iff.mp h with h | ⟨-, h⟩
    · exact .null h
    rcases Option.or_eq_some_iff.mp h with h | ⟨-, h⟩
    · obtain ⟨b, r₁, c, hb, hc, rfl⟩ := readBetween_eq_some.mp h
      exact .array hb (readItems_sound ih n r₁) hc
    · obtain ⟨b, r₁, c, hb, hc, rfl⟩ := readBetween_eq_some.mp h
      refine .object hb (readItems_sound (fun hmember => ?_) n r₁) hc (lastWins_iff.mpr rfl)
      obtain ⟨r₁, c, r₂, hkey, hcolon, hv⟩ := readMember_eq_some.mp hmember
      exact .mk hkey hcolon (ih hv)

/-! ### Every document is read -/

section Complete

variable {α : Type} {item : Reader → Option (α × Reader)} {Item : Reader → α → Reader → Prop}

/-- Every item that starts with less than `n` bytes left is read, and takes some. -/
def Covers (n : Nat) (item : Reader → Option (α × Reader)) (Item : Reader → α → Reader → Prop) : Prop :=
  ∀ {r a r'}, r.remaining < n → Item r a r' → item r = some (a, r') ∧ r.Past r'

/-- Where no comma follows, all items were read. -/
theorem readTail_complete {n : Nat} (hitem : Covers n item Item) {begun : Bool} {r r' : Reader}
    {as : List α} (h : Series Item begun r as r') :
    begun = true → token? (.rune ',' ",") r' = none → r.remaining < n →
      ∀ fuel, r.remaining ≤ fuel → readTail item fuel r = (as, r') ∧ r.Ahead r' := by
  induction h with
  | stop =>
    intro _ hend hr fuel hfuel
    cases fuel with
    | zero => exact ⟨rfl, .refl _⟩
    | succ fuel =>
      rw [readTail, hend]
      exact ⟨rfl, .refl _⟩
  | first _ _ _ => intro hbegun; cases hbegun
  | @more r r₁ r₂ r₃ c a as hcomma ha _ ih =>
    intro _ hend hr fuel hfuel
    have hpast := token?_past rfl hcomma
    have hlt := hpast.remaining
    obtain ⟨hread, hpast'⟩ := hitem (by omega) ha
    have hlt' := hpast'.remaining
    obtain ⟨fuel, rfl⟩ := Nat.exists_eq_add_one.mpr (show 0 < fuel by omega)
    obtain ⟨htail, hahead⟩ := ih rfl hend (by omega) fuel (by omega)
    rw [readTail, hcomma, Option.bind_some, hread]
    simp only [htail]
    exact ⟨trivial, ((hpast.trans hpast').trans_ahead hahead).toAhead⟩

/-- Where neither a comma follows nor an item starts, all items were read. -/
theorem readItems_complete {n : Nat} (hitem : Covers n item Item) {r r' : Reader} {as : List α}
    (h : Series Item false r as r') (hcomma : token? (.rune ',' ",") r' = none)
    (hnone : item r' = none) (hr : r.remaining < n) :
    readItems item n r = (as, r') ∧ r.Ahead r' := by
  cases h with
  | stop =>
    rw [readItems, hnone]
    exact ⟨rfl, .refl _⟩
  | first ha htail =>
    obtain ⟨hread, hpast⟩ := hitem hr ha
    have hlt := hpast.remaining
    obtain ⟨htail, hahead⟩ := readTail_complete hitem htail rfl hcomma (by omega) n (by omega)
    rw [readItems, hread]
    simp only [htail]
    exact ⟨trivial, (hpast.trans_ahead hahead).toAhead⟩

/-- Whether a value can start with a character. -/
def opens (c : Char) : Bool :=
  Terminal.quoted.opens c || Terminal.fraction.opens c || Terminal.integer.opens c ||
    Terminal.truth.opens c || (Terminal.nil "null").opens c || c == '[' || c == '{'

/-- Where no value can start, none is read. -/
theorem readValue_eq_none {n : Nat} {r : Reader}
    (h : ∀ c, r.token.peek? = some c → opens c = false) : readValue n r = none := by
  have hnone : ∀ t : Terminal, t.isToken = true → (∀ c, t.opens c = true → opens c = true) →
      token? t r = none := by
    intro t ht hopens
    refine token?_eq_none_of_peek? ht fun c hpeek => ?_
    cases hc : t.opens c with
    | false => rfl
    | true =>
      have := h c hpeek
      rw [hopens c hc] at this
      cases this
  cases n with
  | zero => rfl
  | succ n =>
    rw [readValue, hnone .quoted rfl (fun c hc => by simp [opens, hc]),
      hnone .fraction rfl (fun c hc => by simp [opens, hc]),
      hnone .integer rfl (fun c hc => by simp [opens, hc]),
      hnone .truth rfl (fun c hc => by simp [opens, hc]),
      hnone (.nil "null") rfl (fun c hc => by simp [opens, hc]), readArray, readBetween,
      hnone (.rune '[' _) rfl (fun c hc => by
        simp only [Terminal.opens] at hc
        simp [opens, hc]), readObject, readBetween,
      hnone (.rune '{' _) rfl (fun c hc => by
        simp only [Terminal.opens] at hc
        simp [opens, hc])]
    rfl

theorem readMember_eq_none (value : Reader → Option (Value × Reader)) {r : Reader}
    (h : token? .quoted r = none) : readMember value r = none := by
  rw [readMember, h]

/-- A closing bracket ends a list: neither a comma nor an item stands there. -/
theorem closing_ends {closing : Char} {name : String} {r r' : Reader} {v : Value}
    (hclosing : opens closing = false ∧ closing ≠ ',')
    (h : token? (.rune closing name) r = some (v, r')) :
    token? (.rune ',' ",") r = none ∧ token? .quoted r = none ∧ ∀ n, readValue n r = none := by
  obtain ⟨hopens, hcomma⟩ := hclosing
  have hapart : ∀ c, (Terminal.rune closing name).opens c = true → c = closing := by
    intro c hc
    simpa [Terminal.opens] using hc
  refine ⟨token?_eq_none rfl rfl (fun c hc => ?_) h, token?_eq_none rfl rfl (fun c hc => ?_) h,
    fun n => readValue_eq_none fun c hpeek => ?_⟩
  · rw [hapart c hc]
    simpa [Terminal.opens] using hcomma
  · rw [hapart c hc]
    simp only [opens, Bool.or_eq_false_iff] at hopens
    exact hopens.1.1.1.1.1.1
  · obtain ⟨c', hpeek', hc⟩ := token?_opens rfl h
    obtain rfl : c' = c := Option.some.inj (hpeek'.symm.trans hpeek)
    rw [hapart c' hc, hopens]

theorem token?_quoted_eq_none {t : Terminal} (ht : t.isToken = true) (h : t.opens '"' = false)
    {r r' : Reader} {v : Value} (hx : token? t r = some (v, r')) : token? .quoted r = none := by
  refine token?_eq_none ht rfl (fun c hc => ?_) hx
  by_cases hquote : c = '"'
  · subst hquote
    rw [h] at hc
    cases hc
  · simpa [Terminal.opens] using hquote

/-- A token that starts with one of some characters shuts out those that start with none of them. -/
theorem token?_eq_none_of_firsts {t : Terminal} (t' : Terminal) (firsts : List Char) (ht : t.isToken = true)
    (ht' : t'.isToken = true) (hfirsts : ∀ c, t.opens c = true → c ∈ firsts)
    (hapart : firsts.any t'.opens = false) {r r' : Reader} {v : Value}
    (h : token? t r = some (v, r')) : token? t' r = none :=
  token?_eq_none ht ht' (fun c hc => by
    simpa using List.any_eq_false.mp hapart c (hfirsts c hc)) h

theorem firsts_truth (c : Char) (h : Terminal.truth.opens c = true) : c ∈ ['t', 'f'] := by
  simpa [Terminal.opens] using h

theorem firsts_null (c : Char) (h : (Terminal.nil "null").opens c = true) : c ∈ ['n'] := by
  obtain rfl : 'n' = c := by simpa [Terminal.opens] using h
  exact List.mem_singleton_self _

theorem firsts_rune (c' : Char) (name : String) (c : Char)
    (h : (Terminal.rune c' name).opens c = true) : c ∈ [c'] := by
  simpa [Terminal.opens] using h

/-- Items between brackets are read, and the closing bracket ends them. -/
theorem readBetween_complete (make : List α → Value) {n : Nat} (hitem : Covers n item Item)
    {opening closing : Char} {open' close' : String} {r r₁ r₂ r₃ : Reader} {b c : Value} {as : List α}
    (hopen : token? (.rune opening open') r = some (b, r₁)) (has : Series Item false r₁ as r₂)
    (hclose : token? (.rune closing close') r₂ = some (c, r₃))
    (hclosing : opens closing = false ∧ closing ≠ ',') (hnone : item r₂ = none)
    (hr : r.remaining < n + 1) :
    readBetween (.rune opening open') (.rune closing close') (readItems item n) make r =
      some (make as, r₃) ∧ r.Past r₃ := by
  have hpast := token?_past rfl hopen
  have hlt := hpast.remaining
  obtain ⟨hcomma, -, -⟩ := closing_ends hclosing hclose
  obtain ⟨hitems, hahead⟩ := readItems_complete hitem has hcomma hnone (by omega)
  refine ⟨readBetween_eq_some.mpr ⟨b, r₁, c, hopen, ?_, ?_⟩,
    (hpast.trans_ahead hahead).trans (token?_past rfl hclose)⟩
  · rw [hitems]
    exact hclose
  · rw [hitems]

theorem readMember_complete {n : Nat} {value : Reader → Option (Value × Reader)}
    (hvalue : Covers n value Denotes) : Covers n (readMember value) Member := by
  intro r e r' hr h
  cases h with
  | mk hkey hcolon hv =>
    have hpast := (token?_past rfl hkey).trans (token?_past rfl hcolon)
    have hlt := hpast.remaining
    obtain ⟨hread, hpast'⟩ := hvalue (by omega) hv
    exact ⟨readMember_eq_some.mpr ⟨_, _, _, hkey, hcolon, hread⟩, hpast.trans hpast'⟩

/-- Every document is read with enough fuel. -/
theorem readValue_complete (n : Nat) : Covers n (readValue n) Denotes := by
  induction n with
  | zero => intro r v r' hr; exact absurd hr (Nat.not_lt_zero _)
  | succ n ih =>
    intro r v r' hr h
    cases h with
    | text h =>
      rw [readValue, h]
      exact ⟨rfl, token?_past rfl h⟩
    | fraction h =>
      rw [readValue, token?_quoted_eq_none rfl rfl h, h]
      exact ⟨rfl, token?_past rfl h⟩
    | integer hfraction h =>
      rw [readValue, token?_quoted_eq_none rfl rfl h, hfraction, h]
      exact ⟨rfl, token?_past rfl h⟩
    | truth h =>
      rw [readValue, token?_quoted_eq_none rfl rfl h,
        token?_eq_none_of_firsts .fraction _ rfl rfl firsts_truth rfl h,
        token?_eq_none_of_firsts .integer _ rfl rfl firsts_truth rfl h, h]
      exact ⟨rfl, token?_past rfl h⟩
    | null h =>
      rw [readValue, token?_quoted_eq_none rfl rfl h,
        token?_eq_none_of_firsts .fraction _ rfl rfl firsts_null rfl h,
        token?_eq_none_of_firsts .integer _ rfl rfl firsts_null rfl h,
        token?_eq_none_of_firsts .truth _ rfl rfl firsts_null rfl h, h]
      exact ⟨rfl, token?_past rfl h⟩
    | array hopen has hclose =>
      have hnone := (closing_ends (by decide) hclose).2.2 n
      obtain ⟨hread, hpast⟩ := readBetween_complete .list ih hopen has hclose (by decide)
        hnone hr
      have hearlier : ∀ t' : Terminal, t'.isToken = true → t'.opens '[' = false →
          token? t' r = none := fun t' ht' hapart =>
        token?_eq_none_of_firsts t' _ rfl ht' (firsts_rune _ _) (by simpa using hapart) hopen
      rw [readValue, hearlier .quoted rfl rfl, hearlier .fraction rfl rfl,
        hearlier .integer rfl rfl, hearlier .truth rfl rfl, hearlier (.nil "null") rfl rfl,
        readArray, hread]
      exact ⟨rfl, hpast⟩
    | object hopen has hclose hlast =>
      have hnone := readMember_eq_none (readValue n) (closing_ends (by decide) hclose).2.1
      obtain ⟨hread, hpast⟩ := readBetween_complete Value.ofEntries (readMember_complete ih)
        hopen has hclose (by decide) hnone hr
      have hearlier : ∀ t' : Terminal, t'.isToken = true → t'.opens '\x7b' = false →
          token? t' r = none := fun t' ht' hapart =>
        token?_eq_none_of_firsts t' _ rfl ht' (firsts_rune _ _) (by simpa using hapart) hopen
      rw [readValue, hearlier .quoted rfl rfl, hearlier .fraction rfl rfl,
        hearlier .integer rfl rfl, hearlier .truth rfl rfl, hearlier (.nil "null") rfl rfl,
        readArray, readBetween, hearlier (.rune '[' _) rfl rfl, readObject, hread,
        lastWins_iff.mp hlast]
      exact ⟨rfl, hpast⟩

end Complete

/-! ### The end of a document -/

/-- What is left behind a document reaches up to the end of what can be read, if it did before. -/
theorem Denotes.fits {r r' : Reader} {v : Value} (h : Denotes r v r') : r.Fits → r'.Fits := by
  have htoken : ∀ {t : Terminal} {r r' : Reader} {v : Value}, t.isToken = true →
      token? t r = some (v, r') → r.Fits → r'.Fits := fun ht hread hr => by
    obtain ⟨n, -, rfl, -⟩ := token?_behind_blanks ht hread
    exact hr.token.skip n
  refine @Denotes.rec (fun r _ r' _ => r.Fits → r'.Fits) (fun r _ r' _ => r.Fits → r'.Fits)
    (fun _ r _ r' _ => r.Fits → r'.Fits) (fun _ r _ r' _ => r.Fits → r'.Fits)
    ?text ?fraction ?integer ?truth ?null ?array ?object ?member
    ?stop ?first ?more ?stopMembers ?firstMember ?moreMembers _ _ _ h
  case text | fraction | truth | null => exact fun hread => htoken rfl hread
  case integer => exact fun _ hread => htoken rfl hread
  case array => exact fun hopen _ hclose hseries hr => htoken rfl hclose (hseries (htoken rfl hopen hr))
  case object =>
    exact fun hopen _ hclose _ hseries hr => htoken rfl hclose (hseries (htoken rfl hopen hr))
  case member =>
    exact fun hkey hcolon _ hvalue hr => hvalue (htoken rfl hcolon (htoken rfl hkey hr))
  case stop | stopMembers => exact fun hr => hr
  case first | firstMember => exact fun _ _ hitem hseries hr => hseries (hitem hr)
  case more | moreMembers =>
    exact fun hcomma _ _ hitem hseries hr => hseries (hitem (htoken rfl hcomma hr))

/-- The plain reader reads exactly the documents, each in one way. -/
theorem denotes_iff {r r' : Reader} {v : Value} {n : Nat} (hr : r.remaining < n) :
    Denotes r v r' ↔ readValue n r = some (v, r') :=
  ⟨fun h => (readValue_complete n hr h).1, fun h => readValue_sound n h⟩

end Json
end Curtail
