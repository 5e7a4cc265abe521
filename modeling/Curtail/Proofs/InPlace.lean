/-
# Reading in place

A reader can also be moved where it stands: an operation reads on a copy and
puts the copy in the reader's place once it has succeeded. Seen this way reading
is all or nothing. An operation that fails, perhaps only after its copy has gone
ahead, leaves the reader as it was; one that succeeds has passed the blanks
before the token and what it asked for, nothing else. This holds wherever the
reader stands, also inside a character or past the end, where it does not move
at all.

The operations work on bytes: blanks, words and matches are measured in bytes
and then passed one character at a time, and a pattern is searched for anywhere
ahead, to be refused where its first match does not begin at the token. Each of
them does what the operation on whole texts does.

Key definitions: `Text.between`, `Reader.takeChar`, `Reader.takeRune`,
`Reader.takeWord`, `Reader.takePattern`, `Reader.AllOrNothing`, `Reader.Took`.
Key theorems: `Reader.consumeTo_skip`, `Pattern.search?_eq_start_iff`,
`Reader.all_or_nothing`.
-/
import Curtail.Proofs.Places
import Curtail.Proofs.Readings

namespace Curtail

open Text

/-! ### Texts between offsets -/

namespace Text

/-- The characters at the start of a text that fit into `n` bytes. -/
def takeBytes : List Char → Nat → List Char
  | [], _ => []
  | c :: cs, n => if c.utf8Size ≤ n then c :: takeBytes cs (n - c.utf8Size) else []

/-- The text between two byte offsets: nothing if the first lies past the end or inside a
character. -/
def between (cs : List Char) (start stop : Nat) : List Char :=
  takeBytes (dropBytes cs start) (stop - start)

/-- Whether a byte offset lies between two characters or at an end of the text. -/
def IsBoundary (cs : List Char) (n : Nat) : Prop :=
  ∃ before after, cs = before ++ after ∧ byteLength before = n

@[simp] theorem takeBytes_zero (cs : List Char) : takeBytes cs 0 = [] := by
  cases cs with
  | nil => rfl
  | cons c cs => rw [takeBytes, if_neg (Nat.not_le.mpr c.utf8Size_pos)]

/-- A leading part is what fits into its bytes. -/
@[simp] theorem takeBytes_byteLength (xs ys : List Char) :
    takeBytes (xs ++ ys) (byteLength xs) = xs := by
  induction xs with
  | nil => exact takeBytes_zero ys
  | cons c xs ih =>
    rw [List.cons_append, takeBytes, byteLength, if_pos (Nat.le_add_right _ _),
      Nat.add_sub_cancel_left, ih]

theorem between_append (before read after : List Char) :
    between (before ++ (read ++ after)) (byteLength before) (byteLength before + byteLength read) =
      read := by
  rw [between, dropBytes_byteLength, Nat.add_sub_cancel_left, takeBytes_byteLength]

end Text

/-! ### Searching ahead -/

namespace Pattern

/-- The match at the start of a text that has the character `before` in front of it. -/
def matchAfter? (p : Pattern) (before : Option Char) (text : List Char) :
    Option (Nat × List (List Char)) :=
  let entered := Array.replicate p.automaton.states.size 0
  (p.automaton.run before 0 [⟨p.automaton.start, []⟩] entered none text).map
    fun (length, records) =>
      (length, text.take length :: (List.range p.groups).map fun i => groupText text records (i + 1))

/-- The match that begins first, at the start of the text or later: where it starts and stops, in
bytes, and what its groups read. `offset` bytes are behind, the last character of them `before`. -/
def search? (p : Pattern) (before : Option Char) (offset : Nat) (text : List Char) :
    Option (Nat × Nat × List (List Char)) :=
  match p.matchAfter? before text with
  | some (length, groups) => some (offset, offset + byteLength (text.take length), groups)
  | none =>
    match text with
    | [] => none
    | c :: rest => p.search? (some c) (offset + c.utf8Size) rest

theorem le_of_search? {p : Pattern} {text : List Char} : ∀ {before : Option Char} {offset start stop : Nat}
    {groups : List (List Char)},
    p.search? before offset text = some (start, stop, groups) → offset ≤ start := by
  induction text with
  | nil =>
    intro before offset start stop groups h
    unfold search? at h
    split at h
    · simp only [Option.some.injEq, Prod.mk.injEq] at h
      omega
    · cases h
  | cons c rest ih =>
    intro before offset start stop groups h
    unfold search? at h
    split at h
    · simp only [Option.some.injEq, Prod.mk.injEq] at h
      omega
    · have := ih h
      omega

/-- The first match begins at the start of the text exactly if there is a match there. -/
theorem search?_eq_start_iff {p : Pattern} {text : List Char} {stop : Nat}
    {groups : List (List Char)} : p.search? none 0 text = some (0, stop, groups) ↔
      ∃ length, p.match? text = some (length, groups) ∧ byteLength (text.take length) = stop := by
  have hstart : p.matchAfter? none text = p.match? text := rfl
  unfold search?
  rw [hstart]
  cases hmatch : p.match? text with
  | some x =>
    obtain ⟨length, groups'⟩ := x
    simp only [Nat.zero_add, Option.some.injEq, Prod.mk.injEq, true_and]
    constructor
    · rintro ⟨hstop, rfl⟩
      exact ⟨length, ⟨rfl, rfl⟩, hstop⟩
    · rintro ⟨length', ⟨rfl, rfl⟩, hstop⟩
      exact ⟨hstop, rfl⟩
  | none =>
    refine ⟨fun h => ?_, nofun⟩
    cases text with
    | nil => cases h
    | cons c rest =>
      -- what is found further on does not begin at the start
      have hle := le_of_search? h
      have hpos := c.utf8Size_pos
      omega

end Pattern

namespace Reader

variable {α : Type} {r : Reader}

/-! ### Moving by characters -/

/-- Moving past a character is skipping it. -/
theorem moveTo_advance {c : Char} (h : r.peek? = some c) : r.moveTo (r.cursor.advance c) = r.skip 1 := by
  obtain ⟨rest, hrest⟩ := List.head?_eq_some_iff.mp h
  refine ext_cursor rfl ?_
  show r.cursor.advance c = r.cursor.advanceAll (r.rest.take 1)
  rw [hrest]
  rfl

theorem length_rest_moveTo_advance {c : Char} (h : r.peek? = some c) :
    (r.moveTo (r.cursor.advance c)).rest.length < r.rest.length := by
  obtain ⟨rest, hrest⟩ := List.head?_eq_some_iff.mp h
  rw [moveTo_advance h, rest_skip, hrest]
  exact Nat.lt_succ_self _

/-- Consumes blanks as long as there is one. -/
def consumeBlanks (r : Reader) : Reader :=
  match _h : r.peek? with
  | some c => if isBlank c then (r.moveTo (r.cursor.advance c)).consumeBlanks else r
  | none => r
termination_by r.rest.length
decreasing_by exact length_rest_moveTo_advance _h

/-- Consumes characters until the cursor is at the offset `target` or nothing is left. -/
def consumeTo (target : Nat) (r : Reader) : Reader :=
  if r.cursor.offset < target then
    match _h : r.peek? with
    | some c => (r.moveTo (r.cursor.advance c)).consumeTo target
    | none => r
  else r
termination_by r.rest.length
decreasing_by exact length_rest_moveTo_advance _h

/-- The blanks are consumed one after the other. -/
theorem consumeBlanks_eq (r : Reader) : r.consumeBlanks = r.skipBlanks := by
  induction r using consumeBlanks.induct with
  | case1 r c hpeek hblank ih =>
    obtain ⟨rest, hrest⟩ := List.head?_eq_some_iff.mp hpeek
    rw [consumeBlanks, hpeek]
    simp only [hblank, if_true]
    rw [ih, moveTo_advance hpeek]
    unfold skipBlanks
    rw [skip_skip, rest_skip, hrest, List.takeWhile_cons_of_pos hblank, List.length_cons,
      Nat.add_comm]
    rfl
  | case2 r c hpeek hblank =>
    obtain ⟨rest, hrest⟩ := List.head?_eq_some_iff.mp hpeek
    rw [consumeBlanks, hpeek]
    simp only [hblank, if_false, Bool.false_eq_true]
    rw [skipBlanks, hrest, List.takeWhile_cons_of_neg hblank, List.length_nil, skip_zero]
  | case3 r hpeek =>
    rw [consumeBlanks, hpeek, skipBlanks, List.head?_eq_none_iff.mp hpeek]
    exact r.skip_zero.symm

/-- Consuming up to where some characters end passes those characters. -/
theorem consumeTo_skip {n : Nat} (h : n ≤ r.rest.length) :
    r.consumeTo (r.skip n).cursor.offset = r.skip n := by
  induction n generalizing r with
  | zero =>
    rw [consumeTo, skip_zero, if_neg (Nat.lt_irrefl _)]
  | succ n ih =>
    obtain ⟨c, rest, hrest⟩ := List.exists_cons_of_length_pos (Nat.lt_of_lt_of_le n.succ_pos h)
    have hpeek : r.peek? = some c := by rw [peek?, hrest]; rfl
    have hlt : r.cursor.offset < (r.skip (n + 1)).cursor.offset := by
      have hpos := c.utf8Size_pos
      rw [offset_skip, hrest, List.take_succ_cons, byteLength]
      omega
    have hnext : (r.skip 1).skip n = r.skip (n + 1) := by rw [skip_skip, Nat.add_comm]
    rw [consumeTo, if_pos hlt, hpeek]
    simp only
    rw [moveTo_advance hpeek, ← hnext]
    refine ih ?_
    rw [rest_skip, hrest, List.drop_succ_cons, List.drop_zero]
    rw [hrest, List.length_cons] at h
    omega

/-! ### Operations in place -/

/-- A copy at the next token. -/
def atToken (r : Reader) : Reader := if r.source.skipsBlanks then r.consumeBlanks else r

/-- Consumes one character, blank or not. -/
def takeChar (r : Reader) : Option Char × Reader :=
  match r.peek? with
  | none => (none, r)
  | some c => (some c, r.moveTo (r.cursor.advance c))

/-- Consumes the character `c` as a token: the copy has passed the next character before it is
known whether it is `c`. -/
def takeRune (r : Reader) (c : Char) : Option Position × Reader :=
  let next := r.atToken
  match next.takeChar with
  | (none, _) => (none, r)
  | (some read, after) => if read ≠ c then (none, r) else (some next.cursor, after)

/-- Consumes a word as a token: the copy has passed the word before it is known whether the word
ends there. -/
def takeWord (r : Reader) (word : String) : Option Position × Reader :=
  let next := r.atToken
  let w := word.toList
  if w.isEmpty || !w.isPrefixOf next.rest then (none, r)
  else
    let after := next.consumeTo (next.cursor.offset + byteLength w)
    if w.getLast?.any isIdentifier && after.peek?.any isIdentifier then (none, r)
    else (some next.cursor, after)

/-- Consumes what a pattern matches at the token, if its first match is there; yields the groups as
well. -/
def takePattern (r : Reader) (p : Pattern) : Option (Position × List (List Char)) × Reader :=
  let next := r.atToken
  match p.search? none 0 next.rest with
  | none => (none, r)
  | some (start, stop, groups) =>
    if start ≠ 0 then (none, r)
    else (some (next.cursor, groups), next.consumeTo (next.cursor.offset + stop))

/-- What an operation that yields another reader does to a reader in place. -/
def inPlace (r : Reader) : Option (α × Reader) → Option α × Reader
  | none => (none, r)
  | some (a, next) => (some a, next)

theorem atToken_eq (r : Reader) : r.atToken = r.token := by
  unfold atToken token
  rw [consumeBlanks_eq]

theorem takeChar_eq (r : Reader) : r.takeChar = r.inPlace r.readChar? := by
  unfold takeChar readChar?
  cases hpeek : r.peek? with
  | none => rfl
  | some c =>
    show (some c, r.moveTo (r.cursor.advance c)) = (some c, r.skip 1)
    rw [moveTo_advance hpeek]

theorem takeRune_eq (r : Reader) (c : Char) : r.takeRune c = r.inPlace (r.readRune? c) := by
  simp only [takeRune, readRune?, atToken_eq, takeChar_eq, readChar?]
  cases r.token.peek? with
  | none => rfl
  | some read =>
    by_cases heq : read = c
    · simp [heq, inPlace]
    · simp [heq, inPlace]

/-- A word that lies ahead is passed byte for byte. -/
theorem consumeTo_word {w : List Char} (h : w <+: r.rest) :
    r.consumeTo (r.cursor.offset + byteLength w) = r.skip w.length := by
  have htarget : r.cursor.offset + byteLength w = (r.skip w.length).cursor.offset := by
    rw [offset_skip, ← List.prefix_iff_eq_take.mp h]
  rw [htarget, consumeTo_skip h.length_le]

theorem takeWord_eq (r : Reader) (word : String) :
    r.takeWord word = r.inPlace (r.readWord? word) := by
  simp only [takeWord, readWord?, atToken_eq, wordEnds]
  have hnot : (word.toList.isEmpty || !word.toList.isPrefixOf r.token.rest) =
      !(!word.toList.isEmpty && word.toList.isPrefixOf r.token.rest) := by
    rw [Bool.not_and, Bool.not_not]
  rw [hnot]
  cases hahead : !word.toList.isEmpty && word.toList.isPrefixOf r.token.rest with
  | false => rfl
  | true =>
    have hprefix := List.isPrefixOf_iff_prefix.mp ((Bool.and_eq_true _ _).mp hahead).2
    have hpeek : (r.token.skip word.toList.length).peek? =
        (r.token.rest.drop word.toList.length).head? := rfl
    rw [consumeTo_word hprefix, hpeek]
    simp only [Bool.not_true, Bool.true_and, Bool.false_eq_true, if_false]
    cases word.toList.getLast?.any isIdentifier &&
        (r.token.rest.drop word.toList.length).head?.any isIdentifier with
    | true => rfl
    | false => rfl

theorem takePattern_eq (r : Reader) (p : Pattern) : r.takePattern p =
    r.inPlace ((Terminal.readPattern? p r).map fun (start, groups, next) => ((start, groups), next)) := by
  simp only [takePattern, Terminal.readPattern?, atToken_eq, Option.map_map]
  cases hmatch : p.match? r.token.rest with
  | some x =>
    obtain ⟨length, groups⟩ := x
    have hsearch := Pattern.search?_eq_start_iff.mpr ⟨length, hmatch, rfl⟩
    rw [hsearch]
    simp only [ne_eq, not_true, if_false, Option.map_some]
    rw [← offset_skip, consumeTo_skip (Pattern.length_le_of_match? hmatch)]
    rfl
  | none =>
    cases hsearch : p.search? none 0 r.token.rest with
    | none => rfl
    | some x =>
      obtain ⟨start, stop, groups⟩ := x
      have hlater : start ≠ 0 := by
        rintro rfl
        obtain ⟨length, hsome, -⟩ := Pattern.search?_eq_start_iff.mp hsearch
        rw [hmatch] at hsome
        cases hsome
      simp only [hlater, ne_eq, not_false_eq_true, if_true]
      rfl

/-! ### All or nothing -/

/-- What is left of a reader after an operation in place: the same reader if nothing was read, and in
any case one that has not gone back and not passed the end of what can be read. At the end, past it
and inside a character it has not moved. -/
structure AllOrNothing (r : Reader) (done : Option α × Reader) : Prop where
  unchanged : done.1 = none → done.2 = r
  source : done.2.source = r.source
  le : r.cursor.offset ≤ done.2.cursor.offset
  le_max : done.2.cursor.offset ≤ max r.cursor.offset r.source.limit
  stays : r.source.limit ≤ r.cursor.offset ∨ ¬ IsBoundary r.source.text.toList r.cursor.offset →
    done.2 = r

/-- The reader `next` is left after the characters `read` were read as a token that starts at
`start`: blanks, all there are, if blanks are skipped, and `read` lie between the two readers. -/
structure Took (r : Reader) (start : Position) (read : List Char) (next : Reader) : Prop where
  token : start = r.token.cursor
  blanks : between r.source.text.toList r.cursor.offset start.offset =
    if r.source.skipsBlanks then r.rest.takeWhile isBlank else []
  text : between r.source.text.toList start.offset next.cursor.offset = read
  cursor : next.cursor = start.advanceAll read

/-- Nothing can be read at the end, past it and inside a character. -/
theorem rest_eq_nil (h : r.source.limit ≤ r.cursor.offset ∨
    ¬ IsBoundary r.source.text.toList r.cursor.offset) : r.rest = [] := by
  refine Decidable.byContradiction fun hne => ?_
  rcases h with hpast | hinside
  · have hfit := r.offset_add_byteLength_rest hne
    obtain ⟨c, rest, hcons⟩ := List.exists_cons_of_ne_nil hne
    have hpos := c.utf8Size_pos
    rw [hcons, byteLength] at hfit
    omega
  · obtain ⟨before, trailing, htext, hlen⟩ := exists_text_eq hne
    exact hinside ⟨before, r.rest ++ trailing, htext, hlen⟩

/-- The text between a reader and one some characters further on. -/
theorem between_skip (r : Reader) (n : Nat) :
    between r.source.text.toList r.cursor.offset (r.skip n).cursor.offset = r.rest.take n := by
  by_cases hne : r.rest = []
  · rw [skip_of_rest_eq_nil hne, hne, List.take_nil, between, Nat.sub_self, takeBytes_zero]
  · obtain ⟨before, trailing, htext, hlen⟩ := exists_text_eq hne
    rw [← List.take_append_drop n r.rest, List.append_assoc] at htext
    rw [offset_skip, htext, ← hlen, between_append]

/-- An operation that only ever skips characters is all or nothing. -/
theorem allOrNothing_inPlace {read? : Option (α × Reader)}
    (h : ∀ a next, read? = some (a, next) → ∃ n, next = r.skip n) :
    r.AllOrNothing (r.inPlace read?) := by
  have hskip : ∃ n, (r.inPlace read?).2 = r.skip n := by
    cases hread : read? with
    | none => exact ⟨0, r.skip_zero.symm⟩
    | some x => exact h x.1 x.2 hread
  obtain ⟨n, hn⟩ := hskip
  have hahead := r.ahead_skip n
  refine ⟨fun hnone => ?_, by rw [hn]; rfl, by rw [hn]; exact hahead.le, ?_, fun hstuck => ?_⟩
  · cases read? with
    | none => rfl
    | some x => cases hnone
  · rw [hn]
    by_cases hmoved : r.cursor.offset < (r.skip n).cursor.offset
    · exact Nat.le_trans (hahead.inside hmoved) (Nat.le_max_right _ _)
    · exact Nat.le_trans (Nat.not_lt.mp hmoved) (Nat.le_max_left _ _)
  · rw [hn]
    exact skip_of_rest_eq_nil (rest_eq_nil hstuck) n

theorem read_of_inPlace {read? : Option (α × Reader)} {a : α} (h : (r.inPlace read?).1 = some a) :
    read? = some (a, (r.inPlace read?).2) := by
  cases read? with
  | none => cases h
  | some x =>
    obtain rfl : x.1 = a := Option.some.inj h
    rfl

/-- What lies before the token are the blanks that are skipped. -/
theorem took_skip (r : Reader) (n : Nat) :
    r.Took r.token.cursor (r.token.rest.take n) (r.token.skip n) where
  token := rfl
  blanks := by
    rw [token_eq_skip, between_skip, toToken]
    split
    · exact (List.prefix_iff_eq_take.mp (List.takeWhile_prefix _)).symm
    · rfl
  text := by
    obtain ⟨k, hk⟩ := r.exists_token_eq_skip
    have hsource : r.token.source = r.source := by rw [hk, source_skip]
    rw [← hsource]
    exact r.token.between_skip n
  cursor := rfl

theorem took_of_readRune? {c : Char} {start : Position} {next : Reader}
    (h : r.readRune? c = some (start, next)) : r.Took start [c] next := by
  simp only [readRune?] at h
  split at h
  · rename_i hpeek
    simp only [Option.some.injEq, Prod.mk.injEq] at h
    obtain ⟨rfl, rfl⟩ := h
    obtain ⟨rest, hrest⟩ := List.head?_eq_some_iff.mp hpeek
    have htook := r.took_skip 1
    rwa [hrest] at htook
  · cases h

theorem took_of_readWord? {word : String} {start : Position} {next : Reader}
    (h : r.readWord? word = some (start, next)) : r.Took start word.toList next := by
  simp only [readWord?] at h
  split at h
  · rename_i hword
    simp only [Option.some.injEq, Prod.mk.injEq] at h
    obtain ⟨rfl, rfl⟩ := h
    simp only [Bool.and_eq_true] at hword
    have hprefix := List.isPrefixOf_iff_prefix.mp hword.1.2
    have htook := r.took_skip word.toList.length
    rwa [← List.prefix_iff_eq_take.mp hprefix] at htook
  · cases h

/-- The first group of a match is the whole of it. -/
theorem took_of_readPattern? {p : Pattern} {start : Position} {groups : List (List Char)}
    {next : Reader} (h : Terminal.readPattern? p r = some (start, groups, next)) :
    ∃ read, groups.head? = some read ∧ p.match? r.token.rest = some (read.length, groups) ∧
      r.Took start read next := by
  simp only [Terminal.readPattern?] at h
  obtain ⟨⟨length, groups'⟩, hmatch, hread⟩ := Option.map_eq_some_iff.mp h
  simp only [Prod.mk.injEq] at hread
  obtain ⟨rfl, rfl, rfl⟩ := hread
  have hle := Pattern.length_le_of_match? hmatch
  have hhead : groups'.head? = some (r.token.rest.take length) := by
    obtain ⟨⟨length', records⟩, -, hpair⟩ := Option.map_eq_some_iff.mp hmatch
    simp only [Prod.mk.injEq] at hpair
    obtain ⟨rfl, rfl⟩ := hpair
    rfl
  refine ⟨r.token.rest.take length, hhead, ?_, r.took_skip length⟩
  rw [List.length_take, Nat.min_eq_left hle, hmatch]

/-- **Reading is all or nothing.** Wherever a reader stands, reading a character, a certain character,
a word or a pattern in place does what reading on whole texts does. If nothing comes of it the reader
is unchanged; otherwise the token starts where the next token is, the blanks before it are all that
are there, and what lies between its start and the new cursor is exactly what was asked for. The
cursor never goes back and never passes the end of what can be read, and it stays where it is at the
end, past it and inside a character. -/
theorem all_or_nothing (r : Reader) :
    (r.takeChar = r.inPlace r.readChar? ∧ r.AllOrNothing r.takeChar ∧
      ∀ c, r.takeChar.1 = some c →
        between r.source.text.toList r.cursor.offset r.takeChar.2.cursor.offset = [c]) ∧
    (∀ c, r.takeRune c = r.inPlace (r.readRune? c) ∧ r.AllOrNothing (r.takeRune c) ∧
      ∀ start, (r.takeRune c).1 = some start → r.Took start [c] (r.takeRune c).2) ∧
    (∀ word, r.takeWord word = r.inPlace (r.readWord? word) ∧ r.AllOrNothing (r.takeWord word) ∧
      ∀ start, (r.takeWord word).1 = some start → r.Took start word.toList (r.takeWord word).2) ∧
    (∀ p, r.takePattern p = r.inPlace ((Terminal.readPattern? p r).map
        fun (start, groups, next) => ((start, groups), next)) ∧
      r.AllOrNothing (r.takePattern p) ∧
      ∀ start groups, (r.takePattern p).1 = some (start, groups) →
        ∃ read, groups.head? = some read ∧ p.match? r.token.rest = some (read.length, groups) ∧
          r.Took start read (r.takePattern p).2) := by
  refine ⟨⟨r.takeChar_eq, ?_, fun c hc => ?_⟩, fun c => ⟨r.takeRune_eq c, ?_, fun start h => ?_⟩,
    fun word => ⟨r.takeWord_eq word, ?_, fun start h => ?_⟩,
    fun p => ⟨r.takePattern_eq p, ?_, fun start groups h => ?_⟩⟩
  · rw [takeChar_eq]
    refine allOrNothing_inPlace fun c next hread => ?_
    obtain ⟨c', -, hc⟩ := Option.map_eq_some_iff.mp hread
    exact ⟨1, (Prod.mk.inj hc).2.symm⟩
  · rw [takeChar_eq] at hc ⊢
    obtain ⟨c', hpeek, heq⟩ := Option.map_eq_some_iff.mp (read_of_inPlace hc)
    have hnext : (r.inPlace r.readChar?).2 = r.skip 1 := (Prod.mk.inj heq).2.symm
    obtain ⟨rest, hrest⟩ := List.head?_eq_some_iff.mp hpeek
    obtain rfl : c' = c := (Prod.mk.inj heq).1
    rw [hnext, between_skip, hrest]
    rfl
  · rw [takeRune_eq]
    exact allOrNothing_inPlace fun _ _ => Terminal.skip_of_readRune?
  · rw [takeRune_eq] at h ⊢
    exact took_of_readRune? (read_of_inPlace h)
  · rw [takeWord_eq]
    exact allOrNothing_inPlace fun _ _ => Terminal.skip_of_readWord?
  · rw [takeWord_eq] at h ⊢
    exact took_of_readWord? (read_of_inPlace h)
  · rw [takePattern_eq]
    refine allOrNothing_inPlace fun a next hread => ?_
    obtain ⟨x, hx, heq⟩ := Option.map_eq_some_iff.mp hread
    obtain ⟨n, hn⟩ := Terminal.skip_of_readPattern? hx
    exact ⟨n, by rw [← (Prod.mk.inj heq).2, hn]⟩
  · rw [takePattern_eq] at h ⊢
    obtain ⟨⟨start', groups', next⟩, hread, heq⟩ := Option.map_eq_some_iff.mp (read_of_inPlace h)
    simp only [Prod.mk.injEq] at heq
    obtain ⟨⟨rfl, rfl⟩, hnext⟩ := heq
    rw [← hnext]
    exact took_of_readPattern? hread

-- `true` is ahead, but the word goes on; inside of `é` nothing can be read
example : ((ofText " trueish" true).readWord? "true").isNone = true := by decide
example : ((ofText "é true" true).moveTo ⟨1, 1, 1⟩).token.rest = [] := by decide

end Reader

end Curtail
