/-
# True positions

Offsets count bytes, lines and columns count what a person sees, and positions
are copied from readers into matches, nodes, faults and diagnostics. All of
them say the same: how much text lies before them. A position is true if some
leading part of the text has its bytes, its lines and its column, and the text
can be read that far.

Reading leads from true positions to true positions. Nodes get theirs from
readers, from other nodes, or stand at the start of the text, so long as the
builders of the grammar make up no places. What is remembered was found by
other calls in the same text.

Key definitions: `Position.TrueIn`, `Reader.Reached`, `Node.places`,
`Parser.Honest`, `Outcome.TrueFrom`, `Label.Covers`.
Key theorems: `Reader.Reached.inside`, `Parser.run_trueFrom`,
`Grammar.places_true`.
-/
import Curtail.Proofs.Blames
import Curtail.Proofs.Readings
import Curtail.Proofs.Reports
import Curtail.Proofs.Soundness
import Curtail.SourceFile

namespace Curtail

open Text

/-! ### Positions after some text -/

/-- The position right after `before`, by its bytes, its line breaks, and the characters after the
last of them. -/
structure Position.After (p : Position) (before : List Char) : Prop where
  offset : p.offset = byteLength before
  line : p.line = 1 + before.count '\n'
  column : p.column = 1 + (before.reverse.takeWhile (· ≠ '\n')).length

/-- The position of a place in a source that can be reached by reading. -/
def Position.TrueIn (p : Position) (source : Source) : Prop :=
  ∃ before after, source.text.toList = before ++ after ∧ p.After before ∧ p.offset ≤ source.limit

namespace Position

theorem After.ext {p q : Position} {before : List Char} (hp : p.After before)
    (hq : q.After before) : p = q := by
  obtain ⟨offset, line, column⟩ := p
  obtain ⟨offset', line', column'⟩ := q
  rw [mk.injEq]
  exact ⟨hp.offset.trans hq.offset.symm, hp.line.trans hq.line.symm,
    hp.column.trans hq.column.symm⟩

theorem After.next {p : Position} {before : List Char} (h : p.After before) (c : Char) :
    (p.advance c).After (before ++ [c]) where
  offset := by rw [offset_advance, h.offset, byteLength_append]; rfl
  line := by
    unfold advance
    split
    · rename_i hc
      simp [h.line, hc, Nat.add_assoc]
    · rename_i hc
      simp [h.line, hc]
  column := by
    unfold advance
    split
    · rename_i hc
      simp [hc]
    · rename_i hc
      simp only [List.reverse_append, List.reverse_cons, List.reverse_nil, List.nil_append,
        List.singleton_append, List.takeWhile_cons, decide_not, hc, decide_false, Bool.not_false,
        if_true, List.length_cons, h.column]
      omega

theorem after_advanceAll (cs : List Char) : ∀ {p : Position} {before : List Char},
    p.After before → (p.advanceAll cs).After (before ++ cs) := by
  induction cs with
  | nil =>
    intro p before h
    rwa [List.append_nil]
  | cons c cs ih =>
    intro p before h
    have := ih (h.next c)
    rwa [List.append_assoc] at this

theorem after_start : start.After [] := ⟨rfl, rfl, rfl⟩

theorem after_iff {p : Position} {before : List Char} :
    p.After before ↔ p = start.advanceAll before := by
  have h : (start.advanceAll before).After before := after_advanceAll before after_start
  constructor
  · intro hp
    exact hp.ext h
  · rintro rfl
    exact h

theorem trueIn_start (source : Source) : start.TrueIn source :=
  ⟨[], source.text.toList, rfl, after_start, Nat.zero_le _⟩

/-- True positions with one offset are the same. -/
theorem TrueIn.ext {p q : Position} {source : Source} (hp : p.TrueIn source)
    (hq : q.TrueIn source) (h : p.offset = q.offset) : p = q := by
  obtain ⟨before, after, htext, hp, -⟩ := hp
  obtain ⟨before', after', htext', hq, -⟩ := hq
  have hbefore := eq_of_byteLength_eq (htext.symm.trans htext')
    (hp.offset.symm.trans (h.trans hq.offset))
  subst hbefore
  exact hp.ext hq

end Position

/-! ### Readers -/

/-- The reader stands at a true position of the source. -/
def Reader.Inside (source : Source) (r : Reader) : Prop := r.source = source ∧ r.cursor.TrueIn source

/-- The readers of a text that are only ever moved by what they read. -/
inductive Reader.Reached (text : String) (skipsBlanks : Bool) : Reader → Prop
  | start : Reached text skipsBlanks (ofText text skipsBlanks)
  | readChar {r next : Reader} {c : Char} :
    Reached text skipsBlanks r → r.readChar? = some (c, next) → Reached text skipsBlanks next
  | readRune {r next : Reader} {c : Char} {p : Position} :
    Reached text skipsBlanks r → r.readRune? c = some (p, next) → Reached text skipsBlanks next
  | readWord {r next : Reader} {word : String} {p : Position} :
    Reached text skipsBlanks r → r.readWord? word = some (p, next) → Reached text skipsBlanks next
  | lex {r next : Reader} {scan : List Char → Option Nat} {p : Position} {literal : List Char} :
    Reached text skipsBlanks r → r.lex? scan = some (p, literal, next) →
      Reached text skipsBlanks next
  | readPattern {r next : Reader} {pattern : Pattern} {p : Position} {groups : List (List Char)} :
    Reached text skipsBlanks r → Terminal.readPattern? pattern r = some (p, groups, next) →
      Reached text skipsBlanks next
  | skipBlanks {r : Reader} : Reached text skipsBlanks r → Reached text skipsBlanks r.skipBlanks

namespace Reader

variable {source : Source} {r : Reader}

theorem inside_iff : r.Inside source ↔ r.PlacedIn source ∧ r.cursor.offset ≤ source.limit := by
  constructor
  · rintro ⟨rfl, before, after, htext, hafter, hle⟩
    exact ⟨⟨rfl, before, after, htext, Position.after_iff.mp hafter⟩, hle⟩
  · rintro ⟨⟨rfl, before, after, htext, hcursor⟩, hle⟩
    exact ⟨rfl, before, after, htext, Position.after_iff.mpr hcursor, hle⟩

theorem Inside.placedIn (h : r.Inside source) : r.PlacedIn source := (inside_iff.mp h).1

/-- Reading stays in the source, and does not go past its end. -/
theorem Inside.skip (h : r.Inside source) (n : Nat) : (r.skip n).Inside source := by
  obtain ⟨⟨rfl, hplaced⟩, hle⟩ := inside_iff.mp h
  refine inside_iff.mpr ⟨⟨rfl, hplaced.skip n⟩, ?_⟩
  have hahead := r.ahead_skip n
  rcases Nat.lt_or_eq_of_le hahead.le with hlt | heq
  · exact hahead.inside hlt
  · rwa [← heq]

theorem Inside.token (h : r.Inside source) : r.token.Inside source := by
  obtain ⟨n, hn⟩ := r.exists_token_eq_skip
  rw [hn]
  exact h.skip n

theorem inside_ofText (text : String) (skipsBlanks : Bool) :
    (ofText text skipsBlanks).Inside (.ofText text skipsBlanks) :=
  Inside.token ⟨rfl, Position.trueIn_start _⟩

theorem Reached.inside {text : String} {skipsBlanks : Bool} (h : r.Reached text skipsBlanks) :
    r.Inside (.ofText text skipsBlanks) := by
  induction h with
  | start => exact inside_ofText text skipsBlanks
  | readChar _ hread ih =>
    obtain ⟨c, -, hc⟩ := Option.map_eq_some_iff.mp hread
    rw [← (Prod.mk.inj hc).2]
    exact ih.skip 1
  | readRune _ hread ih =>
    obtain ⟨n, rfl⟩ := Terminal.skip_of_readRune? hread
    exact ih.skip n
  | readWord _ hread ih =>
    obtain ⟨n, rfl⟩ := Terminal.skip_of_readWord? hread
    exact ih.skip n
  | lex _ hread ih =>
    obtain ⟨n, rfl⟩ := Terminal.skip_of_lex? hread
    exact ih.skip n
  | readPattern _ hread ih =>
    obtain ⟨n, rfl⟩ := Terminal.skip_of_readPattern? hread
    exact ih.skip n
  | skipBlanks _ ih => exact ih.skip _

end Reader

/-! ### Nodes and builders -/

mutual

/-- The places of a node and of all nodes below it. -/
def Node.places : Node → List Position
  | .leaf _ _ start stop => [start, stop]
  | .branch _ children _ start stop => start :: stop :: placesAll children

def Node.placesAll : List Node → List Position
  | [] => []
  | n :: ns => n.places ++ placesAll ns

end

/-- The builder makes up no places: those in a node that it builds are places of the nodes it was
given, or the start of the text. -/
def Builder.Honest (build : Builder) : Prop :=
  ∀ ⦃nodes node⦄, build nodes = some node →
    ∀ p ∈ node.places, p ∈ Node.placesAll nodes ∨ p = .start

/-- The parser itself makes up no places; a leaf may answer anything. -/
def Parser.Honest : Parser → Prop
  | .leaf _ => False
  | .sequence _ _ build _ _ _ => build.Honest
  | .repetition b _ => b.build.Honest
  | _ => True

namespace Node

theorem start_mem_places (n : Node) : n.start ∈ n.places := by
  cases n <;> simp [places, start]

theorem stop_mem_places (n : Node) : n.stop ∈ n.places := by
  cases n <;> simp [places, stop]

theorem mem_placesAll {ns : List Node} {p : Position} :
    p ∈ placesAll ns ↔ ∃ n ∈ ns, p ∈ n.places := by
  induction ns with
  | nil => simp [placesAll]
  | cons n ns ih => simp [placesAll, ih]

theorem placesAll_append (ns ms : List Node) :
    placesAll (ns ++ ms) = placesAll ns ++ placesAll ms := by
  induction ns with
  | nil => rfl
  | cons n ns ih => simp [placesAll, ih]

/-- The places of a branch over some nodes are theirs, or the start of the text. -/
theorem places_group {token : String} {ns : List Node} {interpreter : Option Interpreter}
    {p : Position} (h : p ∈ (group token ns interpreter).places) :
    p ∈ placesAll ns ∨ p = .start := by
  have hfirst : (ns.head?.map start).getD .start ∈ placesAll ns ∨
      (ns.head?.map start).getD .start = .start := by
    cases hhead : ns.head? with
    | none => exact .inr rfl
    | some n => exact .inl (mem_placesAll.mpr ⟨n, List.mem_of_head? hhead, n.start_mem_places⟩)
  unfold group at h
  simp only [places, List.mem_cons] at h
  rcases h with rfl | rfl | h
  · exact hfirst
  · cases hlast : ns.getLast? with
    | none => exact hfirst
    | some n => exact .inl (mem_placesAll.mpr ⟨n, List.mem_of_getLast? hlast, n.stop_mem_places⟩)
  · exact .inl h

end Node

namespace Builder

theorem honest_discard : discard.Honest := fun _ _ h => by cases h

theorem honest_select (i : Nat) : (select i).Honest := fun _ _ h _ hp =>
  .inl (Node.mem_placesAll.mpr ⟨_, List.mem_of_getElem? h, hp⟩)

theorem honest_group (token : String) (interpreter : Option Interpreter) :
    (group token interpreter).Honest := by
  intro nodes node h p hp
  cases h
  exact Node.places_group hp

theorem honest_concatenate : concatenate.Honest := by
  intro nodes node h p hp
  unfold concatenate at h
  split at h
  · rename_i first last values hfirst hlast hvalues
    cases h
    simp only [Node.places, List.mem_cons, List.not_mem_nil, or_false] at hp
    rcases hp with rfl | rfl
    · exact .inl (Node.mem_placesAll.mpr
        ⟨first, List.mem_of_head? hfirst, first.start_mem_places⟩)
    · exact .inl (Node.mem_placesAll.mpr
        ⟨last, List.mem_of_getLast? hlast, last.stop_mem_places⟩)
  · cases h

mutual

theorem places_flatten : (n : Node) → ∀ {p : Position}, p ∈ Node.placesAll (flatten n) →
    p ∈ n.places
  | .leaf t v start stop, p, h => by
    simpa [flatten, Node.placesAll] using h
  | .branch t cs i start stop, p, h => by
    unfold flatten at h
    split at h
    · simp only [Node.places, List.mem_cons]
      exact .inr (.inr (places_flattenAll cs h))
    · simpa [Node.placesAll] using h

theorem places_flattenAll : (ns : List Node) → ∀ {p : Position},
    p ∈ Node.placesAll (flattenAll ns) → p ∈ Node.placesAll ns
  | [], p, h => h
  | n :: ns, p, h => by
    rw [flattenAll, Node.placesAll_append, List.mem_append] at h
    rw [Node.placesAll, List.mem_append]
    exact h.imp (places_flatten n) (places_flattenAll ns)

end

theorem honest_flatList (token : String) (interpreter : Option Interpreter) :
    (flatList token interpreter).Honest := by
  intro nodes node h p hp
  cases h
  exact (Node.places_group hp).imp_left (places_flattenAll nodes)

end Builder

/-! ### Matches, faults and outcomes -/

/-- The match ends at a true position, not before `offset`, and its node has true places only. -/
structure Match.TrueFrom (source : Source) (offset : Nat) (m : Match) : Prop where
  inside : m.reader.Inside source
  le : offset ≤ m.stopOffset
  node : ∀ n, m.node = some n → ∀ p ∈ n.places, p.TrueIn source

/-- The fault happened at a true position, if at any. -/
def Fault.TrueIn (f : Fault) (source : Source) : Prop := ∀ p, f.place? = some p → p.TrueIn source

/-- All positions in the outcome of a call at a reader are true, and no match ends before it. -/
structure Outcome.TrueFrom (r : Reader) (out : Outcome) : Prop where
  found : ∀ m ∈ out.results.items, m.TrueFrom r.source r.cursor.offset
  fault : ∀ f, out.fault = some f → f.TrueIn r.source

/-- What is remembered was found in the source, and if that was at an offset that can be reached by
reading, it has true positions, not before that offset. -/
def Session.TrueIn (source : Source) (s : Session) : Prop :=
  ∀ id offset, ∀ m ∈ (s.memo.known id offset).items,
    m.reader.PlacedIn source ∧ (offset ≤ source.limit → m.TrueFrom source offset)

/-- A label on one character of a text, or on nothing at its end. -/
def Label.Covers (label : Label) (text : String) : Prop :=
  ∃ before after, text.toList = before ++ after ∧ label.offset = byteLength before ∧
    ((after = [] ∧ label.length = 0) ∨
      ∃ c rest, after = c :: rest ∧ label.length = c.utf8Size)

section Calls

variable {rules : Rules} {P : Parser → Prop} {source : Source}

theorem Match.TrueFrom.mono {offset offset' : Nat} {m : Match} (h : m.TrueFrom source offset)
    (hle : offset' ≤ offset) : m.TrueFrom source offset' :=
  ⟨h.inside, Nat.le_trans hle h.le, h.node⟩

/-- The matches of a terminal are true. -/
theorem Terminal.trueFrom_of_mem_read {t : Terminal} {r : Reader} {m : Match}
    (hr : r.Inside source) (h : m ∈ (t.read r).results.items) :
    m.TrueFrom source r.cursor.offset := by
  obtain ⟨n, hn⟩ := t.skip_of_mem_read h
  have hinside : m.reader.Inside source := hn ▸ hr.skip n
  refine ⟨hinside, (t.ahead_of_mem_read h).le, fun node hnode => ?_⟩
  have hleaf : ∀ {name value start next}, m ∈ (leaf name value start next).results.items →
      start.TrueIn source → ∀ p ∈ node.places, p.TrueIn source := by
    intro name value start next hm hstart p hp
    obtain rfl : m = ⟨some (.leaf name value start next.cursor), next⟩ := Run.mem_matched hm
    cases hnode
    simp only [Node.places, List.mem_cons, List.not_mem_nil, or_false] at hp
    rcases hp with rfl | rfl
    · exact hstart
    · exact hinside.2
  obtain ⟨x, hx⟩ := t.exists_reading r
  rw [hx r (.refl r)] at h
  cases x with
  | nothing => cases h
  | malformed message => cases h
  | here =>
    rw [Run.mem_matched h] at hnode
    cases hnode
  | token name value length => exact hleaf h hr.token.2
  | literal name value length => exact hleaf h hr.2

/-- The fault of a terminal happened at the next token. -/
theorem Terminal.place_of_fault {t : Terminal} {r : Reader} {f : Fault}
    (h : (t.read r).fault = some f) : f.place? = some r.token.cursor := by
  obtain ⟨x, hx⟩ := t.exists_reading r
  rw [hx r (.refl r)] at h
  cases x <;> cases h
  rfl

/-- A chain of true matches has true places only, and does not go back. -/
theorem Run.Chain.trueFrom {R : Nat → Reader → Match → Prop} {r r' : Reader} {k : Nat}
    {nodes : List Node} (h : Run.Chain R r k nodes r') (hr : r.Inside source)
    (hR : ∀ i r m, R i r m → r.Inside source → m.TrueFrom source r.cursor.offset) :
    r'.Inside source ∧ r.cursor.offset ≤ r'.cursor.offset ∧
      ∀ p ∈ Node.placesAll nodes, p.TrueIn source := by
  induction h with
  | nil => exact ⟨hr, Nat.le_refl _, nofun⟩
  | @snoc k nodes r' m _ hm ih =>
    obtain ⟨hinside, hle, hnodes⟩ := ih
    have htrue := hR k r' m hm hinside
    refine ⟨htrue.inside, Nat.le_trans hle htrue.le, fun p hp => ?_⟩
    rw [Node.placesAll_append, List.mem_append] at hp
    rcases hp with hp | hp
    · exact hnodes p hp
    · obtain ⟨node, hnode, hp⟩ := Node.mem_placesAll.mp hp
      exact htrue.node node (by simpa using hnode) p hp

/-- What an honest builder makes of true nodes is true. -/
theorem Builder.Honest.trueIn {build : Builder} (h : build.Honest) {nodes : List Node}
    (hnodes : ∀ p ∈ Node.placesAll nodes, p.TrueIn source) :
    ∀ n, build nodes = some n → ∀ p ∈ n.places, p.TrueIn source := by
  intro n hn p hp
  rcases h hn p hp with hp | rfl
  · exact hnodes p hp
  · exact Position.trueIn_start source

theorem kept_trueIn : Run.Kept (Session.TrueIn source) := Run.kept_forall

theorem Session.trueIn_of_forgotten {s : Session} (h : ∀ id offset, s.memo.known id offset = ∅) :
    s.TrueIn source := forall_of_forgotten h

/-- Truth is passed on by all combinators, from a reader inside the source. -/
theorem respects_trueFrom (hclosed : rules.Closed P) (hhonest : ∀ p, P p → p.Honest) :
    rules.Respects P (Session.TrueIn source) (·.PlacedIn source) fun p r m =>
      P p → r.Inside source → m.TrueFrom source r.cursor.offset where
  closed := hclosed
  kept := kept_trueIn
  terminal {t r m} _ hr hm :=
    ⟨⟨(t.ahead_of_mem_read hm).source.trans hr.1, t.placed_of_mem_read hr.2 hm⟩,
      fun _ hinside => t.trueFrom_of_mem_read hinside hm⟩
  leaf hl := (hhonest _ hl).elim
  choice hq hm hp := hm (hclosed.part hp hq)
  sequence {key label build accepts lookup parts r m} h hp hr := by
    obtain ⟨k, nodes, hchain, -, hnode⟩ := h
    obtain ⟨hinside, hle, hnodes⟩ := hchain.trueFrom hr fun i r m ⟨q, hpick, hm⟩ hr =>
      hm (hclosed.part hp (Parser.mem_of_pick hpick)) hr
    refine ⟨hinside, hle, fun n hn => ?_⟩
    exact (hhonest _ hp : build.Honest).trueIn hnodes n (hnode.symm.trans hn)
  repetition {b p r m} h hp hr := by
    obtain ⟨k, nodes, hchain, -, -, hnode⟩ := h
    obtain ⟨hinside, hle, hnodes⟩ := hchain.trueFrom hr fun _ r m hm hr =>
      hm (hclosed.part hp (List.mem_singleton.mpr rfl)) hr
    refine ⟨hinside, hle, fun n hn => ?_⟩
    rw [hnode] at hn
    split at hn
    · cases hn
    · exact (hhonest _ hp : b.build.Honest).trueIn hnodes n hn
  sentence hm _ hp := hm (hclosed.part hp (List.mem_singleton.mpr rfl))
  orEmpty hm hp := hm (hclosed.part hp (List.mem_singleton.mpr rfl))
  emptyGroup {token p r} _ hr := by
    refine ⟨hr, Nat.le_refl _, fun n hn => ?_⟩
    cases hn
    intro p hp
    obtain rfl : p = r.cursor := by simpa [Node.emptyGroup, Node.places, Node.placesAll] using hp
    exact hr.2
  rule hq hm hp := hm (hclosed.rule hp hq)
  memory {key label build accepts lookup parts} hp r s id found hr hs _ hfound := by
    have hknown : ∀ m ∈ (s.memo.known id r.cursor.offset).items, m.reader.PlacedIn source ∧
        (r.cursor.offset ≤ source.limit → m.TrueFrom source r.cursor.offset) := hs id _
    refine ⟨Session.forall_grow hs fun m hm => ?_, fun m hm => ⟨(hknown m hm).1, fun _ hinside =>
      (hknown m hm).2 (Reader.inside_iff.mp hinside).2⟩⟩
    obtain ⟨hplaced, htrue⟩ := hfound m hm
    exact ⟨hplaced, fun hle => htrue hp (Reader.inside_iff.mpr ⟨hr, hle⟩)⟩

theorem Session.Used.trueIn (hclosed : rules.Closed P) (hhonest : ∀ p, P p → p.Honest)
    {s : Session} (h : s.Used rules P source) : s.TrueIn source := by
  induction h with
  | forgotten hs => exact trueIn_of_forgotten hs
  | called _ hp hr hx ih =>
    exact (Parser.run_yields (respects_trueFrom hclosed hhonest) _ hp hr ih hx).kept
  | otherwise _ _ hknown ih => exact forall_of_known ih hknown

/-- Called at a reader inside the source, parsers yield matches with true positions. -/
theorem yields_trueFrom (hclosed : rules.Closed P) (hhonest : ∀ p, P p → p.Honest) (n : Nat)
    {p : Parser} (hp : P p) : Run.Yields (Session.TrueIn source) (·.Inside source)
      (p.run rules n) fun r m => m.TrueFrom source r.cursor.offset := by
  intro d r s out s' hr hs h
  have hy := Parser.run_yields (respects_trueFrom hclosed hhonest) n hp hr.placedIn hs h
  refine hy.mono fun m hm => ?_
  have htrue := hm.2 hp hr
  exact ⟨htrue.inside, htrue⟩

/-- Faults are reported at true positions. -/
theorem blame_trueIn (hhonest : ∀ p, P p → p.Honest) :
    rules.Blame P (Session.TrueIn source) (·.Inside source) (·.TrueIn source) where
  terminal {t r f} _ hr hf p hp := by
    rw [Terminal.place_of_fault hf] at hp
    exact Option.some.inj hp ▸ hr.token.2
  leaf hl := (hhonest _ hl).elim
  expecting r name hr p hp := by
    cases hp
    exact hr.token.2
  trailing r hr p hp := by
    cases hp
    exact hr.token.2
  undefined _ _ _ := nofun
  dropped _ _ _ := nofun

/-- A call at a reader inside the source has a true outcome, whatever the session was used for. -/
theorem Parser.run_trueFrom (hclosed : rules.Closed P) (hhonest : ∀ p, P p → p.Honest) {n : Nat}
    {p : Parser} (hp : P p) {d : Tally} {r : Reader} {s s' : Session} {out : Outcome}
    (hr : r.Inside source) (hs : s.TrueIn source) (h : p.run rules n d r s = some (out, s')) :
    out.TrueFrom r := by
  obtain rfl := hr.1
  have hyields := @yields_trueFrom rules P r.source hclosed hhonest
  exact ⟨fun m hm => ((hyields n hp hr hs h).found m hm).2,
    (run_blames hclosed kept_trueIn (blame_trueIn hhonest) hyields n hp hr hs h).fault⟩

/-- The label of a fault at a true position is on one character, or on nothing at the end. -/
theorem Fault.TrueIn.covers {f : Fault} (h : f.TrueIn source) {file : SourceFile}
    (hfile : file.text = source.text) {help : Option String} {label : Label}
    (hlabel : (Diagnostic.mk file f help).label? = some label) : label.Covers source.text := by
  obtain ⟨p, hp, rfl⟩ := Option.map_eq_some_iff.mp hlabel
  obtain ⟨before, after, htext, hafter, -⟩ := h p hp
  refine ⟨before, after, htext, hafter.offset, ?_⟩
  have hlength : file.charLength p.offset = (after.head?.map Char.utf8Size).getD 0 := by
    rw [SourceFile.charLength, hfile, htext, hafter.offset, dropBytes_byteLength]
  cases after with
  | nil => exact .inl ⟨rfl, hlength⟩
  | cons c rest => exact .inr ⟨c, rest, rfl, hlength⟩

end Calls

namespace Grammar

/-- What is made of a true outcome of the root is true. -/
theorem select_trueFrom {name : String} {r : Reader} {out : Outcome} (hr : r.Inside r.source)
    (h : out.TrueFrom r) :
    (∀ m, select name r out = .ok m → m.TrueFrom r.source r.cursor.offset) ∧
      ∀ f, select name r out = .error f → f.TrueIn r.source := by
  refine ⟨fun m hm => h.found m (mem_of_select hm).1, fun f hf => ?_⟩
  have htrailing : ∀ m ∈ out.results.items,
      (Fault.trailing m.reader.token.cursor).TrueIn r.source := by
    intro m hm p hp
    cases hp
    exact (h.found m hm).inside.token.2
  unfold select at hf
  split at hf
  · cases hf
    cases hfault : out.fault with
    | some f => exact h.fault f hfault
    | none =>
      intro p hp
      cases hp
      exact hr.token.2
  · rename_i last hlast
    have hlast : last ∈ out.results.items := List.mem_of_getLast? hlast
    split at hf
    · cases hf
    · cases hf
      cases hfurthest : Fault.furthest (some (.trailing last.reader.token.cursor)) out.fault with
      | none => exact htrailing last hlast
      | some f =>
        rcases Fault.furthest_eq_some hfurthest with hf | hf
        · cases hf
          exact htrailing last hlast
        · exact h.fault f hf

/-- **True positions.** At every reader that was only moved by reading, all positions in the outcome
of a call and in the result of a parse are true. True positions are told apart by their offsets, and
a fault at one has a label on one whole character or on nothing at the end of the text. -/
theorem places_true {g : Grammar} (hg : ∀ p ∈ g.members, p.Honest) {text : String}
    {skipsBlanks : Bool} {r : Reader} (hr : r.Reached text skipsBlanks) :
    (∀ p ∈ g.members, ∀ n d s out s', s.Used g.rules (· ∈ g.members) r.source →
        p.run g.rules n d r s = some (out, s') → out.TrueFrom r) ∧
      (∀ s result s', g.parse r s = some (result, s') →
        (∀ m, result = .ok m → m.TrueFrom r.source r.cursor.offset) ∧
          ∀ f, result = .error f → f.TrueIn r.source) ∧
      (∀ p q : Position, p.TrueIn r.source → q.TrueIn r.source → p.offset = q.offset → p = q) ∧
      ∀ f : Fault, f.TrueIn r.source → ∀ name help label,
        (Diagnostic.mk ⟨name, text⟩ f help).label? = some label → label.Covers text := by
  have hsource : r.source = .ofText text skipsBlanks := hr.inside.1
  have hinside : r.Inside r.source := hsource ▸ hr.inside
  refine ⟨fun p hp n d s out s' hs h => ?_, fun s result s' h => ?_,
    fun p q hp hq => hp.ext hq, fun f hf name help label hlabel => ?_⟩
  · exact Parser.run_trueFrom g.closed_members hg hp hinside (hs.trueIn g.closed_members hg) h
  · -- A parse forgets what was found before, so nothing needs to be known of its session.
    obtain ⟨⟨out, s₁⟩, hcall, heq⟩ := Option.map_eq_some_iff.mp h
    obtain ⟨rfl, -⟩ := Prod.mk.inj heq
    exact select_trueFrom hinside (Parser.run_trueFrom g.closed_members hg g.root_mem_members hinside
      (Session.trueIn_of_forgotten (Session.known_forget _)) hcall)
  · have htext : text = r.source.text := by rw [hsource]; rfl
    subst htext
    exact hf.covers rfl hlabel

/-- In a sum that breaks off before another letter, on the second line, the fault is at that letter,
and so is its label. -/
theorem brokenSum_places :
    let g := sumsOf (.terminal (.rune 'a' "A"))
    let r := Reader.ofText "a\n+ é" true
    let missing := Fault.parse ⟨4, 2, 3⟩ "was expecting \"a\""
    (∀ p ∈ g.members, p.Honest) ∧ r.Reached "a\n+ é" true ∧
      (∃ s', g.parse r .fresh = some (.error missing, s')) ∧ missing.TrueIn r.source ∧
      (Label.mk 4 2 "was expecting \"a\"").Covers "a\n+ é" := by
  intro g r missing
  have hg : ∀ p ∈ g.members, p.Honest := by
    intro p hp
    cases p with
    | leaf l => simp [g, sumsOf, members, Rules.definitions, Parser.members, membersAll] at hp
    | sequence key label build accepts lookup parts =>
      simp [g, sumsOf, members, Rules.definitions, Parser.members, membersAll] at hp
      obtain ⟨-, -, rfl, -⟩ := hp
      exact Builder.honest_group "SUM" none
    | repetition b p =>
      simp [g, sumsOf, members, Rules.definitions, Parser.members, membersAll] at hp
    | _ => trivial
  have hr : r.Reached "a\n+ é" true := .start
  have hfault : (g.parse r .fresh).map (fun x => fault? x.1) = some (some missing) := by
    decide +kernel
  obtain ⟨⟨result, s'⟩, hparse, hresult⟩ := Option.map_eq_some_iff.mp hfault
  obtain rfl : result = .error missing := fault?_eq_some.mp hresult
  obtain ⟨-, hresults, -, hlabels⟩ := places_true hg hr
  have hmissing := (hresults _ _ _ hparse).2 missing rfl
  exact ⟨hg, hr, ⟨s', hparse⟩, hmissing, hlabels missing hmissing "" none _ (by decide +kernel)⟩

end Grammar

end Curtail
