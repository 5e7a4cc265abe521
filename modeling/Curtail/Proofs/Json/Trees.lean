/-
# Trees of JSON documents

The interpreters of the grammar rely on the shape of the tree: a member has a
key, a colon and a value, an object has its members between two braces, and the
items of a list stand at every other place. That shape comes from the builders
alone, so it is the same for all texts. It holds because no part of the grammar
matches without a node: were one to, the children behind it would move up.

What the rule for values builds is guessed to be a value, all of whose nodes
have their shape, and the definition of the rule supports this guess. Lists are
the one place where nodes are taken apart again, the items of a list are not.
So no interpreter gives up: if something is wrong, it is the text.

Key definitions: `Json.Alternates`, `Json.Shape`, `Json.Proper`, `Json.Grows`.
Key theorems: `Json.grows_separated`, `Json.supports_document`,
`Json.parse_of_denotes`, `Json.trees_proper`.
-/
import Curtail.Proofs.Building
import Curtail.Proofs.Json.Recognition
import Curtail.Proofs.Spans
import Curtail.Proofs.Verdicts

namespace Curtail

namespace Json

open Builder

variable {α : Type} {Item Item' : Node → α → Prop} {S : Nat → Option Node → Prop} {item : Parser}

/-! ### Shapes -/

/-- A leaf with this token. -/
def IsLeaf (token : String) (n : Node) : Prop := ∃ v start stop, n = .leaf token v start stop

/-- Items with a comma between any two of them, of which there is at least one. -/
inductive Alternates (Item : Node → α → Prop) : List Node → List α → Prop
  | one {n : Node} {a : α} : Item n a → Alternates Item [n] [a]
  | more {n comma : Node} {a : α} {nodes : List Node} {as : List α} :
    Item n a → IsLeaf "," comma → Alternates Item nodes as →
      Alternates Item (n :: comma :: nodes) (a :: as)

/-- A list: its children are its items and the commas between them, if there are any, and its value
is the list of what its items mean. -/
structure IsList (token : String) (Item : Node → α → Prop) (mean : α → Value) (n : Node)
    (as : List α) : Prop where
  token : n.token = token
  children : (n.children = [] ∧ as = []) ∨ Alternates Item n.children as
  value : ∀ ctx, n.value ctx = .ok (.list (as.map mean))

/-- A node that stands for a value of a document. -/
structure IsValue (n : Node) (v : Value) : Prop where
  token : n.token ∈ ["STRING", "FLOAT", "INT", "BOOL", "NIL", "ARR", "OBJECT"]
  value : ∀ ctx, n.value ctx = .ok v

/-- A node that stands for a key with its value: the key, a colon and the value are its children. -/
structure IsMember (n : Node) (e : String × Value) : Prop where
  token : n.token = "PAIR"
  children : ∃ start stop colon value,
    n.children = [.leaf "STRING" (.text e.1) start stop, colon, value] ∧ IsLeaf ":" colon ∧
      IsValue value e.2
  value : ∀ ctx, n.value ctx = .ok (entryValue e)

/-- The node of an object: its children are a list of members and the braces around it, and its value
has the keys of all of these members and no other keys, each with the last value it has there. -/
structure IsObject (n : Node) (es map : List (String × Value)) : Prop where
  token : n.token = "OBJECT"
  children : ∃ opening pairs closing, n.children = [opening, pairs, closing] ∧
    IsLeaf "OBJ_START" opening ∧ IsList "PAIRS" IsMember entryValue pairs es ∧
    IsLeaf "OBJ_END" closing
  value : ∀ ctx, n.value ctx = .ok (.map map)
  last : LastWins es map
  keys : ∀ key, key ∈ map.map Prod.fst ↔ key ∈ es.map Prod.fst

/-- The tokens of the leaves of a tree. -/
def leafTokens : List String :=
  ["STRING", "FLOAT", "INT", "BOOL", "NIL", ",", ":", "OBJ_START", "OBJ_END"]

/-- The shape that goes with a token; what is no branch of the grammar has no children. -/
def Shape (n : Node) : String → Prop
  | "ARR" => ∃ vs, IsList "ARR" IsValue (fun v => v) n vs
  | "PAIRS" => ∃ es, IsList "PAIRS" IsMember entryValue n es
  | "PAIR" => ∃ e, IsMember n e
  | "OBJECT" => ∃ es map, IsObject n es map
  | _ => n.children = []

/-- A node has a token of the grammar with its shape, and it has a value. -/
structure Proper (n : Node) : Prop where
  token : n.token ∈ leafTokens ++ ["ARR", "PAIRS", "PAIR", "OBJECT"]
  shape : Shape n n.token
  value : ∃ v, ∀ ctx, n.value ctx = .ok v

section Shapes

variable {n : Node}

theorem IsLeaf.shape {token : String} (h : IsLeaf token n) (htoken : token ∈ leafTokens) :
    Shape n token := by
  have hnil : n.children = [] := by
    obtain ⟨v, start, stop, rfl⟩ := h
    rfl
  simp only [leafTokens, List.mem_cons, List.not_mem_nil, or_false] at htoken
  rcases htoken with rfl | rfl | rfl | rfl | rfl | rfl | rfl | rfl | rfl <;> exact hnil

theorem IsLeaf.proper {token : String} (h : IsLeaf token n) (htoken : token ∈ leafTokens) :
    Proper n := by
  have hshape := h.shape htoken
  obtain ⟨v, start, stop, rfl⟩ := h
  exact ⟨List.mem_append_left _ htoken, hshape, v, fun _ => rfl⟩

theorem IsList.proper_array {vs : List Value} (h : IsList "ARR" IsValue (fun v => v) n vs) :
    Proper n where
  token := by simp [h.token]
  shape := by rw [h.token]; exact ⟨vs, h⟩
  value := ⟨_, h.value⟩

theorem IsList.proper_pairs {es : List (String × Value)}
    (h : IsList "PAIRS" IsMember entryValue n es) : Proper n where
  token := by simp [h.token]
  shape := by rw [h.token]; exact ⟨es, h⟩
  value := ⟨_, h.value⟩

theorem IsMember.proper {e : String × Value} (h : IsMember n e) : Proper n where
  token := by simp [h.token]
  shape := by rw [h.token]; exact ⟨e, h⟩
  value := ⟨_, h.value⟩

theorem IsObject.proper {es map : List (String × Value)} (h : IsObject n es map) : Proper n where
  token := by simp [h.token]
  shape := by rw [h.token]; exact ⟨es, map, h⟩
  value := ⟨_, h.value⟩

end Shapes

/-! ### Growth -/

/-- An item all of whose nodes are proper, and that lists leave whole. -/
structure Grown (Item : Node → α → Prop) (n : Node) (a : α) : Prop where
  item : Item n a
  whole : flatten n = [n]
  proper : ∀ x, n.Under x → Proper x

/-- Whatever the parser builds is a grown item. -/
def Grows (S : Nat → Option Node → Prop) (p : Parser) (Item : Node → α → Prop) : Prop :=
  ∀ node?, Builds S p node? → ∃ n a, node? = some n ∧ Grown Item n a

theorem Grown.imp {β : Type} {Item' : Node → β → Prop} {n : Node} {a : α} {b : β}
    (h : Grown Item n a) (himp : Item n a → Item' n b) : Grown Item' n b :=
  ⟨himp h.item, h.whole, h.proper⟩

/-- A branch is proper if it has its shape and all is proper below its children. -/
theorem proper_under {top : Node} (htop : Proper top)
    (hchildren : ∀ c ∈ top.children, ∀ x, c.Under x → Proper x) : ∀ x, top.Under x → Proper x := by
  intro x hx
  rcases hx.head with rfl | ⟨c, hc, hunder⟩
  · exact htop
  · exact hchildren c hc x hunder

theorem IsLeaf.proper_under {token : String} {n : Node} (h : IsLeaf token n)
    (htoken : token ∈ leafTokens) : ∀ x, n.Under x → Proper x := by
  refine Json.proper_under (h.proper htoken) ?_
  obtain ⟨v, start, stop, rfl⟩ := h
  exact nofun

/-! ### Leaves -/

/-- A token of a value is built as a leaf that stands for a value. -/
theorem grows_terminal {t : Terminal} (ht : t.isToken = true)
    (htoken : ∀ token v, t.Makes token v → token ∈ ["STRING", "FLOAT", "INT", "BOOL", "NIL"]) :
    Grows S (.terminal t) IsValue := by
  intro node? h
  obtain ⟨token, v, start, stop, hmakes, rfl⟩ := h.terminal_leaf ht
  have hmem := htoken token v hmakes
  have hleaf : IsLeaf token (.leaf token v start stop) := ⟨v, start, stop, rfl⟩
  exact ⟨_, v, rfl, ⟨List.mem_append_left ["ARR", "OBJECT"] hmem, fun _ => rfl⟩, rfl,
    hleaf.proper_under (List.mem_append_left [",", ":", "OBJ_START", "OBJ_END"] hmem)⟩

theorem builds_rune {c : Char} {token : String} {node? : Option Node}
    (h : Builds S (.terminal (.rune c token)) node?) : ∃ n, node? = some n ∧ IsLeaf token n := by
  obtain ⟨_, v, start, stop, ⟨⟩, rfl⟩ := h.terminal_leaf rfl
  exact ⟨_, rfl, _, start, stop, rfl⟩

/-! ### Lists -/

theorem Alternates.imp {nodes : List Node} {as : List α} (himp : ∀ n a, Item n a → Item' n a)
    (h : Alternates Item nodes as) : Alternates Item' nodes as := by
  induction h with
  | one hitem => exact .one (himp _ _ hitem)
  | more hitem hcomma _ ih => exact .more (himp _ _ hitem) hcomma ih

/-- The values of the items, those of the commas left out. -/
theorem Alternates.valuesOf {mean : α → Value} {nodes : List Node} {as : List α}
    (h : Alternates Item nodes as) (hmean : ∀ n a, Item n a → ∀ ctx, n.value ctx = .ok (mean a))
    (ctx : Context) : Node.valuesOf ctx (Interpreter.alternate (Node.views nodes)) =
      .ok (as.map mean) := by
  induction h with
  | one hitem => exact Node.valuesOf_cons (hmean _ _ hitem ctx) rfl
  | more hitem _ _ ih => exact Node.valuesOf_cons (hmean _ _ hitem ctx) ih

theorem Alternates.isList {mean : α → Value} {nodes : List Node} {as : List α}
    (h : Alternates Item nodes as) (token : String)
    (hmean : ∀ n a, Item n a → ∀ ctx, n.value ctx = .ok (mean a)) :
    IsList token Item mean (.group token nodes (some Interpreter.items)) as where
  token := rfl
  children := .inr h
  value ctx := by
    simp only [Node.group, Node.value, Node.interpret, Interpreter.items, h.valuesOf hmean ctx,
      Except.map]

theorem Alternates.proper {nodes : List Node} {as : List α} (h : Alternates (Grown Item) nodes as) :
    ∀ c ∈ nodes, ∀ x, c.Under x → Proper x := by
  induction h with
  | one hitem =>
    intro c hc
    rw [List.mem_singleton.mp hc]
    exact hitem.proper
  | more hitem hcomma _ ih =>
    intro c hc
    rcases List.mem_cons.mp hc with rfl | hc
    · exact hitem.proper
    · rcases List.mem_cons.mp hc with rfl | hc
      · exact hcomma.proper_under (by decide)
      · exact ih c hc

/-- A comma held together with the item after it. -/
def Paired (Item : Node → α → Prop) (pair : Node) (a : α) : Prop :=
  ∃ comma next, pair = .group pairToken [comma, next] none ∧ IsLeaf "," comma ∧ Grown Item next a

/-- The pairs after the first item, taken apart. -/
theorem alternates_flattenAll {pairs : List Node} {as : List α}
    (h : List.Forall₂ (Paired Item) pairs as) : ∀ {n : Node} {a : α}, Grown Item n a →
      Alternates (Grown Item) (n :: flattenAll pairs) (a :: as) := by
  induction h with
  | nil => exact fun hn => .one hn
  | @cons pair a' pairs as hpair _ ih =>
    intro n a hn
    obtain ⟨comma, next, rfl, hcomma, hnext⟩ := hpair
    have hwhole : flatten comma = [comma] := by
      obtain ⟨v, start, stop, rfl⟩ := hcomma
      rfl
    have hflat : flattenAll (.group pairToken [comma, next] none :: pairs) =
        comma :: next :: flattenAll pairs := by
      simp [Node.group, flattenAll, flatten, isGlue, hwhole, hnext.whole]
    rw [hflat]
    exact .more hn hcomma (ih hnext)

/-- What is built with a node each time is a list of nodes. -/
theorem exists_nodes {Q : Node → α → Prop} {found : List (Option Node)}
    (h : ∀ node? ∈ found, ∃ n a, node? = some n ∧ Q n a) :
    ∃ nodes as, found.flatMap Option.toList = nodes ∧ found.length = nodes.length ∧
      List.Forall₂ Q nodes as := by
  induction found with
  | nil => exact ⟨[], [], rfl, rfl, .nil⟩
  | cons node? found ih =>
    obtain ⟨n, a, rfl, hn⟩ := h node? List.mem_cons_self
    obtain ⟨nodes, as, hflat, hlength, hnodes⟩ := ih fun x hx => h x (List.mem_cons_of_mem _ hx)
    exact ⟨n :: nodes, a :: as, by simp [hflat], by simp [hlength], .cons hn hnodes⟩

theorem builds_further (hitem : Grows S item Item) {k : Nat} {node? : Option Node}
    (h : Builds S (further k item) node?) : ∃ pair a, node? = some pair ∧ Paired Item pair a := by
  obtain ⟨_, _ | ⟨h₁, _ | ⟨h₂, ⟨⟩⟩⟩, rfl⟩ := h.sequence_parts rfl
  obtain ⟨comma, rfl, hcomma⟩ := builds_rune h₁
  obtain ⟨next, a, rfl, hnext⟩ := hitem _ h₂
  exact ⟨_, a, rfl, comma, next, rfl, hcomma, hnext⟩

/-- **A separated list of items that always have a node is grown**: it alternates items and commas,
and nothing is left of what held them together. -/
theorem grows_separated {mean : α → Value} (hitem : Grows S item Item)
    (hmean : ∀ n a, Item n a → ∀ ctx, n.value ctx = .ok (mean a)) (k : Nat) {token : String}
    (htoken : isGlue token none = false)
    (hproper : ∀ n as, IsList token Item mean n as → Proper n) :
    Grows S (separated k token item) (IsList token Item mean) := by
  intro node? h
  cases h with
  | @emptyGroup _ _ place =>
    have hlist : IsList token Item mean (.emptyGroup token place none) [] :=
      ⟨rfl, .inl ⟨rfl, rfl⟩, fun _ => rfl⟩
    exact ⟨_, [], rfl, hlist, by simp [Node.emptyGroup, flatten, htoken],
      proper_under (hproper _ _ hlist) nofun⟩
  | orEmpty h =>
    obtain ⟨_, _ | ⟨h₁, _ | ⟨h₂, ⟨⟩⟩⟩, rfl⟩ := h.sequence_parts rfl
    obtain ⟨first, a, rfl, hfirst⟩ := hitem _ h₁
    obtain ⟨laps, hlaps, rfl⟩ := h₂.repeated
    obtain ⟨pairs, as, hflat, hlength, hpairs⟩ := exists_nodes fun lap hlap =>
      builds_further hitem (hlaps lap hlap)
    have hgrown := alternates_flattenAll hpairs hfirst
    rw [← flattenAll_tail hfirst.whole] at hgrown
    have hitems := hgrown.imp fun n a (h : Grown Item n a) => h.item
    refine ⟨_, a :: as, rfl, ?_⟩
    simp only [List.flatMap_cons, List.flatMap_nil, Option.toList_some, List.append_nil, hflat,
      hlength, Builder.group, List.singleton_append]
    have hlist : IsList token Item mean _ (a :: as) := hitems.isList token hmean
    exact ⟨hlist, rfl, proper_under (hproper _ _ hlist) hgrown.proper⟩

/-! ### Arrays, members and objects -/

section Values

variable (hvalue : Grows S valueHandle IsValue)

include hvalue

theorem grows_array : Grows S arrayParser IsValue := by
  intro node? h
  obtain ⟨_, _ | ⟨h₁, _ | ⟨h₂, _ | ⟨h₃, ⟨⟩⟩⟩⟩, rfl⟩ := h.sequence_parts rfl
  obtain ⟨opening, rfl, -⟩ := builds_rune h₁
  obtain ⟨n, vs, rfl, hn⟩ := grows_separated hvalue (fun n v h => h.value) 0 rfl
    (fun n vs h => IsList.proper_array h) _ h₂
  refine ⟨n, .list vs, rfl, hn.imp fun hlist => ⟨by simp [hlist.token], fun ctx => ?_⟩⟩
  rw [hlist.value, List.map_id']

theorem grows_pair : Grows S pairParser IsMember := by
  intro node? h
  obtain ⟨_, _ | ⟨h₁, _ | ⟨h₂, _ | ⟨h₃, ⟨⟩⟩⟩⟩, rfl⟩ := h.sequence_parts rfl
  obtain ⟨_, _, start, stop, hmakes, rfl⟩ := h₁.terminal_leaf rfl
  obtain ⟨colon, rfl, hcolon⟩ := builds_rune h₂
  obtain ⟨n, v, rfl, hn⟩ := hvalue _ h₃
  cases hmakes with | quoted key
  have hmember : IsMember (.group "PAIR" [.leaf "STRING" (.text key) start stop, colon, n]
      (some member)) (key, v) := {
    token := rfl
    children := ⟨start, stop, colon, n, rfl, hcolon, hn.item⟩
    value := fun ctx => by
      simp only [Node.group, Node.value, Node.interpret, Node.views, member, hn.item.value]
      rfl }
  have hkey : IsLeaf "STRING" (.leaf "STRING" (.text key) start stop) := ⟨_, _, _, rfl⟩
  refine ⟨_, (key, v), rfl, hmember, rfl, proper_under hmember.proper ?_⟩
  exact List.forall_mem_cons.mpr ⟨hkey.proper_under (by decide),
    List.forall_mem_cons.mpr ⟨hcolon.proper_under (by decide),
      List.forall_mem_singleton.mpr hn.proper⟩⟩

theorem grows_object : Grows S objectParser IsValue := by
  intro node? h
  obtain ⟨_, _ | ⟨h₁, _ | ⟨h₂, _ | ⟨h₃, ⟨⟩⟩⟩⟩, rfl⟩ := h.sequence_parts rfl
  obtain ⟨opening, rfl, hopening⟩ := builds_rune h₁
  obtain ⟨closing, rfl, hclosing⟩ := builds_rune h₃
  obtain ⟨n, es, rfl, hn⟩ := grows_separated (grows_pair hvalue) (fun n e h => h.value) 4 rfl
    (fun n es h => IsList.proper_pairs h) _ h₂
  obtain ⟨map, hmap⟩ : ∃ map, Value.ofEntries es = .map map := ⟨_, rfl⟩
  have hlast := lastWins_iff.mpr hmap.symm
  have hobject : IsObject (.group "OBJECT" [opening, n, closing] (some object)) es map := {
    token := rfl
    children := ⟨opening, n, closing, rfl, hopening, hn.item, hclosing⟩
    value := fun ctx => by
      simp only [Node.group, Node.value, Node.interpret, Node.views, object, hn.item.value,
        Except.map, Value.asList?, Option.getD_some, filterMap_entryOf, hmap]
    last := hlast
    keys := hlast.mem_keys_iff }
  refine ⟨_, .map map, rfl, ⟨by simp [hobject.token], hobject.value⟩, rfl,
    proper_under hobject.proper ?_⟩
  exact List.forall_mem_cons.mpr ⟨hopening.proper_under (by decide),
    List.forall_mem_cons.mpr ⟨hn.proper,
      List.forall_mem_singleton.mpr (hclosing.proper_under (by decide))⟩⟩

end Values

/-! ### All values -/

/-- What is guessed of the rule for values. -/
def valueNodes : Nat → Option Node → Prop := fun _ node? => ∃ n v, node? = some n ∧ Grown IsValue n v

theorem grows_choice {name : String} {ps : List Parser} (h : ∀ p ∈ ps, Grows S p Item) :
    Grows S (.choice name ps) Item := by
  intro node? hbuilds
  cases hbuilds with
  | choice hq hbuilds => exact h _ hq _ hbuilds

theorem grows_value (hvalue : Grows S valueHandle IsValue) : Grows S valueParser IsValue := by
  have hnumber : Grows S (.choice "number" [.terminal .fraction, .terminal .integer]) IsValue := by
    refine grows_choice (List.forall_mem_cons.mpr ⟨?_, List.forall_mem_singleton.mpr ?_⟩)
    · exact grows_terminal rfl fun _ _ h => by cases h; decide
    · exact grows_terminal rfl fun _ _ h => by cases h; decide
  refine grows_choice ?_
  simp only [List.forall_mem_cons, List.not_mem_nil, false_implies, implies_true, and_true]
  refine ⟨?_, hnumber, ?_, ?_, grows_array hvalue, grows_object hvalue⟩
  · exact grows_terminal rfl fun _ _ h => by cases h; decide
  · exact grows_terminal rfl fun _ _ h => by cases h; decide
  · exact grows_terminal rfl fun _ _ h => by cases h; decide

theorem supports_document : document.rules.Supports valueNodes := by
  intro id q node? hq h
  have hhandle : Grows valueNodes valueHandle IsValue := by
    intro node? h
    cases h with
    | rule h => exact h
  cases id with
  | zero =>
    cases hq
    exact grows_value hhandle node? h
  | succ id => cases hq

/-! ### Documents -/

theorem document_coherent : document.rules.Coherent (· ∈ document.members) where
  closed := document.closed_members
  leaf hl := absurd rfl ((members_document _ hl).1 _)
  keyed hp hq hpkey hqkey := by
    rw [(members_document _ hp).2.2 _ hpkey, (members_document _ hq).2.2 _ hqkey]

theorem document_defined : ∀ h, .rule h ∈ document.members →
    ∃ q, document.rules.state h.id = .defined q := by
  have hmembers : ∀ p ∈ document.members, ∀ h, p = .rule h →
      ∃ q, document.rules.state h.id = .defined q := by
    refine List.forall_iff_forall_mem.mp ?_
    repeat' apply And.intro
    all_goals first | exact trivial | (rintro _ ⟨⟩ <;> exact ⟨_, rfl⟩)
  exact fun h hh => hmembers _ hh h rfl

/-- What the grammar derives has the node of a value, proper throughout. -/
theorem grown_of_derives {r : Reader} {m : Match} (h : Derives document.rules document.root r m) :
    ∃ node v, m.node = some node ∧ Grown IsValue node v := by
  have hbuilds : Builds valueNodes document.root m.node := h.builds supports_document
  cases hbuilds with
  | sentence hrule =>
    cases hrule with
    | rule h => exact h

theorem document_answers (r : Reader) (s : Session) :
    ∃ parsed s', document.parse r s = some (parsed, s') := by
  obtain ⟨⟨out, t⟩, hx⟩ := Grammar.root_answers document_guarded
    (fun p hp => (members_document p hp).2.1)
    (filed_forget r.source (s.note (.starting document.name r.cursor)))
  rw [Grammar.parse, Grammar.call, hx]
  exact ⟨_, _, rfl⟩

/-- A whole document is parsed, and its match stands for what it denotes. -/
theorem parse_of_denotes {r r' : Reader} {v : Value} (h : Denotes r v r') (hend : r'.atEnd = true)
    (s : Session) : ∃ m s', document.parse r s = some (.ok m, s') ∧ m.value .none = .ok v := by
  obtain ⟨result, s', hx, hresult⟩ := evaluate_eq r s
  have hok : result = .ok v :=
    (hresult v).mpr ⟨r', (denotes_iff (Nat.lt_succ_self r.remaining)).mp h, hend⟩
  rw [evaluate_eq_document, hok] at hx
  obtain ⟨parsed, t, hparse⟩ := document_answers r s
  cases parsed with
  | error f =>
    rw [Grammar.evaluate_of_error hparse] at hx
    cases hx
  | ok m =>
    obtain ⟨t', hvalue⟩ := Grammar.evaluate_of_match hparse
    rw [hvalue] at hx
    exact ⟨m, t, hparse, (Prod.mk.inj (Option.some.inj hx)).1⟩

/-- **The interpreters never meet a malformed tree.** Whatever the text is and whether blanks are
skipped or not, evaluation comes to an end, and only the text can be at fault, which a document is
not. If the text was parsed, there is a node, which has a value, and it is proper with all nodes
below it. -/
theorem trees_proper : ∃ g, grammar = .ok g ∧
    ∀ (text : String) (skipsBlanks : Bool) (ctx : Context) (s : Session),
      ∃ parsed s₁ result s₂, g.parse (Reader.ofText text skipsBlanks) s = some (parsed, s₁) ∧
        g.evaluate ctx (Reader.ofText text skipsBlanks) s = some (result, s₂) ∧
        (∀ f, result = .error f → parsed = .error f ∧ f.OfText) ∧
        (∀ m, parsed = .ok m → ∃ node v, m.node = some node ∧ result = .ok v ∧ IsValue node v ∧
          ∀ n, node.Under n → Proper n) ∧
        ∀ v r', Denotes (Reader.ofText text skipsBlanks) v r' → r'.atEnd = true →
          result = .ok v := by
  refine ⟨document, grammar_eq_document, fun text skipsBlanks ctx s => ?_⟩
  have hplaced := Reader.placed_ofText text skipsBlanks
  generalize Reader.ofText text skipsBlanks = r at hplaced ⊢
  obtain ⟨parsed, s₁, hparse⟩ := document_answers r s
  cases parsed with
  | error f =>
    have htext : f.OfText := Grammar.fault_ofText
      (fun l hl => (members_document _ hl).1 l rfl) document_defined hparse
    refine ⟨.error f, s₁, .error f, s₁, hparse, Grammar.evaluate_of_error hparse, ?_, ?_,
      fun v r' h hend => ?_⟩
    · rintro _ ⟨⟩
      exact ⟨rfl, htext⟩
    · rintro _ ⟨⟩
    · obtain ⟨m, t, hm, -⟩ := parse_of_denotes h hend s
      rw [hparse] at hm
      cases hm
  | ok m =>
    obtain ⟨node, v, hnode, hgrown⟩ :=
      grown_of_derives (Grammar.parse_sound document_coherent hplaced hparse).1
    have hvalue : ∀ ctx, m.value ctx = .ok v := fun ctx => by
      rw [Match.value, hnode]
      exact hgrown.item.value ctx
    obtain ⟨s₂, hevaluate⟩ : ∃ s₂, document.evaluate ctx r s = some (m.value ctx, s₂) :=
      Grammar.evaluate_of_match hparse
    rw [hvalue] at hevaluate
    refine ⟨.ok m, s₁, .ok v, s₂, hparse, hevaluate, ?_, ?_, fun v' r' h hend => ?_⟩
    · rintro _ ⟨⟩
    · rintro _ ⟨⟩
      exact ⟨node, v, hnode, rfl, hgrown.item, hgrown.proper⟩
    · obtain ⟨m', t, hm, hv'⟩ := parse_of_denotes h hend s
      rw [hparse] at hm
      cases hm
      exact (hvalue .none).symm.trans hv'

end Json

end Curtail
