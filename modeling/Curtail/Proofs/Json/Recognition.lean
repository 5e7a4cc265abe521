/-
# The grammar of JSON accepts its language

Plain descent of the grammar finds at every reader what the plain reader
reads there, and a node that evaluates to the same value. It comes to an end,
since brackets are read before a value is entered again, so the curtailed
engine finds the same. What is left is the end of the text.

Nodes of a separated list are taken apart where the list is built, up to nodes
that stand for a value.

Key definitions: `Json.document`, `Node.Stands`, `Parser.Reads`.
Key theorems: `Json.reads_separated`, `Json.reads_value`, `Json.evaluate_eq`,
`Json.evaluate_iff`.
-/
import Curtail.Proofs.Conservative
import Curtail.Proofs.Finding
import Curtail.Proofs.Json.Reference
import Curtail.Proofs.Selection
import Curtail.Proofs.Termination

namespace Curtail

/-! ### From plain descent to a parse -/

namespace Grammar

variable {g : Grammar}

/-- A parse selects from what plain descent finds. -/
theorem parse_of_reaches (hF : ∀ start : Reader,
      g.rules.Forward (· ∈ g.members) fun r => ∃ n, r = start.skip n)
    (hg : g.Guarded) (hb : ∀ p ∈ g.members, p.Bounded) {r : Reader} {m? : Option Match}
    (h : g.root.Reaches g.rules r m?) (s : Session) :
    ∃ out s', g.parse r s = some (select g.name r out, s') ∧ out.results.items = m?.toList := by
  obtain ⟨n, hn⟩ := h
  set s₁ := (s.note (.starting g.name r.cursor)).forget
  have hforgotten : ∀ id offset, s₁.memo.known id offset = ∅ := fun id offset =>
    Session.known_forget _ id offset
  obtain ⟨plain, t₀, hplain, hitems, -⟩ := hn n (Nat.le_refl n) .zero .fresh
  obtain ⟨hsessions, hdepths⟩ := Lockstep.curtailed_start (hF r) n .zero r .fresh hforgotten
  obtain ⟨out, t, hx, hafter⟩ := Lockstep.curtailed_follows (hF r) _ _ n g.root_mem_members
    ⟨0, r.skip_zero.symm⟩ hdepths hsessions hplain
  rw [← Parser.run_eq_runBy] at hx
  obtain ⟨y, hy⟩ := root_answers hg hb (r := r) (filed_forget r.source _)
  obtain rfl := Parser.run_unique hx hy
  refine ⟨out, noteRefusals out t, ?_, ?_⟩
  · rw [parse, call, hy]
    rfl
  · rw [hafter.outcomes.results, hitems]

variable {ctx : Context} {r : Reader} {s s' : Session}

theorem evaluate_of_error {f : Fault} (h : g.parse r s = some (.error f, s')) :
    g.evaluate ctx r s = some (.error f, s') := by
  rw [evaluate, h]
  rfl

theorem evaluate_of_match {m : Match} (h : g.parse r s = some (.ok m, s')) :
    ∃ s'', g.evaluate ctx r s = some (m.value ctx, s'') := by
  rw [evaluate, h]
  exact ⟨_, rfl⟩

end Grammar

/-! ### Nodes that stand for values -/

/-- A node that evaluates to `v` whatever the context is, and that lists leave whole. -/
structure Node.Stands (node : Node) (v : Value) : Prop where
  whole : Builder.flatten node = [node]
  value : ∀ ctx, node.value ctx = .ok v

theorem Node.stands_leaf (token : String) (v : Value) (start stop : Position) :
    (Node.leaf token v start stop).Stands v := ⟨rfl, fun _ => rfl⟩

theorem Node.stands_group {token : String} {nodes : List Node} {f : Interpreter} {v : Value}
    (h : ∀ ctx, f ctx (Node.views nodes) = .ok v) : (Node.group token nodes (some f)).Stands v :=
  ⟨rfl, h⟩

theorem Node.valuesOf_cons {ctx : Context} {child : Child} {children : List Child} {v : Value}
    {vs : List Value} (h : child.value ctx = .ok v) (hs : Node.valuesOf ctx children = .ok vs) :
    Node.valuesOf ctx (child :: children) = .ok (v :: vs) := by
  simp only [Node.valuesOf, h, hs]

namespace Parser

variable {rules : Rules} {p q : Parser} {r : Reader}

/-- Plain descent finds a node that stands for what was read, or nothing where nothing was read. -/
inductive Reads (rules : Rules) (p : Parser) (r : Reader) : Option (Value × Reader) → Prop
  | none : Reaches rules p r none → Reads rules p r none
  | some {v : Value} {r' : Reader} {node : Node} : node.Stands v →
    Reaches rules p r (some ⟨some node, r'⟩) → Reads rules p r (some (v, r'))

theorem reads_terminal {t : Terminal} (ht : t.isToken = true) :
    (Parser.terminal t).Reads rules r (token? t r) := by
  have hreaches := Terminal.reaches rules t r
  cases hfind : t.find r with
  | none =>
    rw [hfind] at hreaches
    rw [token?, hfind]
    exact .none hreaches
  | some m =>
    obtain ⟨n, v, htook⟩ := Terminal.find_eq_some ht hfind
    obtain ⟨token, rfl⟩ := htook.leaf
    rw [hfind] at hreaches
    rw [token?, hfind]
    exact .some (Node.stands_leaf ..) hreaches

theorem reads_choice_nil (name : String) : (Parser.choice name []).Reads rules r none :=
  .none (reaches_choice_nil name)

theorem reads_choice_cons {name : String} {ps : List Parser} {x y : Option (Value × Reader)}
    (h : p.Reads rules r x) (hps : (Parser.choice name ps).Reads rules r y) :
    (Parser.choice name (p :: ps)).Reads rules r (x.or y) := by
  cases h with
  | some hstands hp =>
    cases hps with
    | none hps => exact .some hstands (reaches_choice_cons hp hps)
    | some _ hps => exact .some hstands (reaches_choice_cons hp hps)
  | none hp =>
    cases hps with
    | none hps => exact .none (reaches_choice_cons hp hps)
    | some hstands hps => exact .some hstands (reaches_choice_cons hp hps)

theorem reads_rule {handle : Handle} (hdef : rules.state handle.id = .defined q)
    {x : Option (Value × Reader)} (h : q.Reads rules r x) : (Parser.rule handle).Reads rules r x := by
  cases h with
  | none h => exact .none (reaches_rule hdef h)
  | some hstands h => exact .some hstands (reaches_rule hdef h)

/-- A sequence of three parts that are read one after the other. -/
theorem reads_three {key : Key} {label : Option String} {build : Builder} {p₁ p₂ p₃ : Parser}
    (make : Value → Value → Value → Value) {x : Option (Value × Reader)}
    {y z : Reader → Option (Value × Reader)} (h₁ : p₁.Reads rules r x)
    (h₂ : ∀ {v₁ r₁}, x = some (v₁, r₁) → p₂.Reads rules r₁ (y r₁))
    (h₃ : ∀ {v₁ r₁ v₂ r₂}, x = some (v₁, r₁) → y r₁ = some (v₂, r₂) → p₃.Reads rules r₂ (z r₂))
    (hbuild : ∀ {n₁ n₂ n₃ v₁ v₂ v₃}, Node.Stands n₁ v₁ → Node.Stands n₂ v₂ → Node.Stands n₃ v₃ →
      ∃ node, build [n₁, n₂, n₃] = some node ∧ node.Stands (make v₁ v₂ v₃)) :
    (Parser.sequence key label build (Draft.between 3 3) some [p₁, p₂, p₃]).Reads rules r
      (x.bind fun a => (y a.2).bind fun b => (z b.2).map fun c => (make a.1 b.1 c.1, c.2)) := by
  have hstop : Trail rules [p₁, p₂, p₃] r none → (Parser.sequence key label build
      (Draft.between 3 3) some [p₁, p₂, p₃]).Reads rules r none := fun h =>
    .none (reaches_sequence h)
  cases h₁ with
  | none h₁ => exact hstop (.stop h₁)
  | @some v₁ r₁ n₁ hn₁ h₁ =>
    have hy := h₂ rfl
    rw [Option.bind_some]
    cases hb : y r₁ with
    | none =>
      rw [hb] at hy
      cases hy with
      | none h₂ => exact hstop (.go h₁ (.stop h₂))
    | some b =>
      obtain ⟨v₂, r₂⟩ := b
      have hz := h₃ rfl hb
      rw [hb] at hy
      rw [Option.bind_some]
      cases hy with
      | @some _ _ n₂ hn₂ h₂ =>
        cases hc : z r₂ with
        | none =>
          rw [hc] at hz
          cases hz with
          | none h₃ => exact hstop (.go h₁ (.go h₂ (.stop h₃)))
        | some c =>
          obtain ⟨v₃, r₃⟩ := c
          rw [hc] at hz
          cases hz with
          | @some _ _ n₃ hn₃ h₃ =>
            obtain ⟨node, hnode, hstands⟩ := hbuild hn₁ hn₂ hn₃
            refine .some hstands ?_
            rw [← hnode]
            exact reaches_sequence (.go h₁ (.go h₂ (.go h₃ .nil)))

end Parser

namespace Json

open Builder

/-! ### Separated lists -/

section Lists

variable {α : Type} {rules : Rules} {item : Parser} {f : Reader → Option (α × Reader)}
  {mean : α → Value} {n : Nat}

/-- A comma and the item after it. -/
def further (k : Nat) (item : Parser) : Parser :=
  .sequence ⟨k⟩ none (.group pairToken none) (Draft.between 2 2) some
    [.terminal (.rune ',' ","), item]

/-- At least one item, with commas between them. -/
def listing (k : Nat) (token : String) (item : Parser) : Parser :=
  .sequence ⟨k + 1⟩ none (.flatList token (some Interpreter.items)) (Draft.between 2 2) some
    [item, .repetition ⟨0, none, .group tailToken none⟩ (further k item)]

/-- Items with commas between them, or nothing. -/
def separated (k : Nat) (token : String) (item : Parser) : Parser :=
  .orEmpty token (listing k token item)

/-- A separator held together with a node that stands for `v`. -/
def Continues (node : Node) (v : Value) : Prop :=
  ∃ comma next, node = .group pairToken [comma, next] none ∧ flatten comma = [comma] ∧ next.Stands v

/-- The values of the items of a list, each pair after the first taken apart. -/
theorem valuesOf_flattenAll {nodes : List Node} {vs : List Value} (h : List.Forall₂ Continues nodes vs)
    (ctx : Context) : ∀ {node : Node} {v : Value}, node.Stands v →
      Node.valuesOf ctx (Interpreter.alternate (Node.views (node :: flattenAll nodes))) =
        .ok (v :: vs) := by
  induction h with
  | nil => exact fun hnode => Node.valuesOf_cons (hnode.value ctx) rfl
  | @cons pair v' nodes vs hpair _ ih =>
    intro node v hnode
    obtain ⟨comma, next, rfl, hcomma, hnext⟩ := hpair
    have hflat : flattenAll (.group pairToken [comma, next] none :: nodes) =
        comma :: next :: flattenAll nodes := by
      simp [Node.group, flattenAll, flatten, isGlue, hcomma, hnext.whole]
    rw [hflat]
    exact Node.valuesOf_cons (hnode.value ctx) (ih hnext)

/-- The first item and the pairs after it, all taken apart. -/
theorem flattenAll_tail {node : Node} (hnode : flatten node = [node]) (nodes : List Node) :
    flattenAll (node ::
        (if nodes.length = 0 then none else some (Node.group tailToken nodes none)).toList) =
      node :: flattenAll nodes := by
  cases nodes with
  | nil => simp [flattenAll, hnode]
  | cons pair nodes => simp [Node.group, flattenAll, flatten, isGlue, hnode]

/-- Where less than `n` bytes are left, plain descent of `item` finds what `f` reads, and it is not
empty. -/
def Itemizes (rules : Rules) (n : Nat) (item : Parser) (f : Reader → Option (α × Reader))
    (mean : α → Value) : Prop :=
  ∀ {r : Reader}, r.remaining < n →
    item.Reads rules r ((f r).map fun x => (mean x.1, x.2)) ∧
      ∀ {a r'}, f r = some (a, r') → r.Past r'

/-- A comma and an item are read as a pair, or neither is. -/
theorem reaches_further (hitem : Itemizes rules n item f mean) (k : Nat) {r : Reader}
    (hr : r.remaining < n) :
    (((token? (.rune ',' ",") r).bind fun x => f x.2) = none ∧
      (further k item).Reaches rules r none) ∨
    ∃ a r' pair, ((token? (.rune ',' ",") r).bind fun x => f x.2) = some (a, r') ∧ r.Past r' ∧
      Continues pair (mean a) ∧ (further k item).Reaches rules r (some ⟨some pair, r'⟩) := by
  have hnone : Parser.Trail rules [.terminal (.rune ',' ","), item] r none →
      (further k item).Reaches rules r none := fun h => Parser.reaches_sequence h
  have hcomma : (Parser.terminal (.rune ',' ",")).Reads rules r (token? (.rune ',' ",") r) :=
    Parser.reads_terminal rfl
  cases hx : token? (.rune ',' ",") r with
  | none =>
    rw [hx] at hcomma
    cases hcomma with
    | none h => exact .inl ⟨rfl, hnone (.stop h)⟩
  | some x =>
    obtain ⟨c, r₁⟩ := x
    have hpast := token?_past rfl hx
    have hlt := hpast.remaining
    obtain ⟨hreads, hahead⟩ := hitem (r := r₁) (by omega)
    rw [hx] at hcomma
    cases hcomma with
    | @some _ _ comma hcomma h₁ =>
      rw [Option.bind_some]
      cases hf : f r₁ with
      | none =>
        rw [hf] at hreads
        cases hreads with
        | none h₂ => exact .inl ⟨rfl, hnone (.go h₁ (.stop h₂))⟩
      | some y =>
        obtain ⟨a, r₂⟩ := y
        rw [hf] at hreads
        cases hreads with
        | @some _ _ next hnext h₂ =>
          exact .inr ⟨a, r₂, _, rfl, hpast.trans (hahead hf), ⟨comma, next, rfl, hcomma.whole, hnext⟩,
            Parser.reaches_sequence (.go h₁ (.go h₂ .nil))⟩

/-- The items after the first, each with a comma before it. -/
theorem laps_readTail (hitem : Itemizes rules n item f mean) (k : Nat) (fuel : Nat) : ∀ {r : Reader},
    r.remaining < n → r.remaining ≤ fuel →
    ∃ nodes, (further k item).Laps rules r nodes nodes.length (readTail f fuel r).2 ∧
      List.Forall₂ Continues nodes ((readTail f fuel r).1.map mean) := by
  induction fuel with
  | zero =>
    intro r hr hfuel
    obtain ⟨-, hstop⟩ | ⟨a, r', pair, -, hpast, -⟩ := reaches_further hitem k hr
    · exact ⟨[], .stop hstop, .nil⟩
    · have := hpast.remaining
      omega
  | succ fuel ih =>
    intro r hr hfuel
    obtain ⟨hread, hstop⟩ | ⟨a, r', pair, hread, hpast, hpair, hreaches⟩ := reaches_further hitem k hr
    · rw [readTail, hread]
      exact ⟨[], .stop hstop, .nil⟩
    · rw [readTail, hread]
      have hlt := hpast.remaining
      obtain ⟨nodes, hlaps, hnodes⟩ := ih (r := r') (by omega) (by omega)
      exact ⟨pair :: nodes, .lap hreaches hpast.lt hlaps, .cons hpair hnodes⟩

/-- A separated list stands for the list of its items. -/
theorem reads_separated (hitem : Itemizes rules n item f mean) (k : Nat) {token : String}
    (htoken : isGlue token none = false) {r : Reader} (hr : r.remaining < n) :
    (separated k token item).Reads rules r
      (some (.list ((readItems f n r).1.map mean), (readItems f n r).2)) := by
  obtain ⟨hreads, hpast⟩ := hitem hr
  unfold readItems
  cases hf : f r with
  | none =>
    rw [hf] at hreads
    cases hreads with
    | none h =>
      have hstop : Parser.Trail rules [item, .repetition ⟨0, none, .group tailToken none⟩
          (further k item)] r none := .stop h
      have hlist : (listing k token item).Reaches rules r none := Parser.reaches_sequence hstop
      refine .some ?_ (Parser.reaches_orEmpty hlist)
      exact ⟨by simp [Node.emptyGroup, flatten, htoken], fun _ => rfl⟩
  | some x =>
    obtain ⟨a, r₁⟩ := x
    have hlt := (hpast hf).remaining
    obtain ⟨nodes, hlaps, hnodes⟩ := laps_readTail hitem k n (r := r₁) (by omega) (by omega)
    rw [hf] at hreads
    cases hreads with
    | @some _ _ node hnode h =>
      have hrest : (Parser.repetition ⟨0, none, .group tailToken none⟩ (further k item)).Reaches
          rules r₁ _ := Parser.reaches_repetition hlaps
      have hlist : (listing k token item).Reaches rules r _ :=
        Parser.reaches_sequence (.go h (.go hrest .nil))
      refine .some (Node.stands_group fun ctx => ?_) (Parser.reaches_orEmpty hlist)
      have hvalues := valuesOf_flattenAll hnodes ctx hnode
      rw [← flattenAll_tail hnode.whole nodes] at hvalues
      simp only [Interpreter.items, Option.toList_some, List.singleton_append, List.append_nil,
        Builder.group, hvalues, Except.map, List.map_cons]

end Lists

/-! ### The grammar, assembled -/

/-- A value, by its rule. -/
def valueHandle : Parser := .rule ⟨0, "value", false⟩

def arrayParser : Parser :=
  .sequence ⟨2⟩ (some "array") (.select 1) (Draft.between 3 3) some
    [.terminal (.rune '[' "ARR_START"), separated 0 "ARR" valueHandle,
      .terminal (.rune ']' "ARR_END")]

def pairParser : Parser :=
  .sequence ⟨3⟩ none (.group "PAIR" (some member)) (Draft.between 3 3) some
    [.terminal .quoted, .terminal (.rune ':' ":"), valueHandle]

def objectParser : Parser :=
  .sequence ⟨6⟩ (some "object") (.group "OBJECT" (some object)) (Draft.between 3 3) some
    [.terminal (.rune '\x7b' "OBJ_START"), separated 4 "PAIRS" pairParser,
      .terminal (.rune '\x7d' "OBJ_END")]

def valueParser : Parser :=
  .choice "value"
    [.terminal .quoted, .choice "number" [.terminal .fraction, .terminal .integer],
      .terminal .truth, .terminal (.nil "null"), arrayParser, objectParser]

/-- The grammar of a whole document as it is assembled. -/
def document : Grammar where
  rules := ⟨[⟨"value", .defined valueParser⟩]⟩
  root := .sentence (.rule ⟨0, "value", true⟩)

theorem grammar_eq_document : grammar = .ok document := rfl

theorem document_guarded : document.Guarded := by
  refine Grammar.guarded_of_rank id ?_
  rintro i j ⟨p, hp, hj⟩
  cases i with
  | zero =>
    cases hp
    simp [valueParser, Parser.exposed, exposedAll, arrayParser, objectParser] at hj
  | succ i => cases hp

/-- The sequence of the grammar with a key. -/
def sequenceOf : Key → Parser
  | ⟨0⟩ => further 0 valueHandle
  | ⟨1⟩ => listing 0 "ARR" valueHandle
  | ⟨2⟩ => arrayParser
  | ⟨3⟩ => pairParser
  | ⟨4⟩ => further 4 pairParser
  | ⟨5⟩ => listing 4 "PAIRS" pairParser
  | _ => objectParser

/-- All members are made of terminals, and a sequence is known by its key. -/
theorem members_document : ∀ p ∈ document.members,
    (∀ l, p ≠ .leaf l) ∧ p.Bounded ∧ ∀ key, p.key? = some key → p = sequenceOf key := by
  refine List.forall_iff_forall_mem.mp ?_
  repeat' apply And.intro
  all_goals first | exact trivial | exact Parser.bounded_of_inOrder _ _ _ _ _ | rintro _ ⟨⟩ <;> rfl

theorem document_forward (start : Reader) :
    document.rules.Forward (· ∈ document.members) fun r => ∃ n, r = start.skip n := by
  refine Rules.forward_of_skips document.closed_members (fun hp hq hpkey hqkey => ?_) (fun hl => ?_)
    start
  · rw [(members_document _ hp).2.2 _ hpkey, (members_document _ hq).2.2 _ hqkey]
  · exact absurd rfl ((members_document _ hl).1 _)

/-! ### What plain descent finds -/

/-- What a member evaluates to before the object is made. -/
def entryValue (e : String × Value) : Value := .list [.text e.1, e.2]

theorem filterMap_entryOf (es : List (String × Value)) :
    (es.map entryValue).filterMap entryOf = es := by
  rw [List.filterMap_map]
  exact List.filterMap_some

section Descent

variable {n : Nat} {r : Reader}

/-- A list between brackets is read as its parts are. -/
theorem reads_between {list : Parser} {key : Key} {label : Option String} {build : Builder}
    {opening closing : Terminal} (hopening : opening.isToken = true)
    (hclosing : closing.isToken = true) {α : Type} {items : Reader → List α × Reader}
    {mean : α → Value} {make : List α → Value} (make' : Value → Value)
    (hmake : ∀ as : List α, make' (.list (as.map mean)) = make as)
    (hlist : ∀ {r₁ : Reader}, r₁.remaining < r.remaining →
      list.Reads document.rules r₁ (some (.list ((items r₁).1.map mean), (items r₁).2)))
    (hbuild : ∀ {n₁ n₂ n₃ v}, Node.Stands n₂ v →
      ∃ node, build [n₁, n₂, n₃] = some node ∧ node.Stands (make' v)) :
    (Parser.sequence key label build (Draft.between 3 3) some
      [.terminal opening, list, .terminal closing]).Reads document.rules r
      (readBetween opening closing items make r) := by
  have hreads : (Parser.sequence key label build (Draft.between 3 3) some
      [.terminal opening, list, .terminal closing]).Reads document.rules r _ :=
    Parser.reads_three (fun _ v _ => make' v) (Parser.reads_terminal hopening)
      (fun h => hlist (token?_past hopening h).remaining)
      (fun _ _ => Parser.reads_terminal hclosing) (fun _ h _ => hbuild h)
  unfold readBetween
  simpa only [Option.bind_some, hmake] using hreads

variable (hvalue : ∀ {r : Reader}, r.remaining < n →
  valueParser.Reads document.rules r (readValue n r))

include hvalue

theorem itemizes_value : Itemizes document.rules n valueHandle (readValue n) fun v => v := by
  intro r hr
  refine ⟨?_, fun h => (readValue_complete n hr (readValue_sound n h)).2⟩
  rw [Option.map_id']
  exact Parser.reads_rule rfl (hvalue hr)

theorem itemizes_pair :
    Itemizes document.rules n pairParser (readMember (readValue n)) entryValue := by
  intro r hr
  have hreads : pairParser.Reads document.rules r
      ((token? .quoted r).bind fun a => (token? (.rune ':' ":") a.2).bind fun b =>
        (readValue n b.2).map fun c => (.list [a.1, c.1], c.2)) :=
    Parser.reads_three (fun key _ v => .list [key, v]) (Parser.reads_terminal rfl)
      (fun _ => Parser.reads_terminal rfl)
      (fun hkey hcolon => Parser.reads_rule rfl (hvalue (Nat.lt_trans
        ((token?_past rfl hkey).trans (token?_past rfl hcolon)).remaining hr)))
      (fun hkey _ hv => ⟨_, rfl, Node.stands_group fun ctx => by
        simp only [Node.views, member, hkey.value, hv.value]
        rfl⟩)
  refine ⟨?_, fun {e r'} h => ?_⟩
  · cases hkey : token? .quoted r with
    | none =>
      rw [hkey] at hreads
      rw [readMember, hkey]
      exact hreads
    | some a =>
      obtain ⟨v, r₁⟩ := a
      obtain ⟨key, rfl⟩ := token?_quoted hkey
      rw [hkey, Option.bind_some] at hreads
      simpa only [readMember, hkey, Option.map_bind, Option.map_map, Function.comp_def,
        entryValue] using hreads
  · obtain ⟨r₁, c, r₂, hkey, hcolon, hv⟩ := readMember_eq_some.mp h
    have hpast := (token?_past rfl hkey).trans (token?_past rfl hcolon)
    have hlt := hpast.remaining
    exact hpast.trans (readValue_complete n (by omega) (readValue_sound n hv)).2

theorem reads_array (hr : r.remaining < n + 1) :
    arrayParser.Reads document.rules r (readArray (readValue n) n r) :=
  reads_between rfl rfl (fun v => v) (fun vs => by rw [List.map_id'])
    (fun hlt => reads_separated (itemizes_value hvalue) 0 rfl (by omega))
    (fun hv => ⟨_, rfl, hv⟩)

theorem reads_object (hr : r.remaining < n + 1) :
    objectParser.Reads document.rules r (readObject (readValue n) n r) :=
  reads_between rfl rfl (fun v => Value.ofEntries ((v.asList?.getD []).filterMap entryOf))
    (fun es => by simp only [Value.asList?, Option.getD_some, filterMap_entryOf])
    (fun hlt => reads_separated (itemizes_pair hvalue) 4 rfl (by omega))
    (fun hv => ⟨_, rfl, Node.stands_group fun ctx => by
      simp only [Node.views, object, hv.value]
      rfl⟩)

end Descent

/-- Plain descent of a value finds what the plain reader reads. -/
theorem reads_value (n : Nat) : ∀ {r : Reader}, r.remaining < n →
    valueParser.Reads document.rules r (readValue n r) := by
  induction n with
  | zero => exact fun hr => absurd hr (Nat.not_lt_zero _)
  | succ n ih =>
    intro r hr
    have hnumber : (Parser.choice "number" [.terminal .fraction, .terminal .integer]).Reads
        document.rules r _ :=
      Parser.reads_choice_cons (Parser.reads_terminal rfl)
        (Parser.reads_choice_cons (Parser.reads_terminal rfl) (Parser.reads_choice_nil _))
    have hvalue : valueParser.Reads document.rules r _ :=
      Parser.reads_choice_cons (Parser.reads_terminal rfl) <|
      Parser.reads_choice_cons hnumber <|
      Parser.reads_choice_cons (Parser.reads_terminal rfl) <|
      Parser.reads_choice_cons (Parser.reads_terminal rfl) <|
      Parser.reads_choice_cons (reads_array ih hr) <|
      Parser.reads_choice_cons (reads_object ih hr) (Parser.reads_choice_nil _)
    rw [Option.or_none, Option.or_none, Option.or_assoc] at hvalue
    exact hvalue

/-! ### Documents -/

theorem evaluate_eq_document (r : Reader) (s : Session) :
    evaluate r s = document.evaluate .none r s := by
  rw [evaluate, grammar_eq_document]

/-- What a document evaluates to is what the plain reader reads of the whole text. -/
theorem evaluate_eq (r : Reader) (s : Session) : ∃ result s', evaluate r s = some (result, s') ∧
    ∀ v, result = .ok v ↔ ∃ r', read? r = some (v, r') ∧ r'.atEnd = true := by
  have hreads : valueParser.Reads document.rules r (read? r) :=
    reads_value (r.remaining + 1) (Nat.lt_succ_self r.remaining)
  have hparse : ∀ {m? : Option Match}, valueParser.Reaches document.rules r m? →
      ∃ out s', document.parse r s = some (Grammar.select document.name r out, s') ∧
        out.results.items = (m?.filter (·.reader.atEnd)).toList := fun h =>
    Grammar.parse_of_reaches document_forward document_guarded
      (fun p hp => (members_document p hp).2.1)
      (Parser.reaches_sentence (Parser.reaches_rule rfl h)) s
  -- without a match that reaches the end there is a fault
  have hfault : ∀ {m? : Option Match}, valueParser.Reaches document.rules r m? →
      m?.filter (·.reader.atEnd) = none → ∃ f s', evaluate r s = some (.error f, s') := by
    intro m? h hnone
    obtain ⟨out, s', hx, hitems⟩ := hparse h
    rw [hnone] at hitems
    obtain ⟨f, hf⟩ := Grammar.select_nil document.name r hitems
    rw [hf] at hx
    exact ⟨f, s', (evaluate_eq_document r s).trans (Grammar.evaluate_of_error hx)⟩
  cases hread : read? r with
  | none =>
    rw [hread] at hreads
    cases hreads with
    | none h =>
      obtain ⟨f, s', hx⟩ := hfault h rfl
      exact ⟨_, s', hx, fun v => ⟨nofun, nofun⟩⟩
  | some y =>
    obtain ⟨v, r'⟩ := y
    rw [hread] at hreads
    cases hreads with
    | @some _ _ node hnode h =>
      by_cases hend : r'.atEnd = true
      · obtain ⟨out, s', hx, hitems⟩ := hparse h
        have hkept : (some (⟨some node, r'⟩ : Match)).filter (·.reader.atEnd) =
            some ⟨some node, r'⟩ := by simp [Option.filter, hend]
        rw [hkept] at hitems
        rw [Grammar.select_singleton hitems hend] at hx
        obtain ⟨s'', hx⟩ := Grammar.evaluate_of_match hx
        rw [← evaluate_eq_document] at hx
        refine ⟨_, s'', hx, fun v' => ?_⟩
        rw [show (Match.mk (some node) r').value .none = .ok v from hnode.value .none]
        constructor
        · intro h
          cases h
          exact ⟨r', rfl, hend⟩
        · rintro ⟨r'', h, -⟩
          cases h
          rfl
      · obtain ⟨f, s', hx⟩ := hfault h (by simp [Option.filter, hend])
        refine ⟨_, s', hx, fun v' => ⟨nofun, ?_⟩⟩
        rintro ⟨r'', h, hend'⟩
        cases h
        exact absurd hend' hend

/-- **The grammar accepts exactly its language.** Evaluation of a text, with blanks skipped or not, comes
to an end, with `v` just if the text is one document of `v`; so does the plain reader. Where blanks are
skipped those at the ends of the text are not part of it; and a document that reaches the end leaves
nothing to read. -/
theorem evaluate_iff (text : String) (skipsBlanks : Bool) (s : Session) :
    (∃ result s', evaluate (Reader.ofText text skipsBlanks) s = some (result, s') ∧ ∀ v,
      (result = .ok v ↔
        ∃ r', Denotes (Reader.ofText text skipsBlanks) v r' ∧ r'.atEnd = true) ∧
      (result = .ok v ↔
        ∃ r', read? (Reader.ofText text skipsBlanks) = some (v, r') ∧ r'.atEnd = true)) ∧
    ((Reader.ofText text skipsBlanks).rest =
        if skipsBlanks then (Text.trimEnd text.toList).dropWhile Text.isBlank else text.toList) ∧
      ∀ v r', Denotes (Reader.ofText text skipsBlanks) v r' →
        (r'.atEnd = true ↔ r'.rest = []) := by
  refine ⟨?_, Reader.rest_ofText text skipsBlanks, fun v r' h =>
    (h.fits (Reader.fits_ofText text skipsBlanks)).atEnd_iff_rest⟩
  obtain ⟨result, s', hx, hresult⟩ := evaluate_eq (Reader.ofText text skipsBlanks) s
  refine ⟨result, s', hx, fun v => ⟨(hresult v).trans ?_, hresult v⟩⟩
  exact exists_congr fun r' => and_congr_left' (denotes_iff (Nat.lt_succ_self _)).symm

end Json

end Curtail
