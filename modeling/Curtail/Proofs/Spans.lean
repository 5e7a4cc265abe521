/-
# Where the nodes of a tree stand

The nodes that a match is built from were matched one after the other, so they
are laid out between the place where the match starts and the place where it
ends: each one between two offsets, the next one behind. A builder that keeps
the nodes in their order keeps the layout, whatever of it it leaves out.

A branch has its start from its first child and its end from its last. A branch
that is made of no children has neither, and stands at the start of the text;
it is astray, and with it the start or the end of every branch it begins or
ends. All other starts and ends are where they belong: spans nest, and
siblings come in the order of the text. The branch that stands for nothing is
made at a place, and is never astray.

Key definitions: `Node.Within`, `Node.Laid`, `Node.StartsAstray`,
`Node.StopsAstray`, `Node.Spans`, `Builder.Orderly`.
Key theorems: `Node.Laid.append`, `Builder.laid_flatten`, `Node.Within.spans`,
`Run.Chain.laid`, `Parser.orEmpty_in_place`, `Grammar.spans_nest`.
-/
import Curtail.Proofs.Readings
import Curtail.Proofs.Soundness

namespace Curtail

/-! ### Nodes between two offsets -/

namespace Node

/-- What holds of leaves, and of a branch if it does of its children, holds of all nodes. -/
theorem children_induction {C : Node → Prop}
    (leaf : ∀ token value start stop, C (.leaf token value start stop))
    (branch : ∀ token children interpreter start stop, (∀ c ∈ children, C c) →
      C (.branch token children interpreter start stop)) : ∀ n, C n :=
  @Node.rec C (fun ns => ∀ n ∈ ns, C n) leaf branch nofun
    fun _ _ hhead htail => List.forall_mem_cons.mpr ⟨hhead, htail⟩

/-- Where some nodes start; without a node that is the start of the text. -/
def firstStart (ns : List Node) : Position := (ns.head?.map start).getD .start

/-- Where some nodes end. -/
def lastStop (ns : List Node) : Position := (ns.getLast?.map stop).getD (firstStart ns)

mutual

/-- The node was matched between the offsets `lo` and `hi`. A leaf stands there, and so does a
branch that was placed there without children; of any other branch the children are laid out
there. -/
def Within : Node → Nat → Nat → Prop
  | .leaf _ _ start stop, lo, hi =>
    lo ≤ start.offset ∧ start.offset ≤ stop.offset ∧ stop.offset ≤ hi
  | .branch _ children _ start stop, lo, hi =>
    (children = [] ∧ start = stop ∧ lo ≤ start.offset ∧ start.offset ≤ hi) ∨
      (Laid children lo hi ∧ start = firstStart children ∧ stop = lastStop children)

/-- The nodes were matched one after the other between the offsets `lo` and `hi`. -/
def Laid : List Node → Nat → Nat → Prop
  | [], lo, hi => lo ≤ hi
  | n :: ns, lo, hi => ∃ mid, n.Within lo mid ∧ Laid ns mid hi

end

variable {lo lo' mid hi hi' : Nat} {n : Node} {ns ms : List Node}

theorem laid_nil : Laid [] lo hi ↔ lo ≤ hi := by rw [Laid]

theorem laid_cons : Laid (n :: ns) lo hi ↔ ∃ mid, n.Within lo mid ∧ Laid ns mid hi := by rw [Laid]

theorem within_leaf {token : String} {value : Value} {start stop : Position} :
    (leaf token value start stop).Within lo hi ↔
      lo ≤ start.offset ∧ start.offset ≤ stop.offset ∧ stop.offset ≤ hi := by rw [Within]

theorem within_branch {token : String} {interpreter : Option Interpreter} {start stop : Position} :
    (branch token ns interpreter start stop).Within lo hi ↔
      (ns = [] ∧ start = stop ∧ lo ≤ start.offset ∧ start.offset ≤ hi) ∨
        (Laid ns lo hi ∧ start = firstStart ns ∧ stop = lastStop ns) := by rw [Within]

theorem Laid.le_of (hle : ∀ n ∈ ns, ∀ {lo hi}, n.Within lo hi → lo ≤ hi) (h : Laid ns lo hi) :
    lo ≤ hi := by
  induction ns generalizing lo with
  | nil => exact laid_nil.mp h
  | cons n ns ih =>
    obtain ⟨mid, hn, hns⟩ := laid_cons.mp h
    obtain ⟨hle, hles⟩ := List.forall_mem_cons.mp hle
    exact Nat.le_trans (hle hn) (ih hles hns)

theorem Within.le (h : n.Within lo hi) : lo ≤ hi := by
  induction n using children_induction generalizing lo hi with
  | leaf token value start stop =>
    obtain ⟨hlo, hle, hhi⟩ := within_leaf.mp h
    omega
  | branch token children interpreter start stop ih =>
    rcases within_branch.mp h with ⟨-, -, hlo, hhi⟩ | ⟨hlaid, -⟩
    · exact Nat.le_trans hlo hhi
    · exact hlaid.le_of fun c hc _ _ => ih c hc

theorem Laid.le (h : Laid ns lo hi) : lo ≤ hi := h.le_of fun _ _ _ _ => Within.le

theorem Laid.mono_of (hmono : ∀ n ∈ ns, ∀ {lo hi lo' hi'}, n.Within lo hi → lo' ≤ lo → hi ≤ hi' →
    n.Within lo' hi') (h : Laid ns lo hi) (hlo : lo' ≤ lo) (hhi : hi ≤ hi') : Laid ns lo' hi' := by
  induction ns generalizing lo lo' with
  | nil =>
    have := laid_nil.mp h
    exact laid_nil.mpr (by omega)
  | cons n ns ih =>
    obtain ⟨mid, hn, hns⟩ := laid_cons.mp h
    obtain ⟨hmono, hmonos⟩ := List.forall_mem_cons.mp hmono
    exact laid_cons.mpr ⟨mid, hmono hn hlo (Nat.le_refl mid), ih hmonos hns (Nat.le_refl mid)⟩

theorem Within.mono (h : n.Within lo hi) (hlo : lo' ≤ lo) (hhi : hi ≤ hi') : n.Within lo' hi' := by
  induction n using children_induction generalizing lo hi lo' hi' with
  | leaf token value start stop =>
    obtain ⟨hstart, hle, hstop⟩ := within_leaf.mp h
    exact within_leaf.mpr ⟨by omega, hle, by omega⟩
  | branch token children interpreter start stop ih =>
    refine within_branch.mpr ((within_branch.mp h).imp ?_ ?_)
    · rintro ⟨hnil, heq, hstart, hstop⟩
      exact ⟨hnil, heq, by omega, by omega⟩
    · rintro ⟨hlaid, hplace⟩
      exact ⟨hlaid.mono_of (fun c hc _ _ _ _ => ih c hc) hlo hhi, hplace⟩

theorem Laid.mono (h : Laid ns lo hi) (hlo : lo' ≤ lo) (hhi : hi ≤ hi') : Laid ns lo' hi' :=
  h.mono_of (fun _ _ _ _ _ _ => Within.mono) hlo hhi

theorem laid_singleton (h : n.Within lo hi) : Laid [n] lo hi :=
  laid_cons.mpr ⟨hi, h, laid_nil.mpr (Nat.le_refl hi)⟩

/-- What is laid out behind other nodes is laid out with them. -/
theorem Laid.append (hns : Laid ns lo mid) (hms : Laid ms mid hi) : Laid (ns ++ ms) lo hi := by
  induction ns generalizing lo with
  | nil => exact hms.mono (laid_nil.mp hns) (Nat.le_refl hi)
  | cons n ns ih =>
    obtain ⟨mid', hn, hns⟩ := laid_cons.mp hns
    exact laid_cons.mpr ⟨mid', hn, ih hns⟩

theorem Laid.within (h : Laid ns lo hi) (hn : n ∈ ns) : n.Within lo hi := by
  induction ns generalizing lo with
  | nil => cases hn
  | cons m ns ih =>
    obtain ⟨mid, hm, hns⟩ := laid_cons.mp h
    rcases List.mem_cons.mp hn with rfl | hn
    · exact hm.mono (Nat.le_refl lo) hns.le
    · exact (ih hns hn).mono hm.le (Nat.le_refl hi)

/-- Between two nodes that are laid out there is an offset that neither crosses. -/
theorem Laid.pairwise (h : Laid ns lo hi) :
    ns.Pairwise fun a b => ∃ mid, a.Within lo mid ∧ b.Within mid hi := by
  induction ns generalizing lo with
  | nil => exact .nil
  | cons a ns ih =>
    obtain ⟨mid, ha, hns⟩ := laid_cons.mp h
    refine .cons (fun b hb => ⟨mid, ha, hns.within hb⟩) ((ih hns).imp ?_)
    rintro b c ⟨mid', hb, hc⟩
    exact ⟨mid', hb.mono ha.le (Nat.le_refl mid'), hc⟩

/-- Every other node is behind the first. -/
theorem Laid.after_first {a b : Node} (h : Laid ns lo hi) (ha : ns.head? = some a) (hb : b ∈ ns) :
    b = a ∨ ∃ mid, a.Within lo mid ∧ b.Within mid hi := by
  obtain ⟨rest, rfl⟩ := List.head?_eq_some_iff.mp ha
  exact (List.mem_cons.mp hb).imp_right (List.rel_of_pairwise_cons h.pairwise)

/-- Every other node is before the last. -/
theorem Laid.before_last {a b : Node} (h : Laid ns lo hi) (hb : ns.getLast? = some b)
    (ha : a ∈ ns) : a = b ∨ ∃ mid, a.Within lo mid ∧ b.Within mid hi := by
  obtain ⟨init, rfl⟩ := List.getLast?_eq_some_iff.mp hb
  rcases List.mem_append.mp ha with ha | ha
  · exact .inr ((List.pairwise_append.mp h.pairwise).2.2 a ha b (List.mem_singleton_self b))
  · exact .inl (List.mem_singleton.mp ha)

theorem Laid.group (h : Laid ns lo hi) (token : String) (interpreter : Option Interpreter) :
    (group token ns interpreter).Within lo hi :=
  within_branch.mpr (.inr ⟨h, rfl, rfl⟩)

theorem within_emptyGroup {place : Position} (hlo : lo ≤ place.offset) (hhi : place.offset ≤ hi)
    (token : String) (interpreter : Option Interpreter) :
    (emptyGroup token place interpreter).Within lo hi :=
  within_branch.mpr (.inl ⟨rfl, rfl, hlo, hhi⟩)

/-! ### Astray nodes -/

/-- The node starts at the start of the text because it begins with a branch made of no children. -/
inductive StartsAstray : Node → Prop
  | childless {token : String} {interpreter : Option Interpreter} :
    StartsAstray (group token [] interpreter)
  | first {token : String} {children : List Node} {interpreter : Option Interpreter}
      {start stop : Position} {c : Node} : children.head? = some c → StartsAstray c →
    StartsAstray (.branch token children interpreter start stop)

/-- The node ends at the start of the text because it ends with a branch made of no children. -/
inductive StopsAstray : Node → Prop
  | childless {token : String} {interpreter : Option Interpreter} :
    StopsAstray (group token [] interpreter)
  | last {token : String} {children : List Node} {interpreter : Option Interpreter}
      {start stop : Position} {c : Node} : children.getLast? = some c → StopsAstray c →
    StopsAstray (.branch token children interpreter start stop)

/-- The node stands between the offsets `lo` and `hi`, except where it is astray. -/
structure Bounded (lo hi : Nat) (n : Node) : Prop where
  le_start : lo ≤ n.start.offset ∨ n.StartsAstray
  start_le : n.start.offset ≤ hi
  start_le_stop : n.start.offset ≤ n.stop.offset ∨ n.StopsAstray
  le_stop : lo ≤ n.stop.offset ∨ n.StopsAstray
  stop_le : n.stop.offset ≤ hi

theorem Within.bounded (h : n.Within lo hi) : n.Bounded lo hi := by
  induction n using children_induction generalizing lo hi with
  | leaf token value start stop =>
    obtain ⟨hstart, hle, hstop⟩ := within_leaf.mp h
    exact ⟨.inl hstart, Nat.le_trans hle hstop, .inl hle, .inl (Nat.le_trans hstart hle), hstop⟩
  | branch token children interpreter start stop ih =>
    rcases within_branch.mp h with ⟨rfl, rfl, hlo, hhi⟩ | ⟨hlaid, rfl, rfl⟩
    · exact ⟨.inl hlo, hhi, .inl (Nat.le_refl _), .inl hlo, hhi⟩
    cases hlast : children.getLast? with
    | none =>
      obtain rfl := List.getLast?_eq_none_iff.mp hlast
      exact ⟨.inr .childless, Nat.zero_le hi, .inr .childless, .inr .childless, Nat.zero_le hi⟩
    | some l =>
      have hl : l ∈ children := List.mem_of_getLast? hlast
      obtain ⟨a, rest, rfl⟩ := List.exists_cons_of_ne_nil (List.ne_nil_of_mem hl)
      have ha := ih a List.mem_cons_self (hlaid.within List.mem_cons_self)
      have hstop := ih l hl (hlaid.within hl)
      have heq : lastStop (a :: rest) = l.stop := by rw [lastStop, hlast]; rfl
      rw [heq]
      refine ⟨ha.le_start.imp_right (.first rfl), ha.start_le, ?_,
        hstop.le_stop.imp_right (.last hlast), hstop.stop_le⟩
      rcases hlaid.after_first rfl hl with rfl | ⟨mid, hbefore, hbehind⟩
      · exact hstop.start_le_stop.imp_right (.last hlast)
      · have hstart := (ih a List.mem_cons_self hbefore).start_le
        refine (ih l hl hbehind).le_stop.imp (fun hmid => ?_) (.last hlast)
        exact Nat.le_trans hstart hmid

/-- Astray starts and ends are at the start of the text. -/
theorem Within.start_of_astray (h : n.Within lo hi) (hastray : n.StartsAstray) :
    n.start = .start := by
  induction hastray generalizing lo hi with
  | childless => rfl
  | first hfirst _ ih =>
    rcases within_branch.mp h with ⟨rfl, -⟩ | ⟨hlaid, rfl, -⟩
    · cases hfirst
    · have hc := ih (hlaid.within (List.mem_of_head? hfirst))
      rwa [start, firstStart, hfirst]

theorem Within.stop_of_astray (h : n.Within lo hi) (hastray : n.StopsAstray) :
    n.stop = .start := by
  induction hastray generalizing lo hi with
  | childless => rfl
  | last hlast _ ih =>
    rcases within_branch.mp h with ⟨rfl, -⟩ | ⟨hlaid, -, rfl⟩
    · cases hlast
    · have hc := ih (hlaid.within (List.mem_of_getLast? hlast))
      rwa [stop, lastStop, hlast]

/-! ### Spans -/

/-- A node of a tree: the tree itself, or a child of such a node. -/
inductive Under (top : Node) : Node → Prop
  | self : Under top top
  | child {n c : Node} : Under top n → c ∈ n.children → Under top c

/-- A node below another is that node, or below one of its children. -/
theorem Under.head {top n : Node} (h : top.Under n) :
    n = top ∨ ∃ c ∈ top.children, c.Under n := by
  induction h with
  | self => exact .inl rfl
  | child _ hc ih =>
    rcases ih with rfl | ⟨c', hc', hunder⟩
    · exact .inr ⟨_, hc, .self⟩
    · exact .inr ⟨c', hc', hunder.child hc⟩

/-- The span of the node lies between the offsets `lo` and `hi`, and in it the spans of its
children, one behind the other, except where nodes are astray: those starts and ends are at the
start of the text. -/
structure Spans (lo hi : Nat) (n : Node) : Prop extends n.Bounded lo hi where
  ordered : n.children.Pairwise fun a b => a.stop.offset ≤ b.start.offset ∨ b.StartsAstray
  start_le_child : ∀ c ∈ n.children, n.start.offset ≤ c.start.offset ∨ c.StartsAstray
  child_le_stop : ∀ c ∈ n.children, c.stop.offset ≤ n.stop.offset ∨ n.StopsAstray
  start_of_astray : n.StartsAstray → n.start = .start
  stop_of_astray : n.StopsAstray → n.stop = .start

theorem Within.of_child (h : n.Within lo hi) {c : Node} (hc : c ∈ n.children) : c.Within lo hi := by
  cases n with
  | leaf _ _ _ _ => cases hc
  | branch _ children _ _ _ =>
    rcases within_branch.mp h with ⟨rfl, -⟩ | ⟨hlaid, -⟩
    · cases hc
    · exact hlaid.within hc

theorem Within.of_under {top : Node} (h : top.Within lo hi) (hn : top.Under n) :
    n.Within lo hi := by
  induction hn with
  | self => exact h
  | child _ hc ih => exact ih.of_child hc

/-- The children of a branch between two offsets are in order and inside of it. -/
theorem Within.spans (h : n.Within lo hi) : n.Spans lo hi where
  toBounded := h.bounded
  start_of_astray := h.start_of_astray
  stop_of_astray := h.stop_of_astray
  ordered := by
    cases n with
    | leaf _ _ _ _ => exact .nil
    | branch _ children _ _ _ =>
      rcases within_branch.mp h with ⟨rfl, -⟩ | ⟨hlaid, -⟩
      · exact .nil
      · refine hlaid.pairwise.imp ?_
        rintro a b ⟨mid, ha, hb⟩
        exact hb.bounded.le_start.imp_left (Nat.le_trans ha.bounded.stop_le)
  start_le_child := by
    intro c hc
    cases n with
    | leaf _ _ _ _ => cases hc
    | branch _ children _ _ _ =>
      rcases within_branch.mp h with ⟨rfl, -⟩ | ⟨hlaid, rfl, rfl⟩
      · cases hc
      obtain ⟨a, rest, rfl⟩ := List.exists_cons_of_ne_nil (List.ne_nil_of_mem hc)
      rcases hlaid.after_first rfl hc with rfl | ⟨mid, ha, hbehind⟩
      · exact .inl (Nat.le_refl _)
      · exact hbehind.bounded.le_start.imp_left (Nat.le_trans ha.bounded.start_le)
  child_le_stop := by
    intro c hc
    cases n with
    | leaf _ _ _ _ => cases hc
    | branch _ children _ _ _ =>
      rcases within_branch.mp h with ⟨rfl, -⟩ | ⟨hlaid, rfl, rfl⟩
      · cases hc
      have hne : children ≠ [] := List.ne_nil_of_mem hc
      have hlast := List.getLast?_eq_some_getLast hne
      have heq : lastStop children = (children.getLast hne).stop := by rw [lastStop, hlast]; rfl
      rw [stop, heq]
      rcases hlaid.before_last hlast hc with rfl | ⟨mid, hbefore, hl⟩
      · exact .inl (Nat.le_refl _)
      · exact hl.bounded.le_stop.imp (Nat.le_trans hbefore.bounded.stop_le) (.last hlast)

end Node

/-! ### Builders -/

namespace Builder

/-- The builder keeps nodes that it was given between the offsets where they were laid out. -/
def Orderly (build : Builder) : Prop :=
  ∀ ⦃nodes lo hi⦄, Node.Laid nodes lo hi → ∀ n, build nodes = some n → n.Within lo hi

theorem orderly_discard : discard.Orderly := fun _ _ _ _ _ h => by cases h

theorem orderly_select (i : Nat) : (select i).Orderly := fun _ _ _ h _ hn =>
  h.within (List.mem_of_getElem? hn)

theorem orderly_group (token : String) (interpreter : Option Interpreter) :
    (group token interpreter).Orderly := by
  intro nodes lo hi h n hn
  cases hn
  exact h.group token interpreter

mutual

/-- What a node holds together is laid out where the node was matched. -/
theorem laid_flatten : (n : Node) → ∀ {lo hi}, n.Within lo hi → Node.Laid (flatten n) lo hi
  | .leaf t v p q, lo, hi, h => Node.laid_singleton h
  | .branch t cs i p q, lo, hi, h => by
    unfold flatten
    split
    · rcases Node.within_branch.mp h with ⟨rfl, -⟩ | ⟨hlaid, -⟩
      · exact Node.laid_nil.mpr h.le
      · exact laid_flattenAll cs hlaid
    · exact Node.laid_singleton h

theorem laid_flattenAll : (ns : List Node) → ∀ {lo hi}, Node.Laid ns lo hi →
    Node.Laid (flattenAll ns) lo hi
  | [], lo, hi, h => h
  | n :: ns, lo, hi, h => by
    obtain ⟨mid, hn, hns⟩ := Node.laid_cons.mp h
    exact (laid_flatten n hn).append (laid_flattenAll ns hns)

end

theorem orderly_flatList (token : String) (interpreter : Option Interpreter) :
    (flatList token interpreter).Orderly := by
  intro nodes lo hi h n hn
  cases hn
  exact (laid_flattenAll nodes h).group token interpreter

/-- The builders that a grammar is made with: those of its own sequences and repetitions, and the
one of separated lists. -/
inductive Standard : Builder → Prop
  | discard : Standard discard
  | select (i : Nat) : Standard (select i)
  | group (token : String) (interpreter : Option Interpreter) : Standard (group token interpreter)
  | flatList (token : String) (interpreter : Option Interpreter) :
    Standard (flatList token interpreter)

theorem Standard.orderly {build : Builder} (h : build.Standard) : build.Orderly := by
  cases h with
  | discard => exact orderly_discard
  | select i => exact orderly_select i
  | group token interpreter => exact orderly_group token interpreter
  | flatList token interpreter => exact orderly_flatList token interpreter

end Builder

/-! ### Matches -/

/-- The match does not end before `offset`, and its node was matched in between. -/
structure Match.Within (offset : Nat) (m : Match) : Prop where
  le : offset ≤ m.stopOffset
  node : ∀ n, m.node = some n → n.Within offset m.stopOffset

/-- All that is remembered was matched behind the offset it is remembered for. -/
def Session.Within (s : Session) : Prop :=
  ∀ id offset, ∀ m ∈ (s.memo.known id offset).items, m.Within offset

/-- The parser is none of an author's own, and neither is its builder. -/
def Parser.Standard : Parser → Prop
  | .leaf _ => False
  | .sequence _ _ build _ _ _ => build.Standard
  | .repetition b _ => b.build.Standard
  | _ => True

theorem Terminal.within_of_mem_read {t : Terminal} {r : Reader} {m : Match}
    (h : m ∈ (t.read r).results.items) : m.Within r.cursor.offset := by
  refine ⟨(t.ahead_of_mem_read h).le, fun n hn => ?_⟩
  have hleaf : ∀ {name value length} {start : Reader}, r.Ahead start →
      m ∈ (leaf name value start.cursor (start.skip length)).results.items →
      n.Within r.cursor.offset m.stopOffset := by
    intro name value length start hstart hm
    obtain rfl := Run.mem_matched hm
    cases hn
    exact Node.within_leaf.mpr ⟨hstart.le, (start.ahead_skip length).le, Nat.le_refl _⟩
  obtain ⟨x, hx⟩ := t.exists_reading r
  rw [hx r (.refl r)] at h
  cases x with
  | nothing => cases h
  | malformed message => cases h
  | here =>
    rw [Run.mem_matched h] at hn
    cases hn
  | token name value length => exact hleaf r.ahead_token h
  | literal name value length => exact hleaf (.refl r) h

/-- The nodes of a chain of matches are laid out along it. -/
theorem Run.Chain.laid {R : Nat → Reader → Match → Prop} {r r' : Reader} {k : Nat}
    {nodes : List Node} (h : Run.Chain R r k nodes r')
    (hR : ∀ i r m, R i r m → m.Within r.cursor.offset) :
    Node.Laid nodes r.cursor.offset r'.cursor.offset := by
  induction h with
  | nil => exact Node.laid_nil.mpr (Nat.le_refl _)
  | @snoc k nodes r' m _ hm ih =>
    have hwithin := hR k r' m hm
    cases hnode : m.node with
    | none =>
      rw [Option.toList_none, List.append_nil]
      exact ih.mono (Nat.le_refl _) hwithin.le
    | some n => exact ih.append (Node.laid_singleton (hwithin.node n hnode))

section Calls

variable {rules : Rules} {P : Parser → Prop} {source : Source}

/-- All combinators keep the nodes of their parts between the offsets where they were matched. -/
theorem respects_within (hclosed : rules.Closed P) (hstandard : ∀ p, P p → p.Standard) :
    rules.Respects P Session.Within (fun _ => True)
      fun p r m => P p → m.Within r.cursor.offset where
  closed := hclosed
  kept := Run.kept_forall
  terminal _ _ hm := ⟨trivial, fun _ => Terminal.within_of_mem_read hm⟩
  leaf hl := (hstandard _ hl).elim
  choice hq hm hp := hm (hclosed.part hp hq)
  sequence {key label build accepts lookup parts r m} h hp := by
    obtain ⟨k, nodes, hchain, -, hnode⟩ := h
    have hlaid := hchain.laid fun i r m ⟨q, hpick, hm⟩ =>
      hm (hclosed.part hp (Parser.mem_of_pick hpick))
    have horderly := (hstandard _ hp : build.Standard).orderly
    exact ⟨hlaid.le, fun n hn => horderly hlaid n (hnode.symm.trans hn)⟩
  repetition {b p r m} h hp := by
    obtain ⟨k, nodes, hchain, -, -, hnode⟩ := h
    have hlaid := hchain.laid fun _ r m hm => hm (hclosed.part hp (List.mem_singleton.mpr rfl))
    have horderly := (hstandard _ hp : b.build.Standard).orderly
    refine ⟨hlaid.le, fun n hn => ?_⟩
    rw [hnode] at hn
    split at hn
    · cases hn
    · exact horderly hlaid n hn
  sentence hm _ hp := hm (hclosed.part hp (List.mem_singleton.mpr rfl))
  orEmpty hm hp := hm (hclosed.part hp (List.mem_singleton.mpr rfl))
  emptyGroup {token p r} _ := by
    refine ⟨Nat.le_refl _, fun n hn => ?_⟩
    cases hn
    exact Node.within_emptyGroup (Nat.le_refl _) (Nat.le_refl _) token none
  rule hq hm hp := hm (hclosed.rule hp hq)
  memory {key label build accepts lookup parts} hp r s id found _ hs _ hfound :=
    ⟨Session.forall_grow hs fun m hm => (hfound m hm).2 hp,
      fun m hm => ⟨trivial, fun _ => hs id _ m hm⟩⟩

theorem Session.within_of_forgotten {s : Session} (h : ∀ id offset, s.memo.known id offset = ∅) :
    s.Within := forall_of_forgotten h

/-- Whatever the session was used for, a call keeps the nodes of its matches between where it starts
and where they end. -/
theorem Parser.run_within (hclosed : rules.Closed P) (hstandard : ∀ p, P p → p.Standard) {n : Nat}
    {p : Parser} (hp : P p) {d : Tally} {r : Reader} {s s' : Session} {out : Outcome}
    (hs : s.Within) (h : p.run rules n d r s = some (out, s')) :
    s'.Within ∧ ∀ m ∈ out.results.items, m.Within r.cursor.offset := by
  have hy := Parser.run_yields (respects_within hclosed hstandard) n hp trivial hs h
  exact ⟨hy.kept, fun m hm => (hy.found m hm).2 hp⟩

theorem Session.Used.within (hclosed : rules.Closed P) (hstandard : ∀ p, P p → p.Standard)
    {s : Session} (h : s.Used rules P source) : s.Within := by
  induction h with
  | forgotten hs => exact within_of_forgotten hs
  | called _ hp _ hx ih => exact (Parser.run_within hclosed hstandard hp ih hx).1
  | otherwise _ _ hknown ih => exact forall_of_known ih hknown

end Calls

/-- A part that may match nothing finds what it finds otherwise, or one branch without children that
stands at the reader. -/
theorem Parser.orEmpty_in_place {rules : Rules} {token : String} {p : Parser} {n : Nat} {d : Tally}
    {r : Reader} {s s' : Session} {out : Outcome} (h : (orEmpty token p).run rules n d r s = some (out, s')) :
    ∃ k own, n = k + 1 ∧ p.run rules k d r s = some (own, s') ∧
      out.results.items = if own.isMatch then own.results.items
        else [⟨some (.branch token [] none r.cursor r.cursor), r⟩] := by
  cases n with
  | zero => cases h
  | succ k =>
    obtain ⟨own, s₁, hown, heq⟩ := Run.orEmpty_eq_some.mp h
    obtain ⟨rfl, rfl⟩ := Prod.mk.inj heq
    exact ⟨k, own, rfl, hown, Run.items_withEmpty token r own⟩

namespace Grammar

/-- **Spans nest.** Let a grammar be made of terminals and combinators with the builders that drop
all nodes, keep one of them, or hold all of them. Wherever a parser of it is called and whatever the
session was used for before, every node of the tree of a match lies between where the call starts
and where the match ends; its children are inside of it and in order. Only those starts and ends are
exempt that are those of a branch made of no children: they are at the start of the text. The same
is true of the match that a parse of the text results in. The branch that stands for a part without
match is made of no children either, but placed where the part was called. -/
theorem spans_nest {g : Grammar} (hg : ∀ p ∈ g.members, p.Standard) (r : Reader) :
    (∀ p ∈ g.members, ∀ n d s out s', s.Used g.rules (· ∈ g.members) r.source →
        p.run g.rules n d r s = some (out, s') → ∀ m ∈ out.results.items,
          r.cursor.offset ≤ m.stopOffset ∧ ∀ top, m.node = some top → ∀ x, top.Under x →
            x.Spans r.cursor.offset m.stopOffset) ∧
      (∀ s m s', g.parse r s = some (.ok m, s') →
        r.cursor.offset ≤ m.stopOffset ∧ ∀ top, m.node = some top → ∀ x, top.Under x →
          x.Spans r.cursor.offset m.stopOffset) ∧
      ∀ token part, .orEmpty token part ∈ g.members → ∀ n d s out s',
        (Parser.orEmpty token part).run g.rules n d r s = some (out, s') →
          ∃ k own, n = k + 1 ∧ part.run g.rules k d r s = some (own, s') ∧
            out.results.items = if own.isMatch then own.results.items
              else [⟨some (.branch token [] none r.cursor r.cursor), r⟩] := by
  have hspans : ∀ {m : Match}, m.Within r.cursor.offset →
      r.cursor.offset ≤ m.stopOffset ∧ ∀ top, m.node = some top → ∀ x, top.Under x →
        x.Spans r.cursor.offset m.stopOffset := fun hm =>
    ⟨hm.le, fun top htop x hx => ((hm.node top htop).of_under hx).spans⟩
  refine ⟨fun p hp n d s out s' hs h m hm => hspans ?_, fun s m s' h => hspans ?_,
    fun token part _ n d s out s' h => Parser.orEmpty_in_place h⟩
  · exact (Parser.run_within g.closed_members hg hp (hs.within g.closed_members hg) h).2 m hm
  · -- A parse forgets what was found before, so nothing needs to be known of its session.
    obtain ⟨⟨out, s₁⟩, hcall, heq⟩ := Option.map_eq_some_iff.mp h
    have hselect := (Prod.mk.inj heq).1
    exact (Parser.run_within g.closed_members hg g.root_mem_members
      (Session.within_of_forgotten (Session.known_forget _)) hcall).2 m (mem_of_select hselect).1

/-- Two letters in a branch, and the end of the text in a branch that has no children then. -/
def lettersThenEnd : Grammar where
  rules := .empty
  root := .sequence ⟨0⟩ none (.group "S" none) (Draft.between 2 2) some
    [.sequence ⟨1⟩ none (.group "T" none) (Draft.between 2 2) some
        [.terminal (.rune 'a' "A"), .terminal (.rune 'b' "B")],
      .sequence ⟨2⟩ none (.group "E" none) (Draft.between 1 1) some [.terminal .finish]]

/-- The branch without children stands at the start of the text, and the tree ends there. -/
def lettersTree : Node :=
  let letters := [Node.leaf "A" (.char 'a') .start ⟨1, 1, 2⟩,
    .leaf "B" (.char 'b') ⟨1, 1, 2⟩ ⟨2, 1, 3⟩]
  .branch "S" [.branch "T" letters none .start ⟨2, 1, 3⟩, .branch "E" [] none .start .start] none
    .start .start

theorem run_lettersThenEnd : ∃ out s', lettersThenEnd.root.run lettersThenEnd.rules 6 .zero
    (Reader.ofText "ab" false) .fresh = some (out, s') ∧
      out.results.items = [⟨some lettersTree, (Reader.ofText "ab" false).skip 2⟩] := by
  refine ⟨_, _, rfl, ?_⟩
  rfl

theorem standard_lettersThenEnd : ∀ p ∈ lettersThenEnd.members, p.Standard := by
  intro p hp
  simp only [lettersThenEnd, members, Rules.definitions, Rules.empty, List.filterMap_nil,
    membersAll, Parser.members, List.append_nil, List.cons_append, List.nil_append, List.mem_cons,
    List.not_mem_nil, or_false] at hp
  rcases hp with rfl | rfl | rfl | rfl | rfl | rfl
  · exact .group "S" none
  · exact .group "T" none
  · trivial
  · trivial
  · exact .group "E" none
  · trivial

theorem lettersTree_spans : (∀ p ∈ lettersThenEnd.members, p.Standard) ∧
    ∀ x, lettersTree.Under x → x.Spans 0 2 := by
  refine ⟨standard_lettersThenEnd, ?_⟩
  obtain ⟨out, s', hrun, hitems⟩ := run_lettersThenEnd
  have hm : ⟨some lettersTree, (Reader.ofText "ab" false).skip 2⟩ ∈ out.results.items := by
    rw [hitems]
    exact List.mem_cons_self
  exact ((spans_nest standard_lettersThenEnd (Reader.ofText "ab" false)).1 _
    lettersThenEnd.root_mem_members _ _ _ _ _ (.forgotten fun _ _ => rfl) hrun _ hm).2 _ rfl

/-- The counterexample to spans that always nest: the branch without children stands before the
letters that it comes after, and these reach beyond the end of the tree. -/
theorem lettersTree_out_of_order : (∀ p ∈ lettersThenEnd.members, p.Standard) ∧
    (∃ out s', lettersThenEnd.root.run lettersThenEnd.rules 6 .zero
        (Reader.ofText "ab" false) .fresh = some (out, s') ∧
      out.results.items = [⟨some lettersTree, (Reader.ofText "ab" false).skip 2⟩]) ∧
    (¬ lettersTree.children.Pairwise fun a b => a.stop.offset ≤ b.start.offset) ∧
    ¬ ∀ c ∈ lettersTree.children, c.stop.offset ≤ lettersTree.stop.offset := by
  refine ⟨standard_lettersThenEnd, run_lettersThenEnd, ?_, ?_⟩
  · simp [lettersTree, Node.children, Node.start, Node.stop, Position.start]
  · simp [lettersTree, Node.children, Node.stop, Position.start]

end Grammar

end Curtail
