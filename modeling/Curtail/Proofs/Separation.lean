/-
# Separated lists are flat

A separated list is put together from an item and a repetition of pairs, each a
separator with the item after it. The branches that hold pairs and tail
together are taken out again at the end, so that the list has items and
separators as its children in turn. Nothing else is taken out: parts that carry
nodes of their own are passed through as they are.

Three searches stand on top of each other, one for a pair, one for the tail and
one for the list. Pairs are called again and again, and what they found is
remembered by offset. So it must not matter by which reader an offset was
reached: what settles where items and separators end settles it for pairs and
for lists. Of items that look at the column a list may miss some. Flattened,
the routes of the three are the routes of an item and then separators and items
in turn that cannot be gone on with.

Key definitions: `Node.Solid`, `Parser.Supplies`, `alternating`, `Listed`,
`Separation.listFind`, `driftingItems`.
Key theorems: `Separation.settled_pair`, `Separation.settled_list`,
`Separation.list_sound`, `Separation.list_complete`, `Separation.pair_gives`,
`Separation.tail_gives`, `Separation.list_gives`, `Parser.separated_lists`.
-/
import Curtail.Proofs.Conservative
import Curtail.Proofs.Searching

namespace Curtail

/-! ### Nodes that are passed through -/

/-- A node that does not hold a separated list together: a leaf, a branch with an interpreter, or one
with a token of its own. -/
def Node.Solid : Node → Prop
  | .leaf _ _ _ _ => True
  | .branch token _ interpreter _ _ =>
    ¬ (interpreter = none ∧ (token = Builder.pairToken ∨ token = Builder.tailToken))

namespace Builder

theorem flatten_solid {node : Node} (h : node.Solid) : flatten node = [node] := by
  cases node with
  | leaf token value start stop => rfl
  | branch token children interpreter start stop =>
    have hglue : isGlue token interpreter = false := by
      simpa [isGlue, Node.Solid, imp_iff_not_or] using h
    rw [flatten, hglue]
    rfl

theorem flattenAll_append (ns ns' : List Node) :
    flattenAll (ns ++ ns') = flattenAll ns ++ flattenAll ns' := by
  induction ns with
  | nil => rfl
  | cons n ns ih => rw [List.cons_append, flattenAll, flattenAll, ih, List.append_assoc]

theorem flattenAll_singleton (n : Node) : flattenAll [n] = flatten n := List.append_nil _

theorem flatten_group_pair (nodes : List Node) :
    flatten (.group pairToken nodes none) = flattenAll nodes := by
  rw [Node.group, flatten]
  rfl

theorem flatten_group_tail (nodes : List Node) :
    flatten (.group tailToken nodes none) = flattenAll nodes := by
  rw [Node.group, flatten]
  rfl

end Builder

open Builder

/-- Every match of a route carries a node that is passed through. -/
def AllSolid (ms : List Match) : Prop := ∀ m ∈ ms, ∃ node, m.node = some node ∧ node.Solid

namespace AllSolid

variable {m : Match} {ms : List Match}

theorem map_node (h : AllSolid ms) : ms.map Match.node = (nodesOn ms).map some := by
  induction ms with
  | nil => rfl
  | cons m ms ih =>
    obtain ⟨node, hnode, -⟩ := h m List.mem_cons_self
    have hrest := ih fun m' hm' => h m' (List.mem_cons_of_mem m hm')
    rw [List.map_cons, hrest, nodesOn_cons, hnode]
    rfl

theorem flattenAll_nodesOn (h : AllSolid ms) : flattenAll (nodesOn ms) = nodesOn ms := by
  induction ms with
  | nil => rfl
  | cons m ms ih =>
    obtain ⟨node, hnode, hsolid⟩ := h m List.mem_cons_self
    have hrest := ih fun m' hm' => h m' (List.mem_cons_of_mem m hm')
    rw [nodesOn_cons, hnode, flattenAll_append, hrest]
    exact congrArg (· ++ nodesOn ms) ((flattenAll_singleton node).trans (flatten_solid hsolid))

end AllSolid

/-! ### Lists as routes -/

section Lists

variable {findItem findSep : Reader → Matches} {r : Reader} {n : Nat} {ms : List Match}

/-- A separator and an item, `n` times. -/
def pairsOf (findItem findSep : Reader → Matches) (n : Nat) : List (Reader → Matches) :=
  (List.replicate n [findSep, findItem]).flatten

theorem pairsOf_succ (n : Nat) :
    pairsOf findItem findSep (n + 1) = findSep :: findItem :: pairsOf findItem findSep n := by
  rw [pairsOf, List.replicate_succ, List.flatten_cons]
  rfl

/-- An item, then a separator and an item `n` times. -/
def alternating (findItem findSep : Reader → Matches) (n : Nat) : List (Reader → Matches) :=
  findItem :: pairsOf findItem findSep n

theorem length_alternating (n : Nat) : (alternating findItem findSep n).length = 2 * n + 1 := by
  rw [alternating, List.length_cons]
  induction n with
  | zero => rfl
  | succ n ih =>
    rw [pairsOf_succ, List.length_cons, List.length_cons]
    omega

/-- From `r` the route leads over an item and `n` pairs of a separator and an item, and no further pair
matches where it ends. -/
def Listed (findItem findSep : Reader → Matches) (r : Reader) (n : Nat) (ms : List Match) : Prop :=
  Route (alternating findItem findSep n) r ms ∧
    ∀ ms', ¬ Route [findSep, findItem] (readerAfter r ms) ms'

/-- An item with no separator behind it is a list. -/
theorem listed_of_no_separator {m : Match} (hm : m ∈ (findItem r).items)
    (hnone : (findSep m.reader).items = []) : Listed findItem findSep r 0 [m] := by
  refine ⟨.cons hm .nil, fun ms' h => ?_⟩
  cases h with
  | cons hsep _ => exact absurd (hnone ▸ hsep) List.not_mem_nil

end Lists

/-! ### What lists are made of -/

/-- From the readers in `At` every match reads on to a reader in `At` and has a node that a separated
list passes through. Where it ends depends on the offset alone, not on the line and the column that a
reader counts. -/
structure Supplied (At : Reader → Prop) (find : Reader → Matches) : Prop
    extends Advances At find where
  settled : Settled At find
  solid : ∀ {r}, At r → AllSolid (find r).items

section Supplied

variable {At : Reader → Prop} {finds : List (Reader → Matches)} {r r' : Reader} {ms : List Match}

theorem Route.stays (h : Route finds r ms) (hfinds : ∀ find ∈ finds, Supplied At find) (hr : At r) :
    At (readerAfter r ms) :=
  (h.advances (fun find hfind => (hfinds find hfind).toAdvances) hr).1

theorem Route.solid (h : Route finds r ms) (hfinds : ∀ find ∈ finds, Supplied At find) (hr : At r) :
    AllSolid ms := by
  induction h with
  | nil => exact fun _ hm => absurd hm List.not_mem_nil
  | cons hm _ ih =>
    have hfirst := hfinds _ List.mem_cons_self
    have hrest := ih (fun find hfind => hfinds find (List.mem_cons_of_mem _ hfind))
      (hfirst.stays hr hm)
    intro x hx
    rcases List.mem_cons.mp hx with rfl | hx
    · exact hfirst.solid hr _ hm
    · exact hrest x hx

/-- Where routes end is settled by the offset from which they lead. -/
theorem Route.settled (h : Route finds r ms) (hfinds : ∀ find ∈ finds, Supplied At find) (hr : At r)
    (hr' : At r') (ho : r.cursor.offset = r'.cursor.offset) : ∃ ms', Route finds r' ms' ∧
      (readerAfter r' ms').cursor.offset = (readerAfter r ms).cursor.offset := by
  induction h generalizing r' with
  | nil => exact ⟨[], .nil, ho.symm⟩
  | cons hm _ ih =>
    have hfirst := hfinds _ List.mem_cons_self
    obtain ⟨m', hm', hend⟩ := hfirst.settled hr hr' ho _ hm
    obtain ⟨ms', hroute, hends⟩ := ih (fun find hfind => hfinds find (List.mem_cons_of_mem _ hfind))
      (hfirst.stays hr hm) (hfirst.stays hr' hm') hend.symm
    exact ⟨m' :: ms', .cons hm' hroute, hends⟩

variable {findItem findSep find : Reader → Matches} {n : Nat}

theorem supplied_of_mem_pairsOf (hitem : Supplied At findItem) (hsep : Supplied At findSep)
    (h : find ∈ pairsOf findItem findSep n) : Supplied At find := by
  obtain ⟨pair, hpair, hfind⟩ := List.mem_flatten.mp h
  rw [List.eq_of_mem_replicate hpair, List.mem_pair] at hfind
  rcases hfind with rfl | rfl
  · exact hsep
  · exact hitem

theorem supplied_of_mem_alternating (hitem : Supplied At findItem) (hsep : Supplied At findSep)
    (h : find ∈ alternating findItem findSep n) : Supplied At find := by
  rcases List.mem_cons.mp h with rfl | h
  · exact hitem
  · exact supplied_of_mem_pairsOf hitem hsep h

end Supplied

/-- The parser is pure and remembers nothing, and what it finds is what lists are made of. -/
structure Parser.Supplies (rules : Rules) (At : Reader → Prop) (p : Parser)
    (find : Reader → Matches) : Prop extends Supplied At find where
  pure : p.Pure rules find
  keeps : p.RemembersNothing rules

theorem Parser.Supplies.gives {rules : Rules} {At : Reader → Prop} {p : Parser}
    {find : Reader → Matches} (h : p.Supplies rules At find) {s₀ : Session}
    {table : Key → Reader → Matches} (d : Tally) (r : Reader) :
    p.Gives rules (Session.Tabled s₀ At table) d r (find r) :=
  h.pure.gives_tabled h.keeps d r

/-! ### The three searches -/

namespace Separation

/-- What a separator with the item after it finds. -/
def pairFind (findItem findSep : Reader → Matches) (r : Reader) : Matches :=
  (Search.ofParts [findSep, findItem] (Draft.between 2 2)).found
    (fun _ => Builder.group pairToken none) 3 r

/-- The tail of a list: any number of pairs. -/
def tailBounds : Run.Bounds := ⟨0, none, Builder.group tailToken none⟩

/-- What the tail of a list finds. -/
def tailFind (findItem findSep : Reader → Matches) (r : Reader) : Matches :=
  (Search.ofLaps tailBounds (pairFind findItem findSep)).found tailBounds.nodeOf (r.remaining + 1) r

/-- What a list finds that is not empty. -/
def listFind (token : String) (interpreter : Option Interpreter) (findItem findSep : Reader → Matches)
    (r : Reader) : Matches :=
  (Search.ofParts [findItem, tailFind findItem findSep] (Draft.between 2 2)).found
    (fun _ => Builder.flatList token interpreter) 3 r

variable {rules : Rules} {At : Reader → Prop} {item separator : Parser}
  {findItem findSep : Reader → Matches} {token : String} {interpreter : Option Interpreter}
  {r : Reader} {m : Match} {ms : List Match}

/-- The matches of a sequence that takes all its parts are those of the routes through all of them. -/
theorem selects_all (finds : List (Reader → Matches)) (build : Builder) (r : Reader) :
    Selects (Route finds r) (fun ms => build (nodesOn ms)) r
      ((Search.ofParts finds (Draft.between finds.length finds.length)).found (fun _ => build)
        (finds.length + 1) r) :=
  (Parser.selects_ofParts finds _ build r).congr (fun _ => route_between_iff rfl) fun _ => rfl

theorem selects_pair (findItem findSep : Reader → Matches) (r : Reader) :
    Selects (Route [findSep, findItem] r) (fun ms => Builder.group pairToken none (nodesOn ms)) r
      (pairFind findItem findSep r) :=
  selects_all [findSep, findItem] (Builder.group pairToken none) r

theorem selects_list (token : String) (interpreter : Option Interpreter)
    (findItem findSep : Reader → Matches) (r : Reader) :
    Selects (Route [findItem, tailFind findItem findSep] r)
      (fun ms => Builder.flatList token interpreter (nodesOn ms)) r
      (listFind token interpreter findItem findSep r) :=
  selects_all [findItem, tailFind findItem findSep] (Builder.flatList token interpreter) r

/-- What a tail contributes to its list: nothing, or all that its pairs hold together. -/
theorem flattenAll_tail_node (ms : List Match) :
    flattenAll (tailBounds.nodeOf ms.length (nodesOn ms)).toList = flattenAll (nodesOn ms) := by
  cases ms with
  | nil => rfl
  | cons m ms => exact (flattenAll_singleton _).trans (flatten_group_tail _)

section Readers

variable (hitem : Supplied At findItem) (hsep : Supplied At findSep)

include hitem hsep

theorem advances_route_pair (hr : At r) (h : Route [findSep, findItem] r ms) :
    r.Past (readerAfter r ms) ∧ At (readerAfter r ms) := by
  obtain ⟨m, ms, rfl, hm, h⟩ := route_cons_iff.mp h
  obtain ⟨m', ms, rfl, hm', h⟩ := route_cons_iff.mp h
  obtain rfl := route_nil_iff.mp h
  have hat := hsep.stays hr hm
  exact ⟨(hsep.past hr hm).trans (hitem.past hat hm'), hitem.stays hat hm'⟩

theorem advances_pair : Advances At (pairFind findItem findSep) := by
  have hroute : ∀ {r m}, At r → m ∈ (pairFind findItem findSep r).items →
      r.Past m.reader ∧ At m.reader := by
    intro r m hr hm
    obtain ⟨ms, hroute, rfl⟩ := (selects_pair findItem findSep r).exists_route hm
    exact advances_route_pair hitem hsep hr hroute
  exact ⟨fun hr hm => (hroute hr hm).1, fun hr hm => (hroute hr hm).2⟩

theorem advances_laps {k : Nat} (hr : At r)
    (h : Route (List.replicate k (pairFind findItem findSep)) r ms) :
    At (readerAfter r ms) ∧ (readerAfter r ms).remaining + ms.length ≤ r.remaining := by
  refine h.advances (fun find hfind => ?_) hr
  rw [List.eq_of_mem_replicate hfind]
  exact advances_pair hitem hsep

theorem selects_tail (hr : At r) :
    Selects (fun ms => ∃ k, Route (List.replicate k (pairFind findItem findSep)) r ms ∧
        (pairFind findItem findSep (readerAfter r ms)).items = [])
      (fun ms => tailBounds.nodeOf ms.length (nodesOn ms)) r (tailFind findItem findSep r) := by
  have hleads : ∀ ms, (Search.ofLaps tailBounds (pairFind findItem findSep)).Leads 0 r ms ↔
      ∃ k, Route (List.replicate k (pairFind findItem findSep)) r ms ∧
        (pairFind findItem findSep (readerAfter r ms)).items = [] := by
    intro ms
    rw [Search.leads_ofLaps]
    simp [tailBounds]
  refine (Search.selects_found _ _ _ r fun ms hms => ?_).congr hleads fun _ => rfl
  obtain ⟨k, hroute, -⟩ := (hleads ms).mp hms
  have hlen := (advances_laps hitem hsep hr hroute).2
  omega

theorem settled_pair : Settled At (pairFind findItem findSep) := by
  intro r r' hr hr' ho m hm
  obtain ⟨ms, hroute, rfl⟩ := (selects_pair findItem findSep r).exists_route hm
  have hone : Route (pairsOf findItem findSep 1) r ms := hroute
  obtain ⟨ms', hroute', hend⟩ :=
    hone.settled (fun _ => supplied_of_mem_pairsOf hitem hsep) hr hr' ho
  exact ((selects_pair findItem findSep r').ends _).mpr ⟨ms', hroute', hend⟩

/-! ### Routes of pairs, flattened -/

/-- The pairs of a tail are separators and items in turn, in one branch each. -/
theorem exists_pairs {k : Nat} (hr : At r)
    (h : Route (List.replicate k (pairFind findItem findSep)) r ms) :
    ∃ ms', Route (pairsOf findItem findSep k) r ms' ∧ readerAfter r ms' = readerAfter r ms ∧
      flattenAll (nodesOn ms) = nodesOn ms' := by
  induction k generalizing r ms with
  | zero =>
    obtain rfl := route_nil_iff.mp h
    exact ⟨[], .nil, rfl, rfl⟩
  | succ k ih =>
    rw [List.replicate_succ] at h
    obtain ⟨m, ms, rfl, hm, h⟩ := route_cons_iff.mp h
    obtain ⟨pair, hpair, rfl⟩ := (selects_pair findItem findSep r).exists_route hm
    have hat := (advances_route_pair hitem hsep hr hpair).2
    obtain ⟨rest, hrest, hend, hnodes⟩ := ih hat h
    have hone : Route (pairsOf findItem findSep 1) r pair := hpair
    have hsolid := hone.solid (fun _ => supplied_of_mem_pairsOf hitem hsep) hr
    refine ⟨pair ++ rest, ?_, ?_, ?_⟩
    · rw [pairsOf_succ]
      obtain ⟨_, _, rfl, hfirst, hpair⟩ := route_cons_iff.mp hpair
      obtain ⟨_, _, rfl, hsecond, hpair⟩ := route_cons_iff.mp hpair
      obtain rfl := route_nil_iff.mp hpair
      exact .cons hfirst (.cons hsecond hrest)
    · rw [readerAfter_append, hend]
      rfl
    · have hflat : flattenAll [Node.group pairToken (nodesOn pair) none] = nodesOn pair := by
        rw [flattenAll_singleton, flatten_group_pair, hsolid.flattenAll_nodesOn]
      rw [nodesOn_cons, flattenAll_append, hnodes, nodesOn_append]
      exact congrArg (· ++ nodesOn rest) hflat

/-- Separators and items in turn are led over by pairs. -/
theorem exists_laps {k : Nat} (hr : At r) (h : Route (pairsOf findItem findSep k) r ms) :
    ∃ ms', Route (List.replicate k (pairFind findItem findSep)) r ms' ∧
      (readerAfter r ms').cursor.offset = (readerAfter r ms).cursor.offset := by
  induction k generalizing r ms with
  | zero =>
    obtain rfl := route_nil_iff.mp h
    exact ⟨[], .nil, rfl⟩
  | succ k ih =>
    rw [pairsOf_succ] at h
    obtain ⟨m, ms, rfl, hm, h⟩ := route_cons_iff.mp h
    obtain ⟨m', ms, rfl, hm', h⟩ := route_cons_iff.mp h
    have hpair : Route [findSep, findItem] r [m, m'] := .cons hm (.cons hm' .nil)
    have hat := (advances_route_pair hitem hsep hr hpair).2
    -- The match kept for the end of this pair may come from another pair with that end.
    obtain ⟨x, hx, hend⟩ := ((selects_pair findItem findSep r).ends _).mpr ⟨_, hpair, rfl⟩
    have hatx := (advances_pair hitem hsep).stays hr hx
    obtain ⟨ms', h', hsame⟩ :=
      h.settled (fun _ => supplied_of_mem_pairsOf hitem hsep) hat hatx hend.symm
    obtain ⟨rest, hrest, hafter⟩ := ih hatx h'
    refine ⟨x :: rest, ?_, hafter.trans hsame⟩
    rw [List.replicate_succ]
    exact .cons hx hrest

/-- There is a route of pairs that cannot be gone on with: the induction is on a bound of the bytes
left. -/
theorem exists_maximal (room : Nat) :
    ∀ {r : Reader}, At r → r.remaining < room →
      ∃ k ms, Route (List.replicate k (pairFind findItem findSep)) r ms ∧
        (pairFind findItem findSep (readerAfter r ms)).items = [] := by
  induction room with
  | zero => exact fun _ h => absurd h (Nat.not_lt_zero _)
  | succ room ih =>
    intro r hr hroom
    cases hitems : (pairFind findItem findSep r).items with
    | nil => exact ⟨0, [], .nil, hitems⟩
    | cons m ms =>
      have hm : m ∈ (pairFind findItem findSep r).items := by
        rw [hitems]
        exact List.mem_cons_self
      have hadvances := advances_pair hitem hsep
      have hless := (hadvances.past hr hm).remaining
      obtain ⟨k, rest, hroute, hnone⟩ := ih (hadvances.stays hr hm) (by omega)
      refine ⟨k + 1, m :: rest, ?_, hnone⟩
      rw [List.replicate_succ]
      exact .cons hm hroute

/-! ### What a list finds -/

/-- Every match of a list is made by a listed route, with its nodes as children. -/
theorem list_sound (hr : At r) (hm : m ∈ (listFind token interpreter findItem findSep r).items) :
    ∃ n ms, Listed findItem findSep r n ms ∧ AllSolid ms ∧
      m = ⟨some (.group token (nodesOn ms) interpreter), readerAfter r ms⟩ := by
  obtain ⟨route, hroute, rfl⟩ := (selects_list token interpreter findItem findSep r).exists_route hm
  obtain ⟨first, _, rfl, hfirst, hroute⟩ := route_cons_iff.mp hroute
  obtain ⟨tail, _, rfl, htail, hroute⟩ := route_cons_iff.mp hroute
  obtain rfl := route_nil_iff.mp hroute
  have hat := hitem.stays hr hfirst
  obtain ⟨laps, ⟨k, hlaps, hmax⟩, rfl⟩ := (selects_tail hitem hsep hat).exists_route htail
  obtain ⟨rest, hrest, hend, hnodes⟩ := exists_pairs hitem hsep hat hlaps
  have hroute : Route (alternating findItem findSep k) r (first :: rest) := .cons hfirst hrest
  have hsolid := hroute.solid (fun _ => supplied_of_mem_alternating hitem hsep) hr
  obtain ⟨node, hnode, hnodesolid⟩ := hitem.solid hr _ hfirst
  have hflat : flattenAll (nodesOn [first, ⟨tailBounds.nodeOf laps.length (nodesOn laps),
      readerAfter first.reader laps⟩]) = nodesOn (first :: rest) := by
    rw [nodesOn_cons, nodesOn_cons, flattenAll_append, flattenAll_append, flattenAll_tail_node,
      hnodes, hnode, nodesOn_cons, hnode]
    simp [flattenAll, flatten_solid hnodesolid, nodesOn]
  refine ⟨k, first :: rest, ⟨hroute, ?_⟩, hsolid, ?_⟩
  · rw [readerAfter, hend]
    exact (selects_pair findItem findSep _).items_eq_nil_iff.mp hmax
  · rw [← hflat]
    exact congrArg (Match.mk _) hend.symm

/-- Every listed route leads to the end of a match. -/
theorem list_complete (hr : At r) {n : Nat} (h : Listed findItem findSep r n ms) :
    ∃ m ∈ (listFind token interpreter findItem findSep r).items,
      m.stopOffset = (readerAfter r ms).cursor.offset := by
  obtain ⟨hroute, hmax⟩ := h
  obtain ⟨first, rest, rfl, hfirst, hrest⟩ := route_cons_iff.mp hroute
  have hat := hitem.stays hr hfirst
  obtain ⟨laps, hlaps, hafter⟩ := exists_laps hitem hsep hat hrest
  have hnone : (pairFind findItem findSep (readerAfter first.reader laps)).items = [] := by
    refine List.eq_nil_iff_forall_not_mem.mpr fun m hm => ?_
    have hatrest := hrest.stays (fun _ => supplied_of_mem_pairsOf hitem hsep) hat
    obtain ⟨m', hm', -⟩ :=
      settled_pair hitem hsep (advances_laps hitem hsep hat hlaps).1 hatrest hafter m hm
    obtain ⟨pair, hpair, -⟩ := (selects_pair findItem findSep _).exists_route hm'
    exact hmax pair hpair
  obtain ⟨tail, htail, hend⟩ := ((selects_tail hitem hsep hat).ends _).mpr
    ⟨laps, ⟨n, hlaps, hnone⟩, rfl⟩
  obtain ⟨m, hm, hstop⟩ := ((selects_list token interpreter findItem findSep r).ends _).mpr
    ⟨[first, tail], .cons hfirst (.cons htail .nil), rfl⟩
  exact ⟨m, hm, hstop.trans (hend.trans hafter)⟩

/-- A listed route from one reader comes with one from any other reader at the same offset. -/
theorem listed_settled {r' : Reader} {n : Nat} (h : Listed findItem findSep r n ms) (hr : At r)
    (hr' : At r') (ho : r.cursor.offset = r'.cursor.offset) :
    ∃ ms', Listed findItem findSep r' n ms' ∧
      (readerAfter r' ms').cursor.offset = (readerAfter r ms).cursor.offset := by
  have hparts : ∀ find ∈ alternating findItem findSep n, Supplied At find :=
    fun _ => supplied_of_mem_alternating hitem hsep
  obtain ⟨hroute, hmax⟩ := h
  obtain ⟨ms', hroute', hend⟩ := hroute.settled hparts hr hr' ho
  refine ⟨ms', ⟨hroute', fun pair hpair => ?_⟩, hend⟩
  have hone : Route (pairsOf findItem findSep 1) (readerAfter r' ms') pair := hpair
  obtain ⟨pair', hpair', -⟩ := hone.settled (fun _ => supplied_of_mem_pairsOf hitem hsep)
    (hroute'.stays hparts hr') (hroute.stays hparts hr) hend
  exact hmax pair' hpair'

theorem settled_list : Settled At (listFind token interpreter findItem findSep) := by
  intro r r' hr hr' ho m hm
  obtain ⟨n, ms, hlisted, -, rfl⟩ := list_sound hitem hsep hr hm
  obtain ⟨ms', hlisted', hsame⟩ := listed_settled hitem hsep hlisted hr hr' ho
  obtain ⟨m', hm', hend⟩ := list_complete hitem hsep hr' hlisted'
  exact ⟨m', hm', hend.trans hsame⟩

/-- A list is found where an item is, and only there. -/
theorem list_eq_nil_iff (hr : At r) :
    (listFind token interpreter findItem findSep r).items = [] ↔ (findItem r).items = [] := by
  rw [(selects_list token interpreter findItem findSep r).items_eq_nil_iff]
  constructor
  · intro hnone
    refine List.eq_nil_iff_forall_not_mem.mpr fun first hfirst => ?_
    have hat := hitem.stays hr hfirst
    obtain ⟨k, laps, hlaps, hmax⟩ := exists_maximal hitem hsep _ hat (Nat.lt_succ_self _)
    obtain ⟨tail, htail, -⟩ :=
      ((selects_tail hitem hsep hat).ends _).mpr ⟨laps, ⟨k, hlaps, hmax⟩, rfl⟩
    exact hnone _ (.cons hfirst (.cons htail .nil))
  · intro hnil ms hroute
    obtain ⟨first, -, -, hfirst, -⟩ := route_cons_iff.mp hroute
    rw [hnil] at hfirst
    cases hfirst

end Readers

/-! ### The parsers of a list -/

section Parsers

variable {key pairKey : Key} {s₀ : Session}

/-- What is remembered: pairs under their key, lists under theirs. -/
def table (pairKey : Key) (token : String) (interpreter : Option Interpreter)
    (findItem findSep : Reader → Matches) (key : Key) : Reader → Matches :=
  if key = pairKey then pairFind findItem findSep else listFind token interpreter findItem findSep

/-- The parser of a separator with the item after it. -/
def pairParser (pairKey : Key) (item separator : Parser) : Parser :=
  .sequence pairKey none (Builder.group pairToken none) (Draft.between 2 2) some [separator, item]

/-- The parser of a list that is not empty. -/
def listParser (pairKey key : Key) (token : String) (interpreter : Option Interpreter)
    (item separator : Parser) : Parser :=
  .sequence key none (Builder.flatList token interpreter) (Draft.between 2 2) some
    [item, .repetition tailBounds (pairParser pairKey item separator)]

variable (hitem : item.Supplies rules At findItem) (hsep : separator.Supplies rules At findSep)

include hitem hsep

theorem pair_gives {d : Tally} (hr : At r) (hd : ∀ id, d.get id ≤ r.remaining + 1) :
    (pairParser pairKey item separator).Gives rules
      (Session.Tabled s₀ At (table pairKey token interpreter findItem findSep)) d r
      (pairFind findItem findSep r) := by
  have hpair : table pairKey token interpreter findItem findSep pairKey =
      pairFind findItem findSep := if_pos rfl
  have hsettled : Settled At (table pairKey token interpreter findItem findSep pairKey) := by
    rw [hpair]
    exact settled_pair hitem.toSupplied hsep.toSupplied
  rw [← hpair]
  refine Parser.sequence_gives (fun _ _ _ => True) rfl (fun {_ k d r p find} hp hfind _ => ?_)
    (fun _ _ _ => trivial) hsettled hr hd (fun _ => trivial) (by rw [hpair]; rfl) none
  match k, hp, hfind with
  | 0, rfl, rfl => exact hsep.gives d r
  | 1, rfl, rfl => exact hitem.gives d r

theorem tail_gives (hr : At r) :
    (Parser.repetition tailBounds (pairParser pairKey item separator)).Gives rules
      (Session.Tabled s₀ At (table pairKey token interpreter findItem findSep)) .zero r
      (tailFind findItem findSep r) := by
  have hadvances := advances_pair hitem.toSupplied hsep.toSupplied
  refine Parser.repetition_gives (fun {s} hs => hs.keeps s.keeps_countCall)
    (fun d r => d = .zero ∧ At r) ?_ (fun {_ r m} hready hm => ?_) ⟨rfl, hr⟩ tailBounds
  · rintro _ r ⟨rfl, hr⟩
    exact pair_gives hitem hsep hr fun _ => Nat.zero_le _
  · exact ⟨hadvances.past hready.2 hm, rfl, hadvances.stays hready.2 hm⟩

/-- The tail is called where an item was read, hence with no depths. -/
theorem list_gives (hkey : key ≠ pairKey) {d : Tally} (hr : At r)
    (hd : ∀ id, d.get id ≤ r.remaining + 1) :
    (listParser pairKey key token interpreter item separator).Gives rules
      (Session.Tabled s₀ At (table pairKey token interpreter findItem findSep)) d r
      (listFind token interpreter findItem findSep r) := by
  have hlist : table pairKey token interpreter findItem findSep key =
      listFind token interpreter findItem findSep := if_neg hkey
  have hsettled : Settled At (table pairKey token interpreter findItem findSep key) := by
    rw [hlist]
    exact settled_list hitem.toSupplied hsep.toSupplied
  rw [← hlist]
  refine Parser.sequence_gives (fun k d r => (k = 0 → At r) ∧ (k = 1 → d = .zero ∧ At r)) rfl
    (fun {_ k d r p find} hp hfind hready => ?_) (fun {k d r find m} hfind hready hm => ?_) hsettled
    hr hd (fun _ => ⟨fun _ => hr, fun h => absurd h Nat.zero_ne_one⟩) (by rw [hlist]; rfl) none
  · match k, hp, hfind with
    | 0, rfl, rfl => exact hitem.gives d r
    | 1, rfl, rfl =>
      obtain ⟨rfl, hr⟩ := hready.2 rfl
      exact tail_gives hitem hsep hr
  · match k, hfind with
    | 0, rfl =>
      have hpast := hitem.past (hready.1 rfl) hm
      exact ⟨fun h => absurd h (Nat.succ_ne_zero _),
        fun _ => ⟨if_pos hpast.lt, hitem.stays (hready.1 rfl) hm⟩⟩
    | 1, rfl => exact ⟨fun h => absurd h (by omega), fun h => absurd h (by omega)⟩

end Parsers

end Separation

namespace Parser

open Separation

variable {rules : Rules} {At : Reader → Prop} {item separator : Parser}
  {findItem findSep : Reader → Matches} {r : Reader}

theorem assembleSeparated_eq (token : String) (item separator : Parser)
    (interpreter : Option Interpreter) (mayBeEmpty : Bool) (w : Draft.Workshop) :
    ∃ w', Draft.assembleSeparated token item separator interpreter mayBeEmpty w = .ok
      (if mayBeEmpty then .orEmpty token (listParser ⟨w.nextNumber⟩ ⟨w.nextNumber + 1⟩ token
          interpreter item separator)
        else listParser ⟨w.nextNumber⟩ ⟨w.nextNumber + 1⟩ token interpreter item separator, w') :=
  ⟨_, rfl⟩

/-- A list that may be empty finds what the list does, or one empty branch where it starts. -/
theorem Results.orEmpty {p : Parser} {d : Tally} {s : Session} {found : Matches}
    (h : p.Results rules d r s found) (token : String) :
    (Parser.orEmpty token p).Results rules d r s
      (if found.items = [] then .single _ ⟨some (.emptyGroup token r.cursor none), r⟩ else found) := by
  obtain ⟨n, out, s', hrun, rfl⟩ := h
  refine ⟨n + 1, Run.withEmpty token r out, s', Run.orEmpty_eq_some.mpr ⟨out, s', hrun, rfl⟩,
    Ascending.ext ?_⟩
  rw [Run.items_withEmpty]
  cases hmatch : out.isMatch with
  | true => rw [if_pos rfl, if_neg (Outcome.items_ne_nil hmatch)]
  | false =>
    rw [if_neg Bool.false_ne_true, if_pos (Outcome.items_eq_nil hmatch)]
    rfl

/-- **Separated lists are flat, alternating and maximal.** Items and separators are pure, read on and
carry nodes that a list passes through. Called with nothing remembered, where it is not refused, a list
ends. It has a match with an end if and only if an item and then separators and items in turn lead
there and no further pair matches there. The children of its node are the nodes of one such route in
order. A list that may be empty finds the same if an item matches, and otherwise an empty branch
without interpreter where it starts. -/
theorem separated_lists
    (hitem : item.Supplies rules At findItem) (hsep : separator.Supplies rules At findSep)
    (token : String) (interpreter : Option Interpreter) (hr : At r) :
    ∃ found : Matches,
      (∀ offset, (∃ m ∈ found.items, m.stopOffset = offset) ↔
        ∃ n ms, Listed findItem findSep r n ms ∧ (readerAfter r ms).cursor.offset = offset) ∧
      (∀ m ∈ found.items, ∃ n ms nodes, Listed findItem findSep r n ms ∧
        ms.map Match.node = nodes.map some ∧ nodes.length = 2 * n + 1 ∧
        m = ⟨some (.group token nodes interpreter), readerAfter r ms⟩) ∧
      ∀ d s w, (∀ id, d.get id ≤ r.remaining + 1) → (∀ id offset, s.memo.known id offset = ∅) →
        (∃ p w', Draft.assembleSeparated token item separator interpreter false w = .ok (p, w') ∧
          p.Results rules d r s found) ∧
        ∃ p w', Draft.assembleSeparated token item separator interpreter true w = .ok (p, w') ∧
          p.Results rules d r s (if (findItem r).items = [] then
            .single _ ⟨some (.emptyGroup token r.cursor none), r⟩ else found) := by
  refine ⟨listFind token interpreter findItem findSep r, fun offset => ?_, fun m hm => ?_,
    fun d s w hd hs => ?_⟩
  · constructor
    · rintro ⟨m, hm, rfl⟩
      obtain ⟨n, ms, hlisted, -, rfl⟩ := list_sound hitem.toSupplied hsep.toSupplied hr hm
      exact ⟨n, ms, hlisted, rfl⟩
    · rintro ⟨n, ms, hlisted, rfl⟩
      exact list_complete hitem.toSupplied hsep.toSupplied hr hlisted
  · obtain ⟨n, ms, hlisted, hsolid, rfl⟩ := list_sound hitem.toSupplied hsep.toSupplied hr hm
    refine ⟨n, ms, nodesOn ms, hlisted, hsolid.map_node, ?_, rfl⟩
    rw [← List.length_map some, ← hsolid.map_node, List.length_map, hlisted.1.length_eq,
      length_alternating]
  · have hkey : (⟨w.nextNumber + 1⟩ : Key) ≠ ⟨w.nextNumber⟩ := fun h =>
      absurd (congrArg Key.number h) (Nat.succ_ne_self _)
    have hresults : (listParser ⟨w.nextNumber⟩ ⟨w.nextNumber + 1⟩ token interpreter item
        separator).Results rules d r s (listFind token interpreter findItem findSep r) :=
      (list_gives hitem hsep hkey hr hd).results (Session.tabled_of_nothing hs)
    constructor
    · obtain ⟨w', hw⟩ := assembleSeparated_eq token item separator interpreter false w
      exact ⟨_, w', hw, hresults⟩
    · obtain ⟨w', hw⟩ := assembleSeparated_eq token item separator interpreter true w
      refine ⟨_, w', hw, ?_⟩
      have hempty := hresults.orEmpty token
      simp only [list_eq_nil_iff hitem.toSupplied hsep.toSupplied hr] at hempty
      exact hempty

/-- Parts that skip some of the text and make a leaf or a branch of their own supply lists, wherever
reading starts. -/
theorem supplies_of_skips {p : Parser} {find : Reader → Matches} (hp : p.Pure rules find)
    (hkeeps : p.RemembersNothing rules) (h : ∀ {r m}, m ∈ (find r).items → (∃ n, m.reader = r.skip n) ∧
      r.cursor.offset < m.stopOffset ∧ ∃ node, m.node = some node ∧ node.Solid) (start : Reader) :
    p.Supplies rules (fun r => ∃ n, r = start.skip n) find where
  past {r m} _ hm := by
    obtain ⟨⟨n, hn⟩, hlt, -⟩ := h hm
    exact ⟨hn ▸ r.ahead_skip n, hlt⟩
  stays {r m} hr hm := by
    obtain ⟨k, rfl⟩ := hr
    obtain ⟨⟨n, hn⟩, -⟩ := h hm
    exact ⟨k + n, by rw [hn, Reader.skip_skip]⟩
  settled := by
    rintro _ _ ⟨k, rfl⟩ ⟨k', rfl⟩ ho m hm
    rw [Rules.skip_ext_offset ho] at hm
    exact ⟨m, hm, rfl⟩
  solid _ _ hm := (h hm).2.2
  pure := hp
  keeps := hkeeps

theorem supplies_striding (start : Reader) :
    striding.Supplies rules (fun r => ∃ n, r = start.skip n) fun r => (strides r).results :=
  supplies_of_skips pure_striding remembersNothing_striding (fun hm => by
    obtain ⟨hskip, hlt, hnode⟩ := mem_strides hm
    exact ⟨hskip, hlt, _, hnode, trivial⟩) start

theorem supplies_rune (c : Char) (token : String) (start : Reader) :
    (terminal (.rune c token)).Supplies rules (fun r => ∃ n, r = start.skip n)
      fun r => ((Terminal.rune c token).read r).results := by
  refine supplies_of_skips (pure_terminal _) (remembersNothing_terminal _) (fun {r m} hm => ?_) start
  obtain ⟨place, hread⟩ := Terminal.reader_of_mem_leafOf hm
  refine ⟨Terminal.skip_of_mem_read _ hm, Reader.lt_of_readRune? hread, ?_⟩
  have hleaf : (Terminal.rune c token).read r = Terminal.leaf token (.char c) place m.reader := by
    rw [Terminal.read, hread]
    rfl
  rw [hleaf] at hm
  exact ⟨.leaf token (.char c) place m.stop, congrArg Match.node (List.mem_singleton.mp hm), trivial⟩

theorem striding_separated :
    (striding.Supplies .empty (fun r => ∃ n, r = (Reader.ofText "ab,c" false).skip n)
          (fun r => (strides r).results) ∧
        (terminal (.rune ',' "COMMA")).Supplies .empty
          (fun r => ∃ n, r = (Reader.ofText "ab,c" false).skip n)
          (fun r => ((Terminal.rune ',' "COMMA").read r).results)) ∧
      ∃ found : Matches,
        (∀ offset, (∃ m ∈ found.items, m.stopOffset = offset) ↔
          ∃ n ms, Listed (fun r => (strides r).results)
              (fun r => ((Terminal.rune ',' "COMMA").read r).results)
              (Reader.ofText "ab,c" false) n ms ∧
            (readerAfter (Reader.ofText "ab,c" false) ms).cursor.offset = offset) ∧
        ∃ p w', Draft.assembleSeparated "LIST" striding (terminal (.rune ',' "COMMA")) none false
            ⟨0, .empty⟩ = .ok (p, w') ∧
          p.Results .empty .zero (Reader.ofText "ab,c" false) .fresh found := by
  generalize Reader.ofText "ab,c" false = r
  obtain ⟨found, hends, -, hlists⟩ := separated_lists (supplies_striding r)
    (supplies_rune ',' "COMMA" r) "LIST" none ⟨0, r.skip_zero.symm⟩
  exact ⟨⟨supplies_striding r, supplies_rune ',' "COMMA" r⟩, found, hends,
    (hlists .zero .fresh ⟨0, .empty⟩ (fun _ => Nat.zero_le _) fun _ _ => rfl).1⟩

/-- A match with a node for each of some readers that are further on than `r`. -/
def stepsTo (r : Reader) (stops : List Reader) : Outcome :=
  ⟨.ofList _ ((stops.filter fun r' => decide (r.cursor.offset < r'.cursor.offset)).map fun r' =>
    ⟨some (.leaf "STEP" .nil r.cursor r'.cursor), r'⟩), none, ∅⟩

theorem past_of_mem_stepsTo {r : Reader} {stops : List Reader} (hstops : ∀ r' ∈ stops, r.Ahead r')
    {m : Match} (hm : m ∈ (stepsTo r stops).results.items) :
    r.Past m.reader ∧ ∃ node, m.node = some node ∧ node.Solid := by
  obtain ⟨r', hr', rfl⟩ := List.mem_map.mp (Ascending.mem_of_mem_ofList hm)
  obtain ⟨hmem, hlt⟩ := List.mem_filter.mp hr'
  exact ⟨⟨hstops r' hmem, of_decide_eq_true hlt⟩, _, rfl, trivial⟩

/-- One character; at the start of a text three characters too, and then a column too far to the
right. -/
def driftingItems (r : Reader) : Outcome :=
  stepsTo r (if r.cursor.offset = 0 then [r.skip 1, (r.skip 3).aside] else [r.skip 1])

theorem past_of_mem_driftingItems {r : Reader} {m : Match}
    (hm : m ∈ (driftingItems r).results.items) :
    r.Past m.reader ∧ ∃ node, m.node = some node ∧ node.Solid := by
  refine past_of_mem_stepsTo (fun r' hr' => ?_) hm
  split at hr'
  · rcases List.mem_pair.mp hr' with rfl | rfl
    · exact r.ahead_skip 1
    · exact (r.ahead_skip 3).trans (r.skip 3).ahead_aside
  · rw [List.mem_singleton.mp hr']
    exact r.ahead_skip 1

/-- One character, where the column is that of the offset in a first line; otherwise nothing. -/
def straightSeparators (r : Reader) : Outcome :=
  stepsTo r (if r.cursor.column = r.cursor.offset + 1 then [r.skip 1] else [])

theorem past_of_mem_straightSeparators {r : Reader} {m : Match}
    (hm : m ∈ (straightSeparators r).results.items) :
    r.Past m.reader ∧ ∃ node, m.node = some node ∧ node.Solid := by
  refine past_of_mem_stepsTo (fun r' hr' => ?_) hm
  split at hr'
  · rw [List.mem_singleton.mp hr']
    exact r.ahead_skip 1
  · cases hr'

/-- A list of such items and separators that starts where the text does is found up to the end of the text,
and no other is. -/
theorem run_drifting : ∃ out s', (listParser ⟨0⟩ ⟨1⟩ "LIST" none (.leaf (.ofAnswer "item" driftingItems))
    (.leaf (.ofAnswer "separator" straightSeparators))).run .empty 12 .zero
      (Reader.ofText "abcde" false) .fresh = some (out, s') ∧
    out.results.items.map Match.stopOffset = [5] := by
  have hends : ((listParser ⟨0⟩ ⟨1⟩ "LIST" none (.leaf (.ofAnswer "item" driftingItems))
      (.leaf (.ofAnswer "separator" straightSeparators))).run .empty 12 .zero
        (Reader.ofText "abcde" false) .fresh).map
      (fun x => x.1.results.items.map Match.stopOffset) = some [5] := by decide +kernel
  obtain ⟨⟨out, s'⟩, hrun, hitems⟩ := Option.map_eq_some_iff.mp hends
  exact ⟨out, s', hrun, hitems⟩

/-- The counterexample to lists of any pure parts, called anywhere. An item leads from the start of the
text to the offset 3, where no separator follows, because the column is wrong. Along another route the
same offset is reached in the right column and a pair follows; it is remembered, so the list goes on
with it from either, and has no match that ends at 3. And where a list has been entered too often
already, it finds nothing at all. -/
theorem drifting_separated :
    let item : Parser := .leaf (.ofAnswer "item" driftingItems)
    let separator : Parser := .leaf (.ofAnswer "separator" straightSeparators)
    let findItem := fun r => (driftingItems r).results
    let findSep := fun r => (straightSeparators r).results
    let r := Reader.ofText "abcde" false
    ((item.Pure .empty findItem ∧ item.RemembersNothing .empty ∧ ∀ r, ∀ m ∈ (findItem r).items,
        r.Past m.reader ∧ ∃ node, m.node = some node ∧ node.Solid) ∧
      (separator.Pure .empty findSep ∧ separator.RemembersNothing .empty ∧
        ∀ r, ∀ m ∈ (findSep r).items,
          r.Past m.reader ∧ ∃ node, m.node = some node ∧ node.Solid) ∧
      (∃ ms, Listed findItem findSep r 0 ms ∧ (readerAfter r ms).cursor.offset = 3) ∧
      ∃ p w found, Draft.assembleSeparated "LIST" item separator none false ⟨0, .empty⟩ =
          .ok (p, w) ∧ p.Results .empty .zero r .fresh found ∧
        found.items.map Match.stopOffset = [5]) ∧
    let letter := Terminal.rune 'a' "A"
    let comma := Terminal.rune ',' "COMMA"
    let r := Reader.ofText "a" false
    (∃ ms, Listed (fun r => (letter.read r).results) (fun r => (comma.read r).results) r 0 ms ∧
        (readerAfter r ms).cursor.offset = 1) ∧
      ∃ p w found, Draft.assembleSeparated "LIST" (.terminal letter) (.terminal comma) none false
          ⟨0, .empty⟩ = .ok (p, w) ∧
        p.Results .empty (((Tally.zero.inc 0).inc 0).inc 0) r .fresh found ∧ found.items = [] := by
  intro item separator findItem findSep r
  have hlast : (⟨some (.leaf "STEP" .nil r.cursor (r.skip 3).aside.cursor), (r.skip 3).aside⟩ :
      Match) ∈ (findItem r).items := .tail _ (.head _)
  obtain ⟨out, s', hrun, hends⟩ := run_drifting
  refine ⟨⟨⟨pure_leaf (Leaf.pure_ofAnswer _ _), remembersNothing_leaf (Leaf.pure_ofAnswer _ _),
    fun _ _ => past_of_mem_driftingItems⟩, ⟨pure_leaf (Leaf.pure_ofAnswer _ _),
    remembersNothing_leaf (Leaf.pure_ofAnswer _ _), fun _ _ => past_of_mem_straightSeparators⟩,
    ⟨_, listed_of_no_separator hlast rfl, rfl⟩, _, _, _, rfl, ⟨12, out, s', hrun, rfl⟩, hends⟩, ?_⟩
  intro letter comma r
  have hletter : (⟨some (.leaf "A" (.char 'a') r.cursor (r.skip 1).cursor), r.skip 1⟩ : Match) ∈
      (letter.read r).results.items := .head _
  exact ⟨⟨_, listed_of_no_separator hletter rfl, rfl⟩, _, _, _, rfl, ⟨1, _, _, rfl, rfl⟩, rfl⟩

end Parser

end Curtail
