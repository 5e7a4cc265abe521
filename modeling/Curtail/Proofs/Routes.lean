/-
# Routes of matches

A sequence and a repetition search for routes: from a reader to one of the
matches found there, from that match's reader on to the next, and so on. Both
search depth first. They go on with the nearest match first, and they take what
they have come to only after everything that goes on from there. Of several
routes with one end the first is kept.

Routes in the order of such a search: at the first difference the one with the
nearer match comes first, and a longer route comes before the routes it
extends. The routes of a search are listed in that order without a gap, so what
is kept for an end is settled by the order alone.

Key definitions: `Route`, `Precedes`, `First`, `Selects`, `Search`,
`Search.routes`, `Search.ofParts`, `Search.ofLaps`.
Key theorems: `Precedes.asymm`, `Search.mem_routes`, `Search.pairwise_routes`,
`Search.leads_ofParts`, `Search.leads_ofLaps`, `Search.selects_found`.
-/
import Curtail.Parse.Run
import Mathlib.Data.List.Basic

namespace Curtail

/-- One match after the other: the first of those found at `r`, each next one of those found where the
one before it ends. -/
inductive Route : List (Reader → Matches) → Reader → List Match → Prop
  | nil {r : Reader} : Route [] r []
  | cons {find : Reader → Matches} {finds : List (Reader → Matches)} {r : Reader} {m : Match}
      {ms : List Match} : m ∈ (find r).items → Route finds m.reader ms →
      Route (find :: finds) r (m :: ms)

/-- Where a route from `r` ends. -/
def readerAfter : Reader → List Match → Reader
  | r, [] => r
  | _, m :: ms => readerAfter m.reader ms

/-- The nodes on a route; matches without node contribute none. -/
def nodesOn (ms : List Match) : List Node := ms.filterMap Match.node

theorem nodesOn_cons (m : Match) (ms : List Match) :
    nodesOn (m :: ms) = m.node.toList ++ nodesOn ms := by
  unfold nodesOn
  cases h : m.node <;> simp [h]

theorem nodesOn_append (ms ms' : List Match) : nodesOn (ms ++ ms') = nodesOn ms ++ nodesOn ms' :=
  List.filterMap_append

theorem readerAfter_append (r : Reader) (ms ms' : List Match) :
    readerAfter r (ms ++ ms') = readerAfter (readerAfter r ms) ms' := by
  induction ms generalizing r with
  | nil => rfl
  | cons m ms ih => exact ih m.reader

theorem route_nil_iff {r : Reader} {ms : List Match} : Route [] r ms ↔ ms = [] := by
  constructor
  · rintro ⟨⟩
    rfl
  · rintro rfl
    exact .nil

theorem route_cons_iff {find : Reader → Matches} {finds : List (Reader → Matches)} {r : Reader}
    {ms : List Match} : Route (find :: finds) r ms ↔
      ∃ m rest, ms = m :: rest ∧ m ∈ (find r).items ∧ Route finds m.reader rest := by
  constructor
  · rintro (_ | ⟨hm, hrest⟩)
    exact ⟨_, _, rfl, hm, hrest⟩
  · rintro ⟨m, rest, rfl, hm, hrest⟩
    exact .cons hm hrest

theorem Route.length_eq {finds : List (Reader → Matches)} {r : Reader} {ms : List Match}
    (h : Route finds r ms) : ms.length = finds.length := by
  induction h with
  | nil => rfl
  | cons _ _ ih => rw [List.length_cons, List.length_cons, ih]

/-! ### The order of a search -/

/-- The order in which a search comes to routes. -/
inductive Precedes : List Match → List Match → Prop
  /-- A longer route comes before its own beginning. -/
  | longer {m : Match} {ms : List Match} : Precedes (m :: ms) []
  /-- At the first difference the nearer end comes first. -/
  | nearer {m m' : Match} {ms ms' : List Match} : m.stopOffset < m'.stopOffset →
      Precedes (m :: ms) (m' :: ms')
  | after {m : Match} {ms ms' : List Match} : Precedes ms ms' → Precedes (m :: ms) (m :: ms')

theorem Precedes.asymm {ms ms' : List Match} (h : Precedes ms ms') : ¬ Precedes ms' ms := by
  induction h with
  | longer => intro h'; cases h'
  | nearer hlt =>
    intro h'
    cases h' with
    | nearer hgt => exact Nat.lt_asymm hlt hgt
    | after _ => exact Nat.lt_irrefl _ hlt
  | after _ ih =>
    intro h'
    cases h' with
    | nearer hlt => exact Nat.lt_irrefl _ hlt
    | after h' => exact ih h'

/-- The route with a property that a search comes to first. -/
def First (P : List Match → Prop) (ms : List Match) : Prop :=
  P ms ∧ ∀ ms', P ms' → ms' ≠ ms → Precedes ms ms'

theorem First.unique {P : List Match → Prop} {ms ms' : List Match} (h : First P ms)
    (h' : First P ms') : ms = ms' := by
  by_contra hne
  exact (h.2 ms' h'.1 (Ne.symm hne)).asymm (h'.2 ms h.1 hne)

theorem First.congr {P Q : List Match → Prop} (h : ∀ ms, P ms ↔ Q ms) {ms : List Match} :
    First P ms ↔ First Q ms := by
  simp only [First, h]

/-- In a list in the order of a search the first route with a property is the first of all. -/
theorem find?_eq_some_iff_first {l : List (List Match)} (hl : l.Pairwise Precedes)
    {p : List Match → Bool} {ms : List Match} :
    l.find? p = some ms ↔ First (fun ms => ms ∈ l ∧ p ms = true) ms := by
  induction hl with
  | nil => simp [First]
  | @cons a l hmin _ ih =>
    cases hp : p a with
    | true =>
      have hfirst : First (fun ms => ms ∈ a :: l ∧ p ms = true) a := by
        refine ⟨⟨List.mem_cons_self, hp⟩, fun ms' hms' hne => ?_⟩
        exact hmin ms' ((List.mem_cons.mp hms'.1).resolve_left hne)
      rw [List.find?_cons_of_pos hp, Option.some.injEq]
      constructor
      · rintro rfl
        exact hfirst
      · exact hfirst.unique
    | false =>
      rw [List.find?_cons_of_neg (by simp [hp]), ih]
      refine First.congr fun ms => and_congr_left fun hms => ?_
      rw [List.mem_cons, or_iff_right]
      rintro rfl
      rw [hp] at hms
      cases hms

/-- The matches `found` from `r` on are those of the routes that are `Chosen`, their ends the ends of
these routes. The match kept for an end is made by the first of the routes that have it. -/
structure Selects (Chosen : List Match → Prop) (node : List Match → Option Node) (r : Reader)
    (found : Matches) : Prop where
  ends : ∀ offset, (∃ m ∈ found.items, m.stopOffset = offset) ↔
    ∃ ms, Chosen ms ∧ (readerAfter r ms).cursor.offset = offset
  kept : ∀ m, m ∈ found.items ↔ ∃ ms,
    First (fun ms => Chosen ms ∧ (readerAfter r ms).cursor.offset = m.stopOffset) ms ∧
      m = ⟨node ms, readerAfter r ms⟩

namespace Selects

variable {Chosen Chosen' : List Match → Prop} {node node' : List Match → Option Node} {r : Reader}
  {found : Matches}

theorem congr (h : Selects Chosen node r found) (hchosen : ∀ ms, Chosen ms ↔ Chosen' ms)
    (hnode : ∀ ms, node ms = node' ms) : Selects Chosen' node' r found := by
  obtain rfl : Chosen = Chosen' := funext fun ms => propext (hchosen ms)
  obtain rfl : node = node' := funext hnode
  exact h

/-- Every match is made by a route. -/
theorem exists_route (h : Selects Chosen node r found) {m : Match} (hm : m ∈ found.items) :
    ∃ ms, Chosen ms ∧ m = ⟨node ms, readerAfter r ms⟩ := by
  obtain ⟨ms, hfirst, hmatch⟩ := (h.kept m).mp hm
  exact ⟨ms, hfirst.1.1, hmatch⟩

/-- Where no route is chosen there is no match. -/
theorem items_eq_nil_iff (h : Selects Chosen node r found) :
    found.items = [] ↔ ∀ ms, ¬ Chosen ms := by
  constructor
  · intro hnil ms hms
    obtain ⟨m, hm, -⟩ := (h.ends _).mpr ⟨ms, hms, rfl⟩
    rw [hnil] at hm
    cases hm
  · intro hnone
    refine List.eq_nil_iff_forall_not_mem.mpr fun m hm => ?_
    obtain ⟨ms, hms, -⟩ := h.exists_route hm
    exact hnone ms hms

/-- The matches of routes that are listed in the order of a search. -/
theorem of_routes {routes : List (List Match)} (hroutes : routes.Pairwise Precedes)
    (hmem : ∀ ms, ms ∈ routes ↔ Chosen ms) :
    Selects Chosen node r
      (.ofList _ (routes.map fun ms => ⟨node ms, readerAfter r ms⟩)) := by
  set found : Matches := .ofList _ (routes.map fun ms => ⟨node ms, readerAfter r ms⟩) with hfound
  have hfind : ∀ offset, found.find? offset =
      (routes.find? fun ms => (readerAfter r ms).cursor.offset == offset).map fun ms =>
        ⟨node ms, readerAfter r ms⟩ := by
    intro offset
    rw [hfound, Ascending.find?_ofList, List.find?_map]
    rfl
  have hfirst : ∀ offset ms,
      (routes.find? fun ms => (readerAfter r ms).cursor.offset == offset) = some ms ↔
        First (fun ms => Chosen ms ∧ (readerAfter r ms).cursor.offset = offset) ms := by
    intro offset ms
    rw [find?_eq_some_iff_first hroutes]
    exact First.congr fun ms => by rw [hmem, beq_iff_eq]
  constructor
  · intro offset
    constructor
    · rintro ⟨m, hm, rfl⟩
      have hsome := Ascending.find?_eq_some_iff.mpr ⟨hm, rfl⟩
      rw [hfind, Option.map_eq_some_iff] at hsome
      obtain ⟨ms, hms, -⟩ := hsome
      exact ⟨ms, ((hfirst _ ms).mp hms).1⟩
    · rintro ⟨ms, hms, rfl⟩
      have hsome : (routes.find? fun ms' =>
          (readerAfter r ms').cursor.offset == (readerAfter r ms).cursor.offset).isSome = true :=
        List.find?_isSome.mpr ⟨ms, (hmem ms).mpr hms, beq_self_eq_true _⟩
      obtain ⟨ms', hms'⟩ := Option.isSome_iff_exists.mp hsome
      have hkept : found.find? (readerAfter r ms).cursor.offset =
          some ⟨node ms', readerAfter r ms'⟩ := by
        rw [hfind, hms']
        rfl
      exact ⟨_, Ascending.find?_eq_some_iff.mp hkept⟩
  · intro m
    have hself : m ∈ found.items ↔ found.find? m.stopOffset = some m := by
      rw [Ascending.find?_eq_some_iff, and_iff_left rfl]
    rw [hself, hfind, Option.map_eq_some_iff]
    exact exists_congr fun ms => by rw [hfirst, eq_comm (a := m)]

end Selects

/-! ### Depth-first search -/

/-- A search for routes: the matches it goes on with after `k` of them, and whether it may end
there. -/
structure Search where
  more : Nat → Reader → Matches
  ends : Nat → Reader → Bool

namespace Search

variable {q : Search} {n k : Nat} {r : Reader} {ms : List Match}

/-- The routes of a search that is at `r` after `k` matches. -/
inductive Leads (q : Search) : Nat → Reader → List Match → Prop
  | stop {k : Nat} {r : Reader} : q.ends k r = true → Leads q k r []
  | go {k : Nat} {r : Reader} {m : Match} {ms : List Match} : m ∈ (q.more k r).items →
      Leads q (k + 1) m.reader ms → Leads q k r (m :: ms)

/-- The routes of fewer than `n` matches, in the order in which the search comes to them. -/
def routes (q : Search) : Nat → Nat → Reader → List (List Match)
  | 0, _, _ => []
  | n + 1, k, r =>
    ((q.more k r).items.flatMap fun m => (q.routes n (k + 1) m.reader).map (m :: ·)) ++
      if q.ends k r then [[]] else []

theorem mem_routes : ms ∈ q.routes n k r ↔ q.Leads k r ms ∧ ms.length < n := by
  induction n generalizing k r ms with
  | zero => simp [routes]
  | succ n ih =>
    rw [routes, List.mem_append, List.mem_flatMap]
    constructor
    · rintro (⟨m, hm, hms⟩ | hms)
      · obtain ⟨ms, hrest, rfl⟩ := List.mem_map.mp hms
        obtain ⟨hleads, hlen⟩ := ih.mp hrest
        exact ⟨.go hm hleads, Nat.succ_lt_succ hlen⟩
      · split at hms
        · rename_i hend
          rw [List.mem_singleton.mp hms]
          exact ⟨.stop hend, Nat.succ_pos n⟩
        · cases hms
    · rintro ⟨hleads, hlen⟩
      cases hleads with
      | stop hend => exact .inr (by simp [hend])
      | go hm hleads =>
        exact .inl ⟨_, hm, List.mem_map_of_mem (ih.mpr ⟨hleads, Nat.lt_of_succ_lt_succ hlen⟩)⟩

/-- The routes are listed in the order of the search. -/
theorem pairwise_routes (q : Search) (n k : Nat) (r : Reader) :
    (q.routes n k r).Pairwise Precedes := by
  induction n generalizing k r with
  | zero => exact .nil
  | succ n ih =>
    have hon : ((q.more k r).items.flatMap fun m =>
        (q.routes n (k + 1) m.reader).map (m :: ·)).Pairwise Precedes := by
      refine List.pairwise_flatMap.mpr ⟨fun m _ => ?_, ?_⟩
      · exact List.pairwise_map.mpr ((ih (k + 1) m.reader).imp fun h => .after h)
      · refine (q.more k r).sorted.imp fun hlt ms hms ms' hms' => ?_
        obtain ⟨_, -, rfl⟩ := List.mem_map.mp hms
        obtain ⟨_, -, rfl⟩ := List.mem_map.mp hms'
        exact .nearer hlt
    have hend : (if q.ends k r then [[]] else [] : List (List Match)).Pairwise Precedes := by
      split <;> simp
    refine List.pairwise_append.mpr ⟨hon, hend, fun ms hms ms' hms' => ?_⟩
    obtain ⟨m, -, hms⟩ := List.mem_flatMap.mp hms
    obtain ⟨_, -, rfl⟩ := List.mem_map.mp hms
    split at hms'
    · rw [List.mem_singleton.mp hms']
      exact .longer
    · cases hms'

/-- The matches of some routes that go on from `r` after `k` matches with the given nodes. -/
def matchesOf (node : Nat → List Node → Option Node) (k : Nat) (r : Reader) (nodes : List Node)
    (routes : List (List Match)) : List Match :=
  routes.map fun ms => ⟨node (k + ms.length) (nodes ++ nodesOn ms), readerAfter r ms⟩

/-- What a search finds at `r`: a match for each route of fewer than `n` matches. -/
def found (q : Search) (node : Nat → List Node → Option Node) (n : Nat) (r : Reader) : Matches :=
  .ofList _ (matchesOf node 0 r [] (q.routes n 0 r))

/-- If no route is as long as `n`, all routes are found, and in the order of the search. -/
theorem selects_found (q : Search) (node : Nat → List Node → Option Node) (n : Nat) (r : Reader)
    (hlen : ∀ ms, q.Leads 0 r ms → ms.length < n) :
    Selects (q.Leads 0 r) (fun ms => node ms.length (nodesOn ms)) r (q.found node n r) := by
  have hnode : matchesOf node 0 r [] (q.routes n 0 r) =
      (q.routes n 0 r).map fun ms => ⟨node ms.length (nodesOn ms), readerAfter r ms⟩ := by
    simp only [matchesOf, Nat.zero_add, List.nil_append]
  rw [found, hnode]
  refine .of_routes (q.pairwise_routes n 0 r) fun ms => ?_
  rw [mem_routes, and_iff_left_iff_imp]
  exact hlen ms

/-- The matches of the routes that begin with `m`. -/
theorem matchesOf_map_cons (node : Nat → List Node → Option Node) (k : Nat) (r : Reader)
    (nodes : List Node) (m : Match) (routes : List (List Match)) :
    matchesOf node k r nodes (routes.map (m :: ·)) =
      matchesOf node (k + 1) m.reader (nodes ++ m.node.toList) routes := by
  rw [matchesOf, List.map_map]
  refine List.map_congr_left fun ms _ => ?_
  simp only [Function.comp_apply, nodesOn_cons, List.length_cons, List.append_assoc]
  rw [Nat.add_right_comm, Nat.add_assoc]
  rfl

theorem matchesOf_routes_succ (q : Search) (node : Nat → List Node → Option Node) (n k : Nat)
    (r : Reader) (nodes : List Node) : matchesOf node k r nodes (q.routes (n + 1) k r) =
      ((q.more k r).items.flatMap fun m => matchesOf node (k + 1) m.reader
        (nodes ++ m.node.toList) (q.routes n (k + 1) m.reader)) ++
        if q.ends k r then [⟨node k nodes, r⟩] else [] := by
  have hend : matchesOf node k r nodes (if q.ends k r then [[]] else []) =
      if q.ends k r then [⟨node k nodes, r⟩] else [] := by
    split
    · simp [matchesOf, nodesOn, readerAfter]
    · rfl
  have hon := fun m => matchesOf_map_cons node k r nodes m (q.routes n (k + 1) m.reader)
  unfold matchesOf at hend hon ⊢
  rw [routes, List.map_append, List.map_flatMap, hend]
  simp only [hon]

/-! ### The searches of sequences and repetitions -/

/-- One part after the other, ending after as many parts as `accepts` says. -/
def ofParts (finds : List (Reader → Matches)) (accepts : Nat → Bool) : Search where
  more k r := ((finds[k]?).map (· r)).getD ∅
  ends k _ := accepts k

/-- One part again and again until nothing is found or `b` is full. -/
def ofLaps (b : Run.Bounds) (find : Reader → Matches) : Search where
  more count r := if b.full count then ∅ else find r
  ends count r := (b.full count || (find r).isEmpty) && decide (b.least ≤ count)

theorem leads_ofParts_drop {finds : List (Reader → Matches)} {accepts : Nat → Bool} :
    (ofParts finds accepts).Leads k r ms ↔ accepts (k + ms.length) = true ∧
      ms.length ≤ (finds.drop k).length ∧ Route ((finds.drop k).take ms.length) r ms := by
  induction ms generalizing k r with
  | nil =>
    constructor
    · rintro ⟨hend⟩
      exact ⟨hend, Nat.zero_le _, .nil⟩
    · rintro ⟨hend, -⟩
      exact .stop hend
  | cons m ms ih =>
    have hsucc : k + (m :: ms).length = k + 1 + ms.length := by
      rw [List.length_cons, Nat.add_right_comm, Nat.add_assoc]
    rw [hsucc]
    cases hk : finds[k]? with
    | none =>
      have hdrop : finds.drop k = [] := List.drop_eq_nil_of_le (List.getElem?_eq_none_iff.mp hk)
      constructor
      · rintro (_ | ⟨hm, -⟩)
        simp [ofParts, hk] at hm
      · rintro ⟨-, hlen, -⟩
        simp [hdrop] at hlen
    | some find =>
      have hdrop : finds.drop k = find :: finds.drop (k + 1) := by
        obtain ⟨hlt, rfl⟩ := List.getElem?_eq_some_iff.mp hk
        exact List.drop_eq_getElem_cons hlt
      have hmore : (ofParts finds accepts).more k r = find r := by simp [ofParts, hk]
      rw [hdrop, List.length_cons, List.length_cons, List.take_succ_cons, Nat.succ_le_succ_iff]
      constructor
      · rintro (_ | ⟨hm, hleads⟩)
        obtain ⟨hend, hlen, hroute⟩ := ih.mp hleads
        rw [hmore] at hm
        exact ⟨hend, hlen, .cons hm hroute⟩
      · rintro ⟨hend, hlen, hroute⟩
        cases hroute with
        | cons hm hroute =>
          rw [← hmore] at hm
          exact .go hm (ih.mpr ⟨hend, hlen, hroute⟩)

/-- The routes of a sequence go through as many of its parts as it accepts. -/
theorem leads_ofParts {finds : List (Reader → Matches)} {accepts : Nat → Bool} :
    (ofParts finds accepts).Leads 0 r ms ↔
      ∃ k ≤ finds.length, accepts k = true ∧ Route (finds.take k) r ms := by
  rw [leads_ofParts_drop, Nat.zero_add, List.drop_zero]
  constructor
  · rintro ⟨hend, hlen, hroute⟩
    exact ⟨ms.length, hlen, hend, hroute⟩
  · rintro ⟨k, hk, hend, hroute⟩
    have hlen : ms.length = k := by rw [hroute.length_eq, List.length_take, Nat.min_eq_left hk]
    subst hlen
    exact ⟨hend, hk, hroute⟩

-- Two parts that go on by one character or two, of which one is enough.
example : ((ofParts (List.replicate 2 fun r => .ofList _ ([1, 2].map fun n => ⟨none, r.skip n⟩))
      fun k => decide (1 ≤ k)).routes 3 0 (Reader.ofText "abcd" false)).map (·.map Match.stopOffset) =
    [[1, 2], [1, 3], [1], [2, 3], [2, 4], [2]] := by
  rfl

theorem full_eq_true_iff {b : Run.Bounds} (hk : ∀ most, b.most = some most → k ≤ most) :
    b.full k = true ↔ b.most = some k := by
  unfold Run.Bounds.full
  cases hmost : b.most with
  | none => simp
  | some most =>
    have := hk most hmost
    simp only [Option.any_some, decide_eq_true_eq, Option.some.injEq]
    omega

theorem leads_ofLaps_from {b : Run.Bounds} {find : Reader → Matches}
    (hk : ∀ most, b.most = some most → k ≤ most) :
    (ofLaps b find).Leads k r ms ↔ Route (List.replicate ms.length find) r ms ∧
      b.least ≤ k + ms.length ∧ (∀ most, b.most = some most → k + ms.length ≤ most) ∧
      (b.most = some (k + ms.length) ∨ (find (readerAfter r ms)).items = []) := by
  induction ms generalizing k r with
  | nil =>
    have hends : (ofLaps b find).ends k r = true ↔
        (b.most = some k ∨ (find r).items = []) ∧ b.least ≤ k := by
      simp only [ofLaps, Bool.and_eq_true, Bool.or_eq_true, full_eq_true_iff hk, decide_eq_true_eq,
        Ascending.isEmpty, List.isEmpty_iff]
    constructor
    · rintro ⟨hend⟩
      exact ⟨.nil, (hends.mp hend).2, hk, (hends.mp hend).1⟩
    · rintro ⟨-, hleast, -, hmax⟩
      exact .stop (hends.mpr ⟨hmax, hleast⟩)
  | cons m ms ih =>
    have hsucc : k + (m :: ms).length = k + 1 + ms.length := by
      rw [List.length_cons, Nat.add_right_comm, Nat.add_assoc]
    rw [hsucc, List.length_cons, List.replicate_succ]
    -- As long as `b` is not full, the search goes on with the matches of the part.
    have hon : b.full k = false → (ofLaps b find).more k r = find r := fun hnot => by
      simp [ofLaps, hnot]
    constructor
    · rintro (_ | ⟨hm, hleads⟩)
      have hnot : b.full k = false := by
        cases hfull : b.full k with
        | false => rfl
        | true => simp [ofLaps, hfull] at hm
      have hk' : ∀ most, b.most = some most → k + 1 ≤ most := by
        intro most hmost
        have hle := hk most hmost
        have hne : b.most ≠ some k := fun h => by
          rw [(full_eq_true_iff hk).mpr h] at hnot
          cases hnot
        rw [hmost] at hne
        have : most ≠ k := fun h => hne (congrArg some h)
        omega
      obtain ⟨hroute, hleast, hmost, hmax⟩ := (ih hk').mp hleads
      rw [hon hnot] at hm
      exact ⟨.cons hm hroute, hleast, hmost, hmax⟩
    · rintro ⟨hroute, hleast, hmost, hmax⟩
      have hk' : ∀ most, b.most = some most → k + 1 ≤ most := fun most h =>
        Nat.le_trans (Nat.le_add_right _ _) (hmost most h)
      have hnot : b.full k = false := by
        cases hfull : b.full k with
        | false => rfl
        | true => exact absurd (hk' k ((full_eq_true_iff hk).mp hfull)) (Nat.not_succ_le_self k)
      cases hroute with
      | cons hm hroute =>
        rw [← hon hnot] at hm
        exact .go hm ((ih hk').mpr ⟨hroute, hleast, hmost, hmax⟩)

/-- The routes of a repetition are as long as its bounds say, and none of them goes on. -/
theorem leads_ofLaps {b : Run.Bounds} {find : Reader → Matches} :
    (ofLaps b find).Leads 0 r ms ↔ ∃ k, Route (List.replicate k find) r ms ∧ b.least ≤ k ∧
      (∀ most, b.most = some most → k ≤ most) ∧
      (b.most = some k ∨ (find (readerAfter r ms)).items = []) := by
  rw [leads_ofLaps_from fun most _ => Nat.zero_le most, Nat.zero_add]
  constructor
  · intro h
    exact ⟨ms.length, h⟩
  · rintro ⟨k, hroute, h⟩
    have hlen : ms.length = k := by rw [hroute.length_eq, List.length_replicate]
    subst hlen
    exact ⟨hroute, h⟩

end Search

end Curtail
