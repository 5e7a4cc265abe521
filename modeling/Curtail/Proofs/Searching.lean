/-
# What sequences and repetitions find

A part is pure if what it finds depends on nothing but the reader. A sequence of
pure parts finds exactly what a depth-first search over the readers finds, a
repetition likewise: the nodes that are passed along while it searches are those
on the route so far, and no route is missed or followed twice.

The walk over the parts is followed with the routes still ahead: what it yields
is one match for each of them, in their order, so that joining the outcomes of
several matches keeps the first route for each end. Fuel is found on the way;
of several calls the greatest fuel does for all.

A sequence also remembers, so its parts must not meddle with what is remembered.
What is remembered is looked up by offset. So where an offset settles where the
matches end, what is remembered for its key adds nothing to what is found again.

Key definitions: `Parser.Pure`, `Parser.RemembersNothing`, `Parser.Gives`,
`Settled`, `Session.Tabled`, `Parser.Results`, `Parser.Searches`.
Key theorems: `Run.walk_gives`, `Run.cycle_gives`, `Parser.sequence_gives`,
`Parser.sequence_selects`, `Parser.repetition_selects`.
-/
import Curtail.Grammar.Draft
import Curtail.Proofs.Finding
import Curtail.Proofs.Identity
import Curtail.Proofs.Members
import Curtail.Proofs.Reading
import Curtail.Proofs.Routes
import Mathlib.Data.List.Forall2

namespace Curtail

/-- Among the readers in `At` an offset settles where the matches end that `find` finds there. -/
def Settled (At : Reader → Prop) (find : Reader → Matches) : Prop :=
  ∀ {r r' : Reader}, At r → At r' → r.cursor.offset = r'.cursor.offset →
    ∀ m ∈ (find r).items, ∃ m' ∈ (find r').items, m'.stopOffset = m.stopOffset

/-! ### Sessions -/

/-- `s'` has the identities of `s` and remembers what `s` does. -/
structure Session.Keeps (s s' : Session) : Prop where
  grows : s.Grows s'
  known : ∀ id offset, s'.memo.known id offset = s.memo.known id offset

namespace Session

variable {s₀ s s' : Session} {At : Reader → Prop} {table : Key → Reader → Matches} {key : Key}
  {id : Nat} {r : Reader}

theorem keeps_countCall (s : Session) : s.Keeps s.countCall := ⟨.refl s, fun _ _ => rfl⟩

theorem keeps_register (s : Session) (key : Key) : s.Keeps (s.countCall.register key).2 :=
  ⟨s.grows_register key, s.countCall.known_register key⟩

/-- Since `s₀` identities were only added, and whatever is remembered is what `table` has for the key
and the reader it was found at. -/
structure Tabled (s₀ : Session) (At : Reader → Prop) (table : Key → Reader → Matches) (s : Session) :
    Prop where
  grows : s₀.Grows s
  known : ∀ id offset, s.memo.known id offset = ∅ ∨ ∃ key r, s.memo.idOf? key = some id ∧ At r ∧
    r.cursor.offset = offset ∧ s.memo.known id offset = table key r

theorem tabled_of_nothing (h : ∀ id offset, s.memo.known id offset = ∅) : Tabled s At table s :=
  ⟨.refl s, fun id offset => .inl (h id offset)⟩

theorem Tabled.keeps (h : Tabled s₀ At table s) (hs : s.Keeps s') : Tabled s₀ At table s' := by
  refine ⟨h.grows.trans hs.grows, fun id offset => ?_⟩
  rw [hs.known]
  rcases h.known id offset with hnone | ⟨key, r, hid, hrest⟩
  · exact .inl hnone
  · exact .inr ⟨key, r, Memo.idOf?_mono hs.grows hid, hrest⟩

theorem Tabled.since (h : Tabled s₀ At table s) : Tabled s At table s :=
  ⟨.refl s, h.known⟩

/-- Where an offset settles the ends, what is remembered adds nothing to what is found again. -/
theorem Tabled.append_known (h : Tabled s₀ At table s) (hsettled : Settled At (table key))
    (hid : s.memo.idOf? key = some id) (hr : At r) :
    table key r ++ s.memo.known id r.cursor.offset = table key r := by
  rcases h.known id r.cursor.offset with hnone | ⟨key', r', hid', hr', ho, hknown⟩
  · rw [hnone, Ascending.append_empty]
  · obtain rfl := Memo.idOf?_inj hid hid'
    rw [hknown]
    exact Ascending.append_eq_left (hsettled hr' hr ho)

theorem Tabled.grow (h : Tabled s₀ At table s) (hsettled : Settled At (table key))
    (hid : s.memo.idOf? key = some id) (hr : At r) :
    Tabled s₀ At table (s.grow id r.cursor.offset (table key r)).2 := by
  refine ⟨h.grows, fun id' offset => ?_⟩
  rw [known_grow]
  split
  · rename_i heq
    obtain ⟨rfl, rfl⟩ := heq
    exact .inr ⟨key, r, hid, hr, rfl, h.append_known hsettled hid hr⟩
  · exact h.known id' offset

end Session

/-! ### Calls that end -/

/-- The calls of which `call` has one for each fuel come to an end from every session of which `J`
holds: the matches are `found`, and `J` holds of the session after. -/
def Run.Gives (J : Session → Prop) (call : Nat → Session → Option (Outcome × Session))
    (found : Matches) : Prop :=
  ∀ s, J s → ∃ n out s', call n s = some (out, s') ∧ out.results = found ∧ J s'

namespace Parser

variable {rules : Rules} {p : Parser} {find : Reader → Matches}

/-- Called with the depths `d` at `r`, the parser ends and finds `found`. -/
def Gives (rules : Rules) (J : Session → Prop) (p : Parser) (d : Tally) (r : Reader)
    (found : Matches) : Prop :=
  Run.Gives J (fun n => p.run rules n d r) found

/-- What the parser finds depends on nothing but the reader. -/
def Pure (rules : Rules) (p : Parser) (find : Reader → Matches) : Prop := ∀ d r s, ∃ n out s',
  p.run rules n d r s = some (out, s') ∧ out.results = find r

/-- The parser leaves alone what is remembered in a session. -/
def RemembersNothing (rules : Rules) (p : Parser) : Prop := ∀ {n d r s out s'},
  p.run rules n d r s = some (out, s') → s.Keeps s'

theorem pure_terminal (t : Terminal) : (terminal t).Pure rules fun r => (t.read r).results :=
  fun _ r s => ⟨1, t.read r, s.countCall, rfl, rfl⟩

theorem remembersNothing_terminal (t : Terminal) : (terminal t).RemembersNothing rules := by
  intro n d r s out s' h
  cases n with
  | zero => cases h
  | succ n =>
    cases h
    exact s.keeps_countCall

theorem pure_leaf {l : Leaf} {f : Reader → Outcome} (hl : l.Pure f) :
    (leaf l).Pure rules fun r => (f r).results :=
  fun d r s => ⟨1, f r, s.countCall, congrArg some (hl d r s.countCall), rfl⟩

theorem remembersNothing_leaf {l : Leaf} {f : Reader → Outcome} (hl : l.Pure f) :
    (leaf l).RemembersNothing rules := by
  intro n d r s out s' h
  cases n with
  | zero => cases h
  | succ n =>
    simp only [run_leaf, hl d r s.countCall] at h
    cases h
    exact s.keeps_countCall

/-- A pure part ends wherever it is called. -/
theorem Pure.gives (hp : p.Pure rules find) (d : Tally) (r : Reader) :
    p.Gives rules (fun _ => True) d r (find r) := by
  intro s _
  obtain ⟨n, out, s', hrun, hfound⟩ := hp d r s
  exact ⟨n, out, s', hrun, hfound, trivial⟩

/-- A pure part that remembers nothing ends with the same remembered. -/
theorem Pure.gives_tabled (hp : p.Pure rules find) (hkeeps : p.RemembersNothing rules)
    {s₀ : Session} {At : Reader → Prop} {table : Key → Reader → Matches} (d : Tally) (r : Reader) :
    p.Gives rules (Session.Tabled s₀ At table) d r (find r) := by
  intro s hs
  obtain ⟨n, out, s', hrun, hfound⟩ := hp d r s
  exact ⟨n, out, s', hrun, hfound, hs.keeps (hkeeps hrun)⟩

end Parser

namespace Run

variable {rules : Rules} {J : Session → Prop}

/-- What is done for some matches in turn ends if it ends for each of them, and what is found is
joined in their order. -/
theorem gather_gives {f : Nat → Match → Session → Option (Outcome × Session)}
    (hmono : ∀ {n n'}, n ≤ n' → ∀ m s x, f n m s = some x → f n' m s = some x)
    {matchesOn : Match → List Match} :
    ∀ {ms : List Match}, (∀ m ∈ ms, Gives J (fun n => f n m) (.ofList _ (matchesOn m))) →
      Gives J (fun n => gather (f n) ms) (.ofList _ (ms.flatMap matchesOn))
  | [], _, s, hs => ⟨0, ∅, s, rfl, rfl, hs⟩
  | m :: ms, h, s, hs => by
    obtain ⟨n₁, out, s₁, hf, hout, hs₁⟩ := h m List.mem_cons_self s hs
    obtain ⟨n₂, rest, s₂, hg, hrest, hs₂⟩ :=
      gather_gives hmono (fun m' hm' => h m' (List.mem_cons_of_mem m hm')) s₁ hs₁
    have hf' := hmono (Nat.le_max_left n₁ n₂) m s _ hf
    have hg' := gather_mono (hmono (Nat.le_max_right n₁ n₂)) hg
    refine ⟨max n₁ n₂, out ++ rest, s₂, gather_cons_eq_some.mpr ⟨out, s₁, rest, s₂, hf', hg', rfl⟩,
      ?_, hs₂⟩
    show out.results ++ rest.results = _
    rw [hout, hrest, List.flatMap_cons, Ascending.ofList_append]

/-! ### Walks -/

section Walks

variable {parts : List Parser} {finds : List (Reader → Matches)} {build : Builder}
  {accepts : Nat → Bool}

theorem walkOn_mono {n n' i i' : Nat} (hn : n ≤ n') (hi : i ≤ i') {d : Tally} {r : Reader}
    {k : Nat} {nodes : List Node} (m : Match) (s : Session) (x : Outcome × Session)
    (h : walkOn (Parser.steps rules n build accepts some parts) i d r k nodes m s = some x) :
    walkOn (Parser.steps rules n' build accepts some parts) i' d r k nodes m s = some x :=
  walk_mono (Parser.steps_below hn build accepts some parts) hi h

theorem results_finishIf (steps : Steps) (r : Reader) (k : Nat) (nodes : List Node) :
    (steps.finishIf r k nodes).results =
      .ofList _ (if steps.accepts k then [⟨steps.build nodes.reverse, r⟩] else []) := by
  unfold Steps.finishIf
  split <;> rfl

/-- The induction is on the number of parts still ahead. `Ready` says with which depths and at which
readers the part after `k` others may be called. -/
theorem walk_gives (build : Builder) (accepts : Nat → Bool)
    (Ready : Nat → Tally → Reader → Prop) (hlen : parts.length = finds.length)
    (hcall : ∀ {k d r p find}, parts[k]? = some p → finds[k]? = some find → Ready k d r →
      p.Gives rules J d r (find r))
    (hnext : ∀ {k d r find m}, finds[k]? = some find → Ready k d r → m ∈ (find r).items →
      Ready (k + 1) (depthsAfter d r m.reader) m.reader) :
    ∀ (ahead : Nat) {k : Nat} {d : Tally} {r : Reader} (nodes : List Node),
      k + ahead = finds.length → Ready k d r →
      Gives J (fun n => walk (Parser.steps rules n build accepts some parts) n d r k nodes)
        (.ofList _ (Search.matchesOf (fun _ => build) k r nodes.reverse
          ((Search.ofParts finds accepts).routes (ahead + 1) k r)))
  | 0, k, d, r, nodes, hk, _ => by
    intro s hs
    have hpart : parts[k]? = none := List.getElem?_eq_none (by omega)
    have hfind : finds[k]? = none := List.getElem?_eq_none (by omega)
    have hmore : (Search.ofParts finds accepts).more k r = ∅ := by simp [Search.ofParts, hfind]
    have hsteps : (Parser.steps rules 1 build accepts some parts).part k = none := by
      simp [Parser.steps, Parser.pick, hpart]
    refine ⟨1, _, s, walk_succ_eq_some.mpr (.inl ⟨hsteps, rfl⟩), ?_, hs⟩
    rw [results_finishIf, Search.matchesOf_routes_succ, hmore]
    rfl
  | ahead + 1, k, d, r, nodes, hk, hready => by
    intro s hs
    obtain ⟨p, hpart⟩ : ∃ p, parts[k]? = some p := ⟨_, List.getElem?_eq_getElem (by omega)⟩
    obtain ⟨find, hfind⟩ : ∃ find, finds[k]? = some find := ⟨_, List.getElem?_eq_getElem (by omega)⟩
    have hmore : (Search.ofParts finds accepts).more k r = find r := by simp [Search.ofParts, hfind]
    obtain ⟨n₁, out, s₁, hrun, hout, hs₁⟩ := hcall hpart hfind hready s hs
    have hon : ∀ m ∈ (find r).items, Gives J
        (fun n => walkOn (Parser.steps rules n build accepts some parts) n d r k nodes m)
        (.ofList _ (Search.matchesOf (fun _ => build) (k + 1) m.reader
          (nodes.reverse ++ m.node.toList)
          ((Search.ofParts finds accepts).routes (ahead + 1) (k + 1) m.reader))) := by
      intro m hm
      rw [← reverse_toList_append]
      exact walk_gives build accepts Ready hlen hcall hnext ahead (m.node.toList ++ nodes) (by omega)
        (hnext hfind hready hm)
    obtain ⟨n₂, rest, s₂, hgather, hrest, hs₂⟩ :=
      gather_gives (fun hn => walkOn_mono hn hn) hon s₁ hs₁
    rw [← hout] at hgather
    have hsteps : (Parser.steps rules (max n₁ n₂ + 1) build accepts some parts).part k =
        some (p.run rules (max n₁ n₂ + 1)) := by
      simp [Parser.steps, Parser.pick, hpart]
    have hrun' : p.run rules (max n₁ n₂ + 1) d r s = some (out, s₁) :=
      Parser.run_mono (by omega) hrun
    have hgather' : gather (walkOn (Parser.steps rules (max n₁ n₂ + 1) build accepts some parts)
        (max n₁ n₂) d r k nodes) out.results.items s₁ = some (rest, s₂) :=
      gather_mono (walkOn_mono (by omega) (Nat.le_max_right n₁ n₂)) hgather
    refine ⟨max n₁ n₂ + 1, _, s₂, walk_succ_eq_some.mpr
      (.inr ⟨_, out, s₁, rest, s₂, hsteps, hrun', hgather', rfl⟩), ?_, hs₂⟩
    show ∅ ++ rest.results ++ (Steps.finishIf _ r k nodes).results = _
    rw [Ascending.empty_append, hrest, results_finishIf, Search.matchesOf_routes_succ, hmore,
      Ascending.ofList_append]
    rfl

end Walks

/-! ### Cycles -/

section Cycles

variable {p : Parser} {find : Reader → Matches} {b : Bounds} {Ready : Tally → Reader → Prop}

/-- The node of a chain of `count` repetitions. -/
def Bounds.nodeOf (b : Bounds) (count : Nat) (nodes : List Node) : Option Node :=
  if count = 0 then none else b.build nodes

theorem results_finish (b : Bounds) (r : Reader) (nodes : List Node) (count : Nat) :
    (b.finish r nodes count).results =
      .ofList _ (if b.least ≤ count then [⟨b.nodeOf count nodes.reverse, r⟩] else []) := by
  unfold Bounds.finish
  by_cases h : count < b.least
  · rw [if_pos h, if_neg (Nat.not_le.mpr h)]
    rfl
  · rw [if_neg h, if_pos (Nat.not_lt.mp h)]
    rfl

theorem cycleOn_mono {n n' i i' : Nat} (hn : n ≤ n') (hi : i ≤ i') {d : Tally} {r : Reader}
    {nodes : List Node} {count : Nat} {stalled : Bool} (m : Match) (s : Session)
    (x : Outcome × Session)
    (h : cycleOn b (p.run rules n) i d r nodes count stalled m s = some x) :
    cycleOn b (p.run rules n') i' d r nodes count stalled m s = some x :=
  cycleOn_imp (fun hx => cycle_mono (fun _ _ _ _ => Parser.run_mono hn) hi hx) h

/-- The induction is on a bound of the bytes left: every repetition reads on. -/
theorem cycle_gives (hcall : ∀ {d r}, Ready d r → p.Gives rules J d r (find r))
    (hnext : ∀ {d r m}, Ready d r → m ∈ (find r).items → r.Past m.reader ∧ Ready .zero m.reader) :
    ∀ (room : Nat) {d : Tally} {r : Reader} (nodes : List Node) (count : Nat),
      r.remaining < room → Ready d r →
      Gives J (fun n => cycle b (p.run rules n) n d r nodes count false)
        (.ofList _ (Search.matchesOf b.nodeOf count r nodes.reverse
          ((Search.ofLaps b find).routes room count r)))
  | 0, _, _, _, _, hroom, _ => absurd hroom (Nat.not_lt_zero _)
  | room + 1, d, r, nodes, count, hroom, hready => by
    intro s hs
    cases hfull : b.full count with
    | true =>
      have hmore : (Search.ofLaps b find).more count r = ∅ := by simp [Search.ofLaps, hfull]
      have hends : (Search.ofLaps b find).ends count r = decide (b.least ≤ count) := by
        simp [Search.ofLaps, hfull]
      refine ⟨1, _, s, cycle_succ_eq_some.mpr (.inl ⟨hfull, rfl⟩), ?_, hs⟩
      rw [results_finish, Search.matchesOf_routes_succ, hmore, hends]
      simp only [decide_eq_true_eq]
      rfl
    | false =>
      have hmore : (Search.ofLaps b find).more count r = find r := by simp [Search.ofLaps, hfull]
      obtain ⟨n₁, out, s₁, hrun, hout, hs₁⟩ := hcall hready s hs
      cases hmatch : out.isMatch with
      | false =>
        have hnone : (find r).items = [] := by rw [← hout]; exact Outcome.items_eq_nil hmatch
        have hends : (Search.ofLaps b find).ends count r = decide (b.least ≤ count) := by
          simp [Search.ofLaps, Ascending.isEmpty, hnone]
        have hrun' : p.run rules (n₁ + 1) d r s = some (out, s₁) :=
          Parser.run_mono (Nat.le_succ n₁) hrun
        refine ⟨n₁ + 1, _, s₁, cycle_succ_eq_some.mpr
          (.inr ⟨hfull, out, s₁, hrun', .inl ⟨hmatch, rfl⟩⟩), ?_, hs₁⟩
        rw [Outcome.items_reports_append, results_finish, Search.matchesOf_routes_succ, hmore, hends,
          hnone]
        simp only [decide_eq_true_eq]
        rfl
      | true =>
        have hsome : (find r).items ≠ [] := by rw [← hout]; exact Outcome.items_ne_nil hmatch
        have hends : (Search.ofLaps b find).ends count r = false := by
          simp [Search.ofLaps, Ascending.isEmpty, hsome, hfull]
        have hon : ∀ m ∈ (find r).items, Gives J
            (fun n => cycleOn b (p.run rules n) n d r nodes count false m)
            (.ofList _ (Search.matchesOf b.nodeOf (count + 1) m.reader
              (nodes.reverse ++ m.node.toList)
              ((Search.ofLaps b find).routes room (count + 1) m.reader))) := by
          intro m hm
          obtain ⟨hpast, hready'⟩ := hnext hready hm
          have hless := hpast.remaining
          have hcycle := cycle_gives hcall hnext room (m.node.toList ++ nodes) (count + 1)
            (by omega) hready'
          have heq : ∀ n, cycleOn b (p.run rules n) n d r nodes count false m =
              cycle b (p.run rules n) n .zero m.reader (m.node.toList ++ nodes) (count + 1) false :=
            fun n => funext fun s => if_pos hpast.lt
          rw [← reverse_toList_append]
          simpa only [heq] using hcycle
        obtain ⟨n₂, rest, s₂, hgather, hrest, hs₂⟩ :=
          gather_gives (fun hn => cycleOn_mono hn hn) hon s₁ hs₁
        rw [← hout] at hgather
        have hrun' : p.run rules (max n₁ n₂ + 1) d r s = some (out, s₁) :=
          Parser.run_mono (by omega) hrun
        have hgather' : gather (cycleOn b (p.run rules (max n₁ n₂ + 1)) (max n₁ n₂) d r nodes count
            false) out.results.items s₁ = some (rest, s₂) :=
          gather_mono (cycleOn_mono (by omega) (Nat.le_max_right n₁ n₂)) hgather
        refine ⟨max n₁ n₂ + 1, _, s₂, cycle_succ_eq_some.mpr
          (.inr ⟨hfull, out, s₁, hrun', .inr ⟨hmatch, rest, s₂, hgather', rfl⟩⟩), ?_, hs₂⟩
        rw [Outcome.items_reports_append, hrest, Search.matchesOf_routes_succ, hmore, hends]
        simp

end Cycles

end Run

/-! ### Sequences and repetitions -/

/-- What `find` finds at a reader in `At` reads on and stays in `At`. -/
structure Advances (At : Reader → Prop) (find : Reader → Matches) : Prop where
  past : ∀ {r m}, At r → m ∈ (find r).items → r.Past m.reader
  stays : ∀ {r m}, At r → m ∈ (find r).items → At m.reader

/-- A route whose matches all read on is no longer than the text that it leaves behind. -/
theorem Route.advances {At : Reader → Prop} {finds : List (Reader → Matches)} {r : Reader}
    {ms : List Match} (h : Route finds r ms) (hfinds : ∀ find ∈ finds, Advances At find)
    (hr : At r) :
    At (readerAfter r ms) ∧ (readerAfter r ms).remaining + ms.length ≤ r.remaining := by
  induction h with
  | nil => exact ⟨hr, Nat.le_refl _⟩
  | cons hm _ ih =>
    have hfirst := hfinds _ List.mem_cons_self
    obtain ⟨hat, hlen⟩ := ih (fun find hfind => hfinds find (List.mem_cons_of_mem _ hfind))
      (hfirst.stays hr hm)
    have hless := (hfirst.past hr hm).remaining
    refine ⟨hat, ?_⟩
    rw [readerAfter, List.length_cons]
    omega

theorem route_between_iff {finds : List (Reader → Matches)} {n : Nat} {r : Reader}
    {ms : List Match} (hn : n = finds.length) :
    (∃ k ≤ n, Draft.between n n k = true ∧ Route (finds.take k) r ms) ↔ Route finds r ms := by
  simp only [Draft.between, Bool.and_eq_true, decide_eq_true_eq]
  constructor
  · rintro ⟨k, -, ⟨hge, hle⟩, hroute⟩
    obtain rfl : k = n := Nat.le_antisymm hle hge
    rwa [hn, List.take_length] at hroute
  · intro hroute
    refine ⟨n, Nat.le_refl n, ⟨Nat.le_refl n, Nat.le_refl n⟩, ?_⟩
    rwa [hn, List.take_length]

namespace Parser

variable {rules : Rules} {parts : List Parser} {finds : List (Reader → Matches)} {build : Builder}
  {accepts : Nat → Bool} {p : Parser} {find : Reader → Matches}

/-- A sequence that is not refused finds what the search over its parts does, if that is what is
remembered for it and an offset settles where it ends. -/
theorem sequence_gives {At : Reader → Prop} {table : Key → Reader → Matches}
    (Ready : Nat → Tally → Reader → Prop) (hlen : parts.length = finds.length)
    (hcall : ∀ {s₀ k d r p find}, parts[k]? = some p → finds[k]? = some find → Ready k d r →
      p.Gives rules (Session.Tabled s₀ At table) d r (find r))
    (hnext : ∀ {k d r find m}, finds[k]? = some find → Ready k d r → m ∈ (find r).items →
      Ready (k + 1) (Run.depthsAfter d r m.reader) m.reader)
    {key : Key} (hsettled : Settled At (table key)) {d : Tally} {r : Reader} (hr : At r)
    (hd : ∀ id, d.get id ≤ r.remaining + 1) (hready : ∀ id, Ready 0 (d.inc id) r)
    (htable : table key r =
      (Search.ofParts finds accepts).found (fun _ => build) (finds.length + 1) r)
    (label : Option String) {s₀ : Session} :
    (sequence key label build accepts some parts).Gives rules (Session.Tabled s₀ At table) d r
      (table key r) := by
  intro s hs
  have hid := s.idOf?_register key
  have hkeeps := s.keeps_register key
  generalize hx : s.countCall.register key = x at *
  obtain ⟨id, s₁⟩ := x
  have hentered : Run.refuses d r id = false := decide_eq_false (Nat.not_lt.mpr (hd id))
  obtain ⟨n, out, s₂, hwalk, hout, hs₂⟩ := Run.walk_gives build accepts Ready hlen hcall hnext
    finds.length [] (Nat.zero_add _) (hready id) s₁ (hs.keeps hkeeps).since
  have hfound : out.results = table key r := by rw [hout, htable]; rfl
  have hid₂ := Memo.idOf?_mono hs₂.grows hid
  have hgrown := hs₂.grow hsettled hid₂ hr
  refine ⟨n + 1, _, _, Run.sequence_eq_some.mpr (.inr ⟨by rw [hx]; exact hentered, out, s₂,
    by rw [hx]; exact hwalk, rfl⟩), ?_, ?_⟩
  · rw [hx, hfound]
    exact hs₂.append_known hsettled hid₂ hr
  · rw [hx, hfound]
    exact ⟨hs.grows.trans (hkeeps.grows.trans hgrown.grows), hgrown.known⟩

/-- A repetition whose part reads on every time finds what the search over its laps does. -/
theorem repetition_gives {J : Session → Prop} (hJ : ∀ {s}, J s → J s.countCall)
    (Ready : Tally → Reader → Prop)
    (hcall : ∀ {d r}, Ready d r → p.Gives rules J d r (find r))
    (hnext : ∀ {d r m}, Ready d r → m ∈ (find r).items → r.Past m.reader ∧ Ready .zero m.reader)
    {d : Tally} {r : Reader} (hready : Ready d r) (b : Run.Bounds) :
    (repetition b p).Gives rules J d r
      ((Search.ofLaps b find).found b.nodeOf (r.remaining + 1) r) := by
  intro s hs
  obtain ⟨n, out, s', hcycle, hout, hs'⟩ := Run.cycle_gives (b := b) hcall hnext
    (r.remaining + 1) [] 0 (Nat.lt_succ_self _) hready s.countCall (hJ hs)
  exact ⟨n + 1, out, s', hcycle, hout, hs'⟩

/-- The parser ends when called, and `found` is what it finds. -/
def Results (rules : Rules) (p : Parser) (d : Tally) (r : Reader) (s : Session) (found : Matches) :
    Prop :=
  ∃ n out s', p.run rules n d r s = some (out, s') ∧ out.results = found

theorem Gives.results {J : Session → Prop} {d : Tally} {r : Reader} {s : Session} {found : Matches}
    (h : p.Gives rules J d r found) (hs : J s) : p.Results rules d r s found := by
  obtain ⟨n, out, s', hrun, hout, -⟩ := h s hs
  exact ⟨n, out, s', hrun, hout⟩

/-- The parser ends when called, and finds the matches of the routes that are `Chosen`. -/
def Searches (rules : Rules) (p : Parser) (d : Tally) (r : Reader) (s : Session)
    (Chosen : List Match → Prop) (node : List Match → Option Node) : Prop :=
  ∃ found, p.Results rules d r s found ∧ Selects Chosen node r found

theorem Searches.congr {d : Tally} {r : Reader} {s : Session} {Chosen Chosen' : List Match → Prop}
    {node : List Match → Option Node} (h : p.Searches rules d r s Chosen node)
    (hchosen : ∀ ms, Chosen ms ↔ Chosen' ms) : p.Searches rules d r s Chosen' node := by
  obtain ⟨found, hfound, hselects⟩ := h
  exact ⟨found, hfound, hselects.congr hchosen fun _ => rfl⟩

/-- The matches of a sequence are those of the routes that lead through as many parts as it accepts. -/
theorem selects_ofParts (finds : List (Reader → Matches)) (accepts : Nat → Bool) (build : Builder)
    (r : Reader) :
    Selects (fun ms => ∃ k ≤ finds.length, accepts k = true ∧ Route (finds.take k) r ms)
      (fun ms => build (nodesOn ms)) r
      ((Search.ofParts finds accepts).found (fun _ => build) (finds.length + 1) r) := by
  refine (Search.selects_found _ _ _ r fun ms hms => ?_).congr (fun ms => Search.leads_ofParts)
    fun _ => rfl
  obtain ⟨k, hk, -, hroute⟩ := Search.leads_ofParts.mp hms
  rw [hroute.length_eq, List.length_take]
  omega

theorem forall₂_getElem? {α β : Type} {R : α → β → Prop} {as : List α} {bs : List β}
    (h : List.Forall₂ R as bs) {k : Nat} {a : α} {b : β} (ha : as[k]? = some a)
    (hb : bs[k]? = some b) : R a b := by
  obtain ⟨hk, rfl⟩ := List.getElem?_eq_some_iff.mp ha
  obtain ⟨hk', rfl⟩ := List.getElem?_eq_some_iff.mp hb
  exact h.get hk hk'

theorem sequence_searches (hpure : List.Forall₂ (Pure rules) parts finds)
    (hkeeps : ∀ p ∈ parts, p.RemembersNothing rules) (build : Builder) (accepts : Nat → Bool)
    (key : Key) (label : Option String) (r : Reader) {s : Session}
    (hs : ∀ id offset, s.memo.known id offset = ∅) :
    (sequence key label build accepts some parts).Searches rules .zero r s
      (fun ms => ∃ k ≤ parts.length, accepts k = true ∧ Route (finds.take k) r ms)
      (fun ms => build (nodesOn ms)) := by
  have hlen := hpure.length_eq
  set found : Key → Reader → Matches := fun _ r =>
    (Search.ofParts finds accepts).found (fun _ => build) (finds.length + 1) r
  have hcall : ∀ {s₀ : Session} {k : Nat} {d : Tally} {r' : Reader} {p : Parser}
      {find : Reader → Matches}, parts[k]? = some p → finds[k]? = some find → True →
      p.Gives rules (Session.Tabled s₀ (· = r) found) d r' (find r') := by
    intro s₀ k d r' p find hp hfind _
    exact (forall₂_getElem? hpure hp hfind).gives_tabled (hkeeps p (List.mem_of_getElem? hp)) d r'
  have hsettled : Settled (· = r) (found key) := by
    rintro _ _ rfl rfl - m hm
    exact ⟨m, hm, rfl⟩
  have hgives : (sequence key label build accepts some parts).Gives rules
      (Session.Tabled s (· = r) found) .zero r (found key r) :=
    sequence_gives (fun _ _ _ => True) hlen hcall (fun _ _ _ => trivial) hsettled rfl
      (fun _ => Nat.zero_le _) (fun _ => trivial) rfl label
  refine ⟨_, hgives.results (Session.tabled_of_nothing hs), ?_⟩
  rw [hlen]
  exact selects_ofParts finds accepts build r

theorem assembleParts_eq_ok (hparts : parts ≠ []) (label : Option String) (build : Builder)
    (least : Nat) (w : Draft.Workshop) : ∃ w', Draft.assembleParts label build least parts w = .ok
      (sequence ⟨w.nextNumber⟩ label build (Draft.between least parts.length) some parts, w') := by
  refine ⟨{ w with nextNumber := w.nextNumber + 1 }, ?_⟩
  have hnot : parts.isEmpty = false := by simpa using hparts
  simp [Draft.assembleParts, hnot, Draft.assembleSequence, Draft.freshNumber, Except.map]

/-- **What a sequence finds.** Called with nothing remembered and no depths, a sequence of pure parts
that remember nothing ends. Its matches are those of the routes through as many of its parts as it
accepts; the match kept for an end is built from the nodes on the first route that has this end. A
sequence that takes all its parts finds the routes through all of them, one that also takes fewer the
routes through at least one. -/
theorem sequence_selects (hpure : List.Forall₂ (Pure rules) parts finds)
    (hkeeps : ∀ p ∈ parts, p.RemembersNothing rules) (build : Builder) (r : Reader) {s : Session}
    (hs : ∀ id offset, s.memo.known id offset = ∅) :
    (∀ key label accepts, (sequence key label build accepts some parts).Searches rules .zero r s
        (fun ms => ∃ k ≤ parts.length, accepts k = true ∧ Route (finds.take k) r ms)
        fun ms => build (nodesOn ms)) ∧
      (parts ≠ [] → ∀ label w, ∃ p w',
        Draft.assembleParts label build parts.length parts w = .ok (p, w') ∧
          p.Searches rules .zero r s (Route finds r) fun ms => build (nodesOn ms)) ∧
      (parts ≠ [] → ∀ label w, ∃ p w', Draft.assembleParts label build 1 parts w = .ok (p, w') ∧
        p.Searches rules .zero r s
          (fun ms => ∃ k, 1 ≤ k ∧ k ≤ parts.length ∧ Route (finds.take k) r ms)
          fun ms => build (nodesOn ms)) := by
  have hsearches := fun key label accepts =>
    sequence_searches hpure hkeeps build accepts key label r hs
  refine ⟨hsearches, fun hne label w => ?_, fun hne label w => ?_⟩
  · obtain ⟨w', hw⟩ := assembleParts_eq_ok hne label build parts.length w
    exact ⟨_, w', hw, (hsearches _ _ _).congr fun ms => route_between_iff hpure.length_eq⟩
  · obtain ⟨w', hw⟩ := assembleParts_eq_ok hne label build 1 w
    refine ⟨_, w', hw, (hsearches _ _ _).congr fun ms => ?_⟩
    simp only [Draft.between, Bool.and_eq_true, decide_eq_true_eq]
    constructor
    · rintro ⟨k, hk, ⟨hge, -⟩, hroute⟩
      exact ⟨k, hge, hk, hroute⟩
    · rintro ⟨k, hge, hk, hroute⟩
      exact ⟨k, hk, ⟨hge, hk⟩, hroute⟩

/-- A step of one character and a step of two, each with a node, where there is text left for it. -/
def strides (r : Reader) : Outcome :=
  ⟨.ofList _ (([1, 2].filter fun n => decide (r.cursor.offset < (r.skip n).cursor.offset)).map fun n =>
    ⟨some (.leaf "STRIDE" .nil r.cursor (r.skip n).cursor), r.skip n⟩), none, ∅⟩

/-- A leaf that matches in several ways. -/
def striding : Parser := .leaf ⟨"stride", fun _ r s => (strides r, s)⟩

theorem pure_striding : striding.Pure rules fun r => (strides r).results :=
  pure_leaf fun _ _ _ => rfl

theorem remembersNothing_striding : striding.RemembersNothing rules :=
  remembersNothing_leaf fun _ _ _ => rfl

theorem mem_strides {r : Reader} {m : Match} (hm : m ∈ (strides r).results.items) :
    (∃ n, m.reader = r.skip n) ∧ r.cursor.offset < m.stopOffset ∧
      m.node = some (.leaf "STRIDE" .nil r.cursor m.stop) := by
  obtain ⟨n, hn, rfl⟩ := List.mem_map.mp (Ascending.mem_of_mem_ofList hm)
  exact ⟨⟨n, rfl⟩, of_decide_eq_true (List.mem_filter.mp hn).2, rfl⟩

theorem past_of_mem_strides {r : Reader} {m : Match} (hm : m ∈ (strides r).results.items) :
    r.Past m.reader := by
  obtain ⟨⟨n, hn⟩, hlt, -⟩ := mem_strides hm
  exact ⟨hn ▸ r.ahead_skip n, hlt⟩

theorem striding_pair_selects :
    (List.Forall₂ (Pure .empty) [striding, .terminal .empty, striding]
          [fun r => (strides r).results, fun r => (Terminal.empty.read r).results,
            fun r => (strides r).results] ∧
        ∀ p ∈ [striding, .terminal .empty, striding], p.RemembersNothing .empty) ∧
      ∃ p w', Draft.assembleParts none (.group "PAIR" none) 1 [striding, .terminal .empty, striding]
          ⟨0, .empty⟩ = .ok (p, w') ∧
        p.Searches .empty .zero (Reader.ofText "abcd" false) .fresh
          (fun ms => ∃ k, 1 ≤ k ∧ k ≤ 3 ∧ Route ([fun r => (strides r).results,
            fun r => (Terminal.empty.read r).results, fun r => (strides r).results].take k)
            (Reader.ofText "abcd" false) ms)
          fun ms => Builder.group "PAIR" none (nodesOn ms) := by
  have hpure : List.Forall₂ (Pure .empty) [striding, .terminal .empty, striding]
      [fun r => (strides r).results, fun r => (Terminal.empty.read r).results,
        fun r => (strides r).results] :=
    .cons pure_striding (.cons (pure_terminal _) (.cons pure_striding .nil))
  have hkeeps : ∀ p ∈ [striding, .terminal .empty, striding], p.RemembersNothing .empty := by
    intro p hp
    simp only [List.mem_cons, List.not_mem_nil, or_false] at hp
    rcases hp with rfl | rfl | rfl
    · exact remembersNothing_striding
    · exact remembersNothing_terminal _
    · exact remembersNothing_striding
  exact ⟨⟨hpure, hkeeps⟩,
    (sequence_selects hpure hkeeps _ _ fun _ _ => rfl).2.2 (by simp) none _⟩

/-- **What a repetition finds.** If its pure part reads on every time, a repetition ends wherever it is
called. Its matches are those of the routes of as many repetitions as its bounds allow that are as long
as possible: the bound is reached, or the part does not match any more. The match kept for an end is
built from the nodes on the first such route; a route of no repetitions has no node. -/
theorem repetition_selects (hp : p.Pure rules find)
    (hpast : ∀ r, ∀ m ∈ (find r).items, r.Past m.reader) (b : Run.Bounds) (d : Tally) (r : Reader)
    (s : Session) :
    (repetition b p).Searches rules d r s
      (fun ms => ∃ k, Route (List.replicate k find) r ms ∧ b.least ≤ k ∧
        (∀ most, b.most = some most → k ≤ most) ∧
        (b.most = some k ∨ (find (readerAfter r ms)).items = []))
      fun ms => if ms = [] then none else b.build (nodesOn ms) := by
  have hcall : ∀ {d r}, True → p.Gives rules (fun _ => True) d r (find r) :=
    fun {d r} _ => hp.gives d r
  have hgives : (repetition b p).Gives rules (fun _ => True) d r
      ((Search.ofLaps b find).found b.nodeOf (r.remaining + 1) r) :=
    repetition_gives (fun _ => trivial) (fun _ _ => True) hcall
      (fun {_ r m} _ hm => ⟨hpast r m hm, trivial⟩) trivial b
  refine ⟨_, hgives.results trivial, ?_⟩
  refine (Search.selects_found _ _ _ r fun ms hms => ?_).congr (fun ms => Search.leads_ofLaps)
    fun ms => ?_
  · obtain ⟨k, hroute, -⟩ := Search.leads_ofLaps.mp hms
    have hadvances : ∀ f ∈ List.replicate k find, Advances (fun _ => True) f := by
      intro f hf
      rw [List.eq_of_mem_replicate hf]
      exact ⟨fun _ => hpast _ _, fun _ _ => trivial⟩
    have hlen := (hroute.advances hadvances trivial).2
    omega
  · cases ms <;> rfl

theorem striding_walk_selects :
    ((striding.Pure .empty fun r => (strides r).results) ∧
        ∀ r, ∀ m ∈ (strides r).results.items, r.Past m.reader) ∧
      (repetition ⟨1, some 3, .group "WALK" none⟩ striding).Searches .empty .zero
        (Reader.ofText "abcd" false) .fresh
        (fun ms => ∃ k, Route (List.replicate k fun r => (strides r).results)
            (Reader.ofText "abcd" false) ms ∧ 1 ≤ k ∧ (∀ most, some 3 = some most → k ≤ most) ∧
          (some 3 = some k ∨
            (strides (readerAfter (Reader.ofText "abcd" false) ms)).results.items = []))
        fun ms => if ms = [] then none else Builder.group "WALK" none (nodesOn ms) :=
  ⟨⟨pure_striding, fun _ _ => past_of_mem_strides⟩,
    repetition_selects pure_striding (fun _ _ => past_of_mem_strides) _ _ _ _⟩

end Parser

end Curtail
