/-
# Which match a parse selects

A parse selects the match that reaches the end of the text. Matches that go
ahead cannot reach it at two places, so there is at most one. If there is none
the parse ends in a fault.

Key definitions: `Grammar.fault?`.
Key theorems: `Grammar.select_of_find?`, `Grammar.mem_of_select`, `Grammar.select_eq_ok`.
-/
import Curtail.Grammar
import Curtail.Proofs.Reading

namespace Curtail

namespace Reader

theorem atEnd_iff {r : Reader} : r.atEnd = true ↔ r.source.limit ≤ r.cursor.offset := by
  rw [atEnd, beq_iff_eq]
  exact Nat.sub_eq_zero_iff_le

/-- Readers ahead of one reader reach the end of the text at the same offset. -/
theorem Ahead.offset_eq_of_atEnd {r r' r'' : Reader} (h' : r.Ahead r') (h'' : r.Ahead r'')
    (hend' : r'.atEnd = true) (hend'' : r''.atEnd = true) :
    r'.cursor.offset = r''.cursor.offset := by
  rw [atEnd_iff] at hend' hend''
  rw [h'.source] at hend'
  rw [h''.source] at hend''
  have hle' := h'.le
  have hle'' := h''.le
  by_cases hlt' : r.cursor.offset < r'.cursor.offset
  · have hinside' := h'.inside hlt'
    by_cases hlt'' : r.cursor.offset < r''.cursor.offset
    · have hinside'' := h''.inside hlt''
      omega
    · omega
  · by_cases hlt'' : r.cursor.offset < r''.cursor.offset
    · have hinside'' := h''.inside hlt''
      omega
    · omega

end Reader

namespace Grammar

/-- The fault of a parse or an evaluation that did not succeed. -/
def fault? {α : Type} : Except Fault α → Option Fault
  | .ok _ => none
  | .error f => some f

theorem fault?_eq_some {α : Type} {result : Except Fault α} {f : Fault} :
    fault? result = some f ↔ result = .error f := by
  cases result <;> simp [fault?]

variable {name : String} {r : Reader} {out : Outcome} {m : Match}

theorem last?_eq_some_of_find? {p : Match → Bool} (h : out.results.items.find? p = some m) :
    ∃ last, out.results.last? = some last := by
  cases hlast : out.results.last? with
  | some last => exact ⟨last, rfl⟩
  | none =>
    rw [Ascending.last?, List.getLast?_eq_none_iff] at hlast
    rw [hlast] at h
    cases h

/-- The first match that reaches the end is selected. -/
theorem select_of_find? (h : out.results.items.find? (·.reader.atEnd) = some m) :
    select name r out = .ok m := by
  obtain ⟨last, hlast⟩ := last?_eq_some_of_find? h
  simp only [select, hlast, h]

/-- Without a match that reaches the end, the token after the last match is to blame, or a fault
further on. -/
theorem select_of_last? {last : Match} (hlast : out.results.last? = some last)
    (h : out.results.items.find? (·.reader.atEnd) = none) :
    select name r out = .error ((Fault.furthest (some (.trailing last.reader.token.cursor))
      out.fault).getD (.trailing last.reader.token.cursor)) := by
  simp only [select, hlast, h]

theorem select_of_empty (h : out.results.last? = none) :
    select name r out = .error (out.fault.getD (.expecting r.token.cursor name)) := by
  simp only [select, h]

theorem mem_of_select (h : select name r out = .ok m) :
    m ∈ out.results.items ∧ m.reader.atEnd = true := by
  unfold select at h
  split at h
  · cases h
  · split at h
    · rename_i hfind
      rw [Except.ok.inj h] at hfind
      exact ⟨List.mem_of_find?_eq_some hfind, by simpa using List.find?_some hfind⟩
    · cases h

/-- A match that reaches the end of the text is selected. -/
theorem select_eq_ok (hm : m ∈ out.results.items) (hend : m.reader.atEnd = true)
    (hahead : ∀ x ∈ out.results.items, r.Ahead x.reader) : select name r out = .ok m := by
  have hsome : (out.results.items.find? (·.reader.atEnd)).isSome = true :=
    List.find?_isSome.mpr ⟨m, hm, hend⟩
  obtain ⟨m', hfind⟩ := Option.isSome_iff_exists.mp hsome
  have hm' := List.mem_of_find?_eq_some hfind
  have hend' : m'.reader.atEnd = true := by simpa using List.find?_some hfind
  have hsame := (hahead m' hm').offset_eq_of_atEnd (hahead m hm) hend' hend
  rw [select_of_find? hfind, Ascending.eq_of_key_eq hm' hm hsame]

theorem select_nil (name : String) (r : Reader) (h : out.results.items = []) :
    ∃ f, select name r out = .error f := by
  have hlast : out.results.last? = none := by rw [Ascending.last?, h]; rfl
  exact ⟨_, select_of_empty hlast⟩

theorem select_singleton (h : out.results.items = [m]) (hend : m.reader.atEnd = true) :
    select name r out = .ok m := by
  refine select_of_find? ?_
  rw [h]
  exact List.find?_cons_of_pos hend

end Grammar

end Curtail
