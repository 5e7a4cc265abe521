/-
# True places

A reader holds a position with line and column, while a memo files matches by
offset alone. The two fit together as long as readers stand at places of the
text: where the text before them leads when it is read from the start. At such
places an offset settles the whole position, hence the reader, and reading
leads from such a place to another.

Key definitions: `Reader.Placed`.
Key theorems: `Reader.Placed.ext_offset`, `Reader.Placed.skip`,
`Reader.placed_ofText`.
-/
import Curtail.Proofs.Reading

namespace Curtail

open Text

/-! ### Leading parts of a text -/

/-- Two leading parts of a text that take equally many bytes are the same. -/
theorem eq_of_byteLength_eq : ∀ {xs xs' ys ys' : List Char}, xs ++ ys = xs' ++ ys' →
    byteLength xs = byteLength xs' → xs = xs'
  | [], [], _, _, _, _ => rfl
  | [], c :: xs', _, _, _, hlen => by
    have := c.utf8Size_pos
    simp only [byteLength] at hlen
    omega
  | c :: xs, [], _, _, _, hlen => by
    have := c.utf8Size_pos
    simp only [byteLength] at hlen
    omega
  | c :: xs, c' :: xs', ys, ys', h, hlen => by
    simp only [List.cons_append, List.cons.injEq] at h
    obtain ⟨rfl, h⟩ := h
    simp only [byteLength] at hlen
    rw [eq_of_byteLength_eq h (by omega)]

theorem trimEnd_prefix (cs : List Char) : trimEnd cs <+: cs := by
  rw [← List.reverse_suffix, trimEnd, List.reverse_reverse]
  exact List.dropWhile_suffix _

namespace Source

/-- What can be read is a leading part of the text. -/
theorem readable_prefix (s : Source) : s.readable <+: s.text.toList := by
  rw [s.readable_eq, readablePart]
  split
  · exact trimEnd_prefix _
  · exact List.prefix_rfl

end Source

namespace Reader

/-- Where something can be read, it comes in the text right after the bytes passed, with perhaps
more text behind it. -/
theorem exists_text_eq {r : Reader} (h : r.rest ≠ []) : ∃ before trailing,
    r.source.text.toList = before ++ (r.rest ++ trailing) ∧ byteLength before = r.cursor.offset := by
  obtain ⟨before, hsplit, hlen⟩ := exists_readable_eq h
  obtain ⟨trailing, htrailing⟩ := r.source.readable_prefix
  exact ⟨before, trailing, by rw [← htrailing, hsplit, List.append_assoc], hlen⟩

/-- The reader stands where the text before it leads. -/
def Placed (r : Reader) : Prop :=
  ∃ before after, r.source.text.toList = before ++ after ∧
    r.cursor = Position.start.advanceAll before

/-- At true places of one text an offset settles the reader. -/
theorem Placed.ext_offset {r r' : Reader} (h : r.Placed) (h' : r'.Placed)
    (hs : r.source = r'.source) (ho : r.cursor.offset = r'.cursor.offset) : r = r' := by
  obtain ⟨before, after, htext, hcursor⟩ := h
  obtain ⟨before', after', htext', hcursor'⟩ := h'
  rw [hs] at htext
  rw [hcursor, hcursor', offset_advanceAll, offset_advanceAll] at ho
  have hbefore := eq_of_byteLength_eq (htext.symm.trans htext') (by omega)
  exact ext_cursor hs (by rw [hcursor, hcursor', hbefore])

/-- Reading leads from a true place to a true place. -/
theorem Placed.skip {r : Reader} (h : r.Placed) (n : Nat) : (r.skip n).Placed := by
  by_cases hne : r.rest = []
  · rwa [skip_of_rest_eq_nil hne]
  · obtain ⟨before, after, htext, hcursor⟩ := h
    obtain ⟨passed, trailing, hrest, hlen⟩ := exists_text_eq hne
    have hbefore : before = passed := by
      refine eq_of_byteLength_eq (htext.symm.trans hrest) ?_
      rw [hlen, hcursor, offset_advanceAll]
      exact (Nat.zero_add _).symm
    refine ⟨before ++ r.rest.take n, r.rest.drop n ++ trailing, ?_, ?_⟩
    · rw [source_skip, hrest, hbefore, List.append_assoc]
      congr 1
      rw [← List.append_assoc, List.take_append_drop]
    · show r.cursor.advanceAll (r.rest.take n) = _
      rw [hcursor]
      exact (List.foldl_append ..).symm

theorem Placed.token {r : Reader} (h : r.Placed) : r.token.Placed := by
  obtain ⟨n, hn⟩ := r.exists_token_eq_skip
  rw [hn]
  exact h.skip n

/-- A text is read from a true place on. -/
theorem placed_ofText (text : String) (skipsBlanks : Bool) : (ofText text skipsBlanks).Placed :=
  Placed.token ⟨[], text.toList, rfl, rfl⟩

end Reader

/-- Terminals lead from a true place to a true place. -/
theorem Terminal.placed_of_mem_read (t : Terminal) {r : Reader} (hr : r.Placed) {m : Match}
    (h : m ∈ (t.read r).results.items) : m.reader.Placed := by
  obtain ⟨n, hn⟩ := t.skip_of_mem_read h
  rw [hn]
  exact hr.skip n

end Curtail
