/-!
# Pieces of texts

A text is cut before the first character of a kind, or into the pieces between
separators. Both ways lose nothing but the separators, and both are told by what
they give.

- `Text.splitBefore`: the two parts. `splitBefore_eq_iff` says which two parts
  they are, and `splitBefore_mark_iff` the same for a single mark. A text is cut
  at its first mark or has none (`splitBefore_mark_cases`).
- `Text.pieces`: the pieces. `pieces_spec` and `pieces_intercalate` say that
  they are the texts without separators that make the text again with separators
  between them.

A text without separators is one piece, and the empty text is one empty piece.
-/

set_option autoImplicit false

namespace JsonSelection

namespace Text

/-- The text before the first character of a kind, and the text from it on. -/
def splitBefore (stops : Char → Bool) (cs : List Char) : List Char × List Char :=
  (cs.takeWhile fun c => !stops c, cs.dropWhile fun c => !stops c)

/-- The two parts are those of which the first one has no character of the kind
and the second one, if it is not empty, starts with one. -/
theorem splitBefore_eq_iff {stops : Char → Bool} {cs front back : List Char} :
    splitBefore stops cs = (front, back) ↔
      cs = front ++ back ∧ (∀ c ∈ front, stops c = false) ∧
        ∀ c rest, back = c :: rest → stops c = true := by
  rw [splitBefore, Prod.mk.injEq]
  constructor
  · rintro ⟨rfl, rfl⟩
    refine ⟨List.takeWhile_append_dropWhile.symm, fun c hc => ?_, fun c rest hrest => ?_⟩
    · simpa using List.all_eq_true.mp List.all_takeWhile c hc
    -- what is left starts where the first stop stands
    · have hhead := List.head?_dropWhile_not (fun c => !stops c) cs
      rw [hrest] at hhead
      simpa using hhead
  · rintro ⟨rfl, hfront, hback⟩
    have hall : ∀ c ∈ front, (!stops c) = true := fun c hc => by simp [hfront c hc]
    rw [List.takeWhile_append_of_pos hall, List.dropWhile_append_of_pos hall]
    cases back with
    | nil => exact ⟨List.append_nil front, rfl⟩
    | cons c rest =>
        have hc := hback c rest rfl
        constructor
        · rw [List.takeWhile_cons_of_neg (by simp [hc]), List.append_nil]
        · rw [List.dropWhile_cons_of_neg (by simp [hc])]

/-- Cut before a mark, the first part is without it and the second one starts
with it, if it is not empty. -/
theorem splitBefore_mark_iff {mark : Char} {cs front back : List Char} :
    splitBefore (· == mark) cs = (front, back) ↔
      cs = front ++ back ∧ mark ∉ front ∧ ∀ c rest, back = c :: rest → c = mark := by
  rw [splitBefore_eq_iff]
  refine and_congr_right fun _ => and_congr ?_ ?_
  · constructor
    · intro h hmem
      have hne := h mark hmem
      rw [beq_self_eq_true] at hne
      cases hne
    · intro h c hc
      rw [beq_eq_false_iff_ne]
      rintro rfl
      exact h hc
  · exact forall_congr' fun c => forall_congr' fun rest => imp_congr_right fun _ => beq_iff_eq

/-- A text is cut at the mark that follows a text without it. -/
theorem splitBefore_mark {mark : Char} {front : List Char} (h : mark ∉ front)
    (rest : List Char) :
    splitBefore (· == mark) (front ++ mark :: rest) = (front, mark :: rest) :=
  splitBefore_mark_iff.mpr ⟨rfl, h, fun _ _ heq => (List.cons.inj heq).1.symm⟩

/-- A text without the mark is not cut. -/
theorem splitBefore_of_not_mem {mark : Char} {cs : List Char} (h : mark ∉ cs) :
    splitBefore (· == mark) cs = (cs, []) :=
  splitBefore_mark_iff.mpr ⟨(List.append_nil cs).symm, h, nofun⟩

/-- A text has no mark, or it is cut at the first one. -/
theorem splitBefore_mark_cases (mark : Char) (cs : List Char) :
    (mark ∉ cs ∧ splitBefore (· == mark) cs = (cs, [])) ∨
      ∃ front rest, mark ∉ front ∧ cs = front ++ mark :: rest ∧
        splitBefore (· == mark) cs = (front, mark :: rest) := by
  by_cases h : mark ∈ cs
  · obtain ⟨front, rest, rfl, hfront⟩ := List.eq_append_cons_of_mem h
    exact Or.inr ⟨front, rest, hfront, rfl, splitBefore_mark hfront rest⟩
  · exact Or.inl ⟨h, splitBefore_of_not_mem h⟩

/-- The pieces of a text between separators; a text without separators is one
piece. -/
def pieces (separator : Char) : List Char → List (List Char)
  | [] => [[]]
  | c :: rest =>
      if c = separator then [] :: pieces separator rest
      else
        match pieces separator rest with
        | [] => [[c]]
        | piece :: others => (c :: piece) :: others

/-- A text without separators is one piece. -/
theorem pieces_of_not_mem {separator : Char} {piece : List Char} (h : separator ∉ piece) :
    pieces separator piece = [piece] := by
  induction piece with
  | nil => rfl
  | cons c rest ih =>
      obtain ⟨hc, hrest⟩ := not_or.mp (mt List.mem_cons.mpr h)
      rw [pieces, if_neg (Ne.symm hc), ih hrest]

/-- The first piece goes up to the first separator. -/
theorem pieces_append {separator : Char} {piece : List Char} (h : separator ∉ piece)
    (rest : List Char) :
    pieces separator (piece ++ separator :: rest) = piece :: pieces separator rest := by
  induction piece with
  | nil => rw [List.nil_append, pieces, if_pos rfl]
  | cons c others ih =>
      obtain ⟨hc, hothers⟩ := not_or.mp (mt List.mem_cons.mpr h)
      rw [List.cons_append, pieces, if_neg (Ne.symm hc), ih hothers]

/-- The pieces are at least one, no separator stands in them, and with
separators between them they make the text again. -/
theorem pieces_spec (separator : Char) (cs : List Char) :
    pieces separator cs ≠ [] ∧ (∀ piece ∈ pieces separator cs, separator ∉ piece) ∧
      [separator].intercalate (pieces separator cs) = cs := by
  induction cs with
  | nil => simp [pieces]
  | cons c rest ih =>
      obtain ⟨hne, hapart, hjoin⟩ := ih
      obtain ⟨piece, others, hpieces⟩ := List.exists_cons_of_ne_nil hne
      rw [hpieces] at hapart hjoin
      rw [pieces, hpieces]
      obtain ⟨hpiece, hothers⟩ := List.forall_mem_cons.mp hapart
      -- a separator starts a new piece, and another character goes to the first one
      split
      · next hc =>
          subst hc
          refine ⟨List.cons_ne_nil _ _, List.forall_mem_cons.mpr ⟨List.not_mem_nil, hapart⟩,
            ?_⟩
          rw [List.intercalate_cons_cons, hjoin, List.nil_append, List.singleton_append]
      · next hc =>
          have hfirst : separator ∉ c :: piece :=
            List.not_mem_cons_of_ne_of_not_mem (Ne.symm hc) hpiece
          refine ⟨List.cons_ne_nil _ _, List.forall_mem_cons.mpr ⟨hfirst, hothers⟩, ?_⟩
          cases others with
          | nil => rw [List.intercalate_singleton, ← hjoin, List.intercalate_singleton]
          | cons next more =>
              rw [List.intercalate_cons_cons] at hjoin ⊢
              rw [← hjoin]
              rfl

/-- Pieces without separators are the pieces of the text that they make with
separators between them. -/
theorem pieces_intercalate {separator : Char} {parts : List (List Char)} (hne : parts ≠ [])
    (h : ∀ part ∈ parts, separator ∉ part) :
    pieces separator ([separator].intercalate parts) = parts := by
  induction parts with
  | nil => exact absurd rfl hne
  | cons part others ih =>
      obtain ⟨hpart, hothers⟩ := List.forall_mem_cons.mp h
      cases others with
      | nil => rw [List.intercalate_singleton, pieces_of_not_mem hpart]
      | cons next more =>
          rw [List.intercalate_cons_cons, List.append_assoc, List.singleton_append,
            pieces_append hpart, ih (List.cons_ne_nil next more) hothers]

end Text

end JsonSelection
