import JsonSelection.Json.Parser
import JsonSelection.Json.Printer

/-!
# JSON strings are read back

A text that is written as a JSON string is read back from there, whatever
follows (`JsonString.read_quoted`). So two texts in quotes are told apart
although other text follows them (`Json.quoted_cancel`).

A character is written in one of three ways (`JsonString.quotedChar_cases`): as
a letter after a backslash, as a unit of four digits, or as it is. Control
characters are the only ones that are written as units, so no written unit is a
surrogate.
-/

set_option autoImplicit false

namespace JsonSelection

namespace JsonString

/-- A unit escape that is no surrogate stands for its character. -/
theorem read_unit {a b c d : Char} {unit : Nat} (hunit : Text.hexUnit? a b c d = some unit)
    (hsurrogate : isHighSurrogate unit = false) {tail cs after : List Char}
    (h : read tail = .ok (cs, after)) :
    read ('\\' :: 'u' :: a :: b :: c :: d :: tail) = .ok (unitChar unit :: cs, after) := by
  cases tail with
  | nil => cases h
  | cons next rest =>
      unfold read
      split <;> grind

/-- The control characters are written as units. -/
theorem hexUnit?_hex {n : Nat} (h : n < 32) :
    ∃ a b c d, Text.hex 4 n = [a, b, c, d] ∧ Text.hexUnit? a b c d = some n := by
  have hall : ∀ k : Fin 32, ∃ a b c d, Text.hex 4 k = [a, b, c, d] ∧
      Text.hexUnit? a b c d = some k.val := by
    intro k
    refine ⟨_, _, _, _, rfl, ?_⟩
    revert k
    decide
  exact hall ⟨n, h⟩

/-- A character is written as a letter after a backslash, as a unit, or as it is. -/
theorem quotedChar_cases (c : Char) :
    (∃ letter, Json.quotedChar c = ['\\', letter] ∧ letter ≠ 'u' ∧
      plainEscape? letter = some c) ∨
      (c.toNat < 32 ∧ Json.quotedChar c = '\\' :: 'u' :: Text.hex 4 c.toNat) ∨
      (¬ c.toNat < 32 ∧ c ≠ '"' ∧ c ≠ '\\' ∧ Json.quotedChar c = [c]) := by
  -- the escapes with a letter are seven
  by_cases hletter : c ∈ ['"', '\\', '\n', '\r', '\t', '\x08', '\x0c']
  · left
    revert hletter
    revert c
    simp only [List.mem_cons, List.not_mem_nil, or_false]
    rintro c (rfl | rfl | rfl | rfl | rfl | rfl | rfl) <;> exact ⟨_, rfl, by decide, rfl⟩
  · right
    simp only [List.mem_cons, List.not_mem_nil, or_false, not_or] at hletter
    obtain ⟨hquote, hescape, hn, hr, ht, hb, hf⟩ := hletter
    by_cases hcontrol : c.toNat < 32
    · left
      refine ⟨hcontrol, ?_⟩
      simp only [Json.quotedChar, hquote, hescape, hn, hr, ht, hb, hf, if_false]
      exact if_pos hcontrol
    · right
      refine ⟨hcontrol, hquote, hescape, ?_⟩
      simp only [Json.quotedChar, hquote, hescape, hn, hr, ht, hb, hf, if_false]
      exact if_neg hcontrol

/-- A written character is read back. -/
theorem read_quotedChar (c : Char) {tail cs after : List Char} (h : read tail = .ok (cs, after)) :
    read (Json.quotedChar c ++ tail) = .ok (c :: cs, after) := by
  rcases quotedChar_cases c with ⟨letter, heq, hletter, hplain⟩ | ⟨hcontrol, heq⟩ |
    ⟨hcontrol, hquote, hescape, heq⟩
  · rw [heq]
    simp [read, hletter, hplain, h]
  · obtain ⟨a, b, d, e, hhex, hunit⟩ := hexUnit?_hex hcontrol
    -- a control character is far below the surrogates, so its unit stands alone
    have hsurrogate : isHighSurrogate c.toNat = false := by
      simp only [isHighSurrogate, Bool.and_eq_false_iff, decide_eq_false_iff_not]
      omega
    have hlow : isLowSurrogate c.toNat = false := by
      simp only [isLowSurrogate, Bool.and_eq_false_iff, decide_eq_false_iff_not]
      omega
    have hchar : unitChar c.toNat = c := by
      simp [unitChar, hsurrogate, hlow]
    rw [heq, hhex, ← hchar]
    exact read_unit hunit hsurrogate h
  · rw [heq]
    simp [read, h, hescape, hcontrol]

/-- A text in quotes is read back up to the closing quote. -/
theorem read_quoted (cs rest : List Char) :
    read (cs.flatMap Json.quotedChar ++ '"' :: rest) = .ok (cs, rest) := by
  induction cs with
  | nil => simp [read]
  | cons c others ih =>
      rw [List.flatMap_cons, List.append_assoc]
      exact read_quotedChar c ih

end JsonString

namespace Json

/-- Two texts in quotes that begin the same text are the same, and so is what
follows them. -/
theorem quoted_cancel {text other : String} {rest rest' : List Char}
    (h : (quoted text).toList ++ rest = (quoted other).toList ++ rest') :
    text = other ∧ rest = rest' := by
  simp only [quoted, String.toList_ofList, List.cons_append, List.append_assoc,
    List.nil_append] at h
  have hread := JsonString.read_quoted text.toList rest
  rw [(List.cons.inj h).2, JsonString.read_quoted] at hread
  obtain ⟨htext, hrest⟩ := Prod.mk.inj (Except.ok.inj hread)
  exact ⟨String.toList_inj.mp htext.symm, hrest.symm⟩

end Json

end JsonSelection
