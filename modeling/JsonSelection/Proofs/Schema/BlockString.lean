import JsonSelection.Schema.Definition

/-!
# Descriptions as block strings

A block string is read from its opening fence of three quotes up to the first
fence that no backslash escapes. A description is written as a block string,
with the fences in its text escaped.

## What this module delivers

- `Definition.closing?`: what follows the fence that closes a block string.
- `Definition.closing?_escapeFences`: no fence is left in an escaped text, so
  the description is never closed too early.
- `Definition.exists_inside`: a description opens a block string after its
  indent.
- `Definition.describe_isBlockString_iff`: it is exactly one block string,
  unless it stands on one line and ends in a backslash.

In the last case the backslash escapes the closing fence, and whatever follows
the description is read as a part of it. A final quote is taken care of by the
library: such a text is written on several lines.
-/

set_option autoImplicit false

namespace JsonSelection

namespace Definition

/-! ### Reading block strings

The fence is looked for from the left, and an escaped one is passed over as a
whole. -/

/-- The characters of a fence. -/
def quotes : List Char :=
  ['"', '"', '"']

theorem toList_fence : fence.toList = quotes := by
  decide

/-- What follows the first fence that is not escaped. There is nothing to tell
of a text without such a fence. -/
def closing? : List Char → Option (List Char)
  | '\\' :: '"' :: '"' :: '"' :: rest => closing? rest
  | '"' :: '"' :: '"' :: rest => some rest
  | _ :: rest => closing? rest
  | [] => none

/-- The text is one block string: it starts with a fence, and the first fence
after this one that is not escaped ends it. -/
def IsBlockString (text : List Char) : Prop :=
  ∃ inside, text = quotes ++ inside ∧ closing? inside = some []

theorem closing?_quotes (rest : List Char) : closing? (quotes ++ rest) = some rest :=
  rfl

theorem closing?_escaped (rest : List Char) : closing? ('\\' :: (quotes ++ rest)) = closing? rest :=
  rfl

theorem closing?_newline (rest : List Char) : closing? ('\n' :: rest) = closing? rest :=
  rfl

/-- A character that begins neither a fence nor an escaped one is passed over. -/
theorem closing?_cons {c : Char} {rest : List Char}
    (hfence : ∀ others, c :: rest ≠ quotes ++ others)
    (hescaped : ∀ others, c :: rest ≠ '\\' :: (quotes ++ others)) :
    closing? (c :: rest) = closing? rest := by
  rw [closing?]
  · intro others hc hrest
    exact hescaped others (by rw [hc, hrest]; rfl)
  · intro others hc hrest
    exact hfence others (by rw [hc, hrest]; rfl)

/-- Characters that are neither quotes nor backslashes are passed over. -/
theorem closing?_append {front : List Char}
    (h : ∀ c ∈ front, c ≠ '"' ∧ c ≠ '\\') (rest : List Char) :
    closing? (front ++ rest) = closing? rest := by
  induction front with
  | nil => rfl
  | cons c others ih =>
      obtain ⟨hquote, hbackslash⟩ := h c List.mem_cons_self
      rw [List.cons_append, closing?_cons]
      · exact ih fun d hd => h d (List.mem_cons_of_mem c hd)
      · intro after hafter
        exact hquote (List.cons.inj hafter).1
      · intro after hafter
        exact hbackslash (List.cons.inj hafter).1

/-! ### Escaped texts

A fence can only be found in an escaped text where a fence began in the text
itself, and there a backslash was put. Quotes at the end of a text and quotes
after it could make a fence together, so what follows has to begin with another
character. -/

theorem escapeFences_quotes (rest : List Char) :
    escapeFences (quotes ++ rest) = '\\' :: (quotes ++ escapeFences rest) :=
  rfl

theorem escapeFences_cons {c : Char} {rest : List Char}
    (h : ∀ others, c :: rest ≠ quotes ++ others) :
    escapeFences (c :: rest) = c :: escapeFences rest := by
  rw [escapeFences]
  intro others hc hrest
  exact h others (by rw [hc, hrest]; rfl)

/-- A text is empty, or starts with a fence, or goes on after a character that
begins no fence. -/
theorem escapeFences_cases {motive : List Char → Prop} (hnil : motive [])
    (hquotes : ∀ rest, motive rest → motive (quotes ++ rest))
    (hcons : ∀ c rest, (∀ others, c :: rest ≠ quotes ++ others) → motive rest →
      motive (c :: rest))
    (text : List Char) : motive text := by
  induction text using escapeFences.induct with
  | case1 rest ih => exact hquotes rest ih
  | case2 c rest hother ih =>
      refine hcons c rest ?_ ih
      intro others h
      obtain ⟨hc, hrest⟩ := List.cons.inj h
      exact hother others hc hrest
  | case3 => exact hnil

/-- A quote at the start of an escaped text is one at the start of the text. -/
theorem cons_of_escapeFences {text rest : List Char} (h : escapeFences text = '"' :: rest) :
    ∃ others, text = '"' :: others ∧ escapeFences others = rest := by
  cases text using escapeFences_cases with
  | hnil => cases h
  | hquotes others _ =>
      rw [escapeFences_quotes] at h
      exact absurd (List.cons.inj h).1 (by decide)
  | hcons c others hother _ =>
      rw [escapeFences_cons hother] at h
      obtain ⟨rfl, hrest⟩ := List.cons.inj h
      exact ⟨others, rfl, hrest⟩

/-- No fence stands at the start of an escaped text. -/
theorem escapeFences_ne_quotes (text rest : List Char) : escapeFences text ≠ quotes ++ rest := by
  intro h
  obtain ⟨first, rfl, hfirst⟩ := cons_of_escapeFences h
  obtain ⟨second, rfl, hsecond⟩ := cons_of_escapeFences hfirst
  obtain ⟨third, rfl, -⟩ := cons_of_escapeFences hsecond
  -- the text starts with a fence, so that it starts with a backslash when it is escaped
  rw [show '"' :: '"' :: '"' :: third = quotes ++ third from rfl, escapeFences_quotes] at h
  exact absurd (List.cons.inj h).1 (by decide)

/-- A fence at the start of a text ends before the first character that is no
quote. -/
theorem quotes_of_append {c : Char} (hc : c ≠ '"') {front rest others : List Char}
    (h : front ++ c :: rest = quotes ++ others) : ∃ more, front = quotes ++ more := by
  rcases List.append_eq_append_iff.mp h with ⟨after, hquotes, hrest⟩ | ⟨more, hfront, -⟩
  · cases after with
    | nil => exact ⟨[], by rw [List.append_nil, hquotes, List.append_nil]⟩
    | cons d after =>
        have hmem : c ∈ quotes := by
          rw [hquotes, (List.cons.inj hrest).1]
          exact List.mem_append_right _ List.mem_cons_self
        simp [quotes, hc] at hmem
  · exact ⟨more, hfront⟩

/-- Nor does a fence begin in an escaped text that another character than a
quote follows. -/
theorem escapeFences_append_ne_quotes {c : Char} (hc : c ≠ '"') (text rest others : List Char) :
    escapeFences text ++ c :: rest ≠ quotes ++ others := by
  intro h
  obtain ⟨more, hmore⟩ := quotes_of_append hc h
  exact escapeFences_ne_quotes text more hmore

/-- An escaped text is passed over, if another character than a quote follows. -/
theorem closing?_escapeFences {c : Char} (hc : c ≠ '"') (text rest : List Char) :
    closing? (escapeFences text ++ c :: rest) = closing? (c :: rest) := by
  induction text using escapeFences_cases with
  | hnil => rfl
  | hquotes others ih =>
      rw [escapeFences_quotes, List.cons_append, List.append_assoc, closing?_escaped, ih]
  | hcons d others hother ih =>
      have hescaped := escapeFences_cons hother
      rw [hescaped, List.cons_append, closing?_cons, ih]
      -- the escaped text brings no fence of its own, and none goes on into what follows
      · intro after hafter
        apply escapeFences_append_ne_quotes hc (d :: others) rest after
        rw [hescaped]
        exact hafter
      · intro after hafter
        exact escapeFences_append_ne_quotes hc others rest after (List.cons.inj hafter).2

/-- A text is escaped up to a character that is no quote, and from there on. -/
theorem escapeFences_append {c : Char} (hc : c ≠ '"') (front rest : List Char) :
    escapeFences (front ++ c :: rest) = escapeFences front ++ c :: escapeFences rest := by
  have hfirst : ∀ others, c :: rest ≠ quotes ++ others := fun others h => hc (List.cons.inj h).1
  induction front using escapeFences_cases with
  | hnil => exact escapeFences_cons hfirst
  | hquotes others ih =>
      rw [List.append_assoc, escapeFences_quotes, ih, escapeFences_quotes, List.cons_append,
        List.append_assoc]
  | hcons d others hother ih =>
      rw [List.cons_append, escapeFences_cons, ih, escapeFences_cons hother, List.cons_append]
      intro after hafter
      have hfront : d :: others ++ c :: rest = quotes ++ after := hafter
      obtain ⟨more, hmore⟩ := quotes_of_append hc hfront
      exact hother more hmore

/-- Escaping adds backslashes alone. -/
theorem mem_escapeFences_iff {c : Char} (hc : c ≠ '\\') (text : List Char) :
    c ∈ escapeFences text ↔ c ∈ text := by
  induction text using escapeFences_cases with
  | hnil => exact Iff.rfl
  | hquotes rest ih =>
      rw [escapeFences_quotes, List.mem_cons, List.mem_append, List.mem_append, ih]
      exact or_iff_right hc
  | hcons d rest hother ih => rw [escapeFences_cons hother, List.mem_cons, List.mem_cons, ih]

/-- Escaping leaves the last character as it is. -/
theorem getLast?_escapeFences (text : List Char) :
    (escapeFences text).getLast? = text.getLast? := by
  induction text using escapeFences_cases with
  | hnil => rfl
  | hquotes rest ih =>
      rw [escapeFences_quotes, ← List.cons_append, List.getLast?_append, List.getLast?_append, ih]
      rfl
  | hcons d rest hother ih =>
      rw [escapeFences_cons hother, List.getLast?_cons, List.getLast?_cons, ih]

/-! ### Lines

A text of several lines is written line by line, each behind the indent.
Escaping does not change where lines end. -/

/-- The lines of an escaped text are the lines of the text, each of them escaped. -/
theorem pieces_escapeFences (text : List Char) :
    Text.pieces '\n' (escapeFences text) = (Text.pieces '\n' text).map escapeFences := by
  induction hlength : text.length using Nat.strongRecOn generalizing text with
  | ind length ih =>
      by_cases hmem : '\n' ∈ text
      · -- no fence goes on past the end of the first line
        obtain ⟨front, rest, rfl, hfront⟩ := List.eq_append_cons_of_mem hmem
        have hescaped : '\n' ∉ escapeFences front := by
          rwa [mem_escapeFences_iff (by decide)]
        have hshorter : rest.length < length := by
          rw [← hlength, List.length_append, List.length_cons]
          omega
        rw [escapeFences_append (by decide), Text.pieces_append hescaped, Text.pieces_append hfront,
          List.map_cons, ih rest.length hshorter rest rfl]
      · have hescaped : '\n' ∉ escapeFences text := by
          rwa [mem_escapeFences_iff (by decide)]
        rw [Text.pieces_of_not_mem hescaped, Text.pieces_of_not_mem hmem, List.map_singleton]

theorem toList_lines {lines : List String} (h : lines ≠ []) (line : String) :
    ("\n".intercalate (line :: lines)).toList =
      line.toList ++ '\n' :: ("\n".intercalate lines).toList := by
  rw [String.intercalate_cons_of_ne_nil h]
  simp

section Indent

variable {indent : String} (hindent : ∀ c ∈ indent.toList, c = ' ')

include hindent

theorem closing?_indent (rest : List Char) : closing? (indent.toList ++ rest) = closing? rest := by
  apply closing?_append
  intro c hc
  rw [hindent c hc]
  decide

/-- The lines of an escaped text are passed over, and the fence on the last line
closes the block string. -/
theorem closing?_lines (texts : List (List Char)) (rest : List Char) :
    closing? (("\n".intercalate ((texts.map escapeFences).map (fun line =>
      if line.isEmpty then "" else indent ++ String.ofList line) ++ [indent ++ fence])).toList ++
        rest) =
        some rest := by
  induction texts with
  | nil =>
      rw [List.map_nil, List.map_nil, List.nil_append, String.intercalate_singleton,
        String.toList_append,
        toList_fence, List.append_assoc, closing?_indent hindent, closing?_quotes]
  | cons text others ih =>
      rw [List.map_cons, List.map_cons, List.cons_append,
        toList_lines (List.append_ne_nil_of_right_ne_nil _
        (List.cons_ne_nil _ _)), List.append_assoc, List.cons_append]
      split
      · rw [String.toList_empty, List.nil_append, closing?_newline, ih]
      · rw [String.toList_append, String.toList_ofList, List.append_assoc, closing?_indent hindent,
          closing?_escapeFences (by decide), closing?_newline, ih]

end Indent

/-! ### Descriptions

A text fits on one line when it has no line break and does not end in a quote. -/

theorem isBlockString_iff (inside : List Char) :
    IsBlockString (quotes ++ inside) ↔ closing? inside = some [] := by
  constructor
  · rintro ⟨others, hinside, hclosing⟩
    rwa [List.append_cancel_left hinside]
  · intro hclosing
    exact ⟨inside, rfl, hclosing⟩

theorem fitsOneLine_iff (text : List Char) :
    fitsOneLine (escapeFences text) = true ↔ '\n' ∉ text ∧ text.getLast? ≠ some '"' := by
  rw [fitsOneLine, getLast?_escapeFences]
  simp [mem_escapeFences_iff]

/-- A text that does not end in a quote is closed on the line of its fences,
unless it ends in a backslash. -/
theorem closing?_oneLine {text : List Char} (hne : text ≠ []) (hlast : text.getLast? ≠ some '"')
    (rest : List Char) : closing? (escapeFences text ++ quotes ++ rest) =
      if text.getLast? = some '\\' then closing? rest else some rest := by
  obtain ⟨front, last, rfl⟩ := (List.eq_nil_or_concat text).resolve_left hne
  rw [List.concat_eq_append, List.getLast?_append, List.getLast?_singleton,
    Option.some_or] at hlast ⊢
  have hquote : last ≠ '"' := fun heq => hlast (congrArg some heq)
  rw [escapeFences_append hquote, List.append_assoc, List.append_assoc, List.cons_append,
    closing?_escapeFences hquote]
  by_cases hbackslash : last = '\\'
  · -- the backslash escapes the fence
    rw [hbackslash, if_pos rfl]
    exact closing?_escaped rest
  · have hpassed : ∀ c ∈ [last], c ≠ '"' ∧ c ≠ '\\' := by
      intro c hc
      rw [List.mem_singleton.mp hc]
      exact ⟨hquote, hbackslash⟩
    rw [if_neg fun heq => hbackslash (Option.some.inj heq)]
    exact (closing?_append hpassed _).trans (closing?_quotes rest)

/-- A description opens a block string after its indent. What follows the
description is what follows the block string, unless the text is a single line
that ends in a backslash: then the block string goes on in what follows. -/
theorem exists_inside {text indent : String} (hne : text ≠ "")
    (hindent : ∀ c ∈ indent.toList, c = ' ') :
    ∃ inside, ("\n".intercalate (describe text indent)).toList = indent.toList ++
      (quotes ++ inside) ∧
      ∀ rest, closing? (inside ++ rest) =
        if '\n' ∉ text.toList ∧ text.toList.getLast? = some '\\' then closing? rest
          else some rest := by
  have hempty : text.isEmpty = false := by simpa using hne
  have hchars : text.toList ≠ [] := by simpa using hne
  simp only [describe, hempty, Bool.false_eq_true, if_false]
  -- one line that ends without a quote stands between its fences; any other text
  -- has lines of its own
  by_cases hline : '\n' ∉ text.toList ∧ text.toList.getLast? ≠ some '"'
  · rw [if_pos ((fitsOneLine_iff _).mpr hline)]
    refine ⟨escapeFences text.toList ++ quotes, ?_, ?_⟩
    · simp [toList_fence]
    · intro rest
      rw [closing?_oneLine hchars hline.2]
      simp only [hline.1, not_false_eq_true, true_and]
  · rw [if_neg (mt (fitsOneLine_iff _).mp hline)]
    have hclosed : ¬ ('\n' ∉ text.toList ∧ text.toList.getLast? = some '\\') := by
      rintro ⟨hsingle, hlast⟩
      exact hline ⟨hsingle, by rw [hlast]; decide⟩
    refine ⟨'\n' :: ("\n".intercalate
      (((Text.pieces '\n' text.toList).map escapeFences).map (fun line =>
      if line.isEmpty then "" else indent ++ String.ofList line) ++ [indent ++ fence])).toList, ?_,
        ?_⟩
    · rw [List.cons_append, toList_lines (List.append_ne_nil_of_right_ne_nil _
        (List.cons_ne_nil _ _)),
        pieces_escapeFences, String.toList_append, toList_fence, List.append_assoc]
    · intro rest
      rw [if_neg hclosed, List.cons_append, closing?_newline]
      exact closing?_lines hindent _ rest

/-- The lines of a description are its indent and exactly one block string, if
the text has several lines or does not end in a backslash. Otherwise the block
string is not closed, and whatever follows is read as a part of it up to the
next fence. -/
theorem describe_isBlockString_iff {text indent : String} (hne : text ≠ "")
    (hindent : ∀ c ∈ indent.toList, c = ' ') :
    ∃ token, ("\n".intercalate (describe text indent)).toList = indent.toList ++ token ∧
      (IsBlockString token ↔ '\n' ∈ text.toList ∨ text.toList.getLast? ≠ some '\\') ∧
      (¬ IsBlockString token → ∃ inside, token = quotes ++ inside ∧
        ∀ rest, closing? (inside ++ rest) = closing? rest) := by
  obtain ⟨inside, hlines, hclosing⟩ := exists_inside hne hindent
  refine ⟨quotes ++ inside, hlines, ?_⟩
  -- nothing follows, so the block string is whole if it closes at the end
  have hend := hclosing []
  rw [List.append_nil] at hend
  rw [isBlockString_iff, hend]
  by_cases hopen : '\n' ∉ text.toList ∧ text.toList.getLast? = some '\\'
  · rw [if_pos hopen]
    refine ⟨iff_of_false (by decide) ?_, ?_⟩
    · rintro (hmem | hlast)
      · exact hopen.1 hmem
      · exact hlast hopen.2
    · intro _
      refine ⟨inside, rfl, ?_⟩
      intro rest
      rw [hclosing, if_pos hopen]
  · rw [if_neg hopen]
    refine ⟨iff_of_true rfl ?_, fun hnot => absurd rfl hnot⟩
    by_cases hmem : '\n' ∈ text.toList
    · exact Or.inl hmem
    · exact Or.inr fun hlast => hopen ⟨hmem, hlast⟩

/-- A text with four quotes in a row and an empty line, which ends in a
backslash and a quote. -/
def quoted : String :=
  "say \"\"\"\"\n\n\\\""

/-- A text that ends in a backslash. -/
def drive : String :=
  "C:\\"

theorem describe_isBlockString_iff_drive :
    (∃ token, ("\n".intercalate (describe quoted "  ")).toList = [' ', ' '] ++ token ∧
      IsBlockString token) ∧
    ∃ token, ("\n".intercalate (describe drive "  ")).toList = [' ', ' '] ++ token ∧
      ¬ IsBlockString token := by
  have hspaces : ∀ c ∈ "  ".toList, c = ' ' := by simp
  constructor
  · obtain ⟨token, hlines, hblock, -⟩ := @describe_isBlockString_iff quoted "  "
      (by decide) hspaces
    exact ⟨token, hlines, hblock.mpr (Or.inl (by simp [quoted]))⟩
  · obtain ⟨token, hlines, hblock, -⟩ := @describe_isBlockString_iff drive "  "
      (by decide) hspaces
    refine ⟨token, hlines, fun hclosed => ?_⟩
    rcases hblock.mp hclosed with hmem | hlast
    · simp [drive] at hmem
    · simp [drive] at hlast

end Definition

end JsonSelection
