import JsonSelection.Proofs.Query.Rendering

/-!
# Gaps between tokens

What stands between tokens is left out: blanks, commas, byte order marks and
comments.

## What this module delivers

- `Token.Gap`: text in which no token stands and after which one can.
- `Token.LastGap`: a gap at the end of a text, which may go on in a comment that
  no line end closes.
- `Token.Inert`: text that is empty or starts as a gap does. No number, name or
  string goes on into such a text.
- `Token.lexeme?_before_gap`: a token ends before a gap, as its kinds take no
  character that a gap starts with.

The last statement needs only that what follows is inert, so it also serves
where less than a whole gap is known of the text behind a token.
-/

set_option autoImplicit false

namespace JsonSelection

namespace Token

/-- Text in which no token stands and after which one can: characters that are
left out, and comments that go up to the end of their line. -/
inductive Gap : List Char → Prop where
  | nil : Gap []
  | ignored {c : Char} {rest : List Char} : isIgnored c = true → Gap rest → Gap (c :: rest)
  | comment {body rest : List Char} {c : Char} : (∀ d ∈ body, isLineEnd d = false) →
      isLineEnd c = true →
      Gap rest → Gap ('#' :: (body ++ c :: rest))

/-- Text in which no token stands: a gap, which may go on in a comment as long as
the text does. -/
inductive LastGap : List Char → Prop where
  | closed {gap : List Char} : Gap gap → LastGap gap
  | commented {gap body : List Char} : Gap gap → (∀ d ∈ body, isLineEnd d = false) →
      LastGap (gap ++ '#' :: body)

/-- Text that is empty or starts with a character that is left out or starts a
comment. -/
def Inert (text : List Char) : Prop :=
  ∀ c rest, text = c :: rest → isIgnored c = true ∨ c = '#'

theorem isIgnored_of_isLineEnd {c : Char} (h : isLineEnd c = true) : isIgnored c = true := by
  simp only [isLineEnd, Bool.or_eq_true, beq_iff_eq] at h
  rcases h with rfl | rfl
  · rfl
  · rfl

theorem LastGap.inert {gap : List Char} (h : LastGap gap) : Inert gap := by
  have hgap : ∀ {gap}, Gap gap → Inert gap := by
    intro gap h c rest heq
    cases h with
    | nil => cases heq
    | ignored hc _ =>
        obtain ⟨rfl, -⟩ := List.cons.inj heq
        exact Or.inl hc
    | comment _ _ _ =>
        obtain ⟨rfl, -⟩ := List.cons.inj heq
        exact Or.inr rfl
  cases h with
  | closed h => exact hgap h
  | @commented gap body h _ =>
      intro c rest heq
      -- the comment stands first itself if the gap before it is empty
      cases gap with
      | nil =>
          obtain ⟨rfl, -⟩ := List.cons.inj heq
          exact Or.inr rfl
      | cons d others =>
          obtain ⟨rfl, -⟩ := List.cons.inj heq
          exact hgap h d others rfl

/-- No character of a number or a name, and no quote, starts a text without tokens. -/
theorem not_char_of_inert {c : Char} (h : isIgnored c = true ∨ c = '#') :
    isNameChar c = false ∧ isNumberChar c = false ∧ c ≠ '"' := by
  have hname : isNameChar c = false := by
    rcases h with h | rfl
    · rw [Bool.eq_false_iff]
      intro hchar
      rw [isIgnored_of_isNameChar hchar] at h
      cases h
    · rfl
  have hother : ∀ d : Char, isIgnored d = false → d ≠ '#' → c ≠ d := by
    rintro d hd hhash rfl
    rcases h with h | h
    · rw [h] at hd
      cases hd
    · exact hhash h
  refine ⟨hname, ?_, hother '"' rfl (by decide)⟩
  rw [Bool.eq_false_iff]
  intro hnumber
  simp only [isNumberChar, Bool.or_eq_true, beq_iff_eq] at hnumber
  -- a digit is a character of names too; the marks of a number are compared one by
  -- one
  rcases hnumber with ((((hdigit | rfl) | rfl) | rfl) | rfl) | rfl
  · simp [isNameChar, Char.isAlphanum, hdigit] at hname
  · exact hother '-' rfl (by decide) rfl
  · exact hother '+' rfl (by decide) rfl
  · exact hother '.' rfl (by decide) rfl
  · cases hname
  · cases hname

/-! ### Parts of gaps -/

theorem Gap.append {front back : List Char} (hfront : Gap front) (hback : Gap back) :
    Gap (front ++ back) := by
  induction hfront with
  | nil => exact hback
  | ignored hc _ ih => exact .ignored hc ih
  | comment hbody hc _ ih =>
      rw [List.cons_append, List.append_assoc, List.cons_append]
      exact .comment hbody hc ih

theorem gap_of_blank {cs : List Char} (h : ∀ c ∈ cs, Text.isBlank c = true) : Gap cs := by
  induction cs with
  | nil => exact .nil
  | cons c rest ih =>
      refine .ignored ?_ (ih fun d hd => h d (List.mem_cons_of_mem c hd))
      simp [isIgnored, h c List.mem_cons_self]

theorem Gap.append_last {front back : List Char} (hfront : Gap front) (hback : LastGap back) :
    LastGap (front ++ back) := by
  cases hback with
  | closed hback => exact .closed (hfront.append hback)
  | commented hback hbody =>
      rw [← List.append_assoc]
      exact .commented (hfront.append hback) hbody

/-- A gap without the blanks at its start is a gap. -/
theorem Gap.dropBlanks {gap : List Char} (h : Gap gap) : Gap (gap.dropWhile Text.isBlank) := by
  induction h with
  | nil => exact .nil
  | @ignored c rest hc hrest ih =>
      by_cases hblank : Text.isBlank c = true
      · rw [List.dropWhile_cons_of_pos hblank]
        exact ih
      · rw [List.dropWhile_cons_of_neg hblank]
        exact .ignored hc hrest
  | @comment body rest c hbody hc hrest _ =>
      rw [List.dropWhile_cons_of_neg (show ¬ Text.isBlank '#' = true by decide)]
      exact .comment hbody hc hrest

theorem Gap.start {gap : List Char} (h : Gap gap) {front back : List Char}
    (hsplit : gap = front ++ back) :
    LastGap front := by
  induction h generalizing front with
  | nil =>
      obtain ⟨rfl, -⟩ := List.append_eq_nil_iff.mp hsplit.symm
      exact .closed .nil
  | @ignored c rest hc _ ih =>
      cases front with
      | nil => exact .closed .nil
      | cons d tail =>
          obtain ⟨rfl, hrest⟩ := List.cons.inj hsplit
          exact Gap.append_last (.ignored hc .nil) (ih hrest)
  | @comment body rest c hbody hc _ ih =>
      cases front with
      | nil => exact .closed .nil
      | cons d tail =>
          rw [List.cons_append] at hsplit
          obtain ⟨rfl, hline⟩ := List.cons.inj hsplit
          -- the cut is in the comment or after the end of its line
          rcases List.append_eq_append_iff.mp hline with ⟨more, rfl, htail⟩ | ⟨more, rfl, -⟩
          · cases more with
            | nil =>
                rw [List.append_nil]
                exact .commented .nil hbody
            | cons e others =>
                obtain ⟨rfl, hrest⟩ := List.cons.inj htail
                have hgap : Gap ('#' :: (body ++ [c])) := .comment hbody hc .nil
                have hwhole := Gap.append_last hgap (ih hrest)
                simpa using hwhole
          · exact .commented .nil fun d hd => hbody d (List.mem_append_left more hd)

/-- What a text without tokens starts with has no tokens. -/
theorem LastGap.start {front back : List Char} (h : LastGap (front ++ back)) : LastGap front := by
  generalize hsplit : front ++ back = gap at h
  cases h with
  | closed h => exact h.start hsplit.symm
  | @commented gap body h hbody =>
      rcases List.append_eq_append_iff.mp hsplit with ⟨more, rfl, -⟩ | ⟨more, rfl, hmore⟩
      · exact h.start rfl
      · cases more with
        | nil =>
            rw [List.append_nil]
            exact .closed h
        | cons c others =>
            rw [List.cons_append] at hmore
            obtain ⟨rfl, rfl⟩ := List.cons.inj hmore
            exact .commented h fun d hd => hbody d (List.mem_append_left back hd)

end Token

/-! ### Tokens end before a gap

Each part of a number stops where an inert text begins, and so do names; a
string ends by itself. The exception is a string that is not closed, which a
quote in the gap could close. -/

namespace NumberLiteral

open Token

variable {gap : List Char}

theorem ne_of_inert (h : Inert gap) {c : Char} (hc : isNumberChar c = true) (rest : List Char) :
    gap ≠ c :: rest := by
  intro heq
  have hnot := (not_char_of_inert (h c rest heq)).2.1
  rw [hc] at hnot
  cases hnot

/-- Digits are read up to a text that does not go on with one. -/
theorem spanDigits_of_not_digit {cs : List Char}
    (h : ∀ c rest, cs = c :: rest → c.isDigit = false) :
    spanDigits cs = ([], cs) := by
  cases cs with
  | nil => rfl
  | cons c rest => simp [spanDigits, h c rest rfl]

theorem spanDigits_inert (h : Inert gap) : spanDigits gap = ([], gap) := by
  apply spanDigits_of_not_digit
  intro c rest heq
  rw [Bool.eq_false_iff]
  intro hdigit
  exact ne_of_inert h (isNumberChar_of_isDigit hdigit) rest heq

theorem spanDigits_append (h : Inert gap) (cs : List Char) :
    spanDigits (cs ++ gap) = ((spanDigits cs).1, (spanDigits cs).2 ++ gap) := by
  induction cs with
  | nil => exact spanDigits_inert h
  | cons c rest ih =>
      rw [spanDigits, Prod.mk.injEq] at ih
      by_cases hc : c.isDigit = true
      · simp [spanDigits, hc, ih.1, ih.2]
      · simp [spanDigits, hc]

theorem readWhole?_append (h : Inert gap) (cs : List Char) :
    readWhole? (cs ++ gap) = (readWhole? cs).map fun read => (read.1, read.2 ++ gap) := by
  cases cs with
  | nil =>
      cases gap with
      | nil => rfl
      | cons c rest =>
          -- a gap starts with no digit, so nothing is read on
          have hdigit : ¬ c.isDigit = true := fun hdigit =>
            ne_of_inert h (isNumberChar_of_isDigit hdigit) rest rfl
          have hzero : c ≠ '0' := by
            rintro rfl
            exact hdigit rfl
          simp [readWhole?, hdigit, hzero]
  | cons c rest =>
      rw [List.cons_append, readWhole?, readWhole?, spanDigits_append h]
      split
      · rfl
      · split
        · rfl
        · rfl

theorem readFraction_of_ne {cs : List Char} (h : ∀ rest, cs ≠ '.' :: rest) :
    readFraction cs = (none, cs) := by
  rw [readFraction]
  exact fun rest heq => h rest heq

theorem readFraction_append (h : Inert gap) (cs : List Char) :
    readFraction (cs ++ gap) = ((readFraction cs).1, (readFraction cs).2 ++ gap) := by
  cases cs with
  | nil => exact readFraction_of_ne (ne_of_inert h rfl)
  | cons c rest =>
      by_cases hc : c = '.'
      · subst hc
        simp only [List.cons_append, readFraction, spanDigits_append h]
        split
        · rfl
        · rfl
      · have hwhole : ∀ tail, readFraction (c :: tail) = (none, c :: tail) := fun tail =>
          readFraction_of_ne fun _ heq => hc (List.cons.inj heq).1
        rw [List.cons_append, hwhole, hwhole]
        rfl

/-- The sign of an exponent, if there is one, and what follows it. -/
def splitSign : List Char → Bool × List Char
  | '-' :: tail => (true, tail)
  | '+' :: tail => (false, tail)
  | cs => (false, cs)

theorem splitSign_of_ne {cs : List Char} (hminus : ∀ tail, cs ≠ '-' :: tail)
    (hplus : ∀ tail, cs ≠ '+' :: tail) : splitSign cs = (false, cs) := by
  rw [splitSign]
  · exact fun tail heq => hminus tail heq
  · exact fun tail heq => hplus tail heq

theorem splitSign_append (h : Inert gap) (cs : List Char) :
    splitSign (cs ++ gap) = ((splitSign cs).1, (splitSign cs).2 ++ gap) := by
  cases cs with
  | nil => exact splitSign_of_ne (ne_of_inert h rfl) (ne_of_inert h rfl)
  | cons c rest =>
      by_cases hminus : c = '-'
      · subst hminus
        rfl
      · by_cases hplus : c = '+'
        · subst hplus
          rfl
        · have hunsigned : ∀ tail, splitSign (c :: tail) = (false, c :: tail) := fun tail =>
            splitSign_of_ne (fun _ heq => hminus (List.cons.inj heq).1)
              (fun _ heq => hplus (List.cons.inj heq).1)
          rw [List.cons_append, hunsigned, hunsigned]
          rfl

theorem readExponent_mark {mark : Char} (h : mark = 'e' ∨ mark = 'E') (rest : List Char) :
    readExponent (mark :: rest) =
      if (spanDigits (splitSign rest).2).1.isEmpty then (none, mark :: rest)
      else (some ((splitSign rest).1, (spanDigits (splitSign rest).2).1),
        (spanDigits (splitSign rest).2).2) := by
  simp only [readExponent, if_pos h]
  fun_cases splitSign rest with
  | case1 tail => rfl
  | case2 tail => rfl
  | case3 _ hminus hplus =>
      split
      · exact absurd rfl (hminus _)
      · exact absurd rfl (hplus _)
      · rfl

theorem readExponent_append (h : Inert gap) (cs : List Char) :
    readExponent (cs ++ gap) = ((readExponent cs).1, (readExponent cs).2 ++ gap) := by
  cases cs with
  | nil =>
      cases gap with
      | nil => rfl
      | cons c rest =>
          have hmark : ¬ (c = 'e' ∨ c = 'E') := by
            rintro (rfl | rfl)
            · exact ne_of_inert h rfl rest rfl
            · exact ne_of_inert h rfl rest rfl
          simp [readExponent, hmark]
  | cons mark tail =>
      by_cases hmark : mark = 'e' ∨ mark = 'E'
      · rw [List.cons_append, readExponent_mark hmark, readExponent_mark hmark, splitSign_append h,
          spanDigits_append h]
        split
        · rfl
        · rfl
      · simp only [List.cons_append, readExponent, if_neg hmark]

/-- The sign of a number, if there is one, and what follows it. -/
def splitMinus : List Char → Bool × List Char
  | '-' :: tail => (true, tail)
  | cs => (false, cs)

theorem splitMinus_of_ne {cs : List Char} (h : ∀ tail, cs ≠ '-' :: tail) :
    splitMinus cs = (false, cs) := by
  rw [splitMinus]
  exact fun tail heq => h tail heq

theorem splitMinus_append (h : Inert gap) (cs : List Char) :
    splitMinus (cs ++ gap) = ((splitMinus cs).1, (splitMinus cs).2 ++ gap) := by
  cases cs with
  | nil => exact splitMinus_of_ne (ne_of_inert h rfl)
  | cons c rest =>
      by_cases hminus : c = '-'
      · subst hminus
        rfl
      · have hunsigned : ∀ tail, splitMinus (c :: tail) = (false, c :: tail) := fun tail =>
          splitMinus_of_ne fun _ heq => hminus (List.cons.inj heq).1
        rw [List.cons_append, hunsigned, hunsigned]
        rfl

/-- The parts of a number are read one after the other. -/
theorem read?_eq (cs : List Char) :
    read? cs = (readWhole? (splitMinus cs).2).map fun whole =>
      (⟨(splitMinus cs).1, whole.1, (readFraction whole.2).1,
        (readExponent (readFraction whole.2).2).1⟩,
          (readExponent (readFraction whole.2).2).2) := by
  unfold read?
  split
  next negative unsigned hsign =>
    have hsplit : splitMinus cs = (negative, unsigned) := by
      rw [← hsign]
      split
      · rfl
      · next hminus => exact splitMinus_of_ne hminus
    rw [hsplit]
    cases readWhole? unsigned with
    | none => rfl
    | some whole => rfl

/-- A number ends before a gap. -/
theorem read?_append (h : Inert gap) (cs : List Char) :
    read? (cs ++ gap) = (read? cs).map fun read => (read.1, read.2 ++ gap) := by
  rw [read?_eq, read?_eq, splitMinus_append h, readWhole?_append h, Option.map_map, Option.map_map]
  congr 1
  funext whole
  simp only [Function.comp_apply, readFraction_append h, readExponent_append h]

end NumberLiteral

namespace Token

variable {gap : List Char}

theorem numberLength?_append (h : Inert gap) (cs : List Char) :
    numberLength? (cs ++ gap) = numberLength? cs := by
  rw [numberLength?, numberLength?, NumberLiteral.read?_append h, Option.map_map]
  congr 1
  funext read
  simp only [Function.comp_apply, List.length_append, Nat.add_sub_add_right]

/-- A string that is closed stays as it is. -/
theorem stringLength?_append_of_some {cs : List Char} {n : Nat} (h : stringLength? cs = some n)
    (more : List Char) : stringLength? (cs ++ more) = some n := by
  fun_induction stringLength? cs generalizing n with
  | case1 => simp at h
  | case2 rest => exact h
  | case3 => simp at h
  | case4 c rest hc ih =>
      obtain ⟨m, hm, rfl⟩ := Option.map_eq_some_iff.mp h
      rw [List.cons_append, List.cons_append, stringLength?_escape hc, ih hm]
      rfl
  | case5 => simp at h
  | case6 => simp at h
  | case7 c rest hquote hescape hlast hend ih =>
      obtain ⟨m, hm, rfl⟩ := Option.map_eq_some_iff.mp h
      -- a plain character is no backslash, which would start an escape
      have hback : c ≠ '\\' := by
        intro hc
        cases rest with
        | nil => exact hlast hc rfl
        | cons d tail => exact hescape d tail hc rfl
      rw [List.cons_append, stringLength?_plain hquote hback (by simpa using hend), ih hm]
      rfl

/-- A string that is not closed stays open without a further quote. -/
theorem stringLength?_append_of_none {cs more : List Char} (h : stringLength? cs = none)
    (hmore : stringLength? more = none)
    (hnext : ∀ c rest, more = c :: rest → stringLength? rest = none) :
    stringLength? (cs ++ more) = none := by
  fun_induction stringLength? cs with
  | case1 => exact hmore
  | case2 rest => cases h
  | case3 rest => simp [stringLength?]
  | case4 c rest hc ih =>
      rw [List.cons_append, List.cons_append, stringLength?_escape hc,
        ih (Option.map_eq_none_iff.mp h)]
      rfl
  | case5 =>
      -- a backslash at the end takes the first character of what follows along
      cases more with
      | nil => rfl
      | cons c rest => simp [stringLength?, hnext c rest rfl]
  | case6 c rest hquote hescape hlast hend =>
      rw [List.cons_append, stringLength?]
      · simp [hend]
      · exact hquote
      · rintro d tail rfl -
        cases hend
      · rintro rfl -
        cases hend
  | case7 c rest hquote hescape hlast hend ih =>
      have hback : c ≠ '\\' := by
        intro hc
        cases rest with
        | nil => exact hlast hc rfl
        | cons d tail => exact hescape d tail hc rfl
      rw [List.cons_append, stringLength?_plain hquote hback (by simpa using hend),
        ih (Option.map_eq_none_iff.mp h)]
      rfl

theorem takeWhile_append_of_inert (h : Inert gap) (rest : List Char) :
    (rest ++ gap).takeWhile isNameChar = rest.takeWhile isNameChar := by
  induction rest with
  | nil =>
      cases gap with
      | nil => rfl
      | cons c others => simp [(not_char_of_inert (h c others rfl)).1]
  | cons c rest ih =>
      rw [List.cons_append, List.takeWhile_cons, List.takeWhile_cons, ih]

theorem isPrefixOf_append_of_inert (h : Inert gap) (rest : List Char) :
    ['.', '.'].isPrefixOf (rest ++ gap) = ['.', '.'].isPrefixOf rest := by
  have hgap : ∀ tail, gap ≠ '.' :: tail := NumberLiteral.ne_of_inert h rfl
  have hdot : ∀ cs, (∀ tail, cs ≠ '.' :: tail) → ∀ dots,
      ('.' :: dots).isPrefixOf cs = false := by
    intro cs hcs dots
    cases cs with
    | nil => rfl
    | cons c tail =>
        have hc : ('.' == c) = false := by
          rw [beq_eq_false_iff_ne]
          rintro rfl
          exact hcs tail rfl
        simp [List.isPrefixOf, hc]
  -- the dots may end in the text or be cut off by it
  match rest with
  | [] => exact (hdot gap hgap ['.']).trans rfl
  | [c] => simp [List.isPrefixOf, hdot gap hgap []]
  | c :: d :: tail => simp [List.isPrefixOf]

/-- A part that no gap starts is cut off alike with a gap behind it, if the gap
does not close a string. -/
theorem lexeme?_append (h : Inert gap) {c : Char} (hignored : isIgnored c = false)
    (hcomment : c ≠ '#') {rest : List Char}
    (hstring : c = '"' → stringLength? (rest ++ gap) = stringLength? rest) :
    lexeme? (c :: (rest ++ gap)) = lexeme? (c :: rest) := by
  have hnumber := numberLength?_append h (c :: rest)
  rw [List.cons_append] at hnumber
  simp only [lexeme?, hignored, Bool.false_eq_true, if_false, if_neg hcomment,
    isPrefixOf_append_of_inert h, hnumber, takeWhile_append_of_inert h]
  by_cases hquote : c = '"'
  · simp only [hquote, if_true, hstring hquote]
  · simp only [if_neg hquote]

/-- A token starts with no character that is left out, and with no comment. -/
theorem starts_of_lexeme? {c : Char} {rest : List Char} {kind : TokenKind} {further : Nat}
    (h : lexeme? (c :: rest) = some (some kind, further)) :
    isIgnored c = false ∧ c ≠ '#' ∧
    (c = '"' → ∃ length, stringLength? rest = some length) := by
  -- a quote starts no other kind of token than a string
  cases part_of_lexeme? h with
  | spread => exact ⟨rfl, by decide, fun hquote => absurd hquote (by decide)⟩
  | punct hignored hcomment hpunct =>
      refine ⟨hignored, hcomment, ?_⟩
      rintro rfl
      cases hpunct
  | number hignored hcomment hlength =>
      refine ⟨hignored, hcomment, ?_⟩
      rintro rfl
      cases hlength
  | string hlength => exact ⟨rfl, by decide, fun _ => ⟨_, hlength⟩⟩
  | name hignored hcomment hstart =>
      refine ⟨hignored, hcomment, ?_⟩
      rintro rfl
      cases hstart

/-- What is left out starts with a character that is left out, or with a comment. -/
theorem starts_of_gap {c : Char} {rest : List Char} {further : Nat}
    (h : lexeme? (c :: rest) = some (none, further)) : isIgnored c = true ∨ c = '#' := by
  cases part_of_lexeme? h with
  | ignored hignored => exact Or.inl hignored
  | comment => exact Or.inr rfl

/-- A token ends before a gap. -/
theorem lexeme?_before_gap (h : Inert gap) {c : Char} {rest : List Char} {kind : TokenKind}
    {further : Nat} (hlexeme : lexeme? (c :: rest) = some (some kind, further)) :
    lexeme? (c :: (rest ++ gap)) = some (some kind, further) := by
  obtain ⟨hignored, hcomment, hclosed⟩ := starts_of_lexeme? hlexeme
  rw [lexeme?_append h hignored hcomment, hlexeme]
  intro hquote
  obtain ⟨length, hlength⟩ := hclosed hquote
  rw [hlength, stringLength?_append_of_some hlength]

/-- A part takes no more characters than there are. -/
theorem further_le {c : Char} {rest : List Char} {kind : Option TokenKind} {further : Nat}
    (h : lexeme? (c :: rest) = some (kind, further)) : further ≤ rest.length := by
  cases part_of_lexeme? h with
  | ignored => exact (List.takeWhile_prefix _).length_le
  | comment => exact (List.takeWhile_prefix _).length_le
  | spread => exact Nat.le_add_left 2 _
  | punct => exact Nat.zero_le _
  | number _ _ hlength =>
      obtain ⟨read, -, rfl⟩ := Option.map_eq_some_iff.mp hlength
      simp only [List.length_cons]
      omega
  | string hlength => exact (stringLength?_take hlength).2
  | name => exact (List.takeWhile_prefix _).length_le

end Token

end JsonSelection
