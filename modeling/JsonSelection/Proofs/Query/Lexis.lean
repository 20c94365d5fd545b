import JsonSelection.Proofs.Query.Grammar

/-!
# The form of tokens

The tokens of a text have the form of their kinds (`Token.lexical_of_tokenize`).
From the form it follows that a mark is told by its text alone, and that the
literal of a number or string token is the JSON value that its text holds.

- `Token.Lexical`: the text of a token has the form of the token's kind.
- `Token.Part`: the parts that start a text, one constructor for each kind and
  two for what is left out. Proofs about `Token.lexeme?` split into these cases.
- `Query.numberValue_eq_ok_iff`: the value of a number token, which is given
  unless it is an integer of too many digits.
- `Query.stringValue_eq_ok_iff`: the value of a string token, which is given
  unless the text holds an escape that no string has.

The forms here are as much as the parser needs. That a token is as long as it
can be is shown in `Proofs/Query/Lexemes`.
-/

set_option autoImplicit false

namespace JsonSelection

namespace Token

/-- Whether a character may stand in a number. -/
def isNumberChar (c : Char) : Bool :=
  c.isDigit || c == '-' || c == '+' || c == '.' || c == 'e' || c == 'E'

/-- The text of a token has the form of the token's kind. All tokens of a text
are of this form. -/
def Lexical (token : Token) : Prop :=
  match token.kind with
  | .spread => token.text.toList = ['.', '.', '.']
  | .punct => ∃ c, token.text.toList = [c] ∧ isPunct c = true
  | .number =>
      ∃ c rest, token.text.toList = c :: rest ∧ (c = '-' ∨ c.isDigit = true) ∧
        ∀ d ∈ c :: rest, isNumberChar d = true
  | .string => ∃ body, token.text.toList = '"' :: body ∧ stringLength? body = some body.length
  | .name =>
      ∃ c rest, token.text.toList = c :: rest ∧ isNameStart c = true ∧
        ∀ d ∈ rest, isNameChar d = true

end Token

namespace NumberLiteral

open Token

theorem isNumberChar_of_isDigit {c : Char} (h : c.isDigit = true) : isNumberChar c = true := by
  simp [isNumberChar, h]

/-- The digits at the start of a text are digits, and nothing is lost. -/
theorem spanDigits_spec (cs : List Char) :
    (spanDigits cs).1 ++ (spanDigits cs).2 = cs ∧ ∀ c ∈ (spanDigits cs).1, c.isDigit = true :=
  ⟨List.takeWhile_append_dropWhile, fun c hc => List.all_eq_true.mp List.all_takeWhile c hc⟩

/-- The digits before the point start the text. -/
theorem readWhole?_spec {cs whole rest : List Char} (h : readWhole? cs = some (whole, rest)) :
    ∃ c digits, whole = c :: digits ∧ cs = whole ++ rest ∧ ∀ d ∈ whole,
    d.isDigit = true := by
  cases cs with
  | nil => simp [readWhole?] at h
  | cons c tail =>
      simp only [readWhole?] at h
      split at h
      · next hc =>
          simp only [Option.some.injEq, Prod.mk.injEq] at h
          obtain ⟨rfl, rfl⟩ := h
          exact ⟨c, [], rfl, rfl, by simp [hc]⟩
      · split at h
        · next hd =>
            simp only [Option.some.injEq, Prod.mk.injEq] at h
            obtain ⟨rfl, rfl⟩ := h
            obtain ⟨hcs, hdigits⟩ := spanDigits_spec tail
            refine ⟨c, _, rfl, by rw [List.cons_append, hcs], ?_⟩
            intro d hmem
            rcases List.mem_cons.mp hmem with rfl | hmem
            · exact hd
            · exact hdigits d hmem
        · simp at h

/-- A fraction is made of number characters; where none is read, nothing is taken. -/
theorem readFraction_spec (cs : List Char) :
    ∃ part, cs = part ++ (readFraction cs).2 ∧ (∀ c ∈ part, isNumberChar c = true) ∧
      ((readFraction cs).1 = none → part = []) := by
  unfold readFraction
  split
  · next tail =>
      simp only
      split
      · exact ⟨[], rfl, by simp, fun _ => rfl⟩
      · obtain ⟨hcs, hdigits⟩ := spanDigits_spec tail
        refine ⟨'.' :: (spanDigits tail).1, by rw [List.cons_append, hcs], ?_, nofun⟩
        intro c hc
        rcases List.mem_cons.mp hc with rfl | hc
        · rfl
        · exact isNumberChar_of_isDigit (hdigits c hc)
  · exact ⟨[], rfl, by simp, fun _ => rfl⟩

/-- An exponent is made of number characters; where none is read, nothing is taken. -/
theorem readExponent_spec (cs : List Char) :
    ∃ part, cs = part ++ (readExponent cs).2 ∧ (∀ c ∈ part, isNumberChar c = true) ∧
      ((readExponent cs).1 = none → part = []) := by
  cases cs with
  | nil => exact ⟨[], rfl, by simp, fun _ => rfl⟩
  | cons mark tail =>
      by_cases hmark : mark = 'e' ∨ mark = 'E'
      · have hm : isNumberChar mark = true := by
          rcases hmark with rfl | rfl <;> rfl
        -- what is read after the sign, whichever it is
        have signed : ∀ (sign unsigned : List Char) (negative : Bool), tail = sign ++ unsigned →
            (∀ c ∈ sign, isNumberChar c = true) → ∀ read,
            read = (if (spanDigits unsigned).1.isEmpty then (none, mark :: tail)
              else (some (negative, (spanDigits unsigned).1), (spanDigits unsigned).2)) →
            ∃ part, mark :: tail = part ++ read.2 ∧ (∀ c ∈ part, isNumberChar c = true) ∧
              (read.1 = none → part = []) := by
          rintro sign unsigned negative htail hsign read rfl
          split
          · exact ⟨[], rfl, by simp, fun _ => rfl⟩
          · obtain ⟨hcs, hdigits⟩ := spanDigits_spec unsigned
            refine ⟨mark :: (sign ++ (spanDigits unsigned).1), ?_, ?_, nofun⟩
            · rw [htail, List.cons_append, List.append_assoc, hcs]
            · intro c hc
              simp only [List.mem_cons, List.mem_append] at hc
              rcases hc with rfl | hc | hc
              · exact hm
              · exact hsign c hc
              · exact isNumberChar_of_isDigit (hdigits c hc)
        simp only [readExponent, if_pos hmark]
        split
        · exact signed ['-'] _ true rfl (by simp [isNumberChar]) _ rfl
        · exact signed ['+'] _ false rfl (by simp [isNumberChar]) _ rfl
        · exact signed [] _ false rfl (by simp) _ rfl
      · simp only [readExponent, if_neg hmark]
        exact ⟨[], rfl, by simp, fun _ => rfl⟩

/-- A number starts its text with a sign or a digit and is made of number
characters. -/
theorem read?_spec {cs rest : List Char} {literal : NumberLiteral}
    (h : read? cs = some (literal, rest)) :
    ∃ c part, cs = (c :: part) ++ rest ∧ (c = '-' ∨ c.isDigit = true) ∧
      ∀ d ∈ c :: part, isNumberChar d = true := by
  -- what is read after the sign, if there is one
  have unsigned : ∀ {xs whole tail : List Char}, readWhole? xs = some (whole, tail) →
      (readExponent (readFraction tail).2).2 = rest →
      ∃ c part, xs = (c :: part) ++ rest ∧ c.isDigit = true ∧
        ∀ d ∈ c :: part, isNumberChar d = true := by
    intro xs whole tail hwhole hrest
    obtain ⟨c, digits, rfl, hw, hdigits⟩ := readWhole?_spec hwhole
    obtain ⟨fraction, hf, hfraction, -⟩ := readFraction_spec tail
    obtain ⟨exponent, he, hexponent, -⟩ := readExponent_spec (readFraction tail).2
    refine ⟨c, digits ++ (fraction ++ exponent), ?_, hdigits c List.mem_cons_self, ?_⟩
    · rw [hw, ← hrest, ← List.cons_append, List.append_assoc,
        List.append_assoc, ← he, ← hf]
    · intro d hd
      simp only [List.mem_cons, List.mem_append] at hd
      rcases hd with rfl | hd | hd | hd
      · exact isNumberChar_of_isDigit (hdigits d List.mem_cons_self)
      · exact isNumberChar_of_isDigit (hdigits d (List.mem_cons_of_mem c hd))
      · exact hfraction d hd
      · exact hexponent d hd
  unfold read? at h
  split at h
  next negative xs hsign =>
    split at h
    · simp at h
    · next whole tail hwhole =>
        simp only [Option.some.injEq, Prod.mk.injEq] at h
        obtain ⟨c, part, hxs, hc, hpart⟩ := unsigned hwhole h.2
        split at hsign
        · next ys =>
            simp only [Prod.mk.injEq] at hsign
            obtain ⟨-, rfl⟩ := hsign
            refine ⟨'-', c :: part, by rw [hxs]; rfl, Or.inl rfl, ?_⟩
            intro d hd
            rcases List.mem_cons.mp hd with rfl | hd
            · rfl
            · exact hpart d hd
        · simp only [Prod.mk.injEq] at hsign
          obtain ⟨-, rfl⟩ := hsign
          exact ⟨c, part, hxs, Or.inr hc, hpart⟩

/-- A literal that is an integer is made of a sign, if it has one, and its digits. -/
theorem read?_integer {cs : List Char} {literal : NumberLiteral}
    (h : read? cs = some (literal, [])) (hinteger : literal.isInteger = true) :
    (cs = literal.whole ∨ cs = '-' :: literal.whole) ∧ ∀ c ∈ literal.whole,
    c.isDigit = true := by
  unfold read? at h
  split at h
  next negative xs hsign =>
    split at h
    · simp at h
    · next whole tail hwhole =>
        simp only [Option.some.injEq, Prod.mk.injEq] at h
        obtain ⟨rfl, hrest⟩ := h
        simp only [isInteger, Bool.and_eq_true, Option.isNone_iff_eq_none] at hinteger
        obtain ⟨fraction, hf, -, hfraction⟩ := readFraction_spec tail
        obtain ⟨exponent, he, -, hexponent⟩ := readExponent_spec (readFraction tail).2
        obtain ⟨c, digits, -, hxs, hdigits⟩ := readWhole?_spec hwhole
        -- without fraction and exponent nothing is left of the tail
        have htail : tail = [] := by
          rw [hf, hfraction hinteger.1, he, hexponent hinteger.2, hrest]
          rfl
        rw [htail, List.append_nil] at hxs
        subst hxs
        refine ⟨?_, hdigits⟩
        split at hsign
        · obtain ⟨-, rfl⟩ := Prod.mk.inj hsign
          exact Or.inr rfl
        · obtain ⟨-, rfl⟩ := Prod.mk.inj hsign
          exact Or.inl rfl

/-- No mark of a fraction or an exponent stands in the text of an integer. -/
theorem marks_of_read? {cs : List Char} {literal : NumberLiteral}
    (h : read? cs = some (literal, [])) (hinteger : literal.isInteger = true) :
    ∀ c ∈ cs, c ≠ '.' ∧ c ≠ 'e' ∧ c ≠ 'E' := by
  obtain ⟨hcs, hdigits⟩ := read?_integer h hinteger
  have hdigit : ∀ c : Char, c.isDigit = true → c ≠ '.' ∧ c ≠ 'e' ∧ c ≠ 'E' := by
    rintro c hc
    refine ⟨?_, ?_, ?_⟩ <;> rintro rfl <;> cases hc
  rcases hcs with rfl | rfl
  · exact fun c hc => hdigit c (hdigits c hc)
  · intro c hc
    rcases List.mem_cons.mp hc with rfl | hc
    · decide
    · exact hdigit c (hdigits c hc)

/-- The digits in the text of an integer are those of the literal. -/
theorem digits_of_read? {cs : List Char} {literal : NumberLiteral}
    (h : read? cs = some (literal, [])) (hinteger : literal.isInteger = true) :
    cs.filter Char.isDigit = literal.whole := by
  obtain ⟨hcs, hdigits⟩ := read?_integer h hinteger
  have hall : literal.whole.filter Char.isDigit = literal.whole := List.filter_eq_self.mpr hdigits
  rcases hcs with rfl | rfl
  · exact hall
  · rw [List.filter_cons_of_neg (by decide), hall]

/-- A text without the marks of a fraction and an exponent is an integer. -/
theorem isInteger_of_read? {cs rest : List Char} {literal : NumberLiteral}
    (h : read? cs = some (literal, rest))
    (hmarks : ∀ c ∈ cs, c ≠ '.' ∧ c ≠ 'e' ∧ c ≠ 'E') :
    literal.isInteger = true := by
  unfold read? at h
  split at h
  next negative xs hsign =>
    split at h
    · simp at h
    · next whole tail hwhole =>
        simp only [Option.some.injEq, Prod.mk.injEq] at h
        obtain ⟨rfl, -⟩ := h
        obtain ⟨_, _, -, hxs, -⟩ := readWhole?_spec hwhole
        -- the tail is a part of the text, so the marks are missing there as well
        have htail : ∀ c ∈ tail, c ≠ '.' ∧ c ≠ 'e' ∧ c ≠ 'E' := by
          intro c hc
          refine hmarks c ?_
          have hmem : c ∈ xs := by
            rw [hxs]
            exact List.mem_append_right _ hc
          split at hsign
          · obtain ⟨-, rfl⟩ := Prod.mk.inj hsign
            exact List.mem_cons_of_mem _ hmem
          · obtain ⟨-, rfl⟩ := Prod.mk.inj hsign
            exact hmem
        have hfraction : readFraction tail = (none, tail) := by
          rw [readFraction]
          rintro rest rfl
          exact (htail '.' List.mem_cons_self).1 rfl
        have hexponent : readExponent tail = (none, tail) := by
          cases tail with
          | nil => rfl
          | cons mark others =>
              obtain ⟨-, hlower, hupper⟩ := htail mark List.mem_cons_self
              simp only [readExponent, if_neg (not_or.mpr ⟨hlower, hupper⟩)]
        simp [isInteger, hfraction, hexponent]

end NumberLiteral

namespace Token

theorem isLineEnd_eq_false {c : Char} (hfeed : c ≠ '\n') (hreturn : c ≠ '\r') :
    isLineEnd c = false := by
  simp [isLineEnd, hfeed, hreturn]

theorem stringLength?_escape {c : Char} (hc : c ≠ '\n') (rest : List Char) :
    stringLength? ('\\' :: c :: rest) = (stringLength? rest).map (· + 2) := by
  simp [stringLength?, hc]

theorem stringLength?_plain {c : Char} (hquote : c ≠ '"') (hescape : c ≠ '\\')
    (hend : isLineEnd c = false) (rest : List Char) :
    stringLength? (c :: rest) = (stringLength? rest).map (· + 1) := by
  rw [stringLength?]
  · simp [hend]
  · exact hquote
  · exact fun _ _ hc _ => hescape hc
  · exact fun hc _ => hescape hc

/-- A string of which the end is known ends there by itself. -/
theorem stringLength?_take {cs : List Char} {n : Nat} (h : stringLength? cs = some n) :
    stringLength? (cs.take n) = some n ∧ n ≤ cs.length := by
  fun_induction stringLength? cs generalizing n with
  | case1 => simp at h
  | case2 rest =>
      simp only [Option.some.injEq] at h
      subst h
      exact ⟨rfl, by simp⟩
  | case3 => simp at h
  | case4 c rest hc ih =>
      obtain ⟨m, hm, rfl⟩ := Option.map_eq_some_iff.mp h
      obtain ⟨hrest, hle⟩ := ih hm
      refine ⟨?_, by simp only [List.length_cons]; omega⟩
      rw [List.take_succ_cons, List.take_succ_cons, stringLength?_escape hc, hrest]
      rfl
  | case5 => simp at h
  | case6 => simp at h
  | case7 c rest hquote hescape hlast hend ih =>
      obtain ⟨m, hm, rfl⟩ := Option.map_eq_some_iff.mp h
      obtain ⟨hrest, hle⟩ := ih hm
      -- an escape is read by the case before, and a backslash at the end closes
      -- nothing
      have hback : c ≠ '\\' := by
        intro hc
        cases rest with
        | nil => exact hlast hc rfl
        | cons d tail => exact hescape d tail hc rfl
      refine ⟨?_, by simp only [List.length_cons]; omega⟩
      rw [List.take_succ_cons, stringLength?_plain hquote hback (by simpa using hend), hrest]
      rfl

/-- The parts that start a text, by its first character and what follows it:
the kind, unless the part is left out, and the number of characters after the
first. -/
inductive Part : Char → List Char → Option TokenKind → Nat → Prop where
  | ignored {c : Char} {rest : List Char} : isIgnored c = true →
      Part c rest none (rest.takeWhile isIgnored).length
  | comment {rest : List Char} : Part '#' rest none (rest.takeWhile fun d => !isLineEnd d).length
  | spread {rest : List Char} : Part '.' ('.' :: '.' :: rest) (some .spread) 2
  | punct {c : Char} {rest : List Char} : isIgnored c = false → c ≠ '#' → isPunct c = true →
      Part c rest (some .punct) 0
  | number {c : Char} {rest : List Char} {length : Nat} : isIgnored c = false → c ≠ '#' →
      numberLength? (c :: rest) = some length → Part c rest (some .number) (length - 1)
  | string {rest : List Char} {length : Nat} : stringLength? rest = some length →
      Part '"' rest (some .string) length
  | name {c : Char} {rest : List Char} : isIgnored c = false → c ≠ '#' →
      isNameStart c = true →
      Part c rest (some .name) (rest.takeWhile isNameChar).length

theorem part_of_lexeme? {c : Char} {rest : List Char} {kind : Option TokenKind} {further : Nat}
    (h : lexeme? (c :: rest) = some (kind, further)) : Part c rest kind further := by
  simp only [lexeme?] at h
  -- the cases are those of the scanner, in its order
  cases hignored : isIgnored c with
  | true =>
      rw [hignored, if_pos rfl] at h
      obtain ⟨rfl, rfl⟩ := Prod.mk.inj (Option.some.inj h)
      exact .ignored hignored
  | false =>
      rw [hignored, if_neg Bool.false_ne_true] at h
      by_cases hcomment : c = '#'
      · subst hcomment
        rw [if_pos rfl] at h
        obtain ⟨rfl, rfl⟩ := Prod.mk.inj (Option.some.inj h)
        exact .comment
      rw [if_neg hcomment] at h
      split at h
      · next hspread =>
          obtain ⟨rfl, rfl⟩ := Prod.mk.inj (Option.some.inj h)
          obtain ⟨rfl, hprefix⟩ := hspread
          obtain ⟨tail, rfl⟩ := List.isPrefixOf_iff_prefix.mp hprefix
          exact .spread
      split at h
      · next hpunct =>
          obtain ⟨rfl, rfl⟩ := Prod.mk.inj (Option.some.inj h)
          exact .punct hignored hcomment hpunct
      split at h
      · next length hlength =>
          obtain ⟨rfl, rfl⟩ := Prod.mk.inj (Option.some.inj h)
          exact .number hignored hcomment hlength
      split at h
      · next hquote =>
          subst hquote
          obtain ⟨length, hlength, heq⟩ := Option.map_eq_some_iff.mp h
          obtain ⟨rfl, rfl⟩ := Prod.mk.inj heq
          exact .string hlength
      split at h
      · next hstart =>
          obtain ⟨rfl, rfl⟩ := Prod.mk.inj (Option.some.inj h)
          exact .name hignored hcomment hstart
      · cases h

/-- The part of a text that its first character starts has the form of its kind. -/
theorem lexical_of_lexeme? {c : Char} {rest : List Char} {kind : TokenKind} {n : Nat}
    (h : lexeme? (c :: rest) = some (some kind, n)) (position : Nat) :
    Lexical ⟨kind, String.ofList (c :: rest.take n), position⟩ := by
  cases part_of_lexeme? h with
  | spread => simp [Lexical]
  | punct _ _ hpunct => simpa [Lexical] using hpunct
  | @number _ _ length _ _ hlength =>
      obtain ⟨⟨literal, after⟩, hread, rfl⟩ := Option.map_eq_some_iff.mp hlength
      obtain ⟨d, part, hcs, hd, hpart⟩ := NumberLiteral.read?_spec hread
      obtain ⟨rfl, rfl⟩ := List.cons.inj hcs
      refine ⟨c, part, ?_, hd, hpart⟩
      -- the length is what the reader has left over, taken from the whole
      have hlen : (c :: (part ++ after)).length - after.length - 1 = part.length := by
        simp only [List.length_cons, List.length_append]
        omega
      change (String.ofList (c :: (part ++ after).take
        ((c :: (part ++ after)).length - after.length - 1))).toList = c :: part
      rw [hlen, String.toList_ofList, List.take_left]
  | @string _ length hlength =>
      obtain ⟨htake, hle⟩ := stringLength?_take hlength
      refine ⟨rest.take n, String.toList_ofList, ?_⟩
      rw [htake, List.length_take, Nat.min_eq_left hle]
  | name _ _ hstart =>
      refine ⟨c, rest.takeWhile isNameChar, ?_, hstart, ?_⟩
      · rw [String.toList_ofList, ← List.prefix_iff_eq_take.mp
          (List.takeWhile_prefix isNameChar)]
      · exact fun d hd => List.all_eq_true.mp List.all_takeWhile d hd

section Scan

-- left open, this definition would be evaluated on unknown characters
attribute [local irreducible] lexeme?

theorem scan_nil (left position : Nat) : scan left position [] = .ok [] := by
  cases left <;> rfl

theorem scan_succ (left position : Nat) (c : Char) (rest : List Char) :
    scan (left + 1) position (c :: rest) = scan left (position + 1) rest := rfl

theorem scan_zero (position : Nat) (c : Char) (rest : List Char) :
    scan 0 position (c :: rest) =
      match lexeme? (c :: rest) with
      | none => .error (.unexpectedChar c position)
      | some (none, further) => scan further (position + 1) rest
      | some (some kind, further) =>
          match scan further (position + 1) rest with
          | .ok tokens =>
              .ok (⟨kind, String.ofList (c :: rest.take further), position⟩ :: tokens)
          | .error e => .error e := rfl

/-- The tokens of a text have the form of their kinds. -/
theorem lexical_of_scan {left position : Nat} {cs : List Char} {tokens : List Token}
    (h : scan left position cs = .ok tokens) : ∀ token ∈ tokens, token.Lexical := by
  induction cs generalizing left position tokens with
  | nil =>
      rw [scan_nil, Except.ok.injEq] at h
      subst h
      simp
  | cons c rest ih =>
      -- characters of a token that is read already are skipped
      cases left with
      | succ left =>
          rw [scan_succ] at h
          exact ih h
      | zero =>
          rw [scan_zero] at h
          split at h
          · simp at h
          · exact ih h
          · next kind further hlexeme =>
              split at h
              · next others hothers =>
                  simp only [Except.ok.injEq] at h
                  subst h
                  intro token hmem
                  rcases List.mem_cons.mp hmem with rfl | hmem
                  · exact lexical_of_lexeme? hlexeme position
                  · exact ih hothers token hmem
              · simp at h

theorem lexical_of_tokenize {text : String} {tokens : List Token}
    (h : tokenize text = .ok tokens) : ∀ token ∈ tokens, token.Lexical :=
  lexical_of_scan h

end Scan

/-- No mark starts a token of another kind. -/
theorem isPunct_spec {c : Char} (h : isPunct c = true) :
    c ≠ '-' ∧ c.isDigit = false ∧ c ≠ '"' ∧ isNameStart c = false := by
  simp only [isPunct, List.contains_eq_mem, decide_eq_true_eq] at h
  have hall : ['\x7b', '\x7d', '(', ')', '[', ']', ':', '!', '$', '=', '@', '|', '&'].all (fun c =>
      decide (c ≠ '-' ∧ c.isDigit = false ∧ c ≠ '"' ∧ isNameStart c = false)) = true := by
    decide
  exact of_decide_eq_true (List.all_eq_true.mp hall c h)

/-- A token with the text of a mark is that mark. -/
theorem Lexical.isMark {token : Token} (h : token.Lexical) {c : Char} (hc : isPunct c = true)
    {mark : String} (hmark : mark.toList = [c]) (htext : token.text = mark) :
    IsMark mark token := by
  obtain ⟨hminus, hdigit, hquote, hstart⟩ := isPunct_spec hc
  refine ⟨?_, htext⟩
  rw [Lexical, htext, hmark] at h
  -- a token of another kind starts with another character than a mark
  cases hkind : token.kind with
  | punct => rfl
  | spread =>
      rw [hkind] at h
      simp at h
  | number =>
      rw [hkind] at h
      obtain ⟨d, rest, heq, hd, -⟩ := h
      obtain ⟨rfl, rfl⟩ := List.cons.inj heq
      rcases hd with rfl | hd
      · exact absurd rfl hminus
      · rw [hdigit] at hd
        cases hd
  | string =>
      rw [hkind] at h
      obtain ⟨body, heq, -⟩ := h
      exact absurd (List.cons.inj heq).1 hquote
  | name =>
      rw [hkind] at h
      obtain ⟨d, rest, heq, hd, -⟩ := h
      obtain ⟨rfl, rfl⟩ := List.cons.inj heq
      rw [hstart] at hd
      cases hd

end Token

namespace JsonString

open Token

/-- A string that starts a text ends before the rest of the text. The rest is
what the next token is looked for in. -/
def Closes (cs after : List Char) : Prop :=
  ∃ n, stringLength? cs = some n ∧ n + after.length = cs.length

theorem closes_plain {c : Char} {rest after : List Char} (hquote : c ≠ '"') (hescape : c ≠ '\\')
    (hend : isLineEnd c = false) (h : Closes rest after) : Closes (c :: rest) after := by
  obtain ⟨n, hn, hlen⟩ := h
  refine ⟨n + 1, ?_, by simp only [List.length_cons]; omega⟩
  rw [stringLength?_plain hquote hescape hend, hn]
  rfl

theorem closes_escape {c : Char} {rest after : List Char} (hc : c ≠ '\n')
    (h : Closes rest after) : Closes ('\\' :: c :: rest) after := by
  obtain ⟨n, hn, hlen⟩ := h
  refine ⟨n + 2, ?_, by simp only [List.length_cons]; omega⟩
  rw [stringLength?_escape hc, hn]
  rfl

/-- A hexadecimal digit is an ordinary character of a string. -/
theorem closes_hexDigit {c : Char} {n : Nat} {rest after : List Char}
    (hc : Text.hexValue? c = some n) (h : Closes rest after) : Closes (c :: rest) after := by
  have other : ∀ d, Text.hexValue? d = none → c ≠ d := by
    rintro d hd rfl
    rw [hd] at hc
    cases hc
  exact closes_plain (other _ rfl) (other _ rfl) (isLineEnd_eq_false (other _ rfl) (other _ rfl)) h

theorem closes_unit {a b c d : Char} {n : Nat} {rest after : List Char}
    (hunit : Text.hexUnit? a b c d = some n) (h : Closes rest after) :
    Closes ('\\' :: 'u' :: a :: b :: c :: d :: rest) after := by
  simp only [Text.hexUnit?, Option.bind_eq_bind, Option.bind_eq_some_iff] at hunit
  obtain ⟨_, ha, _, hb, _, hc, _, hd, -⟩ := hunit
  exact closes_escape (by decide)
    (closes_hexDigit ha (closes_hexDigit hb (closes_hexDigit hc (closes_hexDigit hd h))))

/-- Reading a string stops where the string closes. -/
theorem closes_of_read {cs text after : List Char} (h : read cs = .ok (text, after)) :
    Closes cs after := by
  fun_induction read cs generalizing text after with
  -- the cases are the branches of the reader that have a result: the closing quote,
  -- the escapes of one or two code units, the short escapes and plain characters
  | case2 rest =>
      obtain ⟨-, rfl⟩ := Prod.mk.inj (Except.ok.inj h)
      exact ⟨1, rfl, by simp only [List.length_cons]; omega⟩
  | case5 a b c d e f g k rest high hhigh _ low hlow _ cs tail hread ih =>
      obtain ⟨-, rfl⟩ := Prod.mk.inj (Except.ok.inj h)
      exact closes_unit hhigh (closes_unit hlow (ih hread))
  | case7 a b c d e f g k rest high hhigh _ low hlow _ cs tail hread ih =>
      obtain ⟨-, rfl⟩ := Prod.mk.inj (Except.ok.inj h)
      exact closes_unit hhigh (ih hread)
  | case9 a b c d e f g k rest high hhigh _ cs tail hread ih =>
      obtain ⟨-, rfl⟩ := Prod.mk.inj (Except.ok.inj h)
      exact closes_unit hhigh (ih hread)
  | case12 a b c d next rest _ unit hunit cs tail hread ih =>
      obtain ⟨-, rfl⟩ := Prod.mk.inj (Except.ok.inj h)
      exact closes_unit hunit (ih hread)
  | case16 c rest _ _ _ plain hplain cs tail hread ih =>
      obtain ⟨-, rfl⟩ := Prod.mk.inj (Except.ok.inj h)
      refine closes_escape ?_ (ih hread)
      rintro rfl
      cases hplain
  | case20 c rest hquote _ _ _ hescape hlast hcontrol cs tail hread ih =>
      obtain ⟨-, rfl⟩ := Prod.mk.inj (Except.ok.inj h)
      have visible : ∀ d : Char, d.toNat < 32 → c ≠ d := by
        rintro d hd rfl
        exact hcontrol hd
      refine closes_plain hquote ?_
        (isLineEnd_eq_false (visible _ (by decide)) (visible _ (by decide))) (ih hread)
      intro hc
      cases rest with
      | nil => exact hlast hc rfl
      | cons d others => exact hescape d others hc rfl
  | _ => cases h

end JsonString

namespace Query

open Token

/-- The first character tells a number from the other JSON values. -/
theorem readValue?_number {c : Char} {rest : List Char} (hc : c = '-' ∨ c.isDigit = true)
    (hchars : ∀ d ∈ rest, isNumberChar d = true) (fuel : Nat) :
    Json.readValue? (fuel + 1) (c :: rest) =
      (NumberLiteral.read? (c :: rest)).map fun read => (Json.ofLiteral read.1, read.2) := by
  have other : ∀ d : Char, d ≠ '-' → d.isDigit = false → c ≠ d := by
    rintro d hminus hdigit rfl
    rcases hc with hc | hc
    · exact hminus hc
    · rw [hdigit] at hc
      cases hc
  have noWord : ∀ (d : Char) (word : String), word.toList.head? = some d → d ≠ '-' →
      d.isDigit = false → Json.afterWord? word (c :: rest) = none := by
    intro d word hword hminus hdigit
    cases htext : word.toList with
    | nil => simp [htext] at hword
    | cons e tail =>
        have hed : e = d := by simpa [htext] using hword
        have hne : (e == c) = false := by
          simpa [hed] using Ne.symm (other d hminus hdigit)
        simp [Json.afterWord?, htext, List.isPrefixOf, hne]
  -- this word starts with a minus sign, but its letters are not those of numbers
  have noInfinity : Json.afterWord? "-Infinity" (c :: rest) = none := by
    refine if_neg fun hprefix => ?_
    obtain ⟨tail, htail⟩ := List.isPrefixOf_iff_prefix.mp hprefix
    have hI : 'I' ∈ rest := by
      rw [← (List.cons.inj htail).2]
      exact List.mem_cons_self
    have hfalse := hchars 'I' hI
    cases hfalse
  have hscalar : Json.readValue? (fuel + 1) (c :: rest) = Json.readScalar? (c :: rest) := by
    rw [Json.readValue?]
    · exact fun _ h => other _ (by decide) (by decide) (List.cons.inj h).1
    · exact fun _ h => other _ (by decide) (by decide) (List.cons.inj h).1
    · exact fun _ h => other _ (by decide) (by decide) (List.cons.inj h).1
  rw [hscalar, Json.readScalar?, noWord 'n' "null" rfl (by decide) (by decide),
    noWord 't' "true" rfl (by decide) (by decide), noWord 'f' "false" rfl (by decide) (by decide)]
  simp only [Json.readNumber?, noWord 'N' "NaN" rfl (by decide) (by decide),
    noWord 'I' "Infinity" rfl (by decide) (by decide), noInfinity]
  cases NumberLiteral.read? (c :: rest) <;> rfl

/-- There is no blank among the characters of a number. -/
theorem skipSpace_number {cs : List Char} (h : ∀ c ∈ cs, isNumberChar c = true) :
    Json.skipSpace cs = cs := by
  cases cs with
  | nil => rfl
  | cons c rest =>
      have hspace : Json.isSpace c = false := by
        have hc := h c List.mem_cons_self
        rw [Bool.eq_false_iff]
        intro hblank
        simp only [Json.isSpace, Bool.or_eq_true, beq_iff_eq] at hblank
        rcases hblank with ((rfl | rfl) | rfl) | rfl <;> cases hc
      simp [Json.skipSpace, hspace]

/-- The text of a number token is a JSON value exactly if it can be read as one
number literal. -/
theorem parse?_number {token : Token} (hkind : token.kind = .number) (h : token.Lexical) :
    Json.parse? token.text =
      match NumberLiteral.read? token.text.toList with
      | some (literal, []) => some (Json.ofLiteral literal)
      | _ => none := by
  rw [Lexical, hkind] at h
  obtain ⟨c, rest, htext, hc, hchars⟩ := h
  simp only [Json.parse?, htext, skipSpace_number hchars]
  rw [readValue?_number hc (fun d hd => hchars d (List.mem_cons_of_mem c hd))]
  cases hread : NumberLiteral.read? (c :: rest) with
  | none => rfl
  | some read =>
      obtain ⟨literal, after⟩ := read
      obtain ⟨d, part, hcs, -, -⟩ := NumberLiteral.read?_spec hread
      -- what is left over has characters of numbers only, so no space is skipped
      have hafter : Json.skipSpace after = after := by
        refine skipSpace_number fun d hd => hchars d ?_
        rw [hcs]
        exact List.mem_append_right _ hd
      cases after with
      | nil => rfl
      | cons d tail => simp [hafter]

/-- A number token is too long exactly if its literal is an integer with more
digits than are converted. -/
theorem isLong_iff {token : Token} (hkind : token.kind = .number) {literal : NumberLiteral}
    (hread : NumberLiteral.read? token.text.toList = some (literal, [])) :
    token.IsLong ↔ literal.isInteger = true ∧ mostDigits < literal.whole.length := by
  constructor
  · rintro ⟨-, hmarks, hlong⟩
    have hinteger := NumberLiteral.isInteger_of_read? hread hmarks
    rw [NumberLiteral.digits_of_read? hread hinteger] at hlong
    exact ⟨hinteger, hlong⟩
  · rintro ⟨hinteger, hlong⟩
    refine ⟨hkind, NumberLiteral.marks_of_read? hread hinteger, ?_⟩
    rwa [NumberLiteral.digits_of_read? hread hinteger]

/-- The literal of a number token that is not too long is the number that its
text holds. -/
theorem numberValue_eq_ok_iff {token : Token} (hkind : token.kind = .number) (h : token.Lexical)
    (value : Json) : numberValue token.text token.position = .ok value ↔
      ¬ token.IsLong ∧ Json.parse? token.text = some value := by
  rw [parse?_number hkind h, numberValue]
  cases hread : NumberLiteral.read? token.text.toList with
  | none => simp
  | some read =>
      obtain ⟨literal, after⟩ := read
      cases after with
      | cons c rest => simp
      | nil =>
          dsimp only
          rw [isLong_iff hkind hread, Option.some.injEq]
          cases hinteger : literal.isInteger <;> by_cases hlong :
            mostDigits < literal.whole.length <;>
            simp [hlong]

/-- Only the conversion of a long integer can be at fault where a number token
is read. -/
theorem isLong_of_numberValue {token : Token} (hkind : token.kind = .number) {digits : Nat}
    (h : numberValue token.text token.position = .error (.integerTooLong digits)) :
    token.IsLong := by
  rw [numberValue] at h
  split at h
  · next literal hread =>
      split at h
      · next hlong =>
          rw [Bool.and_eq_true, decide_eq_true_eq] at hlong
          exact (isLong_iff hkind hread).mpr hlong
      · cases h
  · cases h

/-- The literal of a string token is the string that its text holds. -/
theorem stringValue_eq_ok_iff {token : Token} (hkind : token.kind = .string) (h : token.Lexical)
    (value : Json) : stringValue token.text = .ok value ↔
    Json.parse? token.text = some value := by
  rw [Lexical, hkind] at h
  obtain ⟨body, htext, hlength⟩ := h
  have hspace : Json.skipSpace ('"' :: body) = '"' :: body := rfl
  simp only [Json.parse?, stringValue, htext, hspace, Json.readValue?]
  cases hread : JsonString.read body with
  | error fault => simp
  | ok read =>
      obtain ⟨cs, after⟩ := read
      obtain ⟨n, hn, hclosed⟩ := JsonString.closes_of_read hread
      -- the string closes where the token ends
      have hend : after = [] := by
        rw [hlength, Option.some.injEq] at hn
        subst hn
        exact List.length_eq_zero_iff.mp (by omega)
      subst hend
      simp [Json.skipSpace]

end Query

end JsonSelection
