import JsonSelection.Proofs.Query.Reading

/-!
# The longest token at the start of a text

The forms of the five kinds of tokens are stated on their own, as sets of texts.

## What this module delivers

- `NumberLiteral.IsNumber`: the form of a number, part by part. A number is read
  as far as one goes (`NumberLiteral.read?_of_isNumber`).
- `StringBody`: what may stand between the quotes of a string token.
- `TokenKind.Form`: the texts of the tokens of a kind.
- `Token.Starts`: a text starts a longer one as a token of a kind, and no longer
  start of that text has the form of a token.
- `Token.starts_iff`: where a token starts, the scanner takes such a text.
- `Token.lexeme?_eq_none_iff`: where it takes nothing, neither a gap nor a token
  starts.

The longest token is the longest of all kinds, not of one: no text has the form
of two kinds, and where one kind starts no other one does.
-/

set_option autoImplicit false

namespace JsonSelection

namespace NumberLiteral

open Token

/-! ### The form of numbers -/

/-- Digits only, and at least one. -/
def IsDigits (cs : List Char) : Prop :=
  cs ≠ [] ∧ ∀ c ∈ cs, c.isDigit = true

/-- The digits before the point: a lone zero, or digits that do not start with
one. A leading zero ends the number. -/
def IsWhole (cs : List Char) : Prop :=
  cs = ['0'] ∨ (IsDigits cs ∧ ∀ rest, cs ≠ '0' :: rest)

/-- A point with digits after it, or nothing. A point without digits belongs to
no number. -/
def IsFraction (cs : List Char) : Prop :=
  cs = [] ∨ ∃ digits, cs = '.' :: digits ∧ IsDigits digits

/-- An exponent mark with digits after it, with or without a sign between them,
or nothing. -/
def IsExponent (cs : List Char) : Prop :=
  cs = [] ∨ ∃ mark sign digits, cs = mark :: (sign ++ digits) ∧
    (mark = 'e' ∨ mark = 'E') ∧
    (sign = [] ∨ sign = ['+'] ∨ sign = ['-']) ∧ IsDigits digits

/-- The text of a number: a minus sign if it is negative, then the parts in order. -/
def IsNumber (cs : List Char) : Prop :=
  ∃ sign whole fraction exponent, cs = sign ++ (whole ++ (fraction ++ exponent)) ∧
    (sign = [] ∨ sign = ['-']) ∧ IsWhole whole ∧ IsFraction fraction ∧ IsExponent exponent

theorem isDigits_spanDigits {cs : List Char} (h : (spanDigits cs).1 ≠ []) :
    IsDigits (spanDigits cs).1 :=
  ⟨h, (spanDigits_spec cs).2⟩

/-! ### What is read has the form of a number -/

theorem isWhole_of_read {cs whole rest : List Char} (h : readWhole? cs = some (whole, rest)) :
    cs = whole ++ rest ∧ IsWhole whole := by
  obtain ⟨c, digits, rfl, hcs, hdigits⟩ := readWhole?_spec h
  refine ⟨hcs, ?_⟩
  by_cases hc : c = '0'
  · -- a leading zero is read alone
    subst hc
    rw [hcs, List.cons_append, readWhole?, if_pos rfl] at h
    exact Or.inl (Prod.mk.inj (Option.some.inj h)).1.symm
  · exact Or.inr ⟨⟨List.cons_ne_nil c digits, hdigits⟩, fun _ heq =>
      hc (List.cons.inj heq).1⟩

theorem isFraction_of_read (cs : List Char) :
    ∃ part, cs = part ++ (readFraction cs).2 ∧ IsFraction part := by
  unfold readFraction
  split
  · next tail =>
      simp only
      split
      · exact ⟨[], rfl, Or.inl rfl⟩
      · next hdigits =>
          refine ⟨'.' :: (spanDigits tail).1, ?_, Or.inr ⟨_, rfl, isDigits_spanDigits ?_⟩⟩
          · rw [List.cons_append, (spanDigits_spec tail).1]
          · exact fun hnil => hdigits (List.isEmpty_iff.mpr hnil)
  · exact ⟨[], rfl, Or.inl rfl⟩

theorem splitSign_spec (cs : List Char) :
    ∃ sign, cs = sign ++ (splitSign cs).2 ∧ (sign = [] ∨ sign = ['+'] ∨ sign = ['-']) := by
  fun_cases splitSign cs with
  | case1 tail => exact ⟨['-'], rfl, Or.inr (Or.inr rfl)⟩
  | case2 tail => exact ⟨['+'], rfl, Or.inr (Or.inl rfl)⟩
  | case3 => exact ⟨[], rfl, Or.inl rfl⟩

theorem isExponent_of_read (cs : List Char) :
    ∃ part, cs = part ++ (readExponent cs).2 ∧ IsExponent part := by
  cases cs with
  | nil => exact ⟨[], rfl, Or.inl rfl⟩
  | cons mark tail =>
      by_cases hmark : mark = 'e' ∨ mark = 'E'
      · rw [readExponent_mark hmark]
        split
        · exact ⟨[], rfl, Or.inl rfl⟩
        · next hdigits =>
            -- the sign may be missing, and then it is the empty text
            obtain ⟨sign, hsign, hform⟩ := splitSign_spec tail
            refine ⟨mark :: (sign ++ (spanDigits (splitSign tail).2).1), ?_,
              Or.inr ⟨mark, sign, _, rfl, hmark,
              hform, isDigits_spanDigits ?_⟩⟩
            · rw [List.cons_append, List.append_assoc, (spanDigits_spec _).1, ← hsign]
            · exact fun hnil => hdigits (List.isEmpty_iff.mpr hnil)
      · refine ⟨[], ?_, Or.inl rfl⟩
        simp only [readExponent, if_neg hmark, List.nil_append]

theorem splitMinus_spec (cs : List Char) :
    ∃ sign, cs = sign ++ (splitMinus cs).2 ∧ (sign = [] ∨ sign = ['-']) := by
  fun_cases splitMinus cs with
  | case1 tail => exact ⟨['-'], rfl, Or.inr rfl⟩
  | case2 => exact ⟨[], rfl, Or.inl rfl⟩

/-- A number that is read starts the text and has the form of a number. -/
theorem isNumber_of_read {cs rest : List Char} {literal : NumberLiteral}
    (h : read? cs = some (literal, rest)) : ∃ part, cs = part ++ rest ∧ IsNumber part := by
  rw [read?_eq] at h
  obtain ⟨⟨whole, after⟩, hwhole, hread⟩ := Option.map_eq_some_iff.mp h
  obtain ⟨-, rfl⟩ := Prod.mk.inj hread
  obtain ⟨sign, hsign, hsignForm⟩ := splitMinus_spec cs
  obtain ⟨hunsigned, hwholeForm⟩ := isWhole_of_read hwhole
  obtain ⟨fraction, hfraction, hfractionForm⟩ := isFraction_of_read after
  obtain ⟨exponent, hexponent, hexponentForm⟩ := isExponent_of_read (readFraction after).2
  refine ⟨sign ++ (whole ++ (fraction ++ exponent)), ?_, sign, whole, fraction, exponent,
    rfl, hsignForm,
    hwholeForm, hfractionForm, hexponentForm⟩
  calc cs = sign ++ (whole ++ after) := by rw [← hunsigned, ← hsign]
    _ = sign ++ (whole ++ (fraction ++ (exponent ++ (readExponent (readFraction after).2).2))) := by
        rw [← hexponent, ← hfraction]
    _ = _ := by simp only [List.append_assoc]

/-! ### A number is read as far as one goes

Reading takes a part whole if what follows neither continues it nor could be
taken for the start of another part. -/

/-- Text that goes on neither with a digit nor with a point, so that it belongs
to no digits before it. -/
def Detached (cs : List Char) : Prop :=
  ∀ c rest, cs = c :: rest → c.isDigit = false ∧ c ≠ '.'

theorem spanDigits_append_digits {digits : List Char} (h : ∀ c ∈ digits, c.isDigit = true)
    (rest : List Char) : spanDigits (digits ++ rest) =
      (digits ++ (spanDigits rest).1, (spanDigits rest).2) := by
  simp only [spanDigits, List.takeWhile_append_of_pos h, List.dropWhile_append_of_pos h]

theorem spanDigits_snd_le (cs : List Char) : (spanDigits cs).2.length ≤ cs.length :=
  (List.dropWhile_suffix _).length_le

/-- The digits before the point are read to their end at least, and no further
if no digit follows. -/
theorem readWhole?_of_isWhole {whole : List Char} (h : IsWhole whole) (rest : List Char) :
    ∃ read after, readWhole? (whole ++ rest) = some (read, after) ∧
    after.length ≤ rest.length ∧
      ((∀ c tail, rest = c :: tail → c.isDigit = false) → after = rest) := by
  rcases h with rfl | ⟨⟨hne, hdigits⟩, hzero⟩
  · exact ⟨['0'], rest, rfl, Nat.le_refl _, fun _ => rfl⟩
  · cases whole with
    | nil => exact absurd rfl hne
    | cons c tail =>
        have hc : c ≠ '0' := fun heq => hzero tail (by rw [heq])
        have htail := spanDigits_append_digits (fun d hd => hdigits d (List.mem_cons_of_mem c hd))
          rest
        refine ⟨c :: (tail ++ (spanDigits rest).1), (spanDigits rest).2, ?_,
          spanDigits_snd_le rest, ?_⟩
        · rw [List.cons_append, readWhole?, if_neg hc,
            if_pos (hdigits c List.mem_cons_self), htail]
        · intro hrest
          rw [spanDigits_of_not_digit hrest]

theorem readFraction_le (cs : List Char) : (readFraction cs).2.length ≤ cs.length := by
  obtain ⟨part, hpart, -⟩ := isFraction_of_read cs
  exact (hpart ▸ List.suffix_append part _).length_le

theorem readExponent_le (cs : List Char) : (readExponent cs).2.length ≤ cs.length := by
  obtain ⟨part, hpart, -⟩ := isExponent_of_read cs
  exact (hpart ▸ List.suffix_append part _).length_le

theorem readFraction_of_detached {cs : List Char} (h : Detached cs) : (readFraction cs).2 = cs := by
  rw [readFraction_of_ne]
  rintro rest rfl
  exact (h '.' rest rfl).2 rfl

/-- A fraction is read to its end at least, and no further if neither a digit
nor a point follows. -/
theorem readFraction_of_isFraction {fraction : List Char} (h : IsFraction fraction)
    (rest : List Char) :
    (readFraction (fraction ++ rest)).2.length ≤ rest.length ∧
      (Detached rest → (readFraction (fraction ++ rest)).2 = rest) := by
  rcases h with rfl | ⟨digits, rfl, hne, hdigits⟩
  · exact ⟨readFraction_le rest, readFraction_of_detached⟩
  · have hread : (readFraction ('.' :: digits ++ rest)).2 = (spanDigits rest).2 := by
      simp only [List.cons_append, readFraction, spanDigits_append_digits hdigits]
      rw [if_neg (by simp [hne])]
    rw [hread]
    exact ⟨spanDigits_snd_le rest, fun hrest => by
      rw [spanDigits_of_not_digit fun c tail heq => (hrest c tail heq).1]⟩

/-- The parts before the exponent are read to their end at least, and no further
if neither a digit nor a point follows. -/
theorem readWhole?_readFraction {whole fraction : List Char} (hwhole : IsWhole whole)
    (hfraction : IsFraction fraction) (rest : List Char) :
    ∃ read after, readWhole? (whole ++ (fraction ++ rest)) = some (read, after) ∧
      (readFraction after).2.length ≤ rest.length ∧
      (Detached rest → (readFraction after).2 = rest) := by
  obtain ⟨read, after, hread, hle, hexact⟩ := readWhole?_of_isWhole hwhole (fraction ++ rest)
  refine ⟨read, after, hread, ?_⟩
  obtain ⟨hfractionLe, hfractionExact⟩ := readFraction_of_isFraction hfraction rest
  rcases hfraction with rfl | ⟨digits, rfl, -⟩
  · refine ⟨Nat.le_trans (readFraction_le after) hle, fun hrest => ?_⟩
    rw [hexact fun c tail heq => (hrest c tail heq).1]
    exact hfractionExact hrest
  · -- the digits before the point end at it
    rw [hexact]
    · exact ⟨hfractionLe, hfractionExact⟩
    · intro c tail heq
      obtain ⟨rfl, -⟩ := List.cons.inj heq
      rfl

theorem splitSign_digits {sign digits : List Char} (h : sign = [] ∨ sign = ['+'] ∨ sign = ['-'])
    (hdigits : IsDigits digits) (rest : List Char) :
    (splitSign (sign ++ (digits ++ rest))).2 = digits ++ rest := by
  rcases h with rfl | rfl | rfl
  -- without a sign the first digit must not be taken for one
  · obtain ⟨hne, hall⟩ := hdigits
    cases digits with
    | nil => exact absurd rfl hne
    | cons c tail =>
        have hc := hall c List.mem_cons_self
        rw [List.nil_append, splitSign_of_ne]
        · rintro others heq
          obtain ⟨rfl, -⟩ := List.cons.inj heq
          cases hc
        · rintro others heq
          obtain ⟨rfl, -⟩ := List.cons.inj heq
          cases hc
  · rfl
  · rfl

/-- An exponent is read to its end at least. -/
theorem readExponent_of_isExponent {exponent : List Char} (h : IsExponent exponent)
    (rest : List Char) :
    (readExponent (exponent ++ rest)).2.length ≤ rest.length := by
  rcases h with rfl | ⟨mark, sign, digits, rfl, hmark, hsign, hdigits⟩
  · exact readExponent_le rest
  · rw [List.cons_append, List.append_assoc, readExponent_mark hmark,
      splitSign_digits hsign hdigits,
      spanDigits_append_digits hdigits.2, if_neg (by simp [hdigits.1])]
    exact spanDigits_snd_le rest

theorem detached_exponent {exponent : List Char} (h : IsExponent exponent) (hne : exponent ≠ [])
    (rest : List Char) : Detached (exponent ++ rest) := by
  rcases h with rfl | ⟨mark, sign, digits, rfl, hmark, -⟩
  · exact absurd rfl hne
  · intro c tail heq
    obtain ⟨rfl, -⟩ := List.cons.inj heq
    rcases hmark with rfl | rfl
    · exact ⟨rfl, by decide⟩
    · exact ⟨rfl, by decide⟩

/-- The digits before the point start with a digit. -/
theorem IsWhole.first {whole : List Char} (h : IsWhole whole) :
    ∃ c tail, whole = c :: tail ∧ c.isDigit = true := by
  rcases h with rfl | ⟨⟨hne, hdigits⟩, -⟩
  · exact ⟨'0', [], rfl, rfl⟩
  · cases whole with
    | nil => exact absurd rfl hne
    | cons c tail => exact ⟨c, tail, rfl, hdigits c List.mem_cons_self⟩

/-- A number starts with a minus sign or a digit. -/
theorem IsNumber.first {cs : List Char} (h : IsNumber cs) :
    ∃ c tail, cs = c :: tail ∧ (c = '-' ∨ c.isDigit = true) := by
  obtain ⟨sign, whole, fraction, exponent, rfl, hsign, hwhole, -⟩ := h
  obtain ⟨c, tail, rfl, hc⟩ := hwhole.first
  rcases hsign with rfl | rfl
  · exact ⟨c, tail ++ (fraction ++ exponent), rfl, Or.inr hc⟩
  · exact ⟨'-', c :: tail ++ (fraction ++ exponent), rfl, Or.inl rfl⟩

/-- A number at the start of a text is read to its end at least. -/
theorem read?_of_isNumber {cs : List Char} (h : IsNumber cs) (rest : List Char) :
    ∃ literal after, read? (cs ++ rest) = some (literal, after) ∧
    after.length ≤ rest.length := by
  obtain ⟨sign, whole, fraction, exponent, rfl, hsign, hwhole, hfraction, hexponent⟩ := h
  have hminus : (splitMinus (sign ++ (whole ++ (fraction ++ exponent)) ++ rest)).2 =
      whole ++ (fraction ++ (exponent ++ rest)) := by
    rcases hsign with rfl | rfl
    · obtain ⟨c, tail, rfl, hc⟩ := hwhole.first
      rw [splitMinus_of_ne]
      · simp only [List.nil_append, List.append_assoc]
      · intro others heq
        obtain ⟨rfl, -⟩ := List.cons.inj heq
        cases hc
    · simp only [splitMinus, List.cons_append, List.nil_append, List.append_assoc]
  obtain ⟨read, after, hread, hle, hexact⟩ := readWhole?_readFraction hwhole hfraction
    (exponent ++ rest)
  rw [read?_eq, hminus, hread]
  refine ⟨_, _, rfl, ?_⟩
  -- without an exponent the fraction may go on into the rest
  by_cases hne : exponent = []
  · subst hne
    exact Nat.le_trans (readExponent_le _) hle
  · rw [hexact (detached_exponent hexponent hne rest)]
    exact readExponent_of_isExponent hexponent rest

end NumberLiteral

/-! ### The forms of tokens -/

/-- The characters of a string after its opening quote, up to the closing one. A
backslash takes the next character along; a line end ends no string. -/
inductive StringBody : List Char → Prop where
  | close : StringBody ['"']
  | plain {c : Char} {rest : List Char} :
      c ≠ '"' → c ≠ '\\' → Token.isLineEnd c = false → StringBody rest →
      StringBody (c :: rest)
  | escape {c : Char} {rest : List Char} : c ≠ '\n' → StringBody rest →
      StringBody ('\\' :: c :: rest)

/-- The texts of the tokens of a kind. This is the written form alone; whether a
string can be read is decided later. -/
def TokenKind.Form : TokenKind → List Char → Prop
  | .spread, cs => cs = ['.', '.', '.']
  | .punct, cs => ∃ c, cs = [c] ∧ Token.isPunct c = true
  | .number, cs => NumberLiteral.IsNumber cs
  | .string, cs => ∃ body, cs = '"' :: body ∧ StringBody body
  | .name, cs => ∃ c rest, cs = c :: rest ∧ Token.isNameStart c = true ∧
      ∀ d ∈ rest, Token.isNameChar d = true

namespace Token

/-- A text starts a longer one as a token of a kind: it has the form of the
kind, and no longer start of that text has the form of a token. -/
def Starts (kind : TokenKind) (lexeme text : List Char) : Prop :=
  lexeme <+: text ∧ kind.Form lexeme ∧
    ∀ other kind', other <+: text → TokenKind.Form kind' other →
    other.length ≤ lexeme.length

/-- Neither a gap nor a token starts a text. Only there a text cannot be cut
into tokens. -/
def NothingStarts (text : List Char) : Prop :=
  ¬ Inert text ∧ ∀ other kind, other <+: text → ¬ TokenKind.Form kind other

theorem stringLength?_of_stringBody {body : List Char} (h : StringBody body) (rest : List Char) :
    stringLength? (body ++ rest) = some body.length := by
  induction h with
  | close => rfl
  | plain hquote hescape hend _ ih =>
      rw [List.cons_append, stringLength?_plain hquote hescape hend, ih]
      rfl
  | escape hc _ ih =>
      rw [List.cons_append, List.cons_append, stringLength?_escape hc, ih]
      rfl

theorem stringBody_of_stringLength? {cs : List Char} {n : Nat} (h : stringLength? cs = some n) :
    StringBody (cs.take n) := by
  fun_induction stringLength? cs generalizing n with
  | case1 => cases h
  | case2 rest =>
      obtain rfl := Option.some.inj h
      exact .close
  | case3 => cases h
  | case4 c rest hc ih =>
      obtain ⟨m, hm, rfl⟩ := Option.map_eq_some_iff.mp h
      exact .escape hc (ih hm)
  | case5 => cases h
  | case6 => cases h
  | case7 c rest hquote hescape hlast hend ih =>
      obtain ⟨m, hm, rfl⟩ := Option.map_eq_some_iff.mp h
      refine .plain hquote ?_ (by simpa using hend) (ih hm)
      intro hc
      cases rest with
      | nil => exact hlast hc rfl
      | cons d tail => exact hescape d tail hc rfl

/-- The part that starts a text has the form of its kind. -/
theorem form_of_lexeme? {c : Char} {rest : List Char} {kind : TokenKind} {further : Nat}
    (h : lexeme? (c :: rest) = some (some kind, further)) : kind.Form (c :: rest.take further) := by
  cases part_of_lexeme? h with
  | spread => rfl
  | punct _ _ hpunct => exact ⟨c, rfl, hpunct⟩
  | number _ _ hlength =>
      obtain ⟨⟨literal, after⟩, hread, rfl⟩ := Option.map_eq_some_iff.mp hlength
      obtain ⟨part, hcs, hpart⟩ := NumberLiteral.isNumber_of_read hread
      obtain ⟨d, tail, rfl, -⟩ := hpart.first
      obtain ⟨rfl, rfl⟩ := List.cons.inj hcs
      -- the scanner counts what the reader leaves over, so the part is what it took
      have htaken : (c :: (tail ++ after)).length - after.length - 1 = tail.length := by
        simp only [List.length_cons, List.length_append]
        omega
      change NumberLiteral.IsNumber (c ::
        (tail ++ after).take ((c :: (tail ++ after)).length - after.length - 1))
      rw [htaken, List.take_left]
      exact hpart
  | string hlength => exact ⟨rest.take further, rfl, stringBody_of_stringLength? hlength⟩
  | name _ _ hstart =>
      refine ⟨c, _, rfl, hstart, ?_⟩
      rw [← List.prefix_iff_eq_take.mp (List.takeWhile_prefix isNameChar)]
      exact fun d hd => List.all_eq_true.mp List.all_takeWhile d hd

theorem isPunct_starts {c : Char} (h : isPunct c = true) : isIgnored c = false ∧
    c ≠ '#' ∧ c ≠ '.' := by
  simp only [isPunct, List.contains_eq_mem, decide_eq_true_eq] at h
  have hall : ['\x7b', '\x7d', '(', ')', '[', ']', ':', '!', '$', '=', '@', '|', '&'].all (fun c =>
      decide (isIgnored c = false ∧ c ≠ '#' ∧ c ≠ '.')) = true := by
    decide
  exact of_decide_eq_true (List.all_eq_true.mp hall c h)

theorem number_starts {c : Char} (h : c = '-' ∨ c.isDigit = true) :
    isIgnored c = false ∧ c ≠ '#' ∧ c ≠ '.' ∧ isPunct c = false := by
  rcases h with rfl | h
  · exact ⟨rfl, by decide, by decide, rfl⟩
  · have hname : isNameChar c = true := by
      simp [isNameChar, Char.isAlphanum, h]
    exact ⟨isIgnored_of_isNameChar hname, ne_of_isNameChar hname rfl, ne_of_isNameChar hname rfl,
      isPunct_of_isNameChar hname⟩

/-- Where a text has the form of a token, a part of that kind is cut off, and it
is no shorter. -/
theorem lexeme?_of_form {kind : TokenKind} {lexeme : List Char} (h : kind.Form lexeme)
    (rest : List Char) :
    ∃ further, lexeme? (lexeme ++ rest) = some (some kind, further) ∧
    lexeme.length ≤ further + 1 := by
  cases kind with
  | spread =>
      subst h
      exact ⟨2, by simp [lexeme?, show isIgnored '.' = false from rfl], Nat.le_refl _⟩
  | punct =>
      obtain ⟨c, rfl, hc⟩ := h
      obtain ⟨hignored, hcomment, hpoint⟩ := isPunct_starts hc
      exact ⟨0, by simp [lexeme?, hignored, hcomment, hpoint, hc], Nat.le_refl _⟩
  -- a longer number may be read, as the text behind can go on with it
  | number =>
      obtain ⟨literal, after, hread, hle⟩ := NumberLiteral.read?_of_isNumber h rest
      obtain ⟨c, tail, rfl, hc⟩ := NumberLiteral.IsNumber.first h
      obtain ⟨hignored, hcomment, hpoint, hpunct⟩ := number_starts hc
      rw [List.cons_append] at hread
      refine ⟨(c :: (tail ++ rest)).length - after.length - 1, ?_, ?_⟩
      · simp [lexeme?, hignored, hcomment, hpoint, hpunct, numberLength?, hread]
      · simp only [List.length_cons, List.length_append]
        omega
  | string =>
      obtain ⟨body, rfl, hbody⟩ := h
      have hnumber : numberLength? ('"' :: (body ++ rest)) = none := rfl
      refine ⟨body.length, ?_, Nat.le_refl _⟩
      simp [lexeme?, show isIgnored '"' = false from rfl, show isPunct '"' =
        false from rfl, hnumber,
        stringLength?_of_stringBody hbody]
  | name =>
      obtain ⟨c, tail, rfl, hstart, htail⟩ := h
      have hc := isNameChar_of_isNameStart hstart
      refine ⟨((tail ++ rest).takeWhile isNameChar).length, ?_, ?_⟩
      · simp [lexeme?, isIgnored_of_isNameChar hc, isPunct_of_isNameChar hc,
          numberLength?_of_isNameStart hstart, hstart,
          ne_of_isNameChar hc (show isNameChar '#' = false from rfl),
          ne_of_isNameChar hc (show isNameChar '.' = false from rfl),
          ne_of_isNameChar hc (show isNameChar '"' = false from rfl)]
      · rw [List.takeWhile_append_of_pos htail, List.length_cons, List.length_append]
        omega

/-- The part that starts a text is the longest start of the text that has the
form of a token. -/
theorem starts_iff {kind : TokenKind} {lexeme : List Char} {c : Char} {rest : List Char} :
    Starts kind lexeme (c :: rest) ↔
      ∃ further, lexeme? (c :: rest) = some (some kind, further) ∧
      lexeme = c :: rest.take further := by
  constructor
  · rintro ⟨⟨more, hmore⟩, hform, hlongest⟩
    -- what is cut off is no shorter than the token, and as a token itself it is no longer
    obtain ⟨further, hlexeme, hle⟩ := lexeme?_of_form hform more
    rw [hmore] at hlexeme
    have hprefix : c :: rest.take further <+: c :: rest :=
      List.prefix_cons_inj c |>.mpr (List.take_prefix further rest)
    have hlength := hlongest _ kind hprefix (form_of_lexeme? hlexeme)
    refine ⟨further, hlexeme, List.IsPrefix.eq_of_length ?_ ?_⟩
    · apply List.prefix_of_prefix_length_le ⟨more, hmore⟩ hprefix
      rw [List.length_cons, List.length_take, Nat.min_eq_left (further_le hlexeme)]
      exact hle
    · rw [List.length_cons, List.length_take, Nat.min_eq_left (further_le hlexeme)] at hlength ⊢
      omega
  · rintro ⟨further, hlexeme, rfl⟩
    refine ⟨(List.prefix_cons_inj c).mpr (List.take_prefix further rest),
      form_of_lexeme? hlexeme, ?_⟩
    rintro other kind' ⟨more, hmore⟩ hform
    obtain ⟨further', hlexeme', hle⟩ := lexeme?_of_form hform more
    rw [hmore, hlexeme, Option.some.injEq, Prod.mk.injEq] at hlexeme'
    obtain ⟨-, rfl⟩ := hlexeme'
    rw [List.length_cons, List.length_take, Nat.min_eq_left (further_le hlexeme)]
    exact hle

/-- Nothing is cut off exactly where neither a gap nor a token starts. -/
theorem lexeme?_eq_none_iff {c : Char} {rest : List Char} :
    lexeme? (c :: rest) = none ↔ NothingStarts (c :: rest) := by
  constructor
  · intro h
    refine ⟨fun hinert => ?_, ?_⟩
    · rcases hinert c rest rfl with hignored | rfl
      · rw [lexeme?_ignored hignored] at h
        cases h
      · rw [lexeme?_comment] at h
        cases h
    · rintro other kind ⟨more, hmore⟩ hform
      obtain ⟨further, hlexeme, -⟩ := lexeme?_of_form hform more
      rw [hmore, h] at hlexeme
      cases hlexeme
  · rintro ⟨hinert, hform⟩
    cases hlexeme : lexeme? (c :: rest) with
    | none => rfl
    | some part =>
        obtain ⟨kind, further⟩ := part
        cases kind with
        | none =>
            refine absurd ?_ hinert
            intro d others heq
            obtain ⟨rfl, -⟩ := List.cons.inj heq
            exact starts_of_gap hlexeme
        | some kind =>
            -- the part that is cut off is itself a front of the text with the form
            -- of a token
            have hprefix : c :: rest.take further <+: c :: rest :=
              (List.prefix_cons_inj c).mpr (List.take_prefix further rest)
            exact absurd (form_of_lexeme? hlexeme) (hform _ kind hprefix)

end Token

end JsonSelection
