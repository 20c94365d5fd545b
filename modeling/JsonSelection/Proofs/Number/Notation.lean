import JsonSelection.Proofs.Number.Shortest
import JsonSelection.Proofs.Query.Lexemes

/-!
# Number texts are read back

The texts of decimals, in either form, and of integers are texts of number
literals (`NumberLiteral.text`), and the text of a literal is read as this
literal.

## What this module delivers

- `NumberLiteral.Regular`: the parts of a literal are as they are read.
- `NumberLiteral.read?_text`: the text of such a literal is read to its end, as
  this literal.
- `NumberLiteral.size`: the exact number that a literal stands for, sign apart.
- `NumberLiteral.exists_integer`: the text of an integer is the text of a
  literal.
- `NumberLayout.writes_decimal`: so is the text of a decimal, and the size of
  the literal is the value of the decimal.

So a text tells the sign and the size of the number that it was written for.
Which number a size is rounded to is the subject of `Proofs/Number/Shortest`.
-/

set_option autoImplicit false

namespace JsonSelection

namespace NumberLiteral

/-! ### Literals and their texts

A literal is read part by part, and each part ends where the next one starts: no
digit starts a fraction, an exponent, or what follows. -/

/-- The text of a fraction. -/
def fractionText : Option (List Char) → List Char
  | none => []
  | some digits => '.' :: digits

/-- The text of an exponent, which always has a sign. -/
def exponentText : Option (Bool × List Char) → List Char
  | none => []
  | some (negative, digits) => 'e' :: (if negative then '-' else '+') :: digits

/-- The text of a literal. -/
def text (literal : NumberLiteral) : List Char :=
  (if literal.negative then ['-'] else []) ++
    (literal.whole ++ (fractionText literal.fraction ++ exponentText literal.exponent))

/-- The parts of a literal are as they are read: no needless zero before the
point, and digits wherever there are to be some. -/
structure Regular (literal : NumberLiteral) : Prop where
  whole : IsWhole literal.whole
  fraction : ∀ digits, literal.fraction = some digits → IsDigits digits
  exponent : ∀ negative digits, literal.exponent = some (negative, digits) → IsDigits digits

theorem readWhole?_append_of_isWhole {whole rest : List Char} (h : IsWhole whole)
    (hrest : ∀ c tail, rest = c :: tail → c.isDigit = false) :
    readWhole? (whole ++ rest) = some (whole, rest) := by
  obtain ⟨read, after, hread, -, hafter⟩ := readWhole?_of_isWhole h rest
  obtain rfl := hafter hrest
  obtain ⟨_, _, -, happend, -⟩ := readWhole?_spec hread
  rw [hread, List.append_cancel_right happend]

theorem spanDigits_append_of_isDigits {digits : List Char} (h : IsDigits digits) (rest : List Char)
    (hrest : ∀ c tail, rest = c :: tail → c.isDigit = false) :
    spanDigits (digits ++ rest) = (digits, rest) := by
  rw [spanDigits_append_digits h.2, spanDigits_of_not_digit hrest, List.append_nil]

theorem IsDigits.isEmpty_eq {digits : List Char} (h : IsDigits digits) :
    digits.isEmpty = false := by
  rw [List.isEmpty_eq_false_iff]
  exact h.1

/-- An exponent starts with its mark. -/
theorem exponentText_first {exponent : Option (Bool × List Char)} {c : Char} {tail : List Char}
    (h : exponentText exponent = c :: tail) : c = 'e' := by
  cases exponent with
  | none => cases h
  | some parts => exact (List.cons.inj h).1.symm

theorem fractionText_first {fraction : Option (List Char)}
    {exponent : Option (Bool × List Char)} {c : Char} {tail : List Char}
    (h : fractionText fraction ++ exponentText exponent = c :: tail) :
    c.isDigit = false := by
  cases fraction with
  | none =>
      rw [exponentText_first h]
      rfl
  | some digits =>
      rw [← (List.cons.inj h).1]
      rfl

theorem readExponent_text {exponent : Option (Bool × List Char)}
    (h : ∀ negative digits, exponent = some (negative, digits) → IsDigits digits) :
    readExponent (exponentText exponent) = (exponent, []) := by
  cases exponent with
  | none => rfl
  | some parts =>
      obtain ⟨negative, digits⟩ := parts
      have hdigits : IsDigits digits := h negative digits rfl
      have hspan := spanDigits_append_of_isDigits hdigits [] (by intro _ _ heq; cases heq)
      rw [List.append_nil] at hspan
      have hsign : splitSign ((if negative then '-' else '+') :: digits) = (negative, digits) := by
        cases negative <;> rfl
      rw [exponentText, readExponent_mark (Or.inl rfl), hsign, hspan, hdigits.isEmpty_eq]
      rfl

theorem readFraction_text {fraction : Option (List Char)} (exponent : Option (Bool × List Char))
    (h : ∀ digits, fraction = some digits → IsDigits digits) :
    readFraction (fractionText fraction ++ exponentText exponent) =
      (fraction, exponentText exponent) := by
  cases fraction with
  | none =>
      refine readFraction_of_ne fun rest heq => ?_
      have hmark := exponentText_first heq
      exact absurd hmark (by decide)
  | some digits =>
      have hdigits : IsDigits digits := h digits rfl
      have hspan := spanDigits_append_of_isDigits hdigits (exponentText exponent)
        fun c tail heq => by
        rw [exponentText_first heq]
        rfl
      simp only [fractionText, List.cons_append, readFraction, hspan, hdigits.isEmpty_eq]
      rfl

/-- The text of a literal is read as this literal, to its end. -/
theorem read?_text {literal : NumberLiteral} (h : Regular literal) :
    read? literal.text = some (literal, []) := by
  have hminus : splitMinus literal.text =
      (literal.negative, literal.whole ++
        (fractionText literal.fraction ++ exponentText literal.exponent)) := by
    rw [text]
    -- the digits before the point never start with a minus sign
    cases literal.negative with
    | true => rfl
    | false =>
        obtain ⟨c, tail, hwhole, hc⟩ := h.whole.first
        refine splitMinus_of_ne fun rest heq => ?_
        rw [hwhole] at heq
        rw [(List.cons.inj heq).1] at hc
        cases hc
  rw [read?_eq, hminus, readWhole?_append_of_isWhole h.whole fun c tail heq =>
    fractionText_first heq]
  simp only [Option.map_some, readFraction_text literal.exponent h.fraction,
    readExponent_text h.exponent]

/-! ### The size of a literal -/

/-- The power of ten that an exponent stands for. A missing exponent stands for
zero. -/
def power : Option (Bool × List Char) → Int
  | none => 0
  | some (negative, digits) => if negative then -(natOfDigits digits : Int) else natOfDigits digits

/-- The size of the number that a literal stands for. It is exact, whatever the
number of digits is, and has no sign. -/
def size (literal : NumberLiteral) : Rat :=
  natOfDigits (literal.whole ++ literal.fraction.getD []) *
    10 ^ (power literal.exponent - (literal.fraction.getD []).length)

theorem natOfDigits_eq (digits : List Char) : natOfDigits digits = Nat.ofDigitChars 10 digits 0 :=
  rfl

theorem natOfDigits_toDigits (n : Nat) : natOfDigits (Nat.toDigits 10 n) = n :=
  Nat.ofDigitChars_toDigits (by decide) (by decide)

theorem natOfDigits_zeros_append (count : Nat) (digits : List Char) :
    natOfDigits (List.replicate count '0' ++ digits) = natOfDigits digits := by
  rw [natOfDigits_eq, Nat.ofDigitChars_append, Nat.ofDigitChars_replicate_zero, Nat.mul_zero,
    natOfDigits_eq]

theorem natOfDigits_append_zeros (digits : List Char) (count : Nat) :
    natOfDigits (digits ++ List.replicate count '0') = natOfDigits digits * 10 ^ count := by
  rw [natOfDigits_eq, Nat.ofDigitChars_append, Nat.ofDigitChars_replicate_zero, Nat.mul_comm,
    natOfDigits_eq]

/-! ### Decimal digits -/

theorem isDigits_toDigits (n : Nat) : IsDigits (Nat.toDigits 10 n) :=
  ⟨Nat.toDigits_ne_nil, fun _ hc => Nat.isDigit_of_mem_toDigits (by decide) (by decide) hc⟩

theorem isDigits_singleton {c : Char} (h : c.isDigit = true) : IsDigits [c] :=
  ⟨List.cons_ne_nil c [], fun d hd => by rwa [List.mem_singleton.mp hd]⟩

/-- The digits of a positive number start with no zero. -/
theorem toDigits_ne_zero_cons {n : Nat} (h : 0 < n) (rest : List Char) :
    Nat.toDigits 10 n ≠ '0' :: rest := by
  induction n using Nat.strongRecOn generalizing rest with
  | ind n ih =>
      rw [Nat.toDigits_eq_if (by decide)]
      split
      · next hsmall =>
          intro heq
          have hdigit : ∀ m : Nat, m < 10 → 0 < m → m.digitChar ≠ '0' := by decide
          exact hdigit n hsmall h (List.cons.inj heq).1
      -- the first digit of a longer number is that of its front
      · next hlarge =>
          cases hfront : Nat.toDigits 10 (n / 10) with
          | nil => exact absurd hfront Nat.toDigits_ne_nil
          | cons c front =>
              intro heq
              obtain ⟨rfl, -⟩ := List.cons.inj heq
              exact ih (n / 10) (by omega) (by omega) front hfront

theorem isWhole_toDigits (n : Nat) : IsWhole (Nat.toDigits 10 n) := by
  rcases Nat.eq_zero_or_pos n with rfl | hpos
  · exact Or.inl rfl
  · exact Or.inr ⟨isDigits_toDigits n, toDigits_ne_zero_cons hpos⟩

/-- The text of an integer is that of a literal without fraction and exponent. -/
theorem exists_integer (n : Int) :
    ∃ literal, Regular literal ∧ (toString n).toList = literal.text ∧
    literal.isInteger = true ∧
      literal.toInt = n := by
  refine ⟨⟨decide (n < 0), Nat.toDigits 10 n.natAbs, none, none⟩,
    ⟨isWhole_toDigits _, ?_, ?_⟩, ?_, rfl, ?_⟩
  · exact fun _ heq => nomatch heq
  · exact fun _ _ heq => nomatch heq
  · rw [Int.toString_eq_repr, Int.repr_eq_if, text]
    by_cases hn : n < 0
    · have habs : (-n).toNat = n.natAbs := by omega
      rw [if_neg (Int.not_le.mpr hn), if_pos (decide_eq_true hn), habs, Nat.repr_eq_ofList_toDigits]
      simp [fractionText, exponentText]
    · have habs : n.toNat = n.natAbs := by omega
      rw [if_pos (Int.not_lt.mp hn), if_neg (by simpa using hn), habs, Nat.repr_eq_ofList_toDigits]
      simp [fractionText, exponentText]
  · simp only [toInt, natOfDigits_toDigits, decide_eq_true_iff]
    split <;> omega

end NumberLiteral

namespace NumberLayout

open NumberLiteral

/-! ### The texts of decimals

The point may stand before all digits, behind all of them, or between two; zeros
fill what lies between. Each place of the point is a lemma, and the layout only
chooses among them. -/

/-- A text writes a decimal with the given sign: it is the text of a literal
that has the sign and the size of the decimal, and a fraction or an exponent. -/
def Writes (cs : List Char) (negative : Bool) (size : Rat) : Prop :=
  ∃ literal, Regular literal ∧ cs = literal.text ∧ literal.isInteger = false ∧
    literal.negative = negative ∧
    literal.size = size

theorem Writes.negated {cs : List Char} {size : Rat} (h : Writes cs false size) :
    Writes ('-' :: cs) true size := by
  obtain ⟨literal, ⟨hwhole, hfraction, hexponent⟩, rfl, hinteger, hsign, rfl⟩ := h
  refine ⟨{ literal with negative := true }, ⟨hwhole, hfraction, hexponent⟩, ?_,
    hinteger, rfl, rfl⟩
  rw [text, text, hsign]
  rfl

variable {digits : List Char}

theorem isDigits_zeros_append (hdigits : IsDigits digits) (count : Nat) :
    IsDigits (List.replicate count '0' ++ digits) := by
  refine ⟨fun hnil => hdigits.1 (List.append_eq_nil_iff.mp hnil).2, fun c hc => ?_⟩
  rcases List.mem_append.mp hc with hc | hc
  · rw [List.eq_of_mem_replicate hc]
    rfl
  · exact hdigits.2 c hc

/-- The first digits of a number that starts with no zero, with zeros behind them. -/
theorem isWhole_take_append (hdigits : IsDigits digits) (hfirst : ∀ rest, digits ≠ '0' :: rest)
    (count zeros : Nat) (hcount : 0 < count) :
    IsWhole (digits.take count ++ List.replicate zeros '0') := by
  obtain ⟨hne, hall⟩ := hdigits
  cases digits with
  | nil => exact absurd rfl hne
  | cons c rest =>
      obtain ⟨more, rfl⟩ := Nat.exists_eq_add_of_lt hcount
      refine Or.inr ⟨⟨List.cons_ne_nil _ _, fun d hd => ?_⟩, fun tail heq => ?_⟩
      · rcases List.mem_append.mp hd with hd | hd
        · exact hall d (List.mem_of_mem_take hd)
        · rw [List.eq_of_mem_replicate hd]
          rfl
      · exact hfirst rest (by rw [(List.cons.inj heq).1])

/-- A text without an exponent. -/
theorem writes_fraction {whole fraction : List Char} (hwhole : IsWhole whole)
    (hfraction : IsDigits fraction) :
    Writes (whole ++ '.' :: fraction) false
      (natOfDigits (whole ++ fraction) * 10 ^ (-fraction.length : Int)) := by
  refine ⟨⟨false, whole, some fraction, none⟩, ⟨hwhole, ?_, fun _ _ heq => nomatch heq⟩,
    ?_, rfl, rfl, ?_⟩
  · exact fun _ heq => Option.some.inj heq ▸ hfraction
  · simp [text, fractionText, exponentText]
  · rw [size, power, zero_sub]
    rfl

/-- Zeros fill the places between the point and the digits. -/
theorem writes_below_point (hdigits : IsDigits digits) (zeros : Nat) :
    Writes (['0'] ++ '.' :: (List.replicate zeros '0' ++ digits)) false
      (natOfDigits digits * 10 ^ (-(zeros + digits.length) : Int)) := by
  have hwrites := writes_fraction (Or.inl rfl) (isDigits_zeros_append hdigits zeros)
  have hvalue : natOfDigits (['0'] ++ (List.replicate zeros '0' ++ digits)) = natOfDigits digits :=
    (natOfDigits_zeros_append 1 _).trans (natOfDigits_zeros_append zeros digits)
  rw [hvalue, List.length_append, List.length_replicate, Nat.cast_add] at hwrites
  exact hwrites

/-- Zeros fill the places between the digits and the point, and one stands
behind it. -/
theorem writes_above_point (hdigits : IsDigits digits) (hfirst : ∀ rest, digits ≠ '0' :: rest)
    (zeros : Nat) :
    Writes ((digits ++ List.replicate zeros '0') ++ '.' :: ['0']) false
      (natOfDigits digits * 10 ^ (zeros : Int)) := by
  have hwhole := isWhole_take_append hdigits hfirst digits.length zeros
    (List.length_pos_of_ne_nil hdigits.1)
  rw [List.take_length] at hwhole
  have hwrites := writes_fraction hwhole (isDigits_singleton (rfl : '0'.isDigit = true))
  have hzeros : digits ++ List.replicate zeros '0' ++ ['0'] =
      digits ++ List.replicate (zeros + 1) '0' := by
    rw [List.replicate_succ', List.append_assoc]
  have hpower : ((zeros + 1 : Nat) : Int) + -(1 : Int) = zeros := by
    omega
  rwa [hzeros, natOfDigits_append_zeros, Nat.cast_mul, Nat.cast_pow, Nat.cast_ofNat,
    ← zpow_natCast, mul_assoc,
    List.length_singleton, Nat.cast_one, ← zpow_add₀ (by norm_num), hpower] at hwrites

/-- The point stands between digits. -/
theorem writes_around_point (hdigits : IsDigits digits)
    (hfirst : ∀ rest, digits ≠ '0' :: rest) {count : Nat} (hcount : 0 < count)
    (hlength : count < digits.length) :
    Writes (digits.take count ++ '.' :: digits.drop count) false
      (natOfDigits digits * 10 ^ (count - digits.length : Int)) := by
  have hwhole := isWhole_take_append hdigits hfirst count 0 hcount
  rw [List.replicate_zero, List.append_nil] at hwhole
  have hfraction : IsDigits (digits.drop count) :=
    ⟨fun hnil => absurd (List.drop_eq_nil_iff.mp hnil) (Nat.not_le.mpr hlength),
      fun c hc => hdigits.2 c (List.mem_of_mem_drop hc)⟩
  have hwrites := writes_fraction hwhole hfraction
  have hpower : (-(digits.drop count).length : Int) = count - digits.length := by
    rw [List.length_drop]
    omega
  rwa [List.take_append_drop, hpower] at hwrites

/-- A digit text with a point in it or at one of its ends. -/
theorem writes_pointed (hdigits : IsDigits digits) (hfirst : ∀ rest, digits ≠ '0' :: rest)
    (before : Int) :
    Writes (pointed digits before).toList false
      (natOfDigits digits * 10 ^ (before - digits.length)) := by
  unfold pointed
  split
  -- the point stands before all digits, behind all of them or between two
  next hbefore =>
    have hpower : (-((-before).toNat + digits.length) : Int) = before - digits.length := by omega
    have hwrites := writes_below_point hdigits (-before).toNat
    rw [hpower] at hwrites
    simp only [String.toList_append, String.toList_ofList]
    exact hwrites
  next hbefore =>
    simp only [String.toList_append, String.toList_ofList]
    cases hpart : digits.drop before.toNat with
    | nil =>
        have hlength : digits.length ≤ before.toNat := List.drop_eq_nil_iff.mp hpart
        have hpower : ((before.toNat - digits.length : Nat) : Int) = before - digits.length := by
          omega
        have hwrites := writes_above_point hdigits hfirst (before.toNat - digits.length)
        rw [hpower] at hwrites
        rw [List.take_of_length_le hlength, List.append_assoc]
        exact hwrites
    | cons c part =>
        have hlength : before.toNat < digits.length := by
          by_contra hge
          rw [List.drop_eq_nil_iff.mpr (Nat.le_of_not_lt hge)] at hpart
          cases hpart
        have hzeros : before.toNat - (digits.take before.toNat).length = 0 := by
          rw [List.length_take]
          omega
        have hpower : ((before.toNat : Int) - digits.length) = before - digits.length := by omega
        have hwrites := writes_around_point hdigits hfirst (by omega) hlength
        rw [hpower, hpart] at hwrites
        simp only [hzeros, List.replicate_zero, List.append_nil, List.isEmpty_cons,
          Bool.false_eq_true, if_false,
          String.toList_ofList, List.append_assoc]
        exact hwrites

theorem padded_toList (width n : Nat) :
    (padded width n).toList =
      List.replicate (width - (toString n).length) '0' ++ Nat.toDigits 10 n := by
  simp [padded]

/-- A digit text with one digit before the point and an exponent. -/
theorem writes_scientific (layout : NumberLayout) (hdigits : IsDigits digits)
    (hfirst : ∀ rest, digits ≠ '0' :: rest) (exponent : Int) :
    Writes (layout.scientific digits exponent).toList false
      (natOfDigits digits * 10 ^ (exponent - (digits.length - 1))) := by
  obtain ⟨hne, hall⟩ := hdigits
  cases digits with
  | nil => exact absurd rfl hne
  | cons c part =>
      have hpadded : IsDigits (padded layout.exponentWidth exponent.natAbs).toList := by
        rw [padded_toList]
        exact isDigits_zeros_append (isDigits_toDigits _) _
      have hvalue : natOfDigits (padded layout.exponentWidth exponent.natAbs).toList =
          exponent.natAbs := by
        rw [padded_toList, natOfDigits_zeros_append, natOfDigits_toDigits]
      have hpower : power (some (decide (exponent < 0),
          (padded layout.exponentWidth exponent.natAbs).toList)) = exponent := by
        simp only [power, hvalue, decide_eq_true_iff]
        split <;> omega
      -- the literal has the first digit alone, the others as its fraction, if there
      -- are others, and the padded exponent
      refine ⟨⟨false, [c], if part.isEmpty then none else some part,
        some (decide (exponent < 0), (padded layout.exponentWidth exponent.natAbs).toList)⟩,
          ⟨?_, ?_, ?_⟩, ?_, ?_,
        rfl, ?_⟩
      · refine Or.inr ⟨isDigits_singleton (hall c List.mem_cons_self), fun rest heq => ?_⟩
        exact hfirst part (by rw [(List.cons.inj heq).1])
      · intro fraction heq
        cases part with
        | nil => cases heq
        | cons d others =>
            obtain rfl := Option.some.inj heq
            exact ⟨List.cons_ne_nil d others, fun x hx => hall x (List.mem_cons_of_mem c hx)⟩
      · intro negative others heq
        obtain ⟨-, rfl⟩ := Prod.mk.inj (Option.some.inj heq)
        exact hpadded
      · cases part <;> by_cases hsign : exponent < 0 <;>
          simp [scientific, text, fractionText, exponentText, hsign]
      · exact Bool.and_false _
      · rw [size, hpower]
        cases part with
        | nil => simp
        | cons d others => simp

/-- The text of a decimal is that of its value. -/
theorem writes_decimal (layout : NumberLayout) {d : Decimal} (h : 0 < d.digits) :
    Writes (layout.decimal d).toList false d.toRat := by
  have hdigits := isDigits_toDigits d.digits
  have hfirst := toDigits_ne_zero_cons h
  have htoList : (toString d.digits).toList = Nat.toDigits 10 d.digits := by simp
  rw [decimal, htoList, Decimal.toRat]
  split
  · have hwrites := writes_pointed hdigits hfirst (d.exponent + (Nat.toDigits 10 d.digits).length)
    rw [natOfDigits_toDigits, add_sub_cancel_right] at hwrites
    rwa [sub_add_cancel]
  · have hwrites := writes_scientific layout hdigits hfirst
      (d.exponent + (Nat.toDigits 10 d.digits).length - 1)
    rwa [natOfDigits_toDigits, sub_sub_sub_cancel_right, add_sub_cancel_right] at hwrites

end NumberLayout

end JsonSelection
