import JsonSelection.Json.Display
import JsonSelection.Proofs.Number.Notation

/-!
# What number values stand for

A number value stands for an exact number, an infinity, or no number
(`Json.quantity?`), in whichever of the two forms it comes.

## What this module delivers

- `Binary64.toInt?_eq_some_iff`: a number is whole if it is exactly an integer.
- `Binary64.eq_of_quantity`: numbers that are not whole and stand for the same
  are the same.
- `Denotes`: what a plain text tells, by the literal at its start. No text tells
  two things (`Denotes.unique`).
- `Json.plainText_eq_iff`: two number values have one plain text exactly if they
  stand for the same.

A whole number is written as an integer, and the text of any other one is read
as a literal whose size is rounded to that number alone. The two zeros stand for
the same and have one plain text.
-/

set_option autoImplicit false

namespace JsonSelection

/-- What a number value stands for: an exact number, an infinity, or no number.
The two zeros are one number here. -/
inductive Quantity where
  | notANumber
  | infinite (negative : Bool)
  | exact (value : Rat)
deriving DecidableEq

namespace Binary64

open Rounding Shortest

/-- What a binary64 number stands for. -/
def quantity : Binary64 → Quantity
  | nan => .notANumber
  | infinite negative => .infinite negative
  | finite negative significand exponent =>
      .exact ((finite negative significand exponent).toRat?.getD 0)

variable {negative negative' : Bool} {significand s s' : Nat} {exponent e e' : Int} {x y : Binary64}

/-! ### Exact values -/

theorem scaled_of_nonneg (significand : Nat) (h : 0 ≤ exponent) :
    ((significand * pow2 exponent.toNat : Nat) : Rat) = significand * 2 ^ exponent := by
  have hscaled := scaled_quotient significand 1 exponent
  have hone : pow2 (-exponent).toNat = 1 := by
    rw [Int.toNat_of_nonpos (by omega)]
    rfl
  rwa [hone, Nat.mul_one, Nat.cast_one, div_one, div_one] at hscaled

theorem scaled_of_neg (significand : Nat) (h : exponent < 0) :
    (significand : Rat) / pow2 (-exponent).toNat = significand * 2 ^ exponent := by
  have hscaled := scaled_quotient significand 1 exponent
  have hone : pow2 exponent.toNat = 1 := by
    rw [Int.toNat_of_nonpos (by omega)]
    rfl
  rwa [hone, Nat.mul_one, one_mul, Nat.cast_one, div_one] at hscaled

theorem quantity_finite (negative : Bool) (significand : Nat) (exponent : Int) :
    (finite negative significand exponent).quantity =
      .exact (if negative then -(significand * 2 ^ exponent) else significand * 2 ^ exponent) := by
  have hsize : (if 0 ≤ exponent then ((significand * pow2 exponent.toNat : Nat) : Rat)
      else mkRat significand (pow2 (-exponent).toNat)) = significand * 2 ^ exponent := by
    split
    · next h => exact scaled_of_nonneg significand h
    · next h =>
        rw [Rat.mkRat_eq_div, Int.cast_natCast]
        exact scaled_of_neg significand (by omega)
  simp only [quantity, toRat?, Option.getD_some, hsize]

/-- With a negative exponent the size is a natural number if the significand is
this number times the power of two. -/
theorem size_eq_iff (h : exponent < 0) (size : Nat) :
    (significand * 2 ^ exponent : Rat) = size ↔ significand = size * pow2 (-exponent).toNat := by
  have hdivisor : ((pow2 (-exponent).toNat : Nat) : Rat) ≠ 0 :=
    Nat.cast_ne_zero.mpr (Nat.ne_of_gt (pow2_pos _))
  rw [← scaled_of_neg significand h, div_eq_iff hdivisor]
  exact_mod_cast Iff.rfl

/-- A number is whole if it is exactly an integer. -/
theorem toInt?_eq_some_iff (x : Binary64) (n : Int) : x.toInt? = some n ↔
    x.quantity = .exact n := by
  cases x with
  | nan => exact iff_of_false (fun h => nomatch h) (fun h => nomatch h)
  | infinite negative => exact iff_of_false (fun h => nomatch h) (fun h => nomatch h)
  | finite negative significand exponent =>
      rw [quantity_finite, Quantity.exact.injEq]
      have hsigned : ∀ size : Nat, (significand * 2 ^ exponent : Rat) = size →
          ((if negative then -(size : Int) else size) = n ↔
            (if negative then -(significand * 2 ^ exponent : Rat) else significand * 2 ^ exponent) =
              n) := by
        intro size hsize
        rw [hsize]
        cases negative <;> norm_cast
      simp only [toInt?]
      by_cases hexponent : 0 ≤ exponent
      · rw [if_pos hexponent]
        exact Option.some_inj.trans (hsigned _ (scaled_of_nonneg significand hexponent).symm)
      · rw [if_neg hexponent]
        by_cases hdivides : significand % pow2 (-exponent).toNat = 0
        · rw [if_pos hdivides]
          refine Option.some_inj.trans (hsigned _
            ((size_eq_iff (Int.not_le.mp hexponent) _).mpr ?_))
          exact (Nat.div_mul_cancel (Nat.dvd_of_mod_eq_zero hdivides)).symm
        · rw [if_neg hdivides]
          refine iff_of_false (fun h => nomatch h) fun heq => hdivides ?_
          -- the size is that of the integer, so the power of two divides the significand
          have hsize : (significand * 2 ^ exponent : Rat) = n.natAbs := by
            rw [Nat.cast_natAbs, Int.cast_abs, ← heq]
            have hnonneg : (0 : Rat) ≤ significand * 2 ^ exponent := by positivity
            cases negative with
            | false => exact (abs_of_nonneg hnonneg).symm
            | true => exact ((abs_neg _).trans (abs_of_nonneg hnonneg)).symm
          rw [(size_eq_iff (Int.not_le.mp hexponent) _).mp hsize, Nat.mul_mod_left]

theorem isZero_iff (x : Binary64) : x.isZero = true ↔ x.quantity = .exact 0 := by
  cases x with
  | nan => exact iff_of_false (fun h => nomatch h) (fun h => nomatch h)
  | infinite negative => exact iff_of_false (fun h => nomatch h) (fun h => nomatch h)
  | finite negative significand exponent =>
      have hpower : (2 : Rat) ^ exponent ≠ 0 := by positivity
      rw [quantity_finite, Quantity.exact.injEq]
      cases significand with
      | zero => cases negative <;> simp [isZero]
      | succ m =>
          have hpositive : ((m + 1 : Nat) : Rat) ≠ 0 := Nat.cast_ne_zero.mpr (Nat.succ_ne_zero m)
          refine iff_of_false (fun h => nomatch h) fun heq => mul_ne_zero hpositive hpower ?_
          cases negative with
          | false => exact heq
          | true => exact neg_eq_zero.mp heq

/-- The parts of the number are those that binary64 holds. Every number that is
read off the bits of a float is of this form. -/
def Proper (x : Binary64) : Prop :=
  ∀ negative significand exponent, x = finite negative significand exponent →
    0 < significand →
    Canonical significand exponent

theorem proper_ofFloat (x : Float) : (ofFloat x).Proper :=
  fun _ _ _ h hpos => canonical_of_ofBits h hpos

/-! ### One number for one exact value

A number that is not zero has one significand and one exponent only, because the
significand has all its places unless the exponent is the least one. -/

/-- Numbers other than zero that have one exact value have the same parts. -/
theorem parts_eq_of_exact (h : Canonical s e) (h' : Canonical s' e')
    (heq : (finite negative s e).quantity = (finite negative' s' e').quantity) :
    finite negative s e = finite negative' s' e' := by
  rw [quantity_finite, quantity_finite, Quantity.exact.injEq] at heq
  have hpos : (0 : Rat) < s * 2 ^ e := mul_pos (Nat.cast_pos.mpr h.pos) (by positivity)
  have hpos' : (0 : Rat) < s' * 2 ^ e' := mul_pos (Nat.cast_pos.mpr h'.pos) (by positivity)
  -- of one size there is one canonical pair; the sign is told by the value
  have hsize : (s * 2 ^ e : Rat) = s' * 2 ^ e' → finite negative s e = finite negative s' e' := by
    intro hsame
    have hholds := value_holds h.pos e
    rw [hsame] at hholds
    obtain ⟨rfl, rfl⟩ := eq_of_holds h h' hholds (value_holds h'.pos e')
    rfl
  cases negative with
  | false =>
      cases negative' with
      | false => exact hsize heq
      | true => exact absurd heq (by simp only [Bool.false_eq_true, if_false, if_true]; linarith)
  | true =>
      cases negative' with
      | false => exact absurd heq (by simp only [Bool.false_eq_true, if_false, if_true]; linarith)
      | true => exact hsize (neg_injective heq)

/-- A number that is not whole is not zero. -/
theorem significand_pos (h : (finite negative significand exponent).toInt? = none) :
    0 < significand := by
  refine Nat.pos_of_ne_zero fun hzero => ?_
  have hexact : (finite negative significand exponent).quantity = .exact ((0 : Int) : Rat) :=
    (isZero_iff _).mp (by rw [hzero]; rfl)
  rw [(toInt?_eq_some_iff _ 0).mpr hexact] at h
  cases h

/-- Numbers that are not whole and stand for the same are the same. -/
theorem eq_of_quantity (hx : x.Proper) (hy : y.Proper) (hnone : x.toInt? = none)
    (heq : x.quantity = y.quantity) : x = y := by
  have hnone' : y.toInt? = none := by
    refine Option.eq_none_iff_forall_ne_some.mpr fun n hn => ?_
    rw [(toInt?_eq_some_iff x n).mpr (heq.trans ((toInt?_eq_some_iff y n).mp hn))] at hnone
    cases hnone
  -- only the finite ones need an argument; any other two differ in their
  -- constructor
  cases x with
  | nan =>
      cases y with
      | nan => rfl
      | infinite _ => cases heq
      | finite _ _ _ => cases heq
  | infinite negative =>
      cases y with
      | nan => cases heq
      | infinite _ => rw [Quantity.infinite.inj heq]
      | finite _ _ _ => cases heq
  | finite negative significand exponent =>
      cases y with
      | nan => cases heq
      | infinite _ => cases heq
      | finite _ _ _ =>
          exact parts_eq_of_exact (hx _ _ _ rfl (significand_pos hnone))
            (hy _ _ _ rfl (significand_pos hnone')) heq

end Binary64

open Binary64 Shortest

/-! ### What a text tells -/

/-- A literal without fraction and exponent tells its integer, and any other one
the number that its size is rounded to. -/
inductive NumberLiteral.Denotes (literal : NumberLiteral) : Quantity → Prop
  | whole : literal.isInteger = true → Denotes literal (.exact literal.toInt)
  | rounded (significand : Nat) (exponent : Int) : literal.isInteger = false →
      Canonical significand exponent →
      (interval significand exponent).Holds (literal.size / 2 ^ (exponent - 2)) →
      Denotes literal (finite literal.negative significand exponent).quantity

theorem NumberLiteral.Denotes.unique {literal : NumberLiteral} {q q' : Quantity}
    (h : literal.Denotes q) (h' : literal.Denotes q') : q = q' := by
  cases h with
  | whole hinteger =>
      cases h' with
      | whole _ => rfl
      | rounded _ _ hpart _ _ => exact absurd hinteger (by rw [hpart]; exact Bool.false_ne_true)
  | rounded significand exponent hpart hproper hholds =>
      cases h' with
      | whole hinteger => exact absurd hinteger (by rw [hpart]; exact Bool.false_ne_true)
      | rounded significand' exponent' _ hproper' hholds' =>
          obtain ⟨rfl, rfl⟩ := eq_of_holds hproper hproper' hholds hholds'
          rfl

/-- A text tells what the literal at its start does. The texts of the numbers
that are not finite start with no literal. -/
def Denotes (cs : List Char) (q : Quantity) : Prop :=
  match NumberLiteral.read? cs with
  | some (literal, _) => literal.Denotes q
  | none =>
      q = .notANumber ∧ cs = "nan".toList ∨
        ∃ negative, q = .infinite negative ∧ cs = (if negative then "-inf" else "inf").toList

theorem Denotes.unique {cs : List Char} {q q' : Quantity} (h : Denotes cs q)
    (h' : Denotes cs q') : q = q' := by
  unfold Denotes at h h'
  split at h
  · next hread =>
      rw [hread] at h'
      exact h.unique h'
  · next hread =>
      rw [hread] at h'
      -- the names are told apart by looking at them
      have hnames : ∀ negative : Bool, "nan".toList ≠ (if negative then "-inf"
          else "inf").toList := by decide
      rcases h with ⟨rfl, rfl⟩ | ⟨negative, rfl, rfl⟩
      · rcases h' with ⟨rfl, -⟩ | ⟨negative', rfl, hname⟩
        · rfl
        · exact absurd hname (hnames negative')
      · rcases h' with ⟨rfl, hname⟩ | ⟨negative', rfl, hname⟩
        · exact absurd hname.symm (hnames negative)
        · have hsigns : ∀ negative negative' : Bool,
            (if negative then "-inf" else "inf").toList =
              (if negative' then "-inf" else "inf").toList → negative = negative' := by decide
          rw [hsigns negative negative' hname]

theorem denotes_of_text {literal : NumberLiteral} {q : Quantity} (hregular : literal.Regular)
    (h : literal.Denotes q) : Denotes literal.text q := by
  unfold Denotes
  rw [NumberLiteral.read?_text hregular]
  exact h

theorem denotes_integer (n : Int) : Denotes (toString n).toList (.exact n) := by
  obtain ⟨literal, hregular, htext, hinteger, hvalue⟩ := NumberLiteral.exists_integer n
  rw [htext, ← hvalue]
  exact denotes_of_text hregular (.whole hinteger)

/-- A text that writes a decimal tells the number that the decimal is rounded to. -/
theorem denotes_of_writes {cs : List Char} {negative : Bool} {size : Rat} {significand : Nat}
    {exponent : Int} (h : NumberLayout.Writes cs negative size)
    (hproper : Canonical significand exponent)
    (hholds : (interval significand exponent).Holds (size / 2 ^ (exponent - 2))) :
    Denotes cs (finite negative significand exponent).quantity := by
  obtain ⟨literal, hregular, rfl, hpart, rfl, rfl⟩ := h
  exact denotes_of_text hregular (.rounded significand exponent hpart hproper hholds)

/-- The text of a number that is not whole tells what the number stands for. -/
theorem denotes_binary64 {x : Binary64} (hproper : x.Proper) (hnone : x.toInt? = none) :
    Denotes (NumberLayout.plain.binary64 x).toList x.quantity := by
  cases x with
  | nan => exact Or.inl ⟨rfl, rfl⟩
  | infinite negative => cases negative <;> exact Or.inr ⟨_, rfl, rfl⟩
  | finite negative significand exponent =>
      have hpositive := significand_pos hnone
      have hcanonical := hproper _ _ _ rfl hpositive
      have hwrites := NumberLayout.plain.writes_decimal (digits_pos hcanonical)
      have hholds := digits_holds hcanonical
      rw [NumberLayout.binary64, if_neg (Nat.ne_of_gt hpositive), String.toList_append]
      cases negative with
      | false => exact denotes_of_writes hwrites hcanonical hholds
      | true => exact denotes_of_writes hwrites.negated hcanonical hholds

/-! ### Number values -/

namespace Json

/-- What a number value stands for; other values stand for no number. Integers
and binary64 numbers are brought to one form by this. -/
def quantity? : Json → Option Quantity
  | int n => some (.exact n)
  | float x => some (ofFloat x).quantity
  | _ => none

variable {u v : Json} {q q' : Quantity} {n : Int}

theorem toInt?_eq_some_iff_exact (h : u.quantity? = some q) : u.toInt? = some n ↔
    q = .exact n := by
  cases u with
  | int m =>
      obtain rfl := Option.some.inj h
      rw [toInt?, Option.some.injEq, Quantity.exact.injEq, Int.cast_inj]
  | float x =>
      obtain rfl := Option.some.inj h
      exact Binary64.toInt?_eq_some_iff _ n
  | null => cases h
  | bool _ => cases h
  | str _ => cases h
  | arr _ => cases h
  | obj _ => cases h

theorem plainText_of_toInt? (h : u.toInt? = some n) : u.plainText = toString n := by
  cases u with
  | int m =>
      obtain rfl := Option.some.inj h
      rw [plainText, compact, scalarText]
      all_goals exact fun _ heq => nomatch heq
  | float x =>
      rw [toInt?] at h
      rw [plainText, h]
  | null => cases h
  | bool _ => cases h
  | str _ => cases h
  | arr _ => cases h
  | obj _ => cases h

/-- A number value that is not whole is a float, and written as one. -/
theorem exists_float (h : u.quantity? = some q) (hnone : u.toInt? = none) :
    ∃ x : Float, (ofFloat x).toInt? = none ∧ (ofFloat x).quantity = q ∧
      u.plainText = NumberLayout.plain.binary64 (ofFloat x) := by
  cases u with
  | int m => cases hnone
  | float x =>
      rw [toInt?] at hnone
      refine ⟨x, hnone, Option.some.inj h, ?_⟩
      rw [plainText, hnone, NumberLayout.float]
  | null => cases h
  | bool _ => cases h
  | str _ => cases h
  | arr _ => cases h
  | obj _ => cases h

/-- The plain text of a number value tells what it stands for. -/
theorem denotes_plainText (h : u.quantity? = some q) : Denotes u.plainText.toList q := by
  cases hwhole : u.toInt? with
  | some n =>
      rw [plainText_of_toInt? hwhole, (toInt?_eq_some_iff_exact h).mp hwhole]
      exact denotes_integer n
  | none =>
      obtain ⟨x, hnone, rfl, htext⟩ := exists_float h hwhole
      rw [htext]
      exact denotes_binary64 (proper_ofFloat x) hnone

/-- Two number values have one plain text exactly if they stand for the same. -/
theorem plainText_eq_iff (hu : u.quantity? = some q) (hv : v.quantity? = some q') :
    u.plainText = v.plainText ↔ q = q' := by
  constructor
  · intro heq
    have hfirst := denotes_plainText hu
    rw [heq] at hfirst
    exact hfirst.unique (denotes_plainText hv)
  · rintro rfl
    -- a whole number may come in two forms, but any other one has a single float
    cases hwhole : u.toInt? with
    | some n =>
        have hwhole' := (toInt?_eq_some_iff_exact hv).mpr ((toInt?_eq_some_iff_exact hu).mp hwhole)
        rw [plainText_of_toInt? hwhole, plainText_of_toInt? hwhole']
    | none =>
        have hwhole' : v.toInt? = none := Option.eq_none_iff_forall_ne_some.mpr fun n hn => by
          rw [(toInt?_eq_some_iff_exact hu).mpr ((toInt?_eq_some_iff_exact hv).mp hn)] at hwhole
          cases hwhole
        obtain ⟨x, hnone, hquantity, htext⟩ := exists_float hu hwhole
        obtain ⟨y, -, hquantity', htext'⟩ := exists_float hv hwhole'
        rw [htext, htext', eq_of_quantity (proper_ofFloat x) (proper_ofFloat y) hnone
          (hquantity.trans hquantity'.symm)]

end Json

end JsonSelection
