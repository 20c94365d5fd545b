import JsonSelection.Paging.Address
import JsonSelection.Proofs.Text.Utf8
import Mathlib.Tactic.IntervalCases

/-!
# Percent-encoded texts

A name or a value in a query is written with plus signs for blanks and with
escapes for bytes. This module says which text such a writing means, as relations
that name none of the functions that read it.

## What this module delivers

- `Text.HexDigit`: a hexadecimal digit and its value.
- `Address.Escaped`: an ASCII text and the bytes that it stands for. A percent sign
  with two digits behind it stands for one byte, any other character for itself.
- `Address.Decoded`: a text and its plain form. Each longest run of ASCII characters
  is decoded on its own, from its bytes.
- `Address.Means` and `Address.decode_eq_iff`: the text that a name or a value
  means, which is the one that `Address.decode` gives.
-/

set_option autoImplicit false

namespace JsonSelection

namespace Text

/-- A hexadecimal digit, in either case, and its value. -/
def HexDigit (c : Char) (n : Nat) : Prop :=
  n < 16 ∧ (c = Nat.digitChar n ∨ c = (Nat.digitChar n).toUpper)

instance (c : Char) (n : Nat) : Decidable (HexDigit c n) :=
  inferInstanceAs (Decidable (_ ∧ _))

theorem hexValue?_eq_some_iff {c : Char} {n : Nat} : hexValue? c = some n ↔ HexDigit c n := by
  constructor
  · intro h
    have hc : c = Char.ofNat c.toNat := (Char.ofNat_toNat c).symm
    simp only [hexValue?, Char.le_def, UInt32.le_iff_toNat_le] at h
    have hchar : c.val.toNat = c.toNat := rfl
    rw [hchar] at h
    -- only three short ranges of code points have a value, and these are tried
    generalize c.toNat = k at h hc
    subst hc
    split at h
    · next hk =>
        obtain rfl := Option.some.inj h
        obtain ⟨hleast, hmost⟩ : 48 ≤ k ∧ k ≤ 57 := hk
        interval_cases k <;> decide
    · split at h
      · next hk =>
          obtain rfl := Option.some.inj h
          obtain ⟨hleast, hmost⟩ : 97 ≤ k ∧ k ≤ 102 := hk
          interval_cases k <;> decide
      · split at h
        · next hk =>
            obtain rfl := Option.some.inj h
            obtain ⟨hleast, hmost⟩ : 65 ≤ k ∧ k ≤ 70 := hk
            interval_cases k <;> decide
        · cases h
  · rintro ⟨hn, rfl | rfl⟩ <;> interval_cases n <;> decide

end Text

namespace Address

open Text (HexDigit hexValue?_eq_some_iff)

/-! ## Escapes -/

/-- An escape at the start of a text: a percent sign and two hexadecimal digits.
A percent sign that starts none stands for itself. -/
def StartsEscape (text : List Char) : Prop :=
  ∃ a b rest high low, text = '%' :: a :: b :: rest ∧ HexDigit a high ∧ HexDigit b low

/-- An ASCII text and the bytes that it stands for. An escape stands for one
byte, and so does any other character. -/
inductive Escaped : List Char → List Nat → Prop where
  | nil : Escaped [] []
  | byte {a b : Char} {high low : Nat} {rest : List Char} {bytes : List Nat} :
      HexDigit a high → HexDigit b low → Escaped rest bytes →
      Escaped ('%' :: a :: b :: rest) ((16 * high + low) :: bytes)
  | plain {c : Char} {rest : List Char} {bytes : List Nat} : ¬ StartsEscape (c :: rest) →
      Escaped rest bytes → Escaped (c :: rest) (c.toNat :: bytes)

theorem percentBytes_escape {a b : Char} {high low : Nat} (ha : HexDigit a high)
    (hb : HexDigit b low) (rest : List Char) :
    percentBytes ('%' :: a :: b :: rest) = (16 * high + low) :: percentBytes rest := by
  rw [percentBytes, hexValue?_eq_some_iff.mpr ha, hexValue?_eq_some_iff.mpr hb]

theorem percentBytes_plain {c : Char} {rest : List Char} (h : ¬ StartsEscape (c :: rest)) :
    percentBytes (c :: rest) = c.toNat :: percentBytes rest := by
  conv_lhs => unfold percentBytes
  split
  · next a b others heq =>
      obtain ⟨rfl, rfl⟩ := List.cons.inj heq
      split
      · next high low ha hb =>
          exact absurd ⟨a, b, others, high, low, rfl, hexValue?_eq_some_iff.mp ha,
            hexValue?_eq_some_iff.mp hb⟩ h
      · rfl
  · next heq =>
      obtain ⟨rfl, rfl⟩ := List.cons.inj heq
      rfl
  · next heq => cases heq

/-- The bytes of a text are those that it stands for. -/
theorem percentBytes_eq_iff {text : List Char} {bytes : List Nat} :
    percentBytes text = bytes ↔ Escaped text bytes := by
  constructor
  · rintro rfl
    induction hlength : text.length using Nat.strongRecOn generalizing text with
    | ind length ih =>
        cases text with
        | nil => exact .nil
        | cons c rest =>
            -- an escape takes three characters at once, so the induction is on the
            -- length
            by_cases hescape : StartsEscape (c :: rest)
            · obtain ⟨a, b, others, high, low, heq, ha, hb⟩ := hescape
              rw [heq] at hlength ⊢
              rw [percentBytes_escape ha hb]
              simp only [List.length_cons] at hlength
              exact .byte ha hb (ih others.length (by omega) rfl)
            · rw [percentBytes_plain hescape]
              rw [List.length_cons] at hlength
              exact .plain hescape (ih rest.length (by omega) rfl)
  · intro h
    induction h with
    | nil => rfl
    | byte ha hb _ ih => rw [percentBytes_escape ha hb, ih]
    | plain hplain _ ih => rw [percentBytes_plain hplain, ih]

/-! ## Runs of ASCII characters -/

/-- Every character is an ASCII character. -/
def Ascii (text : List Char) : Prop :=
  ∀ c ∈ text, c.toNat < 0x80

/-- A text that does not start with an ASCII character. Runs of ASCII
characters, which are decoded on their own, end before such a text. -/
def StartsBeyond (text : List Char) : Prop :=
  ∀ c rest, text = c :: rest → 0x80 ≤ c.toNat

/-- A text and its plain form: each longest run of ASCII characters stands for
what its bytes do, and every other character for itself. -/
inductive Decoded : List Char → List Char → Prop where
  | nil : Decoded [] []
  | other {c : Char} {rest chars : List Char} : 0x80 ≤ c.toNat → Decoded rest chars →
      Decoded (c :: rest) (c :: chars)
  | run {run rest front chars : List Char} {bytes : List Nat} : run ≠ [] → Ascii run →
      StartsBeyond rest → Escaped run bytes → Text.Decodes bytes front →
      Decoded rest chars →
      Decoded (run ++ rest) (front ++ chars)

theorem decodeRuns_other {c : Char} (h : 0x80 ≤ c.toNat) (run rest : List Char) :
    decodeRuns run (c :: rest) =
      Text.decodeUtf8 (percentBytes run) ++ c :: decodeRuns [] rest := by
  rw [decodeRuns, if_neg (by omega)]

/-- ASCII characters are added to the run that is being read. -/
theorem decodeRuns_append {run : List Char} (h : Ascii run) (before rest : List Char) :
    decodeRuns before (run ++ rest) = decodeRuns (before ++ run) rest := by
  induction run generalizing before with
  | nil => rw [List.nil_append, List.append_nil]
  | cons c others ih =>
      obtain ⟨hc, hothers⟩ := List.forall_mem_cons.mp h
      rw [List.cons_append, decodeRuns, if_pos hc, ih hothers, List.append_assoc]
      rfl

/-- A run ends where an ASCII character no longer follows. -/
theorem decodeRuns_beyond {rest : List Char} (h : StartsBeyond rest) (run : List Char) :
    decodeRuns run rest = Text.decodeUtf8 (percentBytes run) ++ decodeRuns [] rest := by
  cases rest with
  | nil =>
      rw [decodeRuns, decodeRuns]
      exact (List.append_nil _).symm
  | cons c others =>
      have hc := h c others rfl
      rw [decodeRuns_other hc, decodeRuns_other hc]
      rfl

/-- A text has a longest run of ASCII characters at its start. -/
theorem exists_run (text : List Char) :
    ∃ run rest, text = run ++ rest ∧ Ascii run ∧ StartsBeyond rest := by
  cases hcut : Text.splitBefore (fun c => !decide (c.toNat < 0x80)) text with
  | mk run rest =>
      obtain ⟨hsplit, hrun, hrest⟩ := Text.splitBefore_eq_iff.mp hcut
      refine ⟨run, rest, hsplit, fun c hc => ?_, fun c others heq => ?_⟩
      · simpa using hrun c hc
      · simpa using hrest c others heq

/-- The plain form of a text is the one that its runs decode to. -/
theorem decodeRuns_eq_iff {text chars : List Char} :
    decodeRuns [] text = chars ↔ Decoded text chars := by
  constructor
  · rintro rfl
    induction hlength : text.length using Nat.strongRecOn generalizing text with
    | ind length ih =>
        -- a text starts with a run, or with another character where the run is
        -- empty; both leave a shorter text
        obtain ⟨run, rest, rfl, hrun, hrest⟩ := exists_run text
        rw [List.length_append] at hlength
        cases run with
        | nil =>
            cases rest with
            | nil => exact .nil
            | cons c others =>
                have hc := hrest c others rfl
                rw [List.nil_append, decodeRuns_other hc]
                rw [List.length_cons] at hlength
                exact .other hc (ih others.length (by omega) rfl)
        | cons c others =>
            rw [decodeRuns_append hrun, decodeRuns_beyond hrest, List.nil_append]
            rw [List.length_cons] at hlength
            exact .run (List.cons_ne_nil _ _) hrun hrest (percentBytes_eq_iff.mp rfl)
              (Text.decodeUtf8_eq_iff.mp rfl) (ih rest.length (by omega) rfl)
  · intro h
    induction h with
    | nil => rfl
    | other hc _ ih =>
        rw [decodeRuns_other hc, ih]
        rfl
    | run _ hrun hrest hbytes hchars _ ih =>
        rw [decodeRuns_append hrun, decodeRuns_beyond hrest, List.nil_append, ih,
          percentBytes_eq_iff.mpr hbytes, Text.decodeUtf8_eq_iff.mpr hchars]

/-- The text that a name or a value means: with blanks for plus signs, its plain
form. -/
def Means (written : List Char) (text : String) : Prop :=
  Decoded (written.map fun c => if c = '+' then ' ' else c) text.toList

theorem decode_eq_iff {written : List Char} {text : String} :
    decode written = text ↔ Means written text := by
  rw [decode, Means, ← decodeRuns_eq_iff, ← String.toList_inj, String.toList_ofList]

end Address

end JsonSelection
