import JsonSelection.Text.Utf8
import Mathlib.Data.List.Induction
import Mathlib.Tactic.SplitIfs

/-!
# What lenient decoding gives

`Text.decodeUtf8` is a machine that takes one byte at a time. This module says
what it computes without the machine, from the encoding of characters alone.

## What this module delivers

- `Text.Decodes`: bytes and the characters that they stand for. The bytes of a
  character stand for it. Where no character starts, the longest bytes that begin
  one (`Text.Begins`), or else one byte, stand for a replacement character.
- `Text.decodeUtf8_eq_iff`: the machine gives these characters and no others.

The proof goes through the bytes that the machine has taken in a character
(`Utf8State.Reaches`) and those it waits for (`Utf8State.Completes`): together they
are the bytes of a character, and every state can be completed.
-/

set_option autoImplicit false

namespace JsonSelection

namespace Text

/-! ## Characters from bytes -/

/-- The bytes of a character. -/
def utf8Bytes (c : Char) : List Nat :=
  (String.utf8EncodeChar c).map UInt8.toNat

/-- Bytes that begin a character and do not complete it. No bytes at all begin
every character. -/
def Begins (front : List Nat) : Prop :=
  ∃ c more, more ≠ [] ∧ utf8Bytes c = front ++ more

/-- Bytes at the start of others that are given up together: as many as begin a
character, where the byte behind them neither goes on with it nor completes it,
or a single byte that begins none and is none. -/
inductive Broken : List Nat → List Nat → Prop where
  | cut {front rest : List Nat} : front ≠ [] → Begins front →
      (∀ byte others, rest = byte :: others →
        ¬ Begins (front ++ [byte]) ∧ ∀ c, utf8Bytes c ≠ front ++ [byte]) →
      Broken front rest
  | stray {byte : Nat} {rest : List Nat} : ¬ Begins [byte] → (∀ c, utf8Bytes c ≠ [byte]) →
      Broken [byte] rest

/-- Bytes and the characters that they stand for. Where no character is encoded,
a replacement character stands for as much as begins one. -/
inductive Decodes : List Nat → List Char → Prop where
  | nil : Decodes [] []
  | char (c : Char) {rest : List Nat} {chars : List Char} : Decodes rest chars →
      Decodes (utf8Bytes c ++ rest) (c :: chars)
  | broken {front rest : List Nat} {chars : List Char} : Broken front rest →
      Decodes rest chars → Decodes (front ++ rest) (replacement :: chars)

/-! ## The bytes of a character in numbers -/

theorem utf8Bytes_eq (c : Char) : utf8Bytes c =
    if c.toNat ≤ 0x7F then [c.toNat]
    else if c.toNat ≤ 0x7FF then [c.toNat / 64 + 0xC0, c.toNat % 64 + 0x80]
    else if c.toNat ≤ 0xFFFF then
      [c.toNat / 4096 + 0xE0, c.toNat / 64 % 64 + 0x80, c.toNat % 64 + 0x80]
    else
      [c.toNat / 262144 + 0xF0, c.toNat / 4096 % 64 + 0x80, c.toNat / 64 % 64 + 0x80,
        c.toNat % 64 + 0x80] := by
  have hvalid : c.toNat < 0x110000 := by
    rcases c.valid with h | ⟨-, h⟩
    · exact Nat.lt_trans h (by decide)
    · exact h
  -- the bytes are those of the library, with sums in place of joined bits
  rw [utf8Bytes, String.utf8EncodeChar]
  simp only [Char.toNat] at hvalid ⊢
  split
  · simp only [List.map_cons, List.map_nil, UInt8.toNat_ofNat', List.cons.injEq, and_true]
    omega
  · split
    · simp only [List.map_cons, List.map_nil, UInt8.toNat_ofNat', List.cons.injEq, and_true]
      omega
    · split
      · simp only [List.map_cons, List.map_nil, UInt8.toNat_ofNat', List.cons.injEq, and_true]
        omega
      · simp only [List.map_cons, List.map_nil, UInt8.toNat_ofNat', List.cons.injEq, and_true]
        omega

theorem utf8Bytes_ne_nil (c : Char) : utf8Bytes c ≠ [] := by
  rw [utf8Bytes_eq]
  split_ifs <;> exact List.cons_ne_nil _ _

namespace Utf8State

/-! ## First bytes -/

/-- A byte at the start of a character and what the machine does with it. The
bounds of the next byte leave out the longer writings of a character and the
numbers that are none. -/
inductive FirstByte (byte : Nat) : Utf8State × List Char → Prop where
  | ascii : byte < 0x80 → FirstByte byte (start, [Char.ofNat byte])
  | two {code : Nat} : byte = code + 0xC0 → 2 ≤ code → code < 0x20 →
      FirstByte byte (inside code 1 0x80 0xBF, [])
  | three {code low high : Nat} : byte = code + 0xE0 → code < 0x10 →
      (code = 0 ∧ low = 0xA0 ∨ code ≠ 0 ∧ low = 0x80) →
      (code = 0xD ∧ high = 0x9F ∨ code ≠ 0xD ∧ high = 0xBF) →
      FirstByte byte (inside code 2 low high, [])
  | four {code low high : Nat} : byte = code + 0xF0 → code < 5 →
      (code = 0 ∧ low = 0x90 ∨ code ≠ 0 ∧ low = 0x80) →
      (code = 4 ∧ high = 0x8F ∨ code ≠ 4 ∧ high = 0xBF) →
      FirstByte byte (inside code 3 low high, [])
  | stray : 0x80 ≤ byte → byte < 0xC2 ∨ 0xF4 < byte → FirstByte byte (start, [replacement])

theorem firstByte (byte : Nat) : FirstByte byte (first byte) := by
  rw [first]
  -- the ranges are those of the decoder, in its order
  split
  · exact .ascii (by omega)
  · split
    · exact .two (by omega) (by omega) (by omega)
    · split
      · exact .three (by omega) (by omega) (by omega) (by omega)
      · split
        · exact .three (by omega) (by omega) (by omega) (by omega)
        · split
          · exact .three (by omega) (by omega) (by omega) (by omega)
          · split
            · exact .four (by omega) (by omega) (by omega) (by omega)
            · split
              · exact .four (by omega) (by omega) (by omega) (by omega)
              · split
                · exact .four (by omega) (by omega) (by omega) (by omega)
                · exact .stray (by omega) (by omega)

/-! ## What completes a state -/

/-- The bytes that complete a character from a state inside of it. -/
inductive Completes : Utf8State → List Nat → Char → Prop where
  | last {code low high byte : Nat} {c : Char} : low ≤ byte → byte ≤ high →
      c.toNat = code * 0x40 + byte % 0x40 → Completes (inside code 1 low high) [byte] c
  | next {code left low high byte : Nat} {more : List Nat} {c : Char} : low ≤ byte →
      byte ≤ high → left ≠ 1 →
      Completes (inside (code * 0x40 + byte % 0x40) (left - 1) 0x80 0xBF) more c →
      Completes (inside code left low high) (byte :: more) c

theorem completes_one_iff {code low high : Nat} {more : List Nat} {c : Char} :
    Completes (inside code 1 low high) more c ↔
      ∃ byte, more = [byte] ∧ low ≤ byte ∧ byte ≤ high ∧
        c.toNat = code * 0x40 + byte % 0x40 := by
  constructor
  · intro h
    cases h with
    | last hlow hhigh hc => exact ⟨_, rfl, hlow, hhigh, hc⟩
    | next _ _ hleft _ => exact absurd rfl hleft
  · rintro ⟨byte, rfl, hlow, hhigh, hc⟩
    exact .last hlow hhigh hc

theorem completes_more_iff {code left low high : Nat} {more : List Nat} {c : Char}
    (hleft : left ≠ 0) :
    Completes (inside code (left + 1) low high) more c ↔
      ∃ byte rest, more = byte :: rest ∧ low ≤ byte ∧ byte ≤ high ∧
        Completes (inside (code * 0x40 + byte % 0x40) left 0x80 0xBF) rest c := by
  constructor
  · intro h
    cases h with
    | last _ _ _ => exact absurd rfl hleft
    | next hlow hhigh _ hrest => exact ⟨_, _, rfl, hlow, hhigh, hrest⟩
  · rintro ⟨byte, rest, rfl, hlow, hhigh, hrest⟩
    exact .next hlow hhigh (fun h => hleft (Nat.succ.inj h)) hrest

/-- The bytes of a character after the first one complete the state after it. -/
theorem completes_of_utf8Bytes {c : Char} {byte : Nat} {more : List Nat}
    (h : utf8Bytes c = byte :: more) :
    (byte < 0x80 ∧ more = [] ∧ c.toNat = byte) ∨ Completes (first byte).1 more c := by
  have hvalid : c.toNat < 0xD800 ∨ 0xDFFF < c.toNat ∧ c.toNat < 0x110000 := c.valid
  have hfirst := firstByte byte
  generalize first byte = read at hfirst ⊢
  rw [utf8Bytes_eq] at h
  -- the number of bytes and the first one go together
  split_ifs at h
  all_goals
    obtain ⟨hbyte, rfl⟩ := List.cons.inj h
    cases hfirst
    all_goals first | (exfalso; omega) | skip
  · exact Or.inl ⟨by omega, rfl, by omega⟩
  · exact Or.inr (.last (by omega) (by omega) (by omega))
  · exact Or.inr (.next (by omega) (by omega) (by decide)
      (.last (by omega) (by omega) (by omega)))
  · exact Or.inr (.next (by omega) (by omega) (by decide) (.next (by omega) (by omega) (by decide)
      (.last (by omega) (by omega) (by omega))))

/-- What completes the state after a byte makes the bytes of a character with it. -/
theorem utf8Bytes_of_completes {c : Char} {byte : Nat} {more : List Nat}
    (h : Completes (first byte).1 more c) : utf8Bytes c = byte :: more := by
  have hfirst := firstByte byte
  generalize first byte = read at hfirst h
  rw [utf8Bytes_eq]
  -- the first byte says how many follow; the code point is then in the range of
  -- that length
  cases hfirst with
  | ascii _ => cases h
  | two hbyte _ _ =>
      obtain ⟨second, rfl, hlow, hhigh, hc⟩ := completes_one_iff.mp h
      rw [if_neg (by omega), if_pos (by omega)]
      simp only [List.cons.injEq, and_true]
      omega
  | three hbyte _ _ _ =>
      obtain ⟨second, rest, rfl, hlow₂, hhigh₂, hrest⟩ :=
        (completes_more_iff (by decide)).mp h
      obtain ⟨third, rfl, hlow₃, hhigh₃, hc⟩ := completes_one_iff.mp hrest
      rw [if_neg (by omega), if_neg (by omega), if_pos (by omega)]
      simp only [List.cons.injEq, and_true]
      omega
  | four hbyte _ _ _ =>
      obtain ⟨second, rest, rfl, hlow₂, hhigh₂, hrest⟩ :=
        (completes_more_iff (by decide)).mp h
      obtain ⟨third, rest, rfl, hlow₃, hhigh₃, hrest⟩ :=
        (completes_more_iff (by decide)).mp hrest
      obtain ⟨fourth, rfl, hlow₄, hhigh₄, hc⟩ := completes_one_iff.mp hrest
      rw [if_neg (by omega), if_neg (by omega), if_neg (by omega)]
      simp only [List.cons.injEq, and_true]
      omega
  | stray _ _ => cases h

/-- Inside a character a byte between the bounds goes on with it. -/
theorem next_between {code left low high byte : Nat} (hlow : low ≤ byte) (hhigh : byte ≤ high) :
    next (inside code left low high) byte =
      if left = 1 then (start, [Char.ofNat (code * 0x40 + byte % 0x40)])
      else (inside (code * 0x40 + byte % 0x40) (left - 1) 0x80 0xBF, []) :=
  if_pos ⟨hlow, hhigh⟩

/-- Every other byte gives up what came before it and starts anew. -/
theorem next_beyond {code left low high byte : Nat} (h : ¬ (low ≤ byte ∧ byte ≤ high)) :
    next (inside code left low high) byte = ((first byte).1, replacement :: (first byte).2) :=
  if_neg h

theorem decodeUtf8From_cons (state : Utf8State) (byte : Nat) (rest : List Nat) :
    decodeUtf8From state (byte :: rest) =
      (next state byte).2 ++ decodeUtf8From (next state byte).1 rest :=
  rfl

/-- Whatever completes a state, the machine gives the character and starts anew. -/
theorem Completes.decode {state : Utf8State} {more : List Nat} {c : Char}
    (h : Completes state more c) (rest : List Nat) :
    decodeUtf8From state (more ++ rest) = c :: decodeUtf8From start rest := by
  induction h with
  | last hlow hhigh hc =>
      rw [List.singleton_append, decodeUtf8From_cons, next_between hlow hhigh, if_pos rfl, ← hc,
        Char.ofNat_toNat]
      rfl
  | next hlow hhigh hleft _ ih =>
      rw [List.cons_append, decodeUtf8From_cons, next_between hlow hhigh, if_neg hleft]
      exact ih

/-! ## Every state can be completed -/

theorem toNat_ofNat {n : Nat} (h : n.isValidChar) : (Char.ofNat n).toNat = n := by
  rw [Char.ofNat, dif_pos h]
  rfl

/-- A state inside a character: every byte between the bounds leads on, and at
last to numbers that are characters. -/
inductive Sound : Utf8State → Prop where
  | last {code low high : Nat} : low ≤ high →
      (∀ byte, low ≤ byte → byte ≤ high → (code * 0x40 + byte % 0x40).isValidChar) →
      Sound (inside code 1 low high)
  | next {code left low high : Nat} : low ≤ high → left ≠ 1 →
      (∀ byte, low ≤ byte → byte ≤ high →
        Sound (inside (code * 0x40 + byte % 0x40) (left - 1) 0x80 0xBF)) →
      Sound (inside code left low high)

/-- From a sound state any byte between its bounds begins what completes it. -/
theorem Sound.completes {state : Utf8State} (h : Sound state) :
    ∃ code left low high, state = inside code left low high ∧ low ≤ high ∧
      ∀ byte, low ≤ byte → byte ≤ high → ∃ more c,
      Completes state (byte :: more) c := by
  induction h with
  | @last code low high hle hvalid =>
      refine ⟨code, 1, low, high, rfl, hle, fun byte hlow hhigh => ?_⟩
      exact ⟨[], _, .last hlow hhigh (toNat_ofNat (hvalid byte hlow hhigh))⟩
  | @next code left low high hle hleft _ ih =>
      refine ⟨code, left, low, high, rfl, hle, fun byte hlow hhigh => ?_⟩
      obtain ⟨_, _, least, _, _, hbounds, hnext⟩ := ih byte hlow hhigh
      obtain ⟨more, c, hmore⟩ := hnext least (Nat.le_refl least) hbounds
      exact ⟨least :: more, c, .next hlow hhigh hleft hmore⟩

/-- The first byte of a character of several bytes leads to a sound state. -/
theorem sound_first {byte : Nat} (h : (first byte).1 ≠ start) : Sound (first byte).1 := by
  -- with one byte left, the numbers are characters or the state before has left them out
  have one : ∀ code, code * 0x40 + 0x3F < 0xD800 ∨
      0xDFFF < code * 0x40 ∧ code * 0x40 + 0x3F < 0x110000 →
      Sound (inside code 1 0x80 0xBF) := by
    intro code hvalid
    refine .last (by decide) fun byte hfrom hto => ?_
    simp only [Nat.isValidChar]
    omega
  have hfirst := firstByte byte
  generalize first byte = read at hfirst h ⊢
  cases hfirst with
  | ascii _ => exact absurd rfl h
  | two _ _ _ => exact one _ (by omega)
  | three _ _ _ _ =>
      exact .next (by omega) (by decide) fun byte hfrom hto => one _ (by omega)
  | four _ _ _ _ =>
      exact .next (by omega) (by decide) fun byte hfrom hto =>
        .next (by decide) (by decide) fun byte hfrom hto => one _ (by omega)
  | stray _ _ => exact absurd rfl h

theorem first_chars {byte : Nat} (h : (first byte).1 ≠ start) : (first byte).2 = [] := by
  have hfirst := firstByte byte
  generalize first byte = read at hfirst h ⊢
  cases hfirst with
  | ascii _ => exact absurd rfl h
  | two _ _ _ => rfl
  | three _ _ _ _ => rfl
  | four _ _ _ _ => rfl
  | stray _ _ => exact absurd rfl h

/-! ## The bytes that have been taken -/

/-- Bytes that lead from the start of a character to a state inside of it. -/
inductive Reaches : List Nat → Utf8State → Prop where
  | first {byte : Nat} : (first byte).1 ≠ start → Reaches [byte] (first byte).1
  | next {front : List Nat} {code left low high byte : Nat} :
      Reaches front (inside code left low high) → low ≤ byte →
      byte ≤ high → left ≠ 1 →
      Reaches (front ++ [byte]) (inside (code * 0x40 + byte % 0x40) (left - 1) 0x80 0xBF)

namespace Reaches

variable {front : List Nat} {state : Utf8State}

theorem sound (h : Reaches front state) : Sound state := by
  induction h with
  | first hfirst => exact sound_first hfirst
  | next _ hlow hhigh hleft ih =>
      cases ih with
      | last _ _ => exact absurd rfl hleft
      | next _ _ hnext => exact hnext _ hlow hhigh

/-- What has been taken and what completes the state are the bytes of a character. -/
theorem utf8Bytes_eq_iff (h : Reaches front state) {c : Char} {more : List Nat} :
    utf8Bytes c = front ++ more ↔ Completes state more c := by
  induction h generalizing more with
  | @first byte hfirst =>
      refine ⟨fun hbytes => ?_, utf8Bytes_of_completes⟩
      refine (completes_of_utf8Bytes hbytes).resolve_left fun ⟨hascii, _⟩ => hfirst ?_
      rw [Utf8State.first, if_pos hascii]
  | @next front code left low high byte _ hlow hhigh hleft ih =>
      rw [List.append_assoc, List.singleton_append, ih]
      constructor
      · intro h
        cases h with
        | last _ _ _ => exact absurd rfl hleft
        | next _ _ _ hmore => exact hmore
      · exact .next hlow hhigh hleft

theorem begins (h : Reaches front state) : Begins front := by
  obtain ⟨_, _, low, _, -, hle, hcompletes⟩ := h.sound.completes
  obtain ⟨more, c, hmore⟩ := hcompletes low (Nat.le_refl low) hle
  exact ⟨c, low :: more, List.cons_ne_nil _ _, h.utf8Bytes_eq_iff.mpr hmore⟩

/-- On the bytes that have been taken the machine comes to the state. -/
theorem decode (h : Reaches front state) (rest : List Nat) :
    decodeUtf8From start (front ++ rest) = decodeUtf8From state rest := by
  induction h generalizing rest with
  | @first byte hfirst =>
      have hnext : Utf8State.next start byte = ((Utf8State.first byte).1, []) :=
        Prod.ext rfl (first_chars hfirst)
      rw [List.singleton_append, decodeUtf8From_cons, hnext]
      rfl
  | next _ hlow hhigh hleft ih =>
      rw [List.append_assoc, List.singleton_append, ih, decodeUtf8From_cons,
        next_between hlow hhigh, if_neg hleft]
      rfl

end Reaches

/-- Bytes that begin a character lead to a state inside of it. -/
theorem exists_reaches {front : List Nat} (hne : front ≠ []) (h : Begins front) :
    ∃ state, Reaches front state := by
  induction front using List.reverseRecOn with
  | nil => exact absurd rfl hne
  | append_singleton front byte ih =>
      obtain ⟨c, more, hmore, hbytes⟩ := h
      rw [List.append_assoc, List.singleton_append] at hbytes
      -- one byte is the first; a later one goes on from the state before it
      cases front with
      | nil =>
          rcases completes_of_utf8Bytes hbytes with ⟨-, hnil, -⟩ | hcompletes
          · exact absurd hnil hmore
          · refine ⟨_, .first ?_⟩
            intro hstart
            rw [hstart] at hcompletes
            cases hcompletes
      | cons first others =>
          obtain ⟨state, hreaches⟩ :=
            ih (List.cons_ne_nil _ _) ⟨c, byte :: more, List.cons_ne_nil _ _, hbytes⟩
          cases hreaches.utf8Bytes_eq_iff.mp hbytes with
          | last _ _ _ => exact absurd rfl hmore
          | next hlow hhigh hleft _ => exact ⟨_, .next hreaches hlow hhigh hleft⟩

end Utf8State

/-! ## The machine and the characters -/

open Utf8State

theorem decodeUtf8_char (c : Char) (rest : List Nat) :
    decodeUtf8 (utf8Bytes c ++ rest) = c :: decodeUtf8 rest := by
  cases hbytes : utf8Bytes c with
  | nil => exact absurd hbytes (utf8Bytes_ne_nil c)
  | cons byte more =>
      rcases completes_of_utf8Bytes hbytes with ⟨hascii, rfl, hc⟩ | hcompletes
      -- a byte of the lower half is a character of its own
      · have hnext : next start byte = (start, [c]) := by
          rw [← hc, Utf8State.next, first, if_pos (hc ▸ hascii), Char.ofNat_toNat]
        rw [decodeUtf8, List.singleton_append, decodeUtf8From_cons, hnext]
        rfl
      · have hreaches : Reaches [byte] (first byte).1 := by
          refine .first fun hstart => ?_
          rw [hstart] at hcompletes
          cases hcompletes
        rw [decodeUtf8, ← List.singleton_append, List.append_assoc, hreaches.decode,
          hcompletes.decode]
        rfl

/-- Bytes that are given up together become one replacement character. -/
theorem Broken.decode {front rest : List Nat} (h : Broken front rest) :
    decodeUtf8 (front ++ rest) = replacement :: decodeUtf8 rest := by
  cases h with
  | cut hne hbegins hstop =>
      obtain ⟨state, hreaches⟩ := exists_reaches hne hbegins
      obtain ⟨code, left, low, high, rfl, -, hcompletes⟩ := hreaches.sound.completes
      rw [decodeUtf8, hreaches.decode]
      cases rest with
      | nil => rfl
      | cons byte others =>
          -- a byte between the bounds would go on with a character or complete one
          have hbeyond : ¬ (low ≤ byte ∧ byte ≤ high) := by
            rintro ⟨hlow, hhigh⟩
            obtain ⟨hbegins', hnone⟩ := hstop byte others rfl
            obtain ⟨more, c, hmore⟩ := hcompletes byte hlow hhigh
            have hbytes := hreaches.utf8Bytes_eq_iff.mpr hmore
            by_cases hempty : more = []
            · exact hnone c (by rw [hbytes, hempty])
            · exact hbegins' ⟨c, more, hempty, by rw [hbytes, List.append_assoc]; rfl⟩
          rw [decodeUtf8From_cons, next_beyond hbeyond]
          rfl
  | @stray byte _ hbegins hnone =>
      have hstart : (first byte).1 = start := by
        by_contra hinside
        exact hbegins (Reaches.first hinside).begins
      have hlarge : ¬ byte < 0x80 := by
        intro hascii
        refine hnone (Char.ofNat byte) ?_
        rw [utf8Bytes_eq, toNat_ofNat (Or.inl (by omega)), if_pos (by omega)]
      have hfirst : next start byte = (start, [replacement]) := by
        have hread := firstByte byte
        rw [next]
        generalize first byte = read at hread hstart ⊢
        cases hread with
        | ascii hascii => exact absurd hascii hlarge
        | two _ _ _ => cases hstart
        | three _ _ _ _ => cases hstart
        | four _ _ _ _ => cases hstart
        | stray _ _ => rfl
      rw [decodeUtf8, List.singleton_append, decodeUtf8From_cons, hfirst]
      rfl

/-- The machine gives the characters that the bytes stand for. -/
theorem Decodes.decode {bytes : List Nat} {chars : List Char} (h : Decodes bytes chars) :
    decodeUtf8 bytes = chars := by
  induction h with
  | nil => rfl
  | char c _ ih => rw [decodeUtf8_char, ih]
  | broken hbroken _ ih => rw [hbroken.decode, ih]

/-- Where no character starts, some bytes are given up together. -/
theorem exists_broken {bytes : List Nat} (hne : bytes ≠ [])
    (hnone : ∀ c, ¬ utf8Bytes c <+: bytes) :
    ∃ front rest, front ≠ [] ∧ bytes = front ++ rest ∧ Broken front rest := by
  -- bytes that begin a character are extended as long as they do
  have extend : ∀ rest front : List Nat, front ≠ [] → Begins front →
    bytes = front ++ rest →
      ∃ front rest, front ≠ [] ∧ bytes = front ++ rest ∧ Broken front rest := by
    intro rest
    induction rest with
    | nil => exact fun front hfront hbegins hsplit =>
        ⟨front, [], hfront, hsplit, .cut hfront hbegins nofun⟩
    | cons byte others ih =>
        intro front hfront hbegins hsplit
        have hsplit' : bytes = (front ++ [byte]) ++ others := by
          rw [hsplit, List.append_assoc, List.singleton_append]
        by_cases hnext : Begins (front ++ [byte])
        · exact ih (front ++ [byte]) (List.append_ne_nil_of_right_ne_nil _ (List.cons_ne_nil _ _))
            hnext hsplit'
        · refine ⟨front, byte :: others, hfront, hsplit, .cut hfront hbegins ?_⟩
          rintro _ _ heq
          obtain ⟨rfl, rfl⟩ := List.cons.inj heq
          refine ⟨hnext, fun c hc => hnone c ?_⟩
          rw [hc, hsplit']
          exact List.prefix_append _ _
  cases bytes with
  | nil => exact absurd rfl hne
  | cons byte rest =>
      by_cases hbegins : Begins [byte]
      · exact extend rest [byte] (List.cons_ne_nil _ _) hbegins rfl
      · refine ⟨[byte], rest, List.cons_ne_nil _ _, rfl, .stray hbegins fun c hc => hnone c ?_⟩
        rw [hc]
        exact List.prefix_append [byte] rest

/-- All bytes stand for some characters. -/
theorem exists_decodes (bytes : List Nat) : ∃ chars, Decodes bytes chars := by
  -- a character and bytes that are given up both leave fewer bytes
  induction hlength : bytes.length using Nat.strongRecOn generalizing bytes with
  | ind length ih =>
      have shorter : ∀ front rest : List Nat, front ≠ [] → bytes = front ++ rest →
          ∃ chars, Decodes rest chars := by
        rintro front rest hfront rfl
        have hpos := List.length_pos_iff.mpr hfront
        rw [List.length_append] at hlength
        exact ih rest.length (by omega) rest rfl
      by_cases hne : bytes = []
      · exact ⟨[], hne ▸ .nil⟩
      · by_cases hchar : ∃ c, utf8Bytes c <+: bytes
        · obtain ⟨c, rest, hsplit⟩ := hchar
          obtain ⟨chars, hrest⟩ := shorter _ rest (utf8Bytes_ne_nil c) hsplit.symm
          exact ⟨c :: chars, hsplit ▸ .char c hrest⟩
        · obtain ⟨front, rest, hfront, hsplit, hbroken⟩ :=
            exists_broken hne (not_exists.mp hchar)
          obtain ⟨chars, hrest⟩ := shorter front rest hfront hsplit
          exact ⟨replacement :: chars, hsplit ▸ .broken hbroken hrest⟩

/-- The machine gives exactly the characters that the bytes stand for. -/
theorem decodeUtf8_eq_iff {bytes : List Nat} {chars : List Char} :
    decodeUtf8 bytes = chars ↔ Decodes bytes chars := by
  refine ⟨?_, Decodes.decode⟩
  rintro rfl
  obtain ⟨chars, hdecodes⟩ := exists_decodes bytes
  rw [hdecodes.decode]
  exact hdecodes

end Text

end JsonSelection
