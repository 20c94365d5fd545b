import JsonSelection.Proofs.Paging.Decoding

/-!
# The grammar of host literals

The texts that may stand between the brackets of an authority, as a grammar:

```text
Host   = 'v' HexDigit+ '.' Character+ | IPv6 ['%' Zone]
IPv6   = Groups, eight of them | [Groups] '::' [Groups], seven of them at most
Groups = (Group ':')* (Group | Octet '.' Octet '.' Octet '.' Octet)
Group  = HexDigit, one to four of them
Octet  = a decimal number up to 255
```

Four octets count as two groups, and they may only stand at the end of the whole
address.

## What this module delivers

- `HostLiteral.Host`: the grammar, with `IPv6`, `Groups`, `Group`, `Dotted` and
  `Octet` for its parts.
- `HostLiteral.isValid_iff`: the recognizer accepts exactly the grammar, with one
  lemma for each of its parts.

A gap of two colons is found at its first place by the recognizer and anywhere by
the grammar. Both come to the same, as no group is empty (`splitGap?_of_groups`).
-/

set_option autoImplicit false

namespace JsonSelection

namespace HostLiteral

open Text (HexDigit hexValue?_eq_some_iff)

/-! ## The grammar -/

/-- A number up to 255 in decimal digits. No zero stands before another digit. -/
def Octet (cs : List Char) : Prop :=
  ∃ n, n ≤ 255 ∧ cs = Nat.toDigits 10 n

/-- Four octets with points between them. -/
def Dotted (cs : List Char) : Prop :=
  ∃ octets : List (List Char), octets.length = 4 ∧ (∀ octet ∈ octets, Octet octet) ∧
    ['.'].intercalate octets = cs

/-- Only hexadecimal digits, and at least one. -/
def HexDigits (cs : List Char) : Prop :=
  cs ≠ [] ∧ ∀ c ∈ cs, ∃ n, HexDigit c n

/-- One to four hexadecimal digits. -/
def Group (cs : List Char) : Prop :=
  HexDigits cs ∧ cs.length ≤ 4

/-- Groups with colons between them, and how many they are. Four octets count as
two groups; they may stand last, if they may stand at all. -/
inductive Groups (octetsLast : Bool) : List Char → Nat → Prop where
  | group {cs : List Char} : Group cs → Groups octetsLast cs 1
  | octets {cs : List Char} : octetsLast = true → Dotted cs → Groups octetsLast cs 2
  | cons {group rest : List Char} {n : Nat} : Group group → Groups octetsLast rest n →
      Groups octetsLast (group ++ ':' :: rest) (n + 1)

/-- What may stand on one side of a gap: groups, or nothing. The number is how
many groups of an address they make. -/
inductive Side (octetsLast : Bool) : List Char → Nat → Prop where
  | empty : Side octetsLast [] 0
  | groups {cs : List Char} {n : Nat} : Groups octetsLast cs n → Side octetsLast cs n

/-- An address of eight groups, or of fewer with a gap for the others. A gap
stands for one group at least. -/
inductive IPv6 : List Char → Prop where
  | full {cs : List Char} : Groups true cs 8 → IPv6 cs
  | gap {before after : List Char} {high low : Nat} : Side false before high →
      Side true after low → high + low < 8 → IPv6 (before ++ ':' :: ':' :: after)

/-- A host literal: an address, with a zone or without, or a literal of a
version to come. -/
inductive Host : List Char → Prop where
  | address {cs : List Char} : IPv6 cs → Host cs
  | zoned {address zone : List Char} : IPv6 address → zone ≠ [] → '%' ∉ zone →
      Host (address ++ '%' :: zone)
  | future {version rest : List Char} : HexDigits version → rest ≠ [] →
      Host ('v' :: (version ++ '.' :: rest))

/-! ## Octets and groups -/

theorem isHexDigit_iff {c : Char} : isHexDigit c = true ↔ ∃ n, HexDigit c n := by
  rw [isHexDigit, Option.isSome_iff_exists]
  exact exists_congr fun n => hexValue?_eq_some_iff

/-- No mark is a hexadecimal digit. -/
theorem not_isHexDigit_mark (c : Char) (h : c ∈ [':', '.', '%', 'v']) : isHexDigit c = false := by
  have hall : [':', '.', '%', 'v'].all (fun c => !isHexDigit c) = true := by
    decide +kernel
  simpa using List.all_eq_true.mp hall c h

theorem HexDigits.not_mem {cs : List Char} (h : HexDigits cs) (mark : Char)
    (hmark : mark ∈ [':', '.', '%', 'v']) : mark ∉ cs := by
  intro hmem
  have hdigit := isHexDigit_iff.mpr (h.2 mark hmem)
  rw [not_isHexDigit_mark mark hmark] at hdigit
  cases hdigit

theorem exists_digit {c : Char} (h : c.isDigit = true) : ∃ n < 10, c = Char.ofNat (48 + n) := by
  simp only [Char.isDigit, Bool.and_eq_true, decide_eq_true_eq, ge_iff_le,
    UInt32.le_iff_toNat_le] at h
  have hleast : 48 ≤ c.toNat := h.1
  have hmost : c.toNat ≤ 57 := h.2
  refine ⟨c.toNat - 48, by omega, ?_⟩
  rw [Nat.add_sub_cancel' hleast, Char.ofNat_toNat]

/-- An octet has at most three digits, which can be tried. -/
theorem isOctet_iff {cs : List Char} : isOctet cs = true ↔ Octet cs := by
  -- one fact for each number of digits, tried over all digits
  have one : ∀ i < 10, isOctet [Char.ofNat (48 + i)] = true →
      i ≤ 255 ∧ [Char.ofNat (48 + i)] = Nat.toDigits 10 i := by
    decide
  have two : ∀ i < 10, ∀ j < 10, isOctet [Char.ofNat (48 + i), Char.ofNat (48 + j)] = true →
      10 * i + j ≤ 255 ∧
        [Char.ofNat (48 + i), Char.ofNat (48 + j)] = Nat.toDigits 10 (10 * i + j) := by
    decide +kernel
  have three : ∀ i < 10, ∀ j < 10, ∀ k < 10,
      isOctet [Char.ofNat (48 + i), Char.ofNat (48 + j), Char.ofNat (48 + k)] = true →
      100 * i + 10 * j + k ≤ 255 ∧
        [Char.ofNat (48 + i), Char.ofNat (48 + j), Char.ofNat (48 + k)] =
          Nat.toDigits 10 (100 * i + 10 * j + k) := by
    decide +kernel
  constructor
  · intro h
    have hparts := h
    simp only [isOctet, Bool.and_eq_true, Bool.not_eq_true', decide_eq_true_eq,
      List.all_eq_true] at hparts
    obtain ⟨⟨⟨⟨hne, hlength⟩, hdigits⟩, -⟩, -⟩ := hparts
    match cs, hlength with
    | [], _ => cases hne
    | [a], _ =>
        obtain ⟨i, hi, rfl⟩ := exists_digit (hdigits a (by simp))
        exact ⟨_, one i hi h⟩
    | [a, b], _ =>
        obtain ⟨i, hi, rfl⟩ := exists_digit (hdigits a (by simp))
        obtain ⟨j, hj, rfl⟩ := exists_digit (hdigits b (by simp))
        exact ⟨_, two i hi j hj h⟩
    | [a, b, c], _ =>
        obtain ⟨i, hi, rfl⟩ := exists_digit (hdigits a (by simp))
        obtain ⟨j, hj, rfl⟩ := exists_digit (hdigits b (by simp))
        obtain ⟨k, hk, rfl⟩ := exists_digit (hdigits c (by simp))
        exact ⟨_, three i hi j hj k hk h⟩
  · have all : ∀ n < 256, isOctet (Nat.toDigits 10 n) = true := by
      decide +kernel
    rintro ⟨n, hn, rfl⟩
    exact all n (by omega)

theorem not_mem_of_isOctet {cs : List Char} (h : isOctet cs = true) {mark : Char}
    (hmark : mark.isDigit = false) : mark ∉ cs := by
  intro hmem
  simp only [isOctet, Bool.and_eq_true, List.all_eq_true] at h
  rw [h.1.1.2 mark hmem] at hmark
  cases hmark

theorem isDotted_iff {cs : List Char} : isDotted cs = true ↔ Dotted cs := by
  simp only [isDotted, Bool.and_eq_true, beq_iff_eq, List.all_eq_true]
  constructor
  · rintro ⟨hlength, hoctets⟩
    exact ⟨Text.pieces '.' cs, hlength, fun octet hmem => isOctet_iff.mp (hoctets octet hmem),
      (Text.pieces_spec '.' cs).2.2⟩
  · rintro ⟨octets, hlength, hoctets, rfl⟩
    have hne : octets ≠ [] := by
      rintro rfl
      cases hlength
    rw [Text.pieces_intercalate hne fun octet hmem =>
      not_mem_of_isOctet (isOctet_iff.mpr (hoctets octet hmem)) rfl]
    exact ⟨hlength, fun octet hmem => isOctet_iff.mpr (hoctets octet hmem)⟩

theorem isGroup_iff {cs : List Char} : isGroup cs = true ↔ Group cs := by
  simp only [isGroup, Bool.and_eq_true, Bool.not_eq_true', List.isEmpty_eq_false_iff,
    decide_eq_true_eq, List.all_eq_true, isHexDigit_iff, Group, HexDigits]
  tauto

/-- What stands in a text of parts is the separator or stands in a part. -/
theorem mem_of_mem_intercalate {separator c : Char} {parts : List (List Char)}
    (h : c ∈ [separator].intercalate parts) : c = separator ∨ ∃ part ∈ parts,
    c ∈ part := by
  induction parts with
  | nil => cases h
  | cons part others ih =>
      cases others with
      | nil =>
          rw [List.intercalate_singleton] at h
          exact Or.inr ⟨part, List.mem_cons_self, h⟩
      | cons next more =>
          rw [List.intercalate_cons_cons, List.append_assoc, List.singleton_append,
            List.mem_append, List.mem_cons] at h
          rcases h with h | rfl | h
          · exact Or.inr ⟨part, List.mem_cons_self, h⟩
          · exact Or.inl rfl
          · refine (ih h).imp_right ?_
            rintro ⟨other, hother, hc⟩
            exact ⟨other, List.mem_cons_of_mem part hother, hc⟩

/-- Octets hold nothing but digits and points. -/
theorem Dotted.not_mem {cs : List Char} (h : Dotted cs) (mark : Char)
    (hmark : mark.isDigit = false) (hpoint : mark ≠ '.') : mark ∉ cs := by
  obtain ⟨octets, -, hoctets, rfl⟩ := h
  intro hmem
  rcases mem_of_mem_intercalate hmem with hpoint' | ⟨octet, hoctet, hmem⟩
  · exact hpoint hpoint'
  · exact not_mem_of_isOctet (isOctet_iff.mpr (hoctets octet hoctet)) hmark hmem

/-- The points between octets tell them from a group. -/
theorem not_isGroup_of_dotted {cs : List Char} (h : Dotted cs) : isGroup cs = false := by
  obtain ⟨octets, hlength, -, rfl⟩ := h
  rw [Bool.eq_false_iff]
  intro hgroup
  refine (isGroup_iff.mp hgroup).1.not_mem '.' (by decide) ?_
  match octets, hlength with
  | first :: second :: rest, _ =>
      rw [List.intercalate_cons_cons]
      simp

/-! ## Groups between colons -/

theorem HexDigits.head_ne {cs : List Char} (h : HexDigits cs) (mark : Char)
    (hmark : mark ∈ [':', '.', '%', 'v']) : ∃ c rest, cs = c :: rest ∧ c ≠ mark := by
  obtain ⟨c, rest, rfl⟩ := List.exists_cons_of_ne_nil h.1
  exact ⟨c, rest, rfl, fun hc => h.not_mem mark hmark (hc ▸ List.mem_cons_self)⟩

namespace Groups

variable {octetsLast : Bool} {cs : List Char} {n : Nat}

/-- Groups do not start with a colon. -/
theorem head_ne (h : Groups octetsLast cs n) : ∃ c rest, cs = c :: rest ∧ c ≠ ':' := by
  cases h with
  | group hgroup => exact hgroup.1.head_ne _ (by decide)
  | octets _ hdotted =>
      cases cs with
      | nil =>
          exfalso
          obtain ⟨octets, hlength, -, hjoin⟩ := hdotted
          -- four octets have points among them, so they are not empty
          match octets, hlength with
          | first :: second :: rest, _ =>
              rw [List.intercalate_cons_cons] at hjoin
              simp at hjoin
      | cons c rest =>
          refine ⟨c, rest, rfl, fun hc => ?_⟩
          exact hdotted.not_mem ':' rfl (by decide) (hc ▸ List.mem_cons_self)
  | cons hgroup _ =>
      obtain ⟨c, rest, rfl, hc⟩ := hgroup.1.head_ne ':' (by decide)
      exact ⟨c, _, rfl, hc⟩

/-- Groups hold neither a percent sign nor the letter of a version. -/
theorem not_mem (h : Groups octetsLast cs n) (mark : Char) (hmark : mark ∈ ['%', 'v']) :
    mark ∉ cs := by
  have hall : mark ∈ [':', '.', '%', 'v'] := List.mem_cons_of_mem _ (List.mem_cons_of_mem _ hmark)
  have hother : mark.isDigit = false ∧ mark ≠ '.' ∧ mark ≠ ':' := by
    simp only [List.mem_cons, List.not_mem_nil, or_false] at hmark
    rcases hmark with rfl | rfl <;> decide
  induction h with
  | group hgroup => exact hgroup.1.not_mem mark hall
  | octets _ hdotted => exact hdotted.not_mem mark hother.1 hother.2.1
  | cons hgroup _ ih =>
      rw [List.mem_append, List.mem_cons]
      exact not_or.mpr ⟨hgroup.1.not_mem mark hall, not_or.mpr ⟨hother.2.2, ih⟩⟩

end Groups

/-- Groups are counted by the pieces between the colons. -/
theorem countGroups?_of_groups {octetsLast : Bool} {cs : List Char} {n : Nat}
    (h : Groups octetsLast cs n) : countGroups? octetsLast (Text.pieces ':' cs) = some n := by
  induction h with
  | group hgroup =>
      rw [Text.pieces_of_not_mem (hgroup.1.not_mem _ (by decide)), countGroups?,
        if_pos (isGroup_iff.mpr hgroup)]
  | octets hlast hdotted =>
      rw [Text.pieces_of_not_mem (hdotted.not_mem _ rfl (by decide)), countGroups?,
        not_isGroup_of_dotted hdotted, hlast, isDotted_iff.mpr hdotted]
      rfl
  | @cons group rest n hgroup _ ih =>
      rw [Text.pieces_append (hgroup.1.not_mem _ (by decide))]
      obtain ⟨piece, others, hpieces⟩ :=
        List.exists_cons_of_ne_nil (Text.pieces_spec ':' rest).1
      rw [hpieces] at ih ⊢
      rw [countGroups?, if_pos (isGroup_iff.mpr hgroup), ih]
      · rfl
      · exact List.cons_ne_nil _ _

theorem groups_of_countGroups? {octetsLast : Bool} {parts : List (List Char)} {n : Nat}
    (hne : parts ≠ []) (h : countGroups? octetsLast parts = some n) :
    Groups octetsLast ([':'].intercalate parts) n := by
  induction parts generalizing n with
  | nil => exact absurd rfl hne
  | cons part others ih =>
      cases others with
      | nil =>
          -- only the last part may be octets
          rw [List.intercalate_singleton]
          rw [countGroups?] at h
          split at h
          · next hgroup =>
              obtain rfl := Option.some.inj h
              exact .group (isGroup_iff.mp hgroup)
          · split at h
            · next hdotted =>
                obtain rfl := Option.some.inj h
                rw [Bool.and_eq_true] at hdotted
                exact .octets hdotted.1 (isDotted_iff.mp hdotted.2)
            · cases h
      | cons next more =>
          rw [List.intercalate_cons_cons, List.append_assoc, List.singleton_append]
          rw [countGroups?] at h
          · split at h
            · next hgroup =>
                obtain ⟨m, hm, rfl⟩ := Option.map_eq_some_iff.mp h
                exact .cons (isGroup_iff.mp hgroup) (ih (List.cons_ne_nil _ _) hm)
            · cases h
          · exact List.cons_ne_nil _ _

/-- What is counted between two marks is one side of a gap. -/
theorem groups?_eq_some_iff {octetsLast : Bool} {cs : List Char} {n : Nat} :
    groups? octetsLast cs = some n ↔ Side octetsLast cs n := by
  rw [groups?]
  constructor
  · intro h
    split at h
    · next hempty =>
        obtain rfl := List.isEmpty_iff.mp hempty
        obtain rfl := Option.some.inj h
        exact .empty
    · obtain ⟨hne, -, hjoin⟩ := Text.pieces_spec ':' cs
      have hgroups := groups_of_countGroups? hne h
      rw [hjoin] at hgroups
      exact .groups hgroups
  · intro h
    cases h with
    | empty => rfl
    | groups hgroups =>
        obtain ⟨c, rest, rfl, -⟩ := hgroups.head_ne
        exact countGroups?_of_groups hgroups

/-! ## Gaps -/

/-- A gap that is found stands there. -/
theorem splitGap?_sound {cs before after : List Char} (h : splitGap? cs = some (before, after)) :
    cs = before ++ ':' :: ':' :: after := by
  fun_induction splitGap? cs generalizing before after with
  | case1 => cases h
  | case2 rest =>
      obtain ⟨rfl, rfl⟩ := Prod.mk.inj (Option.some.inj h)
      rfl
  | case3 c rest _ ih =>
      obtain ⟨⟨front, back⟩, hgap, heq⟩ := Option.map_eq_some_iff.mp h
      obtain ⟨rfl, rfl⟩ := Prod.mk.inj heq
      rw [ih hgap, List.cons_append]

/-- Past a text without colons the same gap is found. -/
theorem splitGap?_append {front : List Char} (h : ':' ∉ front) (rest : List Char) :
    splitGap? (front ++ rest) =
      (splitGap? rest).map fun gap => (front ++ gap.1, gap.2) := by
  induction front with
  | nil =>
      rw [List.nil_append]
      cases splitGap? rest <;> rfl
  | cons c others ih =>
      obtain ⟨hc, hothers⟩ := not_or.mp (mt List.mem_cons.mpr h)
      rw [List.cons_append, splitGap?, ih hothers]
      · cases splitGap? rest <;> rfl
      · intro _ heq _
        exact hc heq.symm

/-- Past groups the same gap is found: no two colons stand next to each other
among them. -/
theorem splitGap?_of_groups {octetsLast : Bool} {cs : List Char} {n : Nat}
    (h : Groups octetsLast cs n) (rest : List Char) :
    splitGap? (cs ++ rest) = (splitGap? rest).map fun gap => (cs ++ gap.1, gap.2) := by
  induction h with
  | group hgroup => exact splitGap?_append (hgroup.1.not_mem _ (by decide)) rest
  | octets _ hdotted => exact splitGap?_append (hdotted.not_mem _ rfl (by decide)) rest
  | @cons group others n hgroup hothers ih =>
      obtain ⟨c, tail, rfl, hc⟩ := hothers.head_ne
      rw [List.append_assoc, splitGap?_append (hgroup.1.not_mem _ (by decide)), List.cons_append,
        splitGap?, ih]
      · cases splitGap? rest <;> simp
      · intro _ _ heq
        exact hc (List.cons.inj heq).1

/-- After one side of a gap the gap is found. -/
theorem splitGap?_of_side {octetsLast : Bool} {before : List Char} {n : Nat}
    (h : Side octetsLast before n) (after : List Char) :
    splitGap? (before ++ ':' :: ':' :: after) = some (before, after) := by
  cases h with
  | empty => rfl
  | groups hgroups =>
      rw [splitGap?_of_groups hgroups, splitGap?, Option.map_some, List.append_nil]

theorem isIPv6_iff {cs : List Char} : isIPv6 cs = true ↔ IPv6 cs := by
  constructor
  · intro h
    rw [isIPv6] at h
    split at h
    · rw [beq_iff_eq, groups?_eq_some_iff] at h
      cases h with
      | groups hgroups => exact .full hgroups
    · next before after hgap =>
        split at h
        · next high low hhigh hlow =>
            rw [splitGap?_sound hgap]
            exact .gap (groups?_eq_some_iff.mp hhigh) (groups?_eq_some_iff.mp hlow)
              (of_decide_eq_true h)
        · cases h
  · intro h
    cases h with
    -- groups have no gap among them, so the recognizer finds none
    | full hgroups =>
        have hgap := splitGap?_of_groups hgroups []
        rw [List.append_nil] at hgap
        rw [isIPv6, hgap]
        exact beq_iff_eq.mpr (groups?_eq_some_iff.mpr (.groups hgroups))
    | @gap before after high low hbefore hafter hfew =>
        rw [isIPv6, splitGap?_of_side hbefore after]
        dsimp only
        rw [groups?_eq_some_iff.mpr hbefore, groups?_eq_some_iff.mpr hafter]
        exact decide_eq_true hfew

/-! ## Host literals -/

/-- An address holds neither a percent sign nor the letter of a version. -/
theorem IPv6.not_mem {cs : List Char} (h : IPv6 cs) (mark : Char) (hmark : mark ∈ ['%', 'v']) :
    mark ∉ cs := by
  have side : ∀ {octetsLast : Bool} {cs : List Char} {n : Nat}, Side octetsLast cs n →
      mark ∉ cs := by
    intro octetsLast cs n hside
    cases hside with
    | empty => exact List.not_mem_nil
    | groups hgroups => exact hgroups.not_mem mark hmark
  have hcolon : mark ≠ ':' := by
    simp only [List.mem_cons, List.not_mem_nil, or_false] at hmark
    rcases hmark with rfl | rfl <;> decide
  cases h with
  | full hgroups => exact hgroups.not_mem mark hmark
  | gap hbefore hafter _ =>
      rw [List.mem_append, List.mem_cons, List.mem_cons]
      exact not_or.mpr ⟨side hbefore, not_or.mpr ⟨hcolon,
        not_or.mpr ⟨hcolon, side hafter⟩⟩⟩

theorem isZoned_iff {cs : List Char} :
    isZoned cs = true ↔ IPv6 cs ∨
      ∃ address zone, cs = address ++ '%' :: zone ∧ IPv6 address ∧ zone ≠ [] ∧
      '%' ∉ zone := by
  constructor
  · intro h
    rw [isZoned] at h
    rcases Text.splitBefore_mark_cases '%' cs with ⟨-, hcut⟩ | ⟨address, zone, -, rfl, hcut⟩
    · rw [hcut] at h
      exact Or.inl (isIPv6_iff.mp h)
    · rw [hcut] at h
      simp only [Bool.and_eq_true, Bool.not_eq_true', List.isEmpty_eq_false_iff] at h
      exact Or.inr ⟨address, zone, rfl, isIPv6_iff.mp h.1.1, h.1.2, by simpa using h.2⟩
  · rintro (haddress | ⟨address, zone, rfl, haddress, hne, hzone⟩)
    · -- no percent sign stands in an address
      rw [isZoned, Text.splitBefore_of_not_mem (haddress.not_mem _ (by decide))]
      exact isIPv6_iff.mpr haddress
    · rw [isZoned, Text.splitBefore_mark (haddress.not_mem _ (by decide))]
      simp only [isIPv6_iff.mpr haddress, Bool.true_and, Bool.and_eq_true, Bool.not_eq_true',
        List.isEmpty_eq_false_iff]
      exact ⟨hne, by simpa using hzone⟩

theorem isFuture_iff {cs : List Char} :
    isFuture cs = true ↔
      ∃ version rest, cs = version ++ '.' :: rest ∧ HexDigits version ∧ rest ≠ [] := by
  constructor
  · intro h
    rw [isFuture] at h
    split at h
    · next version rest hsplit =>
        obtain ⟨rfl, hversion, -⟩ := Text.splitBefore_eq_iff.mp hsplit
        simp only [Bool.and_eq_true, Bool.not_eq_true', List.isEmpty_eq_false_iff] at h
        exact ⟨version, rest, rfl, ⟨h.1, fun c hc => isHexDigit_iff.mp
          (by simpa using hversion c hc)⟩, h.2⟩
    · cases h
  · rintro ⟨version, rest, rfl, hversion, hne⟩
    -- the version ends at the point, which is no hexadecimal digit
    have hsplit : Text.splitBefore (fun c => !isHexDigit c) (version ++ '.' :: rest) =
        (version, '.' :: rest) := by
      refine Text.splitBefore_eq_iff.mpr ⟨rfl, fun c hc => ?_, fun c tail heq => ?_⟩
      · simpa using isHexDigit_iff.mpr (hversion.2 c hc)
      · obtain ⟨rfl, -⟩ := List.cons.inj heq
        rfl
    rw [isFuture, hsplit]
    simp only [Bool.and_eq_true, Bool.not_eq_true', List.isEmpty_eq_false_iff]
    exact ⟨hversion.1, hne⟩

/-- The recognizer accepts exactly the host literals. -/
theorem isValid_iff {cs : List Char} : isValid cs = true ↔ Host cs := by
  constructor
  · intro h
    unfold isValid at h
    split at h
    · obtain ⟨version, rest, rfl, hversion, hne⟩ := isFuture_iff.mp h
      exact .future hversion hne
    · rcases isZoned_iff.mp h with haddress | ⟨address, zone, rfl, haddress, hne, hzone⟩
      · exact .address haddress
      · exact .zoned haddress hne hzone
  · intro h
    -- no address starts with the letter of a version
    have zoned : ∀ cs, isZoned cs = true → (∀ rest, cs ≠ 'v' :: rest) →
        isValid cs = true := by
      intro cs hzoned hletter
      rw [isValid]
      · exact hzoned
      · exact hletter
    cases h with
    | address haddress =>
        refine zoned cs (isZoned_iff.mpr (Or.inl haddress)) ?_
        rintro rest rfl
        exact haddress.not_mem 'v' (by decide) List.mem_cons_self
    | @zoned address zone haddress hne hzone =>
        refine zoned _ (isZoned_iff.mpr (Or.inr ⟨address, zone, rfl, haddress, hne, hzone⟩)) ?_
        intro rest heq
        have hletter := haddress.not_mem 'v' (by decide)
        cases address with
        | nil => exact absurd (List.cons.inj heq).1 (by decide)
        | cons c others =>
            obtain ⟨rfl, -⟩ := List.cons.inj heq
            exact hletter List.mem_cons_self
    | future hversion hne =>
        exact isFuture_iff.mpr ⟨_, _, rfl, hversion, hne⟩

end HostLiteral

end JsonSelection
