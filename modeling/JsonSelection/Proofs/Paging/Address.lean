import JsonSelection.Proofs.Entries
import JsonSelection.Proofs.Paging.Hosts

/-!
# The parameters that an address carries

What the parameters of an address are, without the functions that read them:

```text
Address   = [Scheme ':'] ['//' Authority] Path ['?' Query] ['#' Fragment]
Query     = Piece ('&' Piece)*
Piece     = [Name ['=' Value]]
```

The address is cleaned before it is taken apart, its authority must be sound, and
names and values are percent-encoded texts.

## What this module delivers

- `Address.Queried`: an address and the text of its query, from `Cleaned`,
  `Schemed`, `Split`, `Sound` and `Asked` for the steps.
- `Address.Carries`: an address and a parameter of it, that is a piece of the query
  with a name and a value. An empty piece is no parameter, a missing value is the
  empty text, and of the pieces with one name the last one counts.
- `Address.query?_eq_some_iff` and `Address.find?_parameters_iff`: these are what the
  functions read, whichever check of hosts is made.
-/

set_option autoImplicit false

namespace JsonSelection

namespace Address

/-! ## The grammar of addresses -/

/-- An address and what is left when the control characters and blanks at its
start are dropped, and the tabs and line ends anywhere. -/
def Cleaned (address cs : List Char) : Prop :=
  ∃ front rest, address = front ++ rest ∧ (∀ c ∈ front, c.toNat ≤ 0x20) ∧
    (∀ c others, rest = c :: others → 0x20 < c.toNat) ∧
    cs = rest.filter fun c => c ∉ ['\t', '\r', '\n']

/-- A letter, and behind it letters, digits, plus signs, minus signs and points. -/
def Scheme (cs : List Char) : Prop :=
  ∃ first rest, cs = first :: rest ∧ first.isAlpha = true ∧
    ∀ c ∈ cs, c.isAlphanum = true ∨ c ∈ ['+', '-', '.']

/-- A text and what is behind its scheme; without a scheme that is the whole
text. A colon alone makes no scheme. -/
inductive Schemed : List Char → List Char → Prop where
  | scheme {scheme rest : List Char} : Scheme scheme → Schemed (scheme ++ ':' :: rest) rest
  | bare {cs : List Char} : (∀ scheme rest, cs = scheme ++ ':' :: rest → ¬ Scheme scheme) →
      Schemed cs cs

/-- A text, its authority and what is behind it; without two slashes the
authority is empty. -/
inductive Split : List Char → List Char → List Char → Prop where
  | authority {authority rest : List Char} : (∀ c ∈ authority, c ∉ ['/', '?', '#']) →
      (∀ c others, rest = c :: others → c ∈ ['/', '?', '#']) →
      Split ('/' :: '/' :: (authority ++ rest)) authority rest
  | none {cs : List Char} : (∀ rest, cs ≠ '/' :: '/' :: rest) → Split cs [] cs

/-- Nothing, or a fragment with the mark before it. -/
def Fragment (cs : List Char) : Prop :=
  ∀ c rest, cs = c :: rest → c = '#'

/-- What is behind an authority, and the text of the query in it; without a
question mark the query is empty. -/
inductive Asked : List Char → List Char → Prop where
  | query {path query fragment : List Char} : '?' ∉ path → '#' ∉ path → '#' ∉ query →
      Fragment fragment → Asked (path ++ '?' :: (query ++ fragment)) query
  | none {path fragment : List Char} : '?' ∉ path → '#' ∉ path → Fragment fragment →
      Asked (path ++ fragment) []

/-! ## Sound authorities -/

/-- The characters beyond ASCII whose compatibility form holds a dividing mark,
with that form. -/
def compatibilityForms : List (Char × String) :=
  [('\u2047', "??"), ('\u2048', "?!"), ('\u2049', "!?"), ('\u2100', "a/c"), ('\u2101', "a/s"),
    ('\u2105', "c/o"), ('\u2106', "c/u"), ('\u2A74', "::="), ('\uFE13', ":"), ('\uFE16', "?"),
    ('\uFE55', ":"), ('\uFE56', "?"), ('\uFE5F', "#"), ('\uFE6B', "@"), ('\uFF03', "#"),
    ('\uFF0F', "/"), ('\uFF1A', ":"), ('\uFF1F', "?"), ('\uFF20', "@")]

/-- A character with a dividing mark in its compatibility form. -/
def HidesMark (c : Char) : Prop :=
  ∃ form, (c, form) ∈ compatibilityForms ∧ ∃ mark ∈ form.toList,
    mark ∈ ['/', '?', '#', '@', ':']

/-- An authority and the part of it behind the user. Only the last at sign ends
a user, so the part behind it has none. -/
def Placed (authority place : List Char) : Prop :=
  '@' ∉ place ∧ (authority = place ∨ ∃ user, authority = user ++ '@' :: place)

/-- What may stand behind a host in brackets: the closing bracket and a port, or
less. -/
inductive Closing : List Char → Prop where
  | nothing : Closing []
  | bracket : Closing [']']
  | port {rest : List Char} : Closing (']' :: ':' :: rest)

/-- An authority with brackets, and the text that a check takes for its host.
The strict check takes the text before the port where the brackets belong to the
user. -/
inductive Hosted : HostCheck → List Char → List Char → Prop where
  | enclosed {before host after : List Char} : '[' ∉ before → ']' ∉ host →
      (∀ c rest, after = c :: rest → c = ']') →
      Hosted .enclosed (before ++ '[' :: (host ++ after)) host
  | alone {authority host after : List Char} : Placed authority ('[' :: (host ++ after)) →
      ']' ∉ host → Closing after → Hosted .alone authority host
  | user {authority host after : List Char} : Placed authority (host ++ after) →
      '[' ∉ host ++ after → ':' ∉ host → (∀ c rest, after = c :: rest → c = ':') →
      Hosted .alone authority host

/-- An authority that can be taken as one: it has no brackets, or both kinds of
them and a host literal; and no character in it hides a mark. -/
structure Sound (check : HostCheck) (authority : List Char) : Prop where
  brackets : ('[' ∉ authority ∧ ']' ∉ authority) ∨
    ('[' ∈ authority ∧ ']' ∈ authority ∧
      ∃ host, Hosted check authority host ∧ HostLiteral.Host host)
  marks : ∀ c ∈ authority, ¬ HidesMark c

/-- An address and the text of its query. Blanks and control characters in
front, and tabs and line breaks anywhere, are dropped before it is divided. -/
inductive Queried (check : HostCheck) : List Char → List Char → Prop where
  | mk {address cs rest authority tail query : List Char} : Cleaned address cs →
      Schemed cs rest → Split rest authority tail → Sound check authority →
      Asked tail query → Queried check address query

/-! ## Parameters -/

/-- A piece of a query with the name and the value that it writes. The first
equal sign divides the two; without one the value is empty. -/
inductive Pair : List Char → String → String → Prop where
  | assigned {name value : List Char} {nameText valueText : String} : '=' ∉ name →
      Means name nameText → Means value valueText →
      Pair (name ++ '=' :: value) nameText valueText
  | bare {name : List Char} {nameText : String} : name ≠ [] → '=' ∉ name →
      Means name nameText → Pair name nameText ""

/-- An address and a parameter that it carries. Of several pieces with the name
the last one counts. -/
inductive Carries (check : HostCheck) (url : String) : String → String → Prop where
  | mk {query : List Char} {before after : List (List Char)} {piece : List Char}
      {name text : String} : Queried check url.toList query →
      ['&'].intercalate (before ++ piece :: after) = query →
      (∀ part ∈ before ++ piece :: after, '&' ∉ part) → Pair piece name text →
      (∀ other ∈ after, ∀ value, ¬ Pair other name value) → Carries check url name text

/-! ## Taking an address apart

One lemma for each step: what the function gives is what the relation says. -/

theorem cleaned_eq_iff {address cs : List Char} : cleaned address = cs ↔ Cleaned address cs := by
  have hfilter : ∀ rest : List Char,
      rest.filter (fun c => !(c == '\t' || c == '\r' || c == '\n')) =
        rest.filter fun c => c ∉ ['\t', '\r', '\n'] := by
    intro rest
    exact List.filter_congr fun c _ => by
      rw [Bool.eq_iff_iff]
      simp [and_assoc]
  -- what is dropped in front is determined by its two ends
  have hdrop : ∀ {front rest : List Char}, address = front ++ rest →
      (∀ c ∈ front, c.toNat ≤ 0x20) →
      (∀ c others, rest = c :: others → 0x20 < c.toNat) →
      address.dropWhile (fun c => decide (c.toNat ≤ 0x20)) = rest := by
    rintro front rest rfl hfront hrest
    rw [List.dropWhile_append_of_pos fun c hc => decide_eq_true (hfront c hc)]
    cases rest with
    | nil => rfl
    | cons c others =>
        have hc := hrest c others rfl
        exact List.dropWhile_cons_of_neg (by simpa using hc)
  rw [cleaned, hfilter]
  constructor
  · rintro rfl
    cases hcut : Text.splitBefore (fun c => !decide (c.toNat ≤ 0x20)) address with
    | mk front rest =>
        obtain ⟨hsplit, hfront, hback⟩ := Text.splitBefore_eq_iff.mp hcut
        have hfront' : ∀ c ∈ front, c.toNat ≤ 0x20 := fun c hc => by simpa using hfront c hc
        have hback' : ∀ c others, rest = c :: others → 0x20 < c.toNat :=
          fun c others heq => by simpa using hback c others heq
        exact ⟨front, rest, hsplit, hfront', hback', by rw [hdrop hsplit hfront' hback']⟩
  · rintro ⟨front, rest, hsplit, hfront, hrest, rfl⟩
    rw [hdrop hsplit hfront hrest]

theorem isScheme_iff {first : Char} {rest : List Char} :
    (first.isAlpha && (first :: rest).all isSchemeChar) = true ↔ Scheme (first :: rest) := by
  have hchar : ∀ c, isSchemeChar c = true ↔ c.isAlphanum = true ∨ c ∈ ['+', '-', '.'] := by
    intro c
    simp only [isSchemeChar, Bool.or_eq_true, beq_iff_eq, List.mem_cons, List.not_mem_nil,
      or_false, or_assoc]
  rw [Bool.and_eq_true, List.all_eq_true]
  constructor
  · rintro ⟨hfirst, hall⟩
    exact ⟨first, rest, rfl, hfirst, fun c hc => (hchar c).mp (hall c hc)⟩
  · rintro ⟨_, _, heq, hfirst, hall⟩
    obtain ⟨rfl, rfl⟩ := List.cons.inj heq
    exact ⟨hfirst, fun c hc => (hchar c).mpr (hall c hc)⟩

/-- The colon that ends a scheme is the first one. -/
theorem splitBefore_scheme {scheme : List Char} (h : Scheme scheme) (rest : List Char) :
    Text.splitBefore (· == ':') (scheme ++ ':' :: rest) = (scheme, ':' :: rest) := by
  refine Text.splitBefore_mark (fun hmem => ?_) rest
  obtain ⟨_, _, -, -, hall⟩ := h
  have hcolon : ¬ (':'.isAlphanum = true ∨ ':' ∈ ['+', '-', '.']) := by decide
  exact hcolon (hall ':' hmem)

theorem afterScheme_eq_iff {cs rest : List Char} : afterScheme cs = rest ↔ Schemed cs rest := by
  -- a scheme has no colon, so the text is cut at its end
  have hscheme : ∀ {scheme rest : List Char}, Scheme scheme →
      afterScheme (scheme ++ ':' :: rest) = rest := by
    intro scheme rest h
    rw [afterScheme, splitBefore_scheme h]
    obtain ⟨first, others, rfl, -, -⟩ := id h
    exact if_pos (isScheme_iff.mpr h)
  -- without a scheme the first colon may still be there, with something else before
  -- it
  have hbare : (∀ scheme rest, cs = scheme ++ ':' :: rest → ¬ Scheme scheme) →
      afterScheme cs = cs := by
    intro h
    rw [afterScheme]
    rcases Text.splitBefore_mark_cases ':' cs with ⟨-, hcut⟩ | ⟨scheme, rest, -, hcs, hcut⟩
    · rw [hcut]
      cases cs <;> rfl
    · rw [hcut]
      cases scheme with
      | nil => rfl
      | cons first others => exact if_neg fun hcond => h _ _ hcs (isScheme_iff.mp hcond)
  constructor
  · rintro rfl
    by_cases h : ∃ scheme rest, cs = scheme ++ ':' :: rest ∧ Scheme scheme
    · obtain ⟨scheme, rest, rfl, h⟩ := h
      rw [hscheme h]
      exact .scheme h
    · have hnone : ∀ scheme rest, cs = scheme ++ ':' :: rest → ¬ Scheme scheme :=
        fun scheme rest hcs hs => h ⟨scheme, rest, hcs, hs⟩
      rw [hbare hnone]
      exact .bare hnone
  · intro h
    cases h with
    | scheme hs => exact hscheme hs
    | bare hnone => exact hbare hnone

theorem splitAuthority_eq_iff {cs authority rest : List Char} :
    splitAuthority cs = (authority, rest) ↔ Split cs authority rest := by
  -- the recognizer compares with the three marks one by one
  have hends : ∀ c : Char,
      (c == '/' || c == '?' || c == '#') = true ↔ c ∈ ['/', '?', '#'] := by
    intro c
    simp only [Bool.or_eq_true, beq_iff_eq, List.mem_cons, List.not_mem_nil, or_false, or_assoc]
  have hends' : ∀ c : Char,
      (c == '/' || c == '?' || c == '#') = false ↔ c ∉ ['/', '?', '#'] := by
    intro c
    rw [← Bool.not_eq_true, hends]
  constructor
  · intro h
    unfold splitAuthority at h
    split at h
    · obtain ⟨rfl, hauthority, hrest⟩ := Text.splitBefore_eq_iff.mp h
      exact .authority (fun c hc => (hends' c).mp (hauthority c hc))
        fun c others heq => (hends c).mp (hrest c others heq)
    · next hnone =>
        obtain ⟨rfl, rfl⟩ := Prod.mk.inj h
        exact .none hnone
  · intro h
    cases h with
    | authority hauthority hrest =>
        exact Text.splitBefore_eq_iff.mpr ⟨rfl, fun c hc => (hends' c).mpr (hauthority c hc),
          fun c others heq => (hends c).mpr (hrest c others heq)⟩
    | none hnone =>
        unfold splitAuthority
        split
        · next rest => exact absurd rfl (hnone rest)
        · rfl

/-- The text between the question mark and the fragment. -/
theorem asked_iff {tail query : List Char} :
    (Text.splitBefore (· == '?') (Text.splitBefore (· == '#') tail).1).2.drop 1 = query ↔
      Asked tail query := by
  constructor
  · rintro rfl
    cases hcut : Text.splitBefore (· == '#') tail with
    | mk before fragment =>
        obtain ⟨rfl, hhash, hfragment⟩ := Text.splitBefore_mark_iff.mp hcut
        rcases Text.splitBefore_mark_cases '?' before with
          ⟨hpath, hmarked⟩ | ⟨path, query, hpath, rfl, hmarked⟩
        · rw [hmarked]
          exact .none hpath hhash hfragment
        · -- no fragment begins before the question mark or in the query
          rw [List.mem_append, List.mem_cons, not_or, not_or] at hhash
          rw [hmarked, List.append_assoc, List.cons_append]
          exact .query hpath hhash.1 hhash.2.2 hfragment
  · intro h
    cases h with
    | @query path query fragment hpath hhash hquery hfragment =>
        have hbefore : Text.splitBefore (· == '#') (path ++ '?' :: (query ++ fragment)) =
            (path ++ '?' :: query, fragment) := by
          refine Text.splitBefore_mark_iff.mpr ⟨by simp, ?_, hfragment⟩
          rw [List.mem_append, List.mem_cons]
          exact not_or.mpr ⟨hhash, not_or.mpr ⟨by decide, hquery⟩⟩
        rw [hbefore, Text.splitBefore_mark hpath query]
        rfl
    | @none path fragment hpath hhash hfragment =>
        have hbefore : Text.splitBefore (· == '#') (path ++ fragment) = (path, fragment) :=
          Text.splitBefore_mark_iff.mpr ⟨rfl, hhash, hfragment⟩
        rw [hbefore, Text.splitBefore_of_not_mem hpath]
        rfl

/-! ## Sound authorities -/

theorem hidesMark_iff {c : Char} : hidesMark c = true ↔ HidesMark c := by
  -- the table has a character for every number that is looked for, and no other one
  have hlisted : ∀ entry ∈ compatibilityForms, hidesMark entry.1 = true ∧
      ∃ mark ∈ entry.2.toList, mark ∈ ['/', '?', '#', '@', ':'] := by
    have hall : compatibilityForms.all (fun entry => hidesMark entry.1 &&
        entry.2.toList.any fun mark => ['/', '?', '#', '@', ':'].contains mark) = true := by
      decide +kernel
    intro entry hentry
    obtain ⟨hhides, hany⟩ := Bool.and_eq_true_iff.mp (List.all_eq_true.mp hall entry hentry)
    obtain ⟨mark, hmark, hdivides⟩ := List.any_eq_true.mp hany
    exact ⟨hhides, mark, hmark, List.contains_iff_mem.mp hdivides⟩
  have hnumbers : compatibilityForms.map (fun entry => entry.1.toNat) =
      [0x2047, 0x2048, 0x2049, 0x2100, 0x2101, 0x2105, 0x2106, 0x2A74, 0xFE13, 0xFE16, 0xFE55,
        0xFE56, 0xFE5F, 0xFE6B, 0xFF03, 0xFF0F, 0xFF1A, 0xFF1F, 0xFF20] := by
    decide +kernel
  constructor
  · intro h
    rw [hidesMark, ← hnumbers, List.contains_iff_mem, List.mem_map] at h
    obtain ⟨entry, hentry, hnumber⟩ := h
    obtain rfl : entry.1 = c := Char.toNat_inj.mp hnumber
    exact ⟨entry.2, hentry, (hlisted entry hentry).2⟩
  · rintro ⟨form, hentry, -⟩
    exact (hlisted _ hentry).1

theorem withoutUser_eq_iff {authority place : List Char} :
    withoutUser authority = place ↔ Placed authority place := by
  -- the last `@` counts, so the cut is made in the reversed text
  cases hcut : Text.splitBefore (· == '@') authority.reverse with
  | mk front back =>
      have hplace : withoutUser authority = front.reverse := by
        have hfront := congrArg Prod.fst hcut
        exact congrArg List.reverse hfront
      obtain ⟨hsplit, hfront, hmark⟩ := Text.splitBefore_mark_iff.mp hcut
      have hauthority : authority = back.reverse ++ front.reverse := by
        rw [← List.reverse_append, ← hsplit, List.reverse_reverse]
      rw [hplace]
      constructor
      · rintro rfl
        refine ⟨fun hmem => hfront (List.mem_reverse.mp hmem), ?_⟩
        cases back with
        | nil => exact Or.inl (by simpa using hauthority)
        | cons c rest =>
            obtain rfl := hmark c rest rfl
            exact Or.inr ⟨rest.reverse, by simpa using hauthority⟩
      · rintro ⟨hnone, hcases⟩
        have hother : ∃ back, Text.splitBefore (· == '@') authority.reverse =
            (place.reverse, back) := by
          rcases hcases with rfl | ⟨user, rfl⟩
          · exact ⟨[], Text.splitBefore_of_not_mem (mt List.mem_reverse.mp hnone)⟩
          · have hcut := Text.splitBefore_mark (mt List.mem_reverse.mp hnone) user.reverse
            exact ⟨'@' :: user.reverse, by simpa using hcut⟩
        obtain ⟨_, hother⟩ := hother
        rw [hcut] at hother
        rw [(Prod.mk.inj hother).1, List.reverse_reverse]

/-- The text behind the first opening bracket is the one that the lenient check
takes for the host. -/
theorem enclosedHost_eq_iff {authority host : List Char} (hopen : '[' ∈ authority) :
    enclosedHost authority = host ↔ Hosted .enclosed authority host := by
  constructor
  · rintro rfl
    rcases Text.splitBefore_mark_cases '[' authority with
      ⟨hnone, -⟩ | ⟨before, opened, hbefore, rfl, hcut⟩
    · exact absurd hopen hnone
    · rw [enclosedHost, hcut]
      dsimp only
      rw [List.drop_one, List.tail_cons]
      cases hcut' : Text.splitBefore (· == ']') opened with
      | mk host after =>
          obtain ⟨rfl, hhost, hafter⟩ := Text.splitBefore_mark_iff.mp hcut'
          exact .enclosed hbefore hhost hafter
  · intro h
    cases h with
    | @enclosed before _ after hbefore hhost hafter =>
        have hcut' : Text.splitBefore (· == ']') (host ++ after) = (host, after) :=
          Text.splitBefore_mark_iff.mpr ⟨rfl, hhost, hafter⟩
        rw [enclosedHost, Text.splitBefore_mark hbefore]
        dsimp only
        rw [List.drop_one, List.tail_cons, hcut']

/-- What stands behind a host in brackets is a port, or less, exactly if nothing
else follows the bracket. -/
theorem closing_iff {closed : List Char} (h : ∀ c rest, closed = c :: rest → c = ']') :
    ((closed.drop 1).isEmpty || (closed.drop 1).head? == some ':') = true ↔ Closing closed := by
  constructor
  · intro hport
    -- what is closed starts with the bracket, if it is not empty
    match closed with
    | [] => exact .nothing
    | [c] =>
        obtain rfl := h c [] rfl
        exact .bracket
    | c :: mark :: rest =>
        obtain rfl := h c _ rfl
        obtain rfl : mark = ':' := by simpa using hport
        exact .port
  · intro hclosing
    cases hclosing with
    | nothing => rfl
    | bracket => rfl
    | port => rfl

theorem hasLoneHost_iff {authority : List Char} :
    hasLoneHost authority = true ↔
      ∃ host, Hosted .alone authority host ∧ HostLiteral.Host host := by
  constructor
  · intro h
    have hplaced : Placed authority (withoutUser authority) := withoutUser_eq_iff.mp rfl
    rw [hasLoneHost] at h
    generalize withoutUser authority = place at h hplaced
    rcases Text.splitBefore_mark_cases '[' place with
      ⟨hbefore, hcut⟩ | ⟨before, opened, -, rfl, hcut⟩
    · -- the brackets belong to the user, so the host is what stands before a port
      cases hcut' : Text.splitBefore (· == ':') place with
      | mk host after =>
          obtain ⟨rfl, hhost, hafter⟩ := Text.splitBefore_mark_iff.mp hcut'
          simp only [hcut, hcut'] at h
          exact ⟨host, .user hplaced hbefore hhost hafter, HostLiteral.isValid_iff.mp h⟩
    · cases hcut' : Text.splitBefore (· == ']') opened with
      | mk host closed =>
          obtain ⟨rfl, hhost, hclosed⟩ := Text.splitBefore_mark_iff.mp hcut'
          simp only [hcut, hcut', Bool.and_eq_true] at h
          obtain ⟨⟨hempty, hvalid⟩, hport⟩ := h
          obtain rfl := List.isEmpty_iff.mp hempty
          exact ⟨host, .alone hplaced hhost ((closing_iff hclosed).mp hport),
            HostLiteral.isValid_iff.mp hvalid⟩
  · rintro ⟨host, hhosted, hvalid⟩
    cases hhosted with
    | @alone _ _ after hplaced hhost hclosing =>
        have hclosed : ∀ c rest, after = c :: rest → c = ']' := by
          intro c rest heq
          cases hclosing with
          | nothing => cases heq
          | bracket => exact (List.cons.inj heq).1.symm
          | port => exact (List.cons.inj heq).1.symm
        have hcut : Text.splitBefore (· == '[') ('[' :: (host ++ after)) =
            ([], '[' :: (host ++ after)) :=
          Text.splitBefore_mark List.not_mem_nil (host ++ after)
        have hcut' : Text.splitBefore (· == ']') (host ++ after) = (host, after) :=
          Text.splitBefore_mark_iff.mpr ⟨rfl, hhost, hclosed⟩
        simp only [hasLoneHost, withoutUser_eq_iff.mpr hplaced, hcut, hcut', List.isEmpty_nil,
          HostLiteral.isValid_iff.mpr hvalid, Bool.true_and]
        exact (closing_iff hclosed).mpr hclosing
    | @user _ _ after hplaced hnone hhost hafter =>
        have hcut := Text.splitBefore_of_not_mem hnone
        have hcut' : Text.splitBefore (· == ':') (host ++ after) = (host, after) :=
          Text.splitBefore_mark_iff.mpr ⟨rfl, hhost, hafter⟩
        simp only [hasLoneHost, withoutUser_eq_iff.mpr hplaced, hcut, hcut']
        exact HostLiteral.isValid_iff.mpr hvalid

theorem hasLiteralHost_iff {check : HostCheck} {authority : List Char}
    (hopen : '[' ∈ authority) :
    hasLiteralHost check authority = true ↔
      ∃ host, Hosted check authority host ∧ HostLiteral.Host host := by
  cases check with
  | alone => exact hasLoneHost_iff
  | enclosed =>
      rw [hasLiteralHost, HostLiteral.isValid_iff]
      constructor
      · exact fun h => ⟨_, (enclosedHost_eq_iff hopen).mp rfl, h⟩
      · rintro ⟨host, hhosted, hvalid⟩
        rwa [(enclosedHost_eq_iff hopen).mpr hhosted]

theorem isSoundAuthority_iff {check : HostCheck} {authority : List Char} :
    isSoundAuthority check authority = true ↔ Sound check authority := by
  have hbrackets : hasSoundBrackets check authority = true ↔
      ('[' ∉ authority ∧ ']' ∉ authority) ∨ ('[' ∈ authority ∧ ']' ∈ authority ∧
        ∃ host, Hosted check authority host ∧ HostLiteral.Host host) := by
    rw [hasSoundBrackets]
    by_cases hopen : '[' ∈ authority
    · rw [if_pos (by simp [hopen]), Bool.and_eq_true, Bool.and_eq_true, hasLiteralHost_iff hopen]
      simp [hopen]
    · by_cases hclose : ']' ∈ authority
      · simp [hopen, hclose]
      · simp [hopen, hclose]
  have hmarks : (!authority.any hidesMark) = true ↔ ∀ c ∈ authority, ¬ HidesMark c := by
    simp only [Bool.not_eq_true', List.any_eq_false, hidesMark_iff]
  rw [isSoundAuthority, Bool.and_eq_true, hbrackets, hmarks]
  exact ⟨fun h => ⟨h.1, h.2⟩, fun h => ⟨h.brackets, h.marks⟩⟩

/-! ## Queries and their parameters -/

/-- The text of the query is the one that the grammar tells. -/
theorem query?_eq_some_iff {check : HostCheck} {address query : List Char} :
    query? check address = some query ↔ Queried check address query := by
  constructor
  · intro h
    rw [query?] at h
    cases hsplit : splitAuthority (afterScheme (cleaned address)) with
    | mk authority tail =>
        simp only [hsplit] at h
        split at h
        · next hsound =>
            exact .mk (cleaned_eq_iff.mp rfl) (afterScheme_eq_iff.mp rfl)
              (splitAuthority_eq_iff.mp hsplit) (isSoundAuthority_iff.mp hsound)
              (asked_iff.mp (Option.some.inj h))
        · cases h
  · intro h
    cases h with
    | mk hcleaned hschemed hsplit hsound hasked =>
        -- each step of the reader is determined by what the grammar says of it
        obtain rfl := cleaned_eq_iff.mpr hcleaned
        obtain rfl := afterScheme_eq_iff.mpr hschemed
        simp only [query?, splitAuthority_eq_iff.mpr hsplit, isSoundAuthority_iff.mpr hsound,
          if_true, asked_iff.mpr hasked]

/-- A piece that is not empty is read as the name and the value that it writes. -/
theorem parameter_eq_iff {piece : List Char} {name text : String} :
    piece ≠ [] ∧ parameter piece = (name, text) ↔ Pair piece name text := by
  constructor
  · rintro ⟨hne, h⟩
    rw [parameter] at h
    -- only the first `=` separates; later ones belong to the value
    rcases Text.splitBefore_mark_cases '=' piece with
      ⟨hname, hcut⟩ | ⟨written, value, hname, rfl, hcut⟩
    · rw [hcut] at h
      obtain ⟨hnameText, hvalueText⟩ := Prod.mk.inj h
      obtain rfl : text = "" := hvalueText.symm
      exact .bare hne hname (decode_eq_iff.mp hnameText)
    · rw [hcut] at h
      obtain ⟨hnameText, hvalueText⟩ := Prod.mk.inj h
      exact .assigned hname (decode_eq_iff.mp hnameText) (decode_eq_iff.mp hvalueText)
  · intro h
    cases h with
    | @assigned written value _ _ hname hnameText hvalueText =>
        refine ⟨by simp, ?_⟩
        rw [parameter, Text.splitBefore_mark hname]
        exact Prod.ext (decode_eq_iff.mpr hnameText) (decode_eq_iff.mpr hvalueText)
    | bare hne hname hnameText =>
        refine ⟨hne, ?_⟩
        rw [parameter, Text.splitBefore_of_not_mem hname]
        exact Prod.ext (decode_eq_iff.mpr hnameText) rfl

/-- The parameters of an address are those that it carries. -/
theorem find?_parameters_iff {check : HostCheck} {url name text : String} :
    (parameters url check).find? name = some text ↔ Carries check url name text := by
  have hnamed : ∀ piece : List Char, (!piece.isEmpty) = true → (parameter piece).1 = name →
      ∃ value, Pair piece name value := by
    intro piece hne hname
    exact ⟨_, parameter_eq_iff.mp ⟨by simpa using hne, Prod.ext hname rfl⟩⟩
  rw [parameters]
  constructor
  · intro h
    cases hquery : query? check url.toList with
    | none =>
        simp only [hquery] at h
        cases h
    | some query =>
        simp only [hquery] at h
        -- of several parameters with one name the last one is kept
        rw [Entries.find?_ofList_map] at h
        obtain ⟨before, piece, after, hsplit, hpiece, hread, hlast⟩ := h
        obtain ⟨-, hapart, hjoin⟩ := Text.pieces_spec '&' query
        rw [hsplit] at hapart hjoin
        refine .mk (query?_eq_some_iff.mp hquery) hjoin hapart
          (parameter_eq_iff.mp ⟨by simpa using hpiece, hread⟩) fun other hother value hpair =>
            ?_
        obtain ⟨hne, hvalue⟩ := parameter_eq_iff.mpr hpair
        refine hlast other hother (by simpa using hne) ?_
        rw [hvalue]
  · intro h
    cases h with
    | @mk query before after piece _ _ hqueried hjoin hapart hpair hlast =>
        have hpieces : Text.pieces '&' query = before ++ piece :: after := by
          rw [← hjoin]
          exact Text.pieces_intercalate (by simp) hapart
        obtain ⟨hne, hread⟩ := parameter_eq_iff.mpr hpair
        rw [query?_eq_some_iff.mpr hqueried]
        dsimp only
        rw [Entries.find?_ofList_map]
        refine ⟨before, piece, after, hpieces, by simpa using hne, hread, ?_⟩
        intro other hother hcounts hname
        obtain ⟨value, hvalue⟩ := hnamed other hcounts hname
        exact hlast other hother value hvalue

/-- Text before a host in brackets is all that the two checks differ in here. -/
example : parameters "http://x[::1]/?a=1" .enclosed = [("a", "1")] ∧
    parameters "http://x[::1]/?a=1" .alone = [] := by
  decide +kernel

end Address

end JsonSelection
