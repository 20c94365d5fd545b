import JsonSelection.Proofs.Outcome
import JsonSelection.Proofs.Query.Lexis

/-!
# The parser against the grammar

The parser accepts the tokens of a text exactly when the grammar derives them
with a height up to `Query.nesting`.

## What this module delivers

- `Query.Sound`: what a parser takes is derived from a nonterminal.
- `Query.Complete`: a parser takes whatever is derived from a nonterminal,
  provided that it is followed by what may follow it.
- A lemma of each kind for every parser, from single tokens up to operations:
  `Query.parseTokens_sound` and `Query.parseTokens_complete`.

Both directions go parser by parser, and neither mentions how another parser
works. The number of levels left bounds the heights, and it is what the proofs
about literals and about selection sets descend on. What may follow is stated
for each nonterminal, because the parser looks one token ahead at a parenthesis,
a brace and a colon.
-/

set_option autoImplicit false

namespace JsonSelection

namespace Token

/-- The text of a mark is one punctuation character. -/
def MarkText (mark : String) : Prop :=
  ∃ c, mark.toList = [c] ∧ isPunct c = true

/-- Every token of a list has the form of its kind. The tokens that the parser
is given are those of a text, so this holds of them. -/
def AllLexical (tokens : List Token) : Prop :=
  ∀ token ∈ tokens, token.Lexical

theorem allLexical_append {front back : List Token} :
    AllLexical (front ++ back) ↔ AllLexical front ∧ AllLexical back := by
  constructor
  · intro h
    exact ⟨fun t ht => h t (List.mem_append_left _ ht), fun t ht =>
      h t (List.mem_append_right _ ht)⟩
  · rintro ⟨hfront, hback⟩ t ht
    rcases List.mem_append.mp ht with ht | ht
    · exact hfront t ht
    · exact hback t ht

theorem allLexical_cons {token : Token} {rest : List Token} :
    AllLexical (token :: rest) ↔ token.Lexical ∧ AllLexical rest := by
  rw [← List.singleton_append, allLexical_append]
  simp [AllLexical]

/-- Only a mark has the text of a mark. -/
theorem Lexical.isMark_iff {token : Token} (h : token.Lexical) {mark : String}
    (hmark : MarkText mark) : IsMark mark token ↔ token.text = mark := by
  obtain ⟨c, hlist, hc⟩ := hmark
  exact ⟨And.right, h.isMark hc hlist⟩

theorem Lexical.text_ne {token : Token} (h : token.Lexical) (hkind : token.kind ≠ .punct)
    {mark : String} (hmark : MarkText mark) : token.text ≠ mark := by
  intro htext
  exact hkind ((h.isMark_iff hmark).mpr htext).1

theorem IsMark.text_ne {token : Token} {mark other : String} (h : IsMark mark token)
    (hne : mark ≠ other) : token.text ≠ other := by
  rw [h.2]
  exact hne

end Token

namespace Query

open Token Grammar

variable {α : Type}

theorem brace_markText : MarkText "\x7b" := ⟨'\x7b', rfl, rfl⟩

theorem closeBrace_markText : MarkText "\x7d" := ⟨'\x7d', rfl, rfl⟩

theorem bracket_markText : MarkText "[" := ⟨'[', rfl, rfl⟩

theorem closeBracket_markText : MarkText "]" := ⟨']', rfl, rfl⟩

theorem paren_markText : MarkText "(" := ⟨'(', rfl, rfl⟩

theorem closeParen_markText : MarkText ")" := ⟨')', rfl, rfl⟩

theorem colon_markText : MarkText ":" := ⟨':', rfl, rfl⟩

theorem at_markText : MarkText "@" := ⟨'@', rfl, rfl⟩

theorem dollar_markText : MarkText "$" := ⟨'$', rfl, rfl⟩

/-! ### Single tokens

Where the tokens have the form of their kinds, a mark is told by its text, and
the tests of the parser are tests of the grammar. -/

theorem at?_cons_iff {token : Token} (h : token.Lexical) {mark : String} (hmark : MarkText mark)
    (rest : List Token) : at? mark (token :: rest) = true ↔ IsMark mark token := by
  rw [h.isMark_iff hmark]
  constructor
  · intro hat
    simp only [at?, Bool.and_eq_true, beq_iff_eq] at hat
    exact hat.1
  · intro htext
    have hkind : token.kind = .punct := ((h.isMark_iff hmark).mpr htext).1
    simp [at?, htext, hkind]

theorem at?_eq_false {token : Token} {mark : String} (h : token.text ≠ mark) (rest : List Token) :
    at? mark (token :: rest) = false := by
  simp [at?, h]

theorem expect_mark {token : Token} {mark : String} (h : IsMark mark token) (rest : List Token) :
    expect mark (token :: rest) = .ok rest :=
  if_pos h.2

theorem expect_eq_ok {tokens rest : List Token} (hlex : AllLexical tokens) {mark : String}
    (hmark : MarkText mark) (h : expect mark tokens = .ok rest) :
    ∃ token, tokens = token :: rest ∧ IsMark mark token := by
  cases tokens with
  | nil => cases h
  | cons token others =>
      simp only [expect] at h
      split at h
      · next htext =>
          obtain rfl := Except.ok.inj h
          exact ⟨token, rfl, ((hlex token List.mem_cons_self).isMark_iff hmark).mpr htext⟩
      · cases h

theorem expectName_name {token : Token} (h : token.kind = .name) (rest : List Token) :
    expectName (token :: rest) = .ok (token.text, rest) :=
  if_pos h

theorem expectName_eq_ok {tokens rest : List Token} {name : String}
    (h : expectName tokens = .ok (name, rest)) :
    ∃ token, tokens = token :: rest ∧ token.kind = .name ∧ name = token.text := by
  cases tokens with
  | nil => cases h
  | cons token others =>
      simp only [expectName] at h
      split at h
      · next hkind =>
          obtain ⟨rfl, rfl⟩ := Prod.mk.inj (Except.ok.inj h)
          exact ⟨token, rfl, hkind, rfl⟩
      · cases h

/-- A token that does not open a fragment, a directive or a variable. Each of
these is refused where it stands. -/
def Supported (token : Token) : Prop :=
  token.kind ≠ .spread ∧ token.text ≠ "@" ∧ token.text ≠ "$"

theorem rejectUnsupported_cons {token : Token} (h : Supported token) (rest : List Token) :
    rejectUnsupported (token :: rest) = .ok () := by
  obtain ⟨hspread, hat, hdollar⟩ := h
  simp [rejectUnsupported, hspread, hat, hdollar]

theorem supported_of_kind {token : Token} (h : token.Lexical) (hpunct : token.kind ≠ .punct)
    (hspread : token.kind ≠ .spread) : Supported token :=
  ⟨hspread, h.text_ne hpunct at_markText, h.text_ne hpunct dollar_markText⟩

theorem supported_of_isMark {token : Token} {mark : String} (h : IsMark mark token)
    (hat : mark ≠ "@") (hdollar : mark ≠ "$") : Supported token := by
  refine ⟨?_, h.text_ne hat, h.text_ne hdollar⟩
  rw [h.1]
  decide

theorem supported_of_name {token : Token} (h : token.Lexical) (hkind : token.kind = .name) :
    Supported token :=
  supported_of_kind h (by rw [hkind]; decide) (by rw [hkind]; decide)

/-! ### Soundness and completeness of a parser -/

/-- What a parser takes is derived from a nonterminal, with a height up to a
bound. The tokens that it gives back are those behind what it took. -/
def Sound (parser : Parser α) (derives : Nonterminal α) (bound : Nat) : Prop :=
  ∀ ⦃tokens : List Token⦄ ⦃value : α⦄ ⦃rest : List Token⦄, AllLexical tokens →
    parser tokens = .ok (value, rest) →
      ∃ used height, tokens = used ++ rest ∧ derives used value height ∧ height ≤ bound

/-- A parser takes whatever is derived from a nonterminal with a height up to a
bound, provided that it is followed by what may follow it. -/
def Complete (parser : Parser α) (derives : Nonterminal α) (bound : Nat)
    (follow : List Token → Prop) : Prop :=
  ∀ ⦃used : List Token⦄ ⦃value : α⦄ ⦃height : Nat⦄ ⦃rest : List Token⦄,
    AllLexical (used ++ rest) → derives used value height → height ≤ bound → follow rest →
      parser (used ++ rest) = .ok (value, rest)

/-- The next token, if there is one, starts an item or is the mark that closes
the items. -/
def Follow (starts : Token → Prop) (close : String) (rest : List Token) : Prop :=
  ∀ token others, rest = token :: others → starts token ∨ IsMark close token

/-! ### Items up to a closing mark

Items are taken as long as the closing mark is not next. No item starts with it,
so the two never compete, and each item takes a token at least, so the fuel is
enough. -/

section Many

variable {close : String} {atEnd : QueryError} {item : List α → Parser α}
  {derives : Nonterminal α} {bound : Nat}

/-- The items that are taken up to a closing mark are derived one after the other. -/
theorem manyWith_sound (hclose : MarkText close)
    (hitem : ∀ taken, Sound (item taken) derives bound) {fuel : Nat} {taken values : List α}
    {tokens rest : List Token} (hlex : AllLexical tokens)
    (h : manyWith close atEnd item fuel taken tokens = .ok (values, rest)) :
    ∃ used closing others height, tokens = used ++ closing :: rest ∧ IsMark close closing ∧
      values = taken ++ others ∧ Star derives used others height ∧ height ≤ bound := by
  -- the induction is on the fuel, with what is taken already left free
  induction fuel generalizing taken tokens with
  | zero => cases h
  | succ fuel ih =>
      cases tokens with
      | nil => cases h
      | cons token tail =>
          simp only [manyWith] at h
          split at h
          · next hat =>
              obtain ⟨rfl, rfl⟩ := Prod.mk.inj (Except.ok.inj h)
              have hmark := (at?_cons_iff (hlex token List.mem_cons_self) hclose tail).mp hat
              exact ⟨[], token, [], 0, rfl, hmark, (List.append_nil _).symm, .nil,
                Nat.zero_le _⟩
          · split at h
            · cases h
            · next value after hvalue =>
                obtain ⟨front, height, htokens, hfront, hheight⟩ := hitem taken hlex hvalue
                rw [htokens, allLexical_append] at hlex
                obtain ⟨used, closing, others, below, hafter, hmark, hvalues, hstar, hbelow⟩ :=
                  ih hlex.2 h
                refine ⟨front ++ used, closing, value :: others, max height below, ?_, hmark, ?_,
                  .cons hfront hstar, Nat.max_le.mpr ⟨hheight, hbelow⟩⟩
                · rw [htokens, hafter, List.append_assoc]
                · rw [hvalues, List.append_assoc, List.singleton_append]

theorem many_sound (hclose : MarkText close) (hitem : ∀ taken, Sound (item taken) derives bound)
    {values : List α} {tokens rest : List Token} (hlex : AllLexical tokens)
    (h : many close atEnd item tokens = .ok (values, rest)) :
    ∃ used closing height, tokens = used ++ closing :: rest ∧ IsMark close closing ∧
      Star derives used values height ∧ height ≤ bound := by
  obtain ⟨used, closing, others, height, htokens, hmark, rfl, hstar, hheight⟩ :=
    manyWith_sound hclose hitem hlex h
  exact ⟨used, closing, height, htokens, hmark, hstar, hheight⟩

/-- What every item keeps of the items before it holds of all items together. -/
theorem manyWith_invariant {keeps : List α → Prop}
    (hitem : ∀ taken tokens value after, keeps taken →
      item taken tokens = .ok (value, after) →
      keeps (taken ++ [value])) {fuel : Nat} {taken values : List α} {tokens rest : List Token}
    (htaken : keeps taken) (h : manyWith close atEnd item fuel taken tokens = .ok (values, rest)) :
    keeps values := by
  induction fuel generalizing taken tokens with
  | zero => cases h
  | succ fuel ih =>
      cases tokens with
      | nil => cases h
      | cons token tail =>
          simp only [manyWith] at h
          split at h
          · obtain ⟨rfl, -⟩ := Prod.mk.inj (Except.ok.inj h)
            exact htaken
          · split at h
            · cases h
            · next value after hvalue => exact ih (hitem taken _ value after htaken hvalue) h

/-- Items derived one after the other are taken, whatever the fuel beyond
the number of tokens. `admits` tells which items may come after those before
them. -/
theorem manyWith_complete (hclose : MarkText close) {starts : Token → Prop}
    {admits : List α → α → Prop}
    (hfirst : ∀ {used value height}, derives used value height →
      ∃ token others, used = token :: others ∧ starts token)
    (hstarts : ∀ {token}, starts token → ¬ IsMark close token)
    (hitem : ∀ taken, Complete (item taken)
      (fun used value height => derives used value height ∧ admits taken value) bound
      (Follow starts close))
    {used : List Token} {values : List α} {height : Nat} (hstar : Star derives used values height)
    (hheight : height ≤ bound) {closing : Token} (hmark : IsMark close closing)
      {rest : List Token}
    {taken : List α}
    (hadmits : ∀ before value after, values = before ++ value :: after →
      admits (taken ++ before) value)
    {fuel : Nat} (hfuel : used.length < fuel) (hlex : AllLexical (used ++ closing :: rest)) :
    manyWith close atEnd item fuel taken (used ++ closing :: rest) =
      .ok (taken ++ values, rest) := by
  induction hstar generalizing taken fuel with
  | nil =>
      obtain ⟨fuel, rfl⟩ := Nat.exists_eq_succ_of_ne_zero (Nat.ne_of_gt hfuel)
      have hat := (at?_cons_iff (hlex closing List.mem_cons_self) hclose rest).mpr hmark
      simp [manyWith, hat]
  | @cons front others value values height below hvalue hothers ih =>
      obtain ⟨fuel, rfl⟩ := Nat.exists_eq_succ_of_ne_zero
        (Nat.ne_of_gt (Nat.zero_lt_of_lt hfuel))
      obtain ⟨token, tail, rfl, htoken⟩ := hfirst hvalue
      rw [Nat.max_le] at hheight
      rw [List.append_assoc] at hlex ⊢
      have htokenLex := hlex token List.mem_cons_self
      -- what comes after the first item starts the next one or closes the list
      have hfollow : Follow starts close (others ++ closing :: rest) := by
        cases hothers with
        | nil =>
            intro t tail ht
            obtain ⟨rfl, -⟩ := List.cons.inj ht
            exact Or.inr hmark
        | cons hnext _ =>
            obtain ⟨t, next, rfl, hstart⟩ := hfirst hnext
            intro t' tail' ht
            obtain ⟨rfl, -⟩ := List.cons.inj ht
            exact Or.inl hstart
      have hadmit : admits taken value := by
        simpa using hadmits [] value values rfl
      have hread := hitem taken hlex ⟨hvalue, hadmit⟩ hheight.1 hfollow
      have hat : at? close (token :: (tail ++ (others ++ closing :: rest))) = false := by
        rw [Bool.eq_false_iff]
        exact fun hat => hstarts htoken ((at?_cons_iff htokenLex hclose _).mp hat)
      have hrest : manyWith close atEnd item fuel (taken ++ [value]) (others ++ closing :: rest) =
          .ok (taken ++ [value] ++ values, rest) := by
        refine ih hheight.2 ?_ ?_ (allLexical_append.mp hlex).2
        · intro before v after hv
          rw [List.append_assoc]
          exact hadmits (value :: before) v after (by rw [hv, List.cons_append])
        · simp only [List.cons_append, List.length_cons, List.length_append] at hfuel
          omega
      rw [List.cons_append] at hread ⊢
      simp only [manyWith, hat, hread]
      simpa using hrest

/-- Items derived one after the other are taken up to their closing mark. -/
theorem many_complete (hclose : MarkText close) {starts : Token → Prop}
    {admits : List α → α → Prop}
    (hfirst : ∀ {used value height}, derives used value height →
      ∃ token others, used = token :: others ∧ starts token)
    (hstarts : ∀ {token}, starts token → ¬ IsMark close token)
    (hitem : ∀ taken, Complete (item taken)
      (fun used value height => derives used value height ∧ admits taken value) bound
      (Follow starts close))
    {used : List Token} {values : List α} {height : Nat} (hstar : Star derives used values height)
    (hheight : height ≤ bound) {closing : Token} (hmark : IsMark close closing)
      {rest : List Token}
    (hadmits : ∀ before value after, values = before ++ value :: after → admits before value)
    (hlex : AllLexical (used ++ closing :: rest)) :
    many close atEnd item (used ++ closing :: rest) = .ok (values, rest) := by
  change manyWith close atEnd item _ [] _ = .ok ([] ++ values, rest)
  refine manyWith_complete hclose hfirst hstarts hitem hstar hheight hmark ?_ ?_ hlex
  · exact hadmits
  · simp only [List.length_append, List.length_cons]
    omega

/-- What is derived at all is admitted where everything is. -/
theorem complete_and_true {parser : Parser α} {follow : List Token → Prop}
    (h : Complete parser derives bound follow) :
    Complete parser (fun used value height => derives used value height ∧ True) bound follow :=
  fun _ _ _ _ hlex hderived hheight hfollow => h hlex hderived.1 hheight hfollow

end Many

/-! ### Literals -/

theorem nameValue_word (text : String) : Word text (nameValue text) := by
  simp only [nameValue]
  split
  · next h =>
      rw [h]
      exact .yes
  · next hyes =>
      split
      · next h =>
          rw [h]
          exact .no
      · next hno =>
          split
          · next h =>
              rw [h]
              exact .null
          · next hnull => exact .enumeration hyes hno hnull

theorem nameValue_eq_of_word {text : String} {value : Json} (h : Word text value) :
    nameValue text = value := by
  cases h with
  | yes => rfl
  | no => rfl
  | null => rfl
  | enumeration hyes hno hnull => simp [nameValue, hyes, hno, hnull]

/-- A literal is sound when what it takes after an opening mark is. -/
theorem literal_sound {list object : Parser Json} {bound : Nat}
    (hlist : ∀ opening, IsMark "[" opening →
      Sound list (fun used value height => Value (opening :: used) value height) bound)
    (hobject : ∀ opening, IsMark "\x7b" opening →
      Sound object (fun used value height => Value (opening :: used) value height) bound) :
    Sound (literal list object) Value bound := by
  intro tokens value rest hlex h
  obtain ⟨_, -, h⟩ := Outcome.bind_eq_ok_iff.mp h
  -- the kind of the first token decides what is read
  cases tokens with
  | nil => cases h
  | cons token others =>
      obtain ⟨htoken, hothers⟩ := allLexical_cons.mp hlex
      simp only at h
      split at h
      · next hkind =>
          split at h
          · next value' hvalue =>
              obtain ⟨rfl, rfl⟩ := Prod.mk.inj (Except.ok.inj h)
              obtain ⟨hshort, hparse⟩ := (numberValue_eq_ok_iff hkind htoken _).mp hvalue
              exact ⟨[token], 0, rfl, .number hkind hshort hparse, Nat.zero_le _⟩
          · cases h
      · next hkind =>
          split at h
          · next value' hvalue =>
              obtain ⟨rfl, rfl⟩ := Prod.mk.inj (Except.ok.inj h)
              rw [stringValue_eq_ok_iff hkind htoken] at hvalue
              exact ⟨[token], 0, rfl, .string hkind hvalue, Nat.zero_le _⟩
          · cases h
      · next hkind =>
          obtain ⟨rfl, rfl⟩ := Prod.mk.inj (Except.ok.inj h)
          exact ⟨[token], 0, rfl, .word hkind (nameValue_word _), Nat.zero_le _⟩
      · split at h
        · next htext =>
            have hmark := (htoken.isMark_iff bracket_markText).mpr htext
            obtain ⟨used, height, rfl, hvalue, hheight⟩ := hlist token hmark hothers h
            exact ⟨token :: used, height, rfl, hvalue, hheight⟩
        · split at h
          · next htext =>
              have hmark := (htoken.isMark_iff brace_markText).mpr htext
              obtain ⟨used, height, rfl, hvalue, hheight⟩ := hobject token hmark hothers h
              exact ⟨token :: used, height, rfl, hvalue, hheight⟩
          · cases h

theorem entry_sound {value : Parser Json} {bound : Nat} (hvalue : Sound value Value bound) :
    Sound (entry value) (Entry Value) bound := by
  intro tokens pair rest hlex h
  obtain ⟨⟨key, tokens₁⟩, hkey, h⟩ := Outcome.bind_eq_ok_iff.mp h
  obtain ⟨tokens₂, hcolon, h⟩ := Outcome.bind_eq_ok_iff.mp h
  obtain ⟨⟨literal, tokens₃⟩, hliteral, h⟩ := Outcome.bind_eq_ok_iff.mp h
  obtain ⟨rfl, rfl⟩ := Prod.mk.inj (Except.ok.inj h)
  obtain ⟨name, rfl, hname, rfl⟩ := expectName_eq_ok hkey
  have hlex₁ := (allLexical_cons.mp hlex).2
  obtain ⟨colon, rfl, hmark⟩ := expect_eq_ok hlex₁ colon_markText hcolon
  have hlex₂ := (allLexical_cons.mp hlex₁).2
  obtain ⟨used, height, rfl, hderived, hheight⟩ := hvalue hlex₂ hliteral
  exact ⟨name :: colon :: used, height, rfl, .mk hname hmark hderived, hheight⟩

theorem value_sound (levels : Nat) : Sound (value levels) Value levels := by
  induction levels with
  -- without levels neither a list nor an object is opened
  | zero =>
      refine literal_sound ?_ ?_
      · intro opening _ tokens value rest _ h
        cases h
      · intro opening _ tokens value rest _ h
        cases h
  | succ levels ih =>
      refine literal_sound ?_ ?_
      · intro opening hopening tokens value rest hlex h
        obtain ⟨⟨items, after⟩, hmany, h⟩ := Outcome.bind_eq_ok_iff.mp h
        obtain ⟨rfl, rfl⟩ := Prod.mk.inj (Except.ok.inj h)
        obtain ⟨used, closing, height, rfl, hclosing, hstar, hheight⟩ :=
          many_sound closeBracket_markText (fun _ => ih) hlex hmany
        exact ⟨used ++ [closing], height + 1, by simp, .list hopening hstar hclosing,
          Nat.succ_le_succ hheight⟩
      · intro opening hopening tokens value rest hlex h
        obtain ⟨⟨entries, after⟩, hmany, h⟩ := Outcome.bind_eq_ok_iff.mp h
        obtain ⟨rfl, rfl⟩ := Prod.mk.inj (Except.ok.inj h)
        obtain ⟨used, closing, height, rfl, hclosing, hstar, hheight⟩ :=
          many_sound closeBrace_markText (fun _ => entry_sound ih) hlex hmany
        exact ⟨used ++ [closing], height + 1, by simp, .object hopening hstar hclosing,
          Nat.succ_le_succ hheight⟩

theorem literal_list {token : Token} (h : IsMark "[" token) (list object : Parser Json)
    (rest : List Token) : literal list object (token :: rest) = list rest := by
  have hsupported := supported_of_isMark h (by decide) (by decide)
  simp only [literal, rejectUnsupported_cons hsupported, Outcome.ok_bind, h.1]
  exact if_pos h.2

theorem literal_object {token : Token} (h : IsMark "\x7b" token) (list object : Parser Json)
    (rest : List Token) : literal list object (token :: rest) = object rest := by
  have hsupported := supported_of_isMark h (by decide) (by decide)
  simp only [literal, rejectUnsupported_cons hsupported, Outcome.ok_bind, h.1]
  rw [if_neg (h.text_ne (by decide)), if_pos h.2]

/-- A token that can be the first one of a literal. Of the punctuation marks
only those that open a list or an object can. -/
def StartsValue (token : Token) : Prop :=
  token.kind ≠ .punct ∨ IsMark "[" token ∨ IsMark "\x7b" token

theorem value_first {used : List Token} {value : Json} {height : Nat}
    (h : Value used value height) : ∃ token others, used = token :: others ∧
    StartsValue token := by
  cases h with
  | number hkind _ => exact ⟨_, [], rfl, Or.inl (by rw [hkind]; decide)⟩
  | string hkind _ => exact ⟨_, [], rfl, Or.inl (by rw [hkind]; decide)⟩
  | word hkind _ => exact ⟨_, [], rfl, Or.inl (by rw [hkind]; decide)⟩
  | list hopening _ _ => exact ⟨_, _, rfl, Or.inr (Or.inl hopening)⟩
  | object hopening _ _ => exact ⟨_, _, rfl, Or.inr (Or.inr hopening)⟩

theorem not_isMark_of_startsValue {token : Token} {mark : String} (h : StartsValue token)
    (hbracket : "[" ≠ mark) (hbrace : "\x7b" ≠ mark) : ¬ IsMark mark token := by
  intro hmark
  rcases h with hkind | hopening | hopening
  · exact hkind hmark.1
  · exact hbracket (hopening.2.symm.trans hmark.2)
  · exact hbrace (hopening.2.symm.trans hmark.2)

theorem entry_first {derives : Nonterminal α} {used : List Token} {pair : String × α}
    {height : Nat} (h : Entry derives used pair height) :
    ∃ token others, used = token :: others ∧ token.kind = .name := by
  cases h with
  | mk hname _ _ => exact ⟨_, _, rfl, hname⟩

theorem not_isMark_of_name {token : Token} {mark : String} (h : token.kind = .name) :
    ¬ IsMark mark token := by
  intro hmark
  have hkind := hmark.1
  rw [h] at hkind
  cases hkind

theorem entry_complete {value : Parser Json} {bound : Nat} {follow : List Token → Prop}
    (hvalue : Complete value Value bound fun _ => True) :
    Complete (entry value) (Entry Value) bound follow := by
  intro used pair height rest hlex hderived hheight _
  cases hderived with
  | mk hname hcolon hliteral =>
      have hlex := (allLexical_cons.mp (allLexical_cons.mp hlex).2).2
      have hread := hvalue hlex hliteral hheight trivial
      simp only [entry, List.cons_append, expectName_name hname, Outcome.ok_bind,
        expect_mark hcolon, hread]
      rfl

/-- A literal is complete when what it takes after an opening mark is. -/
theorem literal_complete {list object : Parser Json} {bound : Nat}
    (hlist : ∀ {tokens items height closing rest}, AllLexical (tokens ++ closing :: rest) →
      Star Value tokens items height → height < bound → IsMark "]" closing →
        list (tokens ++ closing :: rest) = .ok (.arr items, rest))
    (hobject : ∀ {tokens entries height closing rest}, AllLexical (tokens ++ closing :: rest) →
      Star (Entry Value) tokens entries height → height < bound → IsMark "\x7d" closing →
        object (tokens ++ closing :: rest) = .ok (.obj (Entries.ofList entries), rest)) :
    Complete (literal list object) Value bound fun _ => True := by
  intro used value height rest hlex hderived hheight _
  cases hderived with
  | @number token _ hkind hshort hparse =>
      have htoken : token.Lexical := (allLexical_cons.mp hlex).1
      -- a literal is no mark of the syntax that is not supported
      have hsupported : Supported token :=
        supported_of_kind htoken (by rw [hkind]; decide) (by rw [hkind]; decide)
      have hvalue := (numberValue_eq_ok_iff hkind htoken _).mpr ⟨hshort, hparse⟩
      simp only [List.singleton_append, literal, rejectUnsupported_cons hsupported, Outcome.ok_bind,
        hkind, hvalue]
  | @string token _ hkind hvalue =>
      have htoken : token.Lexical := (allLexical_cons.mp hlex).1
      have hsupported : Supported token :=
        supported_of_kind htoken (by rw [hkind]; decide) (by rw [hkind]; decide)
      rw [← stringValue_eq_ok_iff hkind htoken] at hvalue
      simp only [List.singleton_append, literal, rejectUnsupported_cons hsupported, Outcome.ok_bind,
        hkind, hvalue]
  | @word token _ hkind hword =>
      have hsupported := supported_of_name (allLexical_cons.mp hlex).1 hkind
      simp only [List.singleton_append, literal, rejectUnsupported_cons hsupported, Outcome.ok_bind,
        hkind, nameValue_eq_of_word hword]
  | list hopening hitems hclosing =>
      simp only [List.cons_append, List.append_assoc, List.nil_append] at hlex ⊢
      rw [literal_list hopening]
      exact hlist (allLexical_cons.mp hlex).2 hitems hheight hclosing
  | object hopening hentries hclosing =>
      simp only [List.cons_append, List.append_assoc, List.nil_append] at hlex ⊢
      rw [literal_object hopening]
      exact hobject (allLexical_cons.mp hlex).2 hentries hheight hclosing

theorem Complete.anyFollow {parser : Parser α} {derives : Nonterminal α} {bound : Nat}
    (h : Complete parser derives bound fun _ => True) (follow : List Token → Prop) :
    Complete parser derives bound follow :=
  fun _ _ _ _ hlex hderived hheight _ => h hlex hderived hheight trivial

theorem value_complete (levels : Nat) : Complete (value levels) Value levels fun _ => True := by
  induction levels with
  -- a list or an object is at least one high, so none is left at this bound
  | zero =>
      refine literal_complete ?_ ?_
      · intro tokens items height closing rest _ _ hheight _
        exact absurd hheight (Nat.not_lt_zero height)
      · intro tokens entries height closing rest _ _ hheight _
        exact absurd hheight (Nat.not_lt_zero height)
  | succ levels ih =>
      refine literal_complete ?_ ?_
      · intro tokens items height closing rest hlex hstar hheight hclosing
        have hmany : many "]" .unclosedList (fun _ => value levels) (tokens ++ closing :: rest) =
            .ok (items, rest) :=
          many_complete closeBracket_markText value_first
            (fun h => not_isMark_of_startsValue h (by decide) (by decide))
            (fun _ => complete_and_true (ih.anyFollow _)) hstar (Nat.le_of_lt_succ hheight) hclosing
            (fun _ _ _ _ => trivial) hlex
        simp only [hmany, Outcome.ok_bind]
        rfl
      · intro tokens entries height closing rest hlex hstar hheight hclosing
        have hmany : many "\x7d" .unexpectedEnd (fun _ => entry (value levels))
            (tokens ++ closing :: rest) = .ok (entries, rest) :=
          many_complete closeBrace_markText entry_first not_isMark_of_name
            (fun _ => complete_and_true (entry_complete ih)) hstar (Nat.le_of_lt_succ hheight)
            hclosing (fun _ _ _ _ => trivial) hlex
        simp only [hmany, Outcome.ok_bind]
        rfl

/-! ### Arguments -/

theorem argument_sound {value : Parser Json} {bound : Nat} (hvalue : Sound value Value bound)
    (before : List (String × Json)) : Sound (argument value before) (Entry Value) bound := by
  intro tokens pair rest hlex h
  obtain ⟨_, -, h⟩ := Outcome.bind_eq_ok_iff.mp h
  obtain ⟨⟨name, tokens₁⟩, hname, h⟩ := Outcome.bind_eq_ok_iff.mp h
  simp only at h
  split at h
  · cases h
  · obtain ⟨tokens₂, hcolon, h⟩ := Outcome.bind_eq_ok_iff.mp h
    obtain ⟨⟨literal, tokens₃⟩, hliteral, h⟩ := Outcome.bind_eq_ok_iff.mp h
    obtain ⟨rfl, rfl⟩ := Prod.mk.inj (Except.ok.inj h)
    refine entry_sound hvalue hlex ?_
    simp only [entry, hname, Outcome.ok_bind, hcolon, hliteral]
    rfl

/-- A taken argument differs in name from those before it. -/
theorem argument_fresh {value : Parser Json} {before : List (String × Json)}
    {pair : String × Json} {tokens rest : List Token}
    (h : argument value before tokens = .ok (pair, rest)) : Entries.has before pair.1 = false := by
  obtain ⟨_, -, h⟩ := Outcome.bind_eq_ok_iff.mp h
  obtain ⟨⟨name, tokens₁⟩, -, h⟩ := Outcome.bind_eq_ok_iff.mp h
  simp only at h
  split at h
  · cases h
  · next hfresh =>
      obtain ⟨tokens₂, -, h⟩ := Outcome.bind_eq_ok_iff.mp h
      obtain ⟨⟨literal, tokens₃⟩, -, h⟩ := Outcome.bind_eq_ok_iff.mp h
      obtain ⟨rfl, rfl⟩ := Prod.mk.inj (Except.ok.inj h)
      exact Bool.eq_false_iff.mpr hfresh

theorem distinct_append {before : Entries Json} {pair : String × Json}
    (hbefore : Entries.Distinct before) (hfresh : Entries.has before pair.1 = false) :
    Entries.Distinct (before ++ [pair]) := by
  rw [Entries.Distinct, Entries.keys, List.map_append, List.nodup_append]
  refine ⟨hbefore, by simp, ?_⟩
  rintro a ha b hb rfl
  have hmem : pair.1 ∈ Entries.keys before := by
    rw [List.map_singleton, List.mem_singleton] at hb
    exact hb ▸ ha
  rw [(Entries.has_iff_mem_keys before pair.1).mpr hmem] at hfresh
  cases hfresh

theorem arguments_sound {value : Parser Json} {bound : Nat} (hvalue : Sound value Value bound) :
    Sound (arguments value) Arguments bound := by
  intro tokens entries rest hlex h
  simp only [arguments] at h
  split at h
  · obtain ⟨tokens₁, hopen, hmany⟩ := Outcome.bind_eq_ok_iff.mp h
    obtain ⟨opening, rfl, hopening⟩ := expect_eq_ok hlex paren_markText hopen
    have hnone : Entries.Distinct ([] : Entries Json) := List.nodup_nil
    -- each argument is refused if its name is there, so the names stay distinct
    have hdistinct : Entries.Distinct entries :=
      manyWith_invariant (fun _ _ _ _ hbefore hpair =>
        distinct_append hbefore (argument_fresh hpair)) hnone hmany
    obtain ⟨used, closing, height, rfl, hclosing, hstar, hheight⟩ :=
      many_sound closeParen_markText (fun before => argument_sound hvalue before)
        (allLexical_cons.mp hlex).2 hmany
    exact ⟨opening :: (used ++ [closing]), height, by simp,
      .given hopening hstar hdistinct hclosing, hheight⟩
  · obtain ⟨rfl, rfl⟩ := Prod.mk.inj (Except.ok.inj h)
    exact ⟨[], 0, rfl, .none, Nat.zero_le _⟩

theorem argument_complete {value : Parser Json} {bound : Nat}
    (hvalue : Complete value Value bound fun _ => True) (before : List (String × Json))
    (follow : List Token → Prop) :
    Complete (argument value before)
      (fun used pair height =>
        Entry Value used pair height ∧ Entries.has before pair.1 = false) bound follow := by
  intro used pair height rest hlex hderived hheight hfollow
  obtain ⟨hentry, hfresh⟩ := hderived
  cases hentry with
  | mk hname hcolon hliteral =>
      have hsupported := supported_of_name (allLexical_cons.mp hlex).1 hname
      have hlex := (allLexical_cons.mp (allLexical_cons.mp hlex).2).2
      have hread := hvalue hlex hliteral hheight trivial
      simp only [argument, List.cons_append, rejectUnsupported_cons hsupported, Outcome.ok_bind,
        expectName_name hname, hfresh, expect_mark hcolon, hread]
      rfl

theorem has_eq_false_of_distinct {before after : Entries Json} {pair : String × Json}
    (h : Entries.Distinct (before ++ pair :: after)) : Entries.has before pair.1 = false := by
  rw [Bool.eq_false_iff]
  intro hhas
  rw [Entries.Distinct, Entries.keys, List.map_append, List.nodup_append] at h
  exact h.2.2 pair.1 ((Entries.has_iff_mem_keys before pair.1).mp hhas) pair.1
    List.mem_cons_self rfl

/-- Arguments are taken where something other than a parenthesis follows them. -/
theorem arguments_complete {value : Parser Json} {bound : Nat}
    (hvalue : Complete value Value bound fun _ => True) :
    Complete (arguments value) Arguments bound fun rest => at? "(" rest = false := by
  intro used entries height rest hlex hderived hheight hfollow
  cases hderived with
  | none =>
      rw [List.nil_append]
      simp only [arguments, hfollow]
      rfl
  | given hopening hstar hdistinct hclosing =>
      simp only [List.cons_append, List.append_assoc, List.nil_append] at hlex ⊢
      obtain ⟨hopenLex, hlex⟩ := allLexical_cons.mp hlex
      simp only [arguments, if_pos ((at?_cons_iff hopenLex paren_markText _).mpr hopening),
        expect_mark hopening, Outcome.ok_bind]
      refine many_complete closeParen_markText entry_first not_isMark_of_name
        (fun before => argument_complete hvalue before _) hstar hheight hclosing ?_ hlex
      -- the names of the derivation are distinct, so no argument is refused
      intro before pair after hentries
      rw [hentries] at hdistinct
      exact has_eq_false_of_distinct hdistinct

/-! ### Selections -/

theorem fieldName_sound {tokens rest : List Token} {name : String} {aliasName : Option String}
    (hlex : AllLexical tokens) (h : fieldName tokens = .ok ((name, aliasName), rest)) :
    ∃ used, tokens = used ++ rest ∧ Naming used name aliasName := by
  obtain ⟨_, -, h⟩ := Outcome.bind_eq_ok_iff.mp h
  obtain ⟨⟨word, tokens₁⟩, hfirst, h⟩ := Outcome.bind_eq_ok_iff.mp h
  obtain ⟨first, rfl, hfirstKind, rfl⟩ := expectName_eq_ok hfirst
  simp only at h
  split at h
  -- a colon makes the first name an alias
  · obtain ⟨tokens₂, hcolon, h⟩ := Outcome.bind_eq_ok_iff.mp h
    obtain ⟨⟨word', tokens₃⟩, hname, h⟩ := Outcome.bind_eq_ok_iff.mp h
    obtain ⟨hnames, rfl⟩ := Prod.mk.inj (Except.ok.inj h)
    obtain ⟨rfl, rfl⟩ := Prod.mk.inj hnames
    obtain ⟨colon, rfl, hmark⟩ :=
      expect_eq_ok (allLexical_cons.mp hlex).2 colon_markText hcolon
    obtain ⟨nameToken, rfl, hkind, rfl⟩ := expectName_eq_ok hname
    exact ⟨[first, colon, nameToken], rfl, .aliased hfirstKind hmark hkind⟩
  · obtain ⟨hnames, rfl⟩ := Prod.mk.inj (Except.ok.inj h)
    obtain ⟨rfl, rfl⟩ := Prod.mk.inj hnames
    exact ⟨[first], rfl, .plain hfirstKind⟩

/-- The name of a field is taken where no colon follows it. -/
theorem fieldName_complete {used rest : List Token} {name : String} {aliasName : Option String}
    (hlex : AllLexical used) (h : Naming used name aliasName) (hfollow : at? ":" rest = false) :
    fieldName (used ++ rest) = .ok ((name, aliasName), rest) := by
  cases h with
  | @plain first hkind =>
      have hsupported := supported_of_name (hlex first List.mem_cons_self) hkind
      simp only [List.singleton_append, fieldName, rejectUnsupported_cons hsupported,
        Outcome.ok_bind, expectName_name hkind, hfollow]
      rfl
  | @aliased first colon nameToken hfirst hcolon hname =>
      have hsupported := supported_of_name (hlex first List.mem_cons_self) hfirst
      have hat := (at?_cons_iff (hlex colon (by simp)) colon_markText
        (nameToken :: rest)).mpr hcolon
      simp only [List.cons_append, List.nil_append, fieldName, rejectUnsupported_cons hsupported,
        Outcome.ok_bind, expectName_name hfirst, hat, if_true, expect_mark hcolon,
        expectName_name hname]
      rfl

theorem naming_first {used : List Token} {name : String} {aliasName : Option String}
    (h : Naming used name aliasName) :
    ∃ token others, used = token :: others ∧ token.kind = .name := by
  cases h with
  | plain hkind => exact ⟨_, _, rfl, hkind⟩
  | aliased hfirst _ _ => exact ⟨_, _, rfl, hfirst⟩

theorem selected_first {used : List Token} {selection : Selection} {height : Nat}
    (h : Selected used selection height) :
    ∃ token others, used = token :: others ∧ token.kind = .name := by
  cases h with
  | leaf hnaming _ =>
      obtain ⟨token, others, rfl, hkind⟩ := naming_first hnaming
      exact ⟨token, _, rfl, hkind⟩
  | node hnaming _ _ =>
      obtain ⟨token, others, rfl, hkind⟩ := naming_first hnaming
      exact ⟨token, _, rfl, hkind⟩

theorem selection_sound {value : Parser Json} {set : Parser (List Selection)} {bound : Nat}
    (hvalue : Sound value Value bound) (hset : Sound set (Braced Selected) bound) :
    Sound (selection value set) Selected bound := by
  intro tokens selected rest hlex h
  obtain ⟨⟨⟨name, aliasName⟩, tokens₁⟩, hname, h⟩ := Outcome.bind_eq_ok_iff.mp h
  obtain ⟨⟨entries, tokens₂⟩, harguments, h⟩ := Outcome.bind_eq_ok_iff.mp h
  obtain ⟨_, -, hset'⟩ := Outcome.bind_eq_ok_iff.mp h
  obtain ⟨front, rfl, hnaming⟩ := fieldName_sound hlex hname
  have hlex₁ := (allLexical_append.mp hlex).2
  obtain ⟨middle, height, rfl, hmiddle, hheight⟩ := arguments_sound hvalue hlex₁ harguments
  have hlex₂ := (allLexical_append.mp hlex₁).2
  split at hset'
  · obtain ⟨⟨children, tokens₃⟩, hchildren, hresult⟩ := Outcome.bind_eq_ok_iff.mp hset'
    obtain ⟨rfl, rfl⟩ := Prod.mk.inj (Except.ok.inj hresult)
    obtain ⟨back, below, rfl, hback, hbelow⟩ := hset hlex₂ hchildren
    exact ⟨front ++ middle ++ back, max height below, by simp, .node hnaming hmiddle hback,
      Nat.max_le.mpr ⟨hheight, hbelow⟩⟩
  · obtain ⟨rfl, rfl⟩ := Prod.mk.inj (Except.ok.inj hset')
    exact ⟨front ++ middle, height, by simp, .leaf hnaming hmiddle, hheight⟩

theorem selectionSet_sound (levels : Nat) : Sound (selectionSet levels)
    (Braced Selected) levels := by
  induction levels with
  | zero =>
      intro tokens selections rest hlex h
      -- at the bound no set is opened
      obtain ⟨_, -, h⟩ := Outcome.bind_eq_ok_iff.mp h
      cases h
  | succ levels ih =>
      intro tokens selections rest hlex h
      obtain ⟨tokens₁, hopen, h⟩ := Outcome.bind_eq_ok_iff.mp h
      obtain ⟨⟨values, tokens₂⟩, hmany, hresult⟩ := Outcome.bind_eq_ok_iff.mp h
      obtain ⟨opening, rfl, hopening⟩ := expect_eq_ok hlex brace_markText hopen
      simp only at hresult
      split at hresult
      · cases hresult
      · next hnonempty =>
          obtain ⟨rfl, rfl⟩ := Prod.mk.inj (Except.ok.inj hresult)
          obtain ⟨used, closing, height, rfl, hclosing, hstar, hheight⟩ :=
            many_sound closeBrace_markText
              (fun _ => selection_sound (value_sound levels) ih) (allLexical_cons.mp hlex).2 hmany
          refine ⟨opening :: (used ++ [closing]),
            height + 1, by simp, ?_, Nat.succ_le_succ hheight⟩
          exact .mk hopening hstar (fun hnil => hnonempty (by simp [hnil])) hclosing

/-- What may follow a selection: the next one, or the end of the set. -/
abbrev FollowSelection : List Token → Prop :=
  Follow (fun token => token.kind = .name) "\x7d"

theorem at?_of_followSelection {rest : List Token} (hlex : AllLexical rest)
    (h : FollowSelection rest) {mark : String} (hmark : MarkText mark) (hclose : "\x7d" ≠ mark) :
    at? mark rest = false := by
  cases rest with
  | nil => rfl
  | cons token others =>
      refine at?_eq_false ?_ others
      rcases h token others rfl with hname | hend
      · exact (hlex token List.mem_cons_self).text_ne (by rw [hname]; decide) hmark
      · exact hend.text_ne hclose

theorem rejectUnsupported_of_followSelection {rest : List Token} (hlex : AllLexical rest)
    (h : FollowSelection rest) : rejectUnsupported rest = .ok () := by
  cases rest with
  | nil => rfl
  | cons token others =>
      refine rejectUnsupported_cons ?_ others
      rcases h token others rfl with hname | hend
      · exact supported_of_name (hlex token List.mem_cons_self) hname
      · exact supported_of_isMark hend (by decide) (by decide)

/-- What follows the name of a field is no colon, whether or not arguments come
first. -/
theorem at?_colon_arguments {used rest : List Token} {entries : List (String × Json)}
    {height : Nat} (h : Arguments used entries height) (hrest : at? ":" rest = false) :
    at? ":" (used ++ rest) = false := by
  cases h with
  | none => exact hrest
  | given hopening _ _ _ => exact at?_eq_false (hopening.text_ne (by decide)) _

theorem selection_complete {value : Parser Json} {set : Parser (List Selection)} {bound : Nat}
    (hvalue : Complete value Value bound fun _ => True)
    (hset : Complete set (Braced Selected) bound fun _ => True) :
    Complete (selection value set) Selected bound FollowSelection := by
  intro used selected height rest hlex hderived hheight hfollow
  cases hderived with
  | leaf hnaming harguments =>
      rw [List.append_assoc] at hlex ⊢
      obtain ⟨hfront, hback⟩ := allLexical_append.mp hlex
      have hrest := (allLexical_append.mp hback).2
      -- what follows the selection is none of the marks that would continue it
      have hcolon := at?_of_followSelection hrest hfollow colon_markText (by decide)
      have hparen := at?_of_followSelection hrest hfollow paren_markText (by decide)
      have hbrace := at?_of_followSelection hrest hfollow brace_markText (by decide)
      simp only [selection, fieldName_complete hfront hnaming
        (at?_colon_arguments harguments hcolon),
        Outcome.ok_bind, arguments_complete hvalue hback harguments hheight hparen,
        rejectUnsupported_of_followSelection hrest hfollow, hbrace]
      rfl
  | node hnaming harguments hbraced =>
      rw [List.append_assoc, List.append_assoc] at hlex ⊢
      obtain ⟨hfront, hback⟩ := allLexical_append.mp hlex
      have hrest := (allLexical_append.mp hback).2
      obtain ⟨harg, hbelow⟩ := Nat.max_le.mp hheight
      have hchildren := hset hrest hbraced hbelow trivial
      cases hbraced with
      | @mk opening closing tokens children below hopening hstar hnonempty hclosing =>
          have hcolon : at? ":" (opening :: (tokens ++ [closing]) ++ rest) = false :=
            at?_eq_false (hopening.text_ne (by decide)) _
          have hparen : at? "(" (opening :: (tokens ++ [closing]) ++ rest) = false :=
            at?_eq_false (hopening.text_ne (by decide)) _
          have hbrace : at? "\x7b" (opening :: (tokens ++ [closing]) ++ rest) = true :=
            (at?_cons_iff (hrest opening List.mem_cons_self) brace_markText _).mpr hopening
          have hsupported : rejectUnsupported (opening :: (tokens ++ [closing]) ++ rest) = .ok () :=
            rejectUnsupported_cons (supported_of_isMark hopening (by decide) (by decide)) _
          simp only [selection,
            fieldName_complete hfront hnaming (at?_colon_arguments harguments hcolon),
            Outcome.ok_bind, arguments_complete hvalue hback harguments harg hparen, hsupported,
            hbrace, if_true, hchildren]
          rfl

theorem selectionSet_complete (levels : Nat) :
    Complete (selectionSet levels) (Braced Selected) levels fun _ => True := by
  induction levels with
  | zero =>
      intro used selections height rest _ hderived hheight _
      cases hderived
      exact absurd hheight (Nat.not_succ_le_zero _)
  | succ levels ih =>
      intro used selections height rest hlex hderived hheight _
      cases hderived with
      | @mk opening closing tokens values height hopening hstar hnonempty hclosing =>
          simp only [List.cons_append, List.append_assoc, List.nil_append] at hlex ⊢
          have hmany : many "\x7d" .unclosedSet
              (fun _ => selection (value levels) (selectionSet levels))
              (tokens ++ closing :: rest) = .ok (selections, rest) :=
            many_complete closeBrace_markText selected_first not_isMark_of_name
              (fun _ => complete_and_true (selection_complete (value_complete levels) ih)) hstar
              (Nat.le_of_succ_le_succ hheight) hclosing (fun _ _ _ _ => trivial)
              (allLexical_cons.mp hlex).2
          have hisEmpty : selections.isEmpty = false := by simpa using hnonempty
          simp only [selectionSet, expect_mark hopening, Outcome.ok_bind, hmany, hisEmpty]
          rfl

/-! ### Operations -/

theorem operationName_name {token : Token} (h : token.kind = .name) (rest : List Token) :
    operationName (token :: rest) = (some token.text, rest) :=
  if_pos h

theorem operationName_other {token : Token} (h : token.kind ≠ .name) (rest : List Token) :
    operationName (token :: rest) = (none, token :: rest) :=
  if_neg h

/-- A keyword with what stands between it and the selection set. -/
theorem heading_sound {kind kind' : OperationKind} {tokens rest : List Token}
    {name : Option String} (h : heading kind tokens = .ok ((kind', name), rest)) :
    kind' = kind ∧ (name = none ∧ tokens = rest ∨
      ∃ token, token.kind = .name ∧ name = some token.text ∧ tokens = token :: rest) := by
  simp only [heading] at h
  split at h
  · cases h
  · obtain ⟨_, -, h⟩ := Outcome.bind_eq_ok_iff.mp h
    obtain ⟨hpair, hrest⟩ := Prod.mk.inj (Except.ok.inj h)
    obtain ⟨rfl, hname⟩ := Prod.mk.inj hpair
    refine ⟨rfl, ?_⟩
    cases tokens with
    | nil => exact Or.inl ⟨hname.symm, hrest⟩
    | cons token others =>
        -- a name behind the keyword is that of the operation
        by_cases hkind : token.kind = .name
        · rw [operationName_name hkind] at hname hrest
          exact Or.inr ⟨token, hkind, hname.symm, by rw [← hrest]⟩
        · rw [operationName_other hkind] at hname hrest
          exact Or.inl ⟨hname.symm, hrest⟩

theorem heading_brace (kind : OperationKind) {opening : Token} (h : IsMark "\x7b" opening)
    (rest : List Token) : heading kind (opening :: rest) = .ok ((kind, none), opening :: rest) := by
  have hkind : opening.kind ≠ .name := by
    rw [h.1]
    decide
  have hparen : at? "(" (opening :: rest) = false := at?_eq_false (h.text_ne (by decide)) rest
  simp only [heading, operationName_other hkind, hparen,
    rejectUnsupported_cons (supported_of_isMark h (by decide) (by decide))]
  rfl

theorem heading_name (kind : OperationKind) {name opening : Token} (hname : name.kind = .name)
    (h : IsMark "\x7b" opening) (rest : List Token) :
    heading kind (name :: opening :: rest) = .ok ((kind, some name.text), opening :: rest) := by
  have hparen : at? "(" (opening :: rest) = false := at?_eq_false (h.text_ne (by decide)) rest
  simp only [heading, operationName_name hname, hparen,
    rejectUnsupported_cons (supported_of_isMark h (by decide) (by decide))]
  rfl

theorem header_brace {opening : Token} (h : IsMark "\x7b" opening) (rest : List Token) :
    header (opening :: rest) = .ok ((.query, none), opening :: rest) := by
  have hkind : opening.kind ≠ .name := by
    rw [h.1]
    decide
  exact if_neg hkind

theorem header_keyword {keyword : Token} (hkeyword : keyword.kind = .name) {kind : OperationKind}
    (htext : keyword.text = kind.keyword) (rest : List Token) :
    header (keyword :: rest) = heading kind rest := by
  simp only [header, hkeyword, htext]
  cases kind <;> rfl

/-- An operation starts with its selection set or with the keyword of its kind. -/
theorem header_sound {tokens rest : List Token} {kind : OperationKind} {name : Option String}
    (h : header tokens = .ok ((kind, name), rest)) :
    (kind = .query ∧ name = none ∧ tokens = rest) ∨
      ∃ keyword others, tokens = keyword :: others ∧ keyword.kind = .name ∧
        keyword.text = kind.keyword ∧ heading kind others = .ok ((kind, name), rest) := by
  -- without a keyword the operation is a query and no token is used
  have bare : ∀ {others}, Except.ok ((OperationKind.query, none), others) =
      (Except.ok ((kind, name), rest) : Except QueryError _) →
      kind = .query ∧ name = none ∧ others = rest := by
    intro others heq
    obtain ⟨hpair, hrest⟩ := Prod.mk.inj (Except.ok.inj heq)
    obtain ⟨hkind, hname⟩ := Prod.mk.inj hpair
    exact ⟨hkind.symm, hname.symm, hrest⟩
  cases tokens with
  | nil => exact Or.inl (bare h)
  | cons token others =>
      by_cases hname : token.kind = .name
      · simp only [header, if_pos hname] at h
        split at h
        · cases h
        · split at h
          · cases h
          · split at h
            · next htext =>
                obtain ⟨rfl, -⟩ := heading_sound h
                exact Or.inr ⟨token, others, rfl, hname, htext, h⟩
            · split at h
              · next htext =>
                  obtain ⟨rfl, -⟩ := heading_sound h
                  exact Or.inr ⟨token, others, rfl, hname, htext, h⟩
              · exact Or.inl (bare h)
      · simp only [header, if_neg hname] at h
        exact Or.inl (bare h)

/-- A selection set starts with a brace. -/
theorem braced_first {derives : Nonterminal α} {tokens : List Token} {values : List α}
    {height : Nat} (h : Braced derives tokens values height) :
    ∃ opening others, tokens = opening :: others ∧ IsMark "\x7b" opening := by
  cases h with
  | mk hopening _ _ _ => exact ⟨_, _, rfl, hopening⟩

/-- What the parser accepts is an operation of the grammar. -/
theorem parseTokens_sound {tokens : List Token} (hlex : AllLexical tokens) {operation : Operation}
    (h : parseTokens tokens = .ok operation) :
    ∃ height, Document tokens operation height ∧ height ≤ nesting := by
  obtain ⟨⟨⟨kind, name⟩, tokens₁⟩, hheader, h⟩ := Outcome.bind_eq_ok_iff.mp h
  obtain ⟨⟨selections, tokens₂⟩, hset, h⟩ := Outcome.bind_eq_ok_iff.mp h
  -- nothing may be left after the selection set
  have hend : tokens₂ = [] ∧ operation = ⟨kind, name, selections⟩ := by
    cases tokens₂ with
    | nil => exact ⟨rfl, (Except.ok.inj h).symm⟩
    | cons token others =>
        simp only at h
        split at h <;> cases h
  obtain ⟨rfl, rfl⟩ := hend
  have hbraced : AllLexical tokens₁ →
      ∃ height, Braced Selected tokens₁ selections height ∧ height ≤ nesting := by
    intro hlex₁
    obtain ⟨used, height, hused, hbraced, hheight⟩ := selectionSet_sound nesting hlex₁ hset
    rw [List.append_nil] at hused
    exact ⟨height, hused ▸ hbraced, hheight⟩
  rcases header_sound hheader with
    ⟨rfl, rfl, rfl⟩ | ⟨keyword, others, rfl, hkeyword, htext, hheading⟩
  · obtain ⟨height, hbraced, hheight⟩ := hbraced hlex
    exact ⟨height, .bare hbraced, hheight⟩
  · have hothers := (allLexical_cons.mp hlex).2
    rcases (heading_sound hheading).2 with ⟨rfl, rfl⟩ | ⟨token, hname, rfl, rfl⟩
    · obtain ⟨height, hbraced, hheight⟩ := hbraced hothers
      exact ⟨height, .headed hkeyword htext hbraced, hheight⟩
    · obtain ⟨height, hbraced, hheight⟩ := hbraced (allLexical_cons.mp hothers).2
      exact ⟨height, .named hkeyword htext hname hbraced, hheight⟩

/-- Every operation of the grammar is accepted unless its height is greater than
the parser goes. -/
theorem parseTokens_complete {tokens : List Token} (hlex : AllLexical tokens)
    {operation : Operation} {height : Nat} (h : Document tokens operation height)
    (hheight : height ≤ nesting) :
    parseTokens tokens = .ok operation := by
  -- each form of an operation ends with its set, behind which nothing is left
  have hset : ∀ {tokens selections}, AllLexical tokens →
    Braced Selected tokens selections height →
      selectionSet nesting tokens = .ok (selections, []) := by
    intro tokens selections hlex hbraced
    rw [← List.append_nil tokens] at hlex ⊢
    exact selectionSet_complete nesting hlex hbraced hheight trivial
  cases h with
  | bare hbraced =>
      have hselections := hset hlex hbraced
      obtain ⟨opening, others, rfl, hopening⟩ := braced_first hbraced
      simp only [parseTokens, header_brace hopening, Outcome.ok_bind, hselections]
      rfl
  | @headed kind keyword tokens selections height hkeyword htext hbraced =>
      have hselections := hset (allLexical_cons.mp hlex).2 hbraced
      obtain ⟨opening, others, rfl, hopening⟩ := braced_first hbraced
      simp only [parseTokens, header_keyword hkeyword htext, heading_brace kind hopening,
        Outcome.ok_bind, hselections]
      rfl
  | @named kind keyword name tokens selections height hkeyword htext hname hbraced =>
      have hselections := hset (allLexical_cons.mp (allLexical_cons.mp hlex).2).2 hbraced
      obtain ⟨opening, others, rfl, hopening⟩ := braced_first hbraced
      simp only [parseTokens, header_keyword hkeyword htext, heading_name kind hname hopening,
        Outcome.ok_bind, hselections]
      rfl

end Query

end JsonSelection
