import JsonSelection.Proofs.Query.Lexis
import JsonSelection.Proofs.Query.Relocation

/-!
# Faults of conversion

An integer literal with more than `Query.mostDigits` digits cannot be converted,
and this is the one fault of the parser that is not an error of the query
(`QueryError.isConversion`). This module tells where that fault can come from.

## What this module delivers

- `Query.Attributed`: what a parser gives for some tokens leaves the end of them
  for the next parser, and a fault of conversion is put down to a token among
  them that is too long. One lemma for each parser, and `Query.Attributed.bind`
  for a sequence of two.
- `Query.isLong_of_parseTokens`: the parser has a fault of conversion only where
  some token is too long.
- `Execution.hasLong_of_run`: so has a run. What is wrong with a query beside its
  text arises at some place of the result, and a fault of conversion at none.

Nothing is said about texts with a literal that is too long: such a text can also
have an error of its own before or after the literal.
-/

set_option autoImplicit false

namespace JsonSelection

namespace Query

open Token

variable {α β : Type} {tokens rest : List Token}

/-- A result of a parser on some tokens: what it leaves is the end of the
tokens, and it is a fault of conversion only if one of the tokens is too
long. -/
structure Attributed (tokens : List Token) (result : Except QueryError (α × List Token)) :
    Prop where
  rest : ∀ {value rest}, result = .ok (value, rest) → rest <:+ tokens
  fault : ∀ {error}, result = .error error → error.isConversion = true →
    ∃ token ∈ tokens, token.IsLong

namespace Attributed

/-- A value with an end of the tokens is no fault. -/
theorem done (value : α) (h : rest <:+ tokens) :
    Attributed tokens (.ok (value, rest)) where
  rest hresult := by
    obtain ⟨-, rfl⟩ := Prod.mk.inj (Except.ok.inj hresult)
    exact h
  fault hresult := by cases hresult

/-- An error leaves no tokens, so only its own token is to be told. -/
theorem blamed {error : QueryError}
    (h : error.isConversion = true → ∃ token ∈ tokens, token.IsLong) :
    Attributed tokens (.error error : Except QueryError (α × List Token)) where
  rest hresult := by cases hresult
  fault hresult := by
    obtain rfl := Except.error.inj hresult
    exact h

/-- An error of the query is no fault of conversion. -/
theorem refused {error : QueryError} (h : error.isConversion = false) :
    Attributed tokens (.error error : Except QueryError (α × List Token)) :=
  .blamed fun hconversion => by rw [h] at hconversion; cases hconversion

/-- What is put down to the end of some tokens is put down to the tokens. -/
theorem mono {result : Except QueryError (α × List Token)} (h : Attributed rest result)
    (hsuffix : rest <:+ tokens) : Attributed tokens result where
  rest hresult := (h.rest hresult).trans hsuffix
  fault hresult hconversion := by
    obtain ⟨token, hmem, hlong⟩ := h.fault hresult hconversion
    exact ⟨token, hsuffix.subset hmem, hlong⟩

/-- An error that is passed on is put down to the same token, whatever the value
would have been. -/
theorem passed {error : QueryError}
    (h : Attributed tokens (.error error : Except QueryError (α × List Token))) :
    Attributed tokens (.error error : Except QueryError (β × List Token)) :=
  .blamed (h.fault rfl)

/-- A second parser goes on with the end that the first one leaves. -/
theorem bind {result : Except QueryError (α × List Token)}
    {next : α × List Token → Except QueryError (β × List Token)}
    (h : Attributed tokens result) (hnext : ∀ value rest, rest <:+ tokens →
      Attributed rest (next (value, rest))) :
    Attributed tokens (result >>= next) where
  rest hresult := by
    obtain ⟨⟨value, rest⟩, hfirst, hsecond⟩ := Outcome.bind_eq_ok_iff.mp hresult
    have hsuffix := h.rest hfirst
    exact ((hnext value rest hsuffix).mono hsuffix).rest hsecond
  fault hresult hconversion := by
    rcases Outcome.bind_error hresult with hfirst | ⟨⟨value, rest⟩, hfirst, hsecond⟩
    · exact h.fault hfirst hconversion
    · have hsuffix := h.rest hfirst
      exact ((hnext value rest hsuffix).mono hsuffix).fault hsecond hconversion

end Attributed

/-! ## Single tokens -/

theorem expectName_attributed (tokens : List Token) : Attributed tokens (expectName tokens) := by
  cases tokens with
  | nil => exact .refused rfl
  | cons token rest =>
      rw [expectName]
      split
      · exact .done _ (List.suffix_cons token rest)
      · exact .refused rfl

/-- After a mark the parser goes on with the tokens behind it. -/
theorem expect_attributed (mark : String)
    {next : List Token → Except QueryError (α × List Token)}
    (hnext : ∀ rest, rest <:+ tokens → Attributed rest (next rest)) :
    Attributed tokens (expect mark tokens >>= next) := by
  cases tokens with
  | nil => exact .refused rfl
  | cons token rest =>
      rw [expect]
      split
      · exact (hnext rest (List.suffix_cons token rest)).mono (List.suffix_cons token rest)
      · exact .refused rfl

/-- What is not supported is refused by the query, and else nothing is taken. -/
theorem rejectUnsupported_attributed {next : Unit → Except QueryError (α × List Token)}
    (hnext : Attributed tokens (next ())) :
    Attributed tokens (rejectUnsupported tokens >>= next) := by
  cases tokens with
  | nil => exact hnext
  | cons token rest =>
      rw [rejectUnsupported]
      split
      · exact .refused rfl
      · split
        · exact .refused rfl
        · split
          · exact .refused rfl
          · exact hnext

/-! ## Literals

A literal is the only place where a number is converted. Lists and objects hold
literals, so the lemma on `value` goes by the number of levels left. -/

section Many

variable {close : String} {atEnd : QueryError} {item : List α → Parser α}

theorem manyWith_attributed (hatEnd : atEnd.isConversion = false)
    (hitem : ∀ taken tokens, Attributed tokens (item taken tokens)) (fuel : Nat) (taken : List α)
    (tokens : List Token) : Attributed tokens (manyWith close atEnd item fuel taken tokens) := by
  induction fuel generalizing taken tokens with
  | zero => exact .refused hatEnd
  | succ fuel ih =>
      cases tokens with
      | nil => exact .refused hatEnd
      | cons token rest =>
          rw [manyWith]
          split
          · exact .done _ (List.suffix_cons token rest)
          -- an error of an item is passed on; what follows reads a part of the
          -- tokens
          · have hfirst := hitem taken (token :: rest)
            cases hvalue : item taken (token :: rest) with
            | error error =>
                rw [hvalue] at hfirst
                exact hfirst.passed
            | ok read =>
                rw [hvalue] at hfirst
                exact (ih (taken ++ [read.1]) read.2).mono (hfirst.rest rfl)

theorem many_attributed (hatEnd : atEnd.isConversion = false)
    (hitem : ∀ taken tokens, Attributed tokens (item taken tokens)) (tokens : List Token) :
    Attributed tokens (many close atEnd item tokens) :=
  manyWith_attributed hatEnd hitem _ _ tokens

end Many

theorem literal_attributed {list object : Parser Json}
    (hlist : ∀ tokens, Attributed tokens (list tokens))
    (hobject : ∀ tokens, Attributed tokens (object tokens)) (tokens : List Token) :
    Attributed tokens (literal list object tokens) := by
  refine rejectUnsupported_attributed ?_
  cases tokens with
  | nil => exact .refused rfl
  | cons token rest =>
      have hsuffix := List.suffix_cons token rest
      dsimp only
      split
      · next hkind =>
          cases hvalue : numberValue token.text token.position with
          | ok value => exact .done value hsuffix
          | error error =>
              -- of all errors of a number only the one for a long integer is left
              -- to blame
              refine .blamed fun hconversion => ?_
              cases error with
              | integerTooLong digits =>
                  exact ⟨token, List.mem_cons_self, isLong_of_numberValue hkind hvalue⟩
              | _ => cases hconversion
      · split
        · exact .done _ hsuffix
        · exact .refused rfl
      · exact .done _ hsuffix
      · split
        · exact (hlist rest).mono hsuffix
        · split
          · exact (hobject rest).mono hsuffix
          · exact .refused rfl

theorem entry_attributed {value : Parser Json}
    (hvalue : ∀ tokens, Attributed tokens (value tokens)) (tokens : List Token) :
    Attributed tokens (entry value tokens) := by
  refine (expectName_attributed tokens).bind fun key rest _ => ?_
  refine expect_attributed ":" fun rest _ => ?_
  exact (hvalue rest).bind fun _ rest _ => .done _ List.suffix_rfl

theorem value_attributed (levels : Nat) (tokens : List Token) :
    Attributed tokens (value levels tokens) := by
  induction levels generalizing tokens with
  | zero => exact literal_attributed (fun _ => .refused rfl) (fun _ => .refused rfl) tokens
  | succ levels ih =>
      refine literal_attributed ?_ ?_ tokens
      · intro tokens
        have hitems : Attributed tokens (many "]" .unclosedList (fun _ => value levels) tokens) :=
          many_attributed rfl (fun _ => ih) tokens
        exact hitems.bind fun _ rest _ => .done _ List.suffix_rfl
      · intro tokens
        have hentries : Attributed tokens
            (many "\x7d" .unexpectedEnd (fun _ => entry (value levels)) tokens) :=
          many_attributed rfl (fun _ => entry_attributed ih) tokens
        exact hentries.bind fun _ rest _ => .done _ List.suffix_rfl

/-! ## Selections and operations -/

theorem argument_attributed {value : Parser Json}
    (hvalue : ∀ tokens, Attributed tokens (value tokens)) (before : List (String × Json))
    (tokens : List Token) : Attributed tokens (argument value before tokens) := by
  refine rejectUnsupported_attributed ?_
  refine (expectName_attributed tokens).bind fun name rest _ => ?_
  dsimp only
  split
  · exact .refused rfl
  · refine expect_attributed ":" fun rest _ => ?_
    exact (hvalue rest).bind fun _ rest _ => .done _ List.suffix_rfl

theorem arguments_attributed {value : Parser Json}
    (hvalue : ∀ tokens, Attributed tokens (value tokens)) (tokens : List Token) :
    Attributed tokens (arguments value tokens) := by
  rw [arguments]
  split
  · exact expect_attributed "(" fun rest _ =>
      many_attributed rfl (argument_attributed hvalue) rest
  · exact .done _ List.suffix_rfl

theorem fieldName_attributed (tokens : List Token) : Attributed tokens (fieldName tokens) := by
  refine rejectUnsupported_attributed ?_
  refine (expectName_attributed tokens).bind fun first rest _ => ?_
  dsimp only
  split
  · refine expect_attributed ":" fun rest _ => ?_
    exact (expectName_attributed rest).bind fun _ rest _ => .done _ List.suffix_rfl
  · exact .done _ List.suffix_rfl

theorem selection_attributed {value : Parser Json} {set : Parser (List Selection)}
    (hvalue : ∀ tokens, Attributed tokens (value tokens))
    (hset : ∀ tokens, Attributed tokens (set tokens)) (tokens : List Token) :
    Attributed tokens (selection value set tokens) := by
  refine (fieldName_attributed tokens).bind fun naming rest _ => ?_
  refine (arguments_attributed hvalue rest).bind fun arguments rest _ => ?_
  refine rejectUnsupported_attributed ?_
  dsimp only
  split
  · exact (hset rest).bind fun _ rest _ => .done _ List.suffix_rfl
  · exact .done _ List.suffix_rfl

theorem selectionSet_attributed (levels : Nat) (tokens : List Token) :
    Attributed tokens (selectionSet levels tokens) := by
  induction levels generalizing tokens with
  | zero => exact expect_attributed "\x7b" fun _ _ => .refused rfl
  | succ levels ih =>
      refine expect_attributed "\x7b" fun rest _ => ?_
      refine (many_attributed rfl (fun _ => selection_attributed (value_attributed levels) ih)
        rest).bind fun selections rest _ => ?_
      dsimp only
      split
      · exact .refused rfl
      · exact .done _ List.suffix_rfl

theorem operationName_suffix (tokens : List Token) : (operationName tokens).2 <:+ tokens := by
  cases tokens with
  | nil => exact List.suffix_rfl
  | cons token rest =>
      rw [operationName]
      split
      · exact List.suffix_cons token rest
      · exact List.suffix_rfl

theorem heading_attributed (kind : OperationKind) (tokens : List Token) :
    Attributed tokens (heading kind tokens) := by
  refine Attributed.mono ?_ (operationName_suffix tokens)
  rw [heading]
  dsimp only
  split
  · exact .refused rfl
  · exact rejectUnsupported_attributed (.done _ List.suffix_rfl)

theorem header_attributed (tokens : List Token) : Attributed tokens (header tokens) := by
  cases tokens with
  | nil => exact .done _ List.suffix_rfl
  | cons token rest =>
      have hsuffix := List.suffix_cons token rest
      rw [header]
      split
      · split
        · exact .refused rfl
        · split
          · exact .refused rfl
          · split
            · exact (heading_attributed .query rest).mono hsuffix
            · split
              · exact (heading_attributed .mutation rest).mono hsuffix
              · exact .done _ List.suffix_rfl
      · exact .done _ List.suffix_rfl

/-- The parser has a fault of conversion only where some token is too long. -/
theorem isLong_of_parseTokens {error : QueryError} (h : parseTokens tokens = .error error)
    (hconversion : error.isConversion = true) : ∃ token ∈ tokens, token.IsLong := by
  rcases Outcome.bind_error h with hhead | ⟨⟨⟨kind, name⟩, rest⟩, hhead, h⟩
  · exact (header_attributed tokens).fault hhead hconversion
  · have hsuffix := (header_attributed tokens).rest hhead
    rcases Outcome.bind_error h with hset | ⟨⟨selections, after⟩, -, h⟩
    · obtain ⟨token, hmem, hlong⟩ :=
        (selectionSet_attributed nesting rest).fault hset hconversion
      exact ⟨token, hsuffix.subset hmem, hlong⟩
    · -- tokens behind the selection set are an error of the query
      cases after with
      | nil => cases h
      | cons token others =>
          dsimp only at h
          split at h <;> obtain rfl := Except.error.inj h <;> cases hconversion

/-- An integer of a query text has more digits than are converted. Where the
text cannot be cut into tokens it has none. -/
def HasLong (text : String) : Prop :=
  ∃ tokens, tokenize (normalize text) = .ok tokens ∧ ∃ token ∈ tokens, token.IsLong

/-- A text that has no tokens has an error at the character where none starts. -/
theorem isConversion_of_scan {left position : Nat} {cs : List Char} {error : QueryError}
    (h : scan left position cs = .error error) : error.isConversion = false := by
  induction cs generalizing left position with
  | nil =>
      rw [scan_nil] at h
      cases h
  | cons c rest ih =>
      cases left with
      | succ left =>
          rw [scan_succ] at h
          exact ih h
      | zero =>
          rw [scan_zero] at h
          split at h
          · obtain rfl := Except.error.inj h
            rfl
          · exact ih h
          · split at h
            · cases h
            · next hothers =>
                obtain rfl := Except.error.inj h
                exact ih hothers

theorem hasLong_of_parse {text : String} {error : QueryError} (h : parse text = .error error)
    (hconversion : error.isConversion = true) : HasLong text := by
  rcases Outcome.bind_error h with hscan | ⟨tokens, htokens, h⟩
  · rw [isConversion_of_scan hscan] at hconversion
    cases hconversion
  · exact ⟨tokens, htokens, isLong_of_parseTokens h hconversion⟩

end Query

namespace Execution

variable {schema : Schema}

/-- An error of a run has a path, and a fault of conversion has none. -/
theorem isConversion_of_runAll {selections : List Selection} {owner : NamedType} {source : Json}
    {path : ResponsePath} {done : Entries Json} {error : QueryError}
    (h : runAll schema selections owner source path done = .error (.query error)) :
    error.isConversion = false := by
  have hmoved := runAll_under schema "" selections owner source path done
  rw [h] at hmoved
  generalize runAll schema selections owner source ("" :: path) done = moved at hmoved
  cases hmoved with
  | error hunder =>
      cases hunder with
      | query hunder =>
          rw [Bool.eq_false_iff]
          intro hconversion
          have hpath := hunder.path
          rw [hunder.same] at hpath
          cases error with
          | integerTooLong digits => cases hpath
          | _ => cases hconversion

/-- The missing root of an operation is an error of the query. -/
theorem isConversion_of_rootOf {kind : OperationKind} {error : QueryError}
    (h : rootOf schema kind = .error error) : error.isConversion = false := by
  cases kind with
  | query => cases h
  | mutation =>
      rw [rootOf] at h
      split at h
      · cases h
      · obtain rfl := Except.error.inj h
        rfl

/-- The error of a check is that of the run it breaks off. -/
theorem ofQuery_error {α : Type} {result : Except QueryError α} {error : QueryError}
    (h : ofQuery result = .error (.query error)) : result = .error error := by
  cases result with
  | error fault =>
      obtain rfl := ExecutionError.query.inj (Except.error.inj h)
      rfl
  | ok _ => cases h

/-- A run has a fault of conversion only where an integer of its text is too long. -/
theorem hasLong_of_run {data : Json} {text : String} {error : QueryError}
    (h : run schema data text = .error (.query error)) (hconversion : error.isConversion = true) :
    Query.HasLong text := by
  rcases Outcome.bind_error h with hparse | ⟨operation, -, h⟩
  · exact Query.hasLong_of_parse (ofQuery_error hparse) hconversion
  · rcases Outcome.bind_error h with hroot | ⟨root, -, h⟩
    · rw [isConversion_of_rootOf (ofQuery_error hroot)] at hconversion
      cases hconversion
    · rw [isConversion_of_runAll h] at hconversion
      cases hconversion

end Execution

end JsonSelection
