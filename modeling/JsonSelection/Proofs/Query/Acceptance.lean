import JsonSelection.Proofs.Query.Conversion
import JsonSelection.Proofs.Query.Rendering

/-!
# What the parser accepts

The tokens of a normalized text are accepted exactly when the grammar derives
them with a height up to `Query.nesting`, and what they stand for is the tree of
the derivation; everything else is an error.

## What this module delivers

- `Json.height`, `Selection.height`: the heights of trees, for comparison with
  the heights of derivations.
- `Query.parseTokens_eq_ok_iff`: what is accepted, what it stands for, and what
  kind of error all other tokens are. An error is one of the query unless an
  integer among the tokens is too long to be converted.
- `Query.parseTokens_refuses_replaced`: the height of a derivation can be
  greater than that of its tree. A value that a later entry of the same name
  replaces is read, but it is not in the tree.

The two directions come from `Proofs/Query/Parsing`, and the kinds of errors
from `Proofs/Query/Conversion`.
-/

set_option autoImplicit false

namespace JsonSelection

namespace Json

mutual

/-- The greatest number of arrays and objects around a place in a value. -/
def height : Json → Nat
  | arr items => heightOfItems items + 1
  | obj entries => heightOfEntries entries + 1
  | _ => 0

/-- The greatest height among some values. -/
def heightOfItems : List Json → Nat
  | [] => 0
  | item :: rest => max item.height (heightOfItems rest)

/-- The greatest height among the values of some entries. -/
def heightOfEntries : List (String × Json) → Nat
  | [] => 0
  | (_, value) :: rest => max value.height (heightOfEntries rest)

end

end Json

namespace Selection

mutual

/-- The greatest number of selection sets, arrays and objects around a place in
a selection. -/
def height : Selection → Nat
  | ⟨_, _, arguments, children⟩ => max (Json.heightOfEntries arguments) (heightOfSet children)

/-- The height of a selection set, which is zero where there is none. The
literals in its arguments count as well. -/
def heightOfSet : List Selection → Nat
  | [] => 0
  | selection :: rest => max (selection.height + 1) (heightOfSet rest)

end

end Selection

namespace Query

open Token Grammar

/-- The parser accepts the tokens of a normalized text if and only if the
grammar derives them with a height that it goes to, and it gives the tree of the
derivation. All other tokens are an error, and the error is one of the query
unless an integer among the tokens is too long to be converted. -/
theorem parseTokens_eq_ok_iff {text : String} {tokens : List Token}
    (h : tokenize (normalize text) = .ok tokens) :
    (∀ operation, parseTokens tokens = .ok operation ↔
      ∃ height, Document tokens operation height ∧ height ≤ nesting) ∧
    ((¬ ∃ operation height, Document tokens operation height ∧ height ≤ nesting) →
      ∃ error, parseTokens tokens = .error error ∧
        (error.isConversion = true → ∃ token ∈ tokens, token.IsLong)) := by
  have hlex := lexical_of_tokenize h
  have accepts : ∀ operation, parseTokens tokens = .ok operation ↔
      ∃ height, Document tokens operation height ∧ height ≤ nesting := by
    intro operation
    constructor
    · exact parseTokens_sound hlex
    · rintro ⟨height, hdocument, hheight⟩
      exact parseTokens_complete hlex hdocument hheight
  refine ⟨accepts, fun hnone => ?_⟩
  cases hparse : parseTokens tokens with
  | error error => exact ⟨error, rfl, isLong_of_parseTokens hparse⟩
  | ok operation => exact absurd ⟨operation, (accepts operation).mp hparse⟩ hnone

theorem parseTokens_eq_ok_iff_bareName :
    tokenize (normalize "id") =
        .ok [⟨.punct, "\x7b", 0⟩, ⟨.name, "id", 2⟩, ⟨.punct, "\x7d", 5⟩] ∧
      parseTokens [⟨.punct, "\x7b", 0⟩, ⟨.name, "id", 2⟩, ⟨.punct, "\x7d", 5⟩] =
        .ok ⟨.query, none, [⟨"id", none, [], []⟩]⟩ := by
  have htokens : tokenize (normalize "id") =
      .ok [⟨.punct, "\x7b", 0⟩, ⟨.name, "id", 2⟩, ⟨.punct, "\x7d", 5⟩] := rfl
  have hname : Selected ([⟨.name, "id", 2⟩] ++ []) ⟨"id", none, [], []⟩ 0 :=
    .leaf (.plain rfl) .none
  have hset : Braced Selected (⟨.punct, "\x7b", 0⟩ ::
    ([⟨.name, "id", 2⟩] ++ [⟨.punct, "\x7d", 5⟩]))
      [⟨"id", none, [], []⟩] 1 :=
    .mk ⟨rfl, rfl⟩ (.cons hname .nil) (List.cons_ne_nil _ _) ⟨rfl, rfl⟩
  exact ⟨htokens, ((parseTokens_eq_ok_iff htokens).1 _).mpr ⟨1, .bare hset, by decide⟩⟩

/-- A query with an argument in which a deep list is replaced by a number. -/
def replacedText : List Char :=
  '\x7b' :: (("a(x:\x7bk:".toList ++ (List.replicate 63 '[' ++ (List.replicate 63 ']' ++
    " k:1\x7d)".toList))) ++ ['\x7d'])

/-- The tree of a derivation can be flat although the derivation is too high for
the parser. -/
theorem parseTokens_refuses_replaced :
    ∃ tokens selections height, tokenize (normalize (String.ofList replacedText)) = .ok tokens ∧
      Document tokens ⟨.query, none, selections⟩ height ∧
      Selection.heightOfSet selections ≤ nesting ∧
      ∀ operation, parseTokens tokens ≠ .ok operation := by
  have hnormal : normalize (String.ofList replacedText) = String.ofList replacedText :=
    normalize_braced _
  have hscan : tokenize (String.ofList replacedText) = scan 0 0 replacedText := by
    rw [tokenize, String.toList_ofList]
  -- both facts are about one text, which is scanned and parsed by evaluation
  have hrefused : ((scan 0 0 replacedText).bind parseTokens).isOk = false := by
    decide +kernel
  have hread : ((scan 0 0 replacedText).bind (selectionSet (nesting + 1))).toOption.any (fun read =>
      read.2.isEmpty && decide (Selection.heightOfSet read.1 ≤ nesting)) = true := by
    decide +kernel
  rw [hnormal, hscan]
  cases htokens : scan 0 0 replacedText with
  | error error =>
      rw [htokens] at hread
      cases hread
  | ok tokens =>
      rw [htokens, Except.bind] at hrefused hread
      cases hset : selectionSet (nesting + 1) tokens with
      | error error =>
          rw [hset] at hread
          cases hread
      | ok read =>
          obtain ⟨selections, rest⟩ := read
          rw [hset] at hread
          obtain ⟨hempty, hflat⟩ := Bool.and_eq_true_iff.mp hread
          obtain rfl : rest = [] := List.isEmpty_iff.mp hempty
          -- the set of selections is read with one level more than the parser has
          obtain ⟨used, height, hused, hbraced, -⟩ := selectionSet_sound (nesting + 1)
            (lexical_of_scan htokens) hset
          rw [List.append_nil] at hused
          refine ⟨tokens, selections, height, rfl, .bare (hused ▸ hbraced),
            of_decide_eq_true hflat, ?_⟩
          intro operation hoperation
          rw [hoperation] at hrefused
          cases hrefused

end Query

end JsonSelection
