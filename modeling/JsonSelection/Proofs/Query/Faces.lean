import JsonSelection.Proofs.Query.Reading

/-!
# Derivations apart from positions

The grammar looks at the kinds and the texts of tokens, their faces, and not at
their positions.

## What this module delivers

- `Query.Unplaced`: a nonterminal derives all tokens with the same faces alike.
- `Query.document_of_faces`: so do operations.
- `Query.Stands`: the faces of tokens that the parser takes for an operation.
  They settle what the tokens are parsed into (`Query.parseTokens_iff`).
- `Query.braced_append`: a selection set does not go on behind its closing
  brace.
- `Query.Stands.not_wrapped`: an operation in further braces is another
  operation or none.

The last two are what is needed to compare a text with the same text in braces.
-/

set_option autoImplicit false

namespace JsonSelection

namespace Query

open Token Grammar

variable {α : Type}

/-! ### Derivations of tokens with the same faces

The induction is on a bound of the height: what stands inside a list or a set is
less high than it. -/

/-- The first token of a list tells kind and text of the first token of a list
with the same faces. -/
theorem faces_cons {token : Token} {rest tokens : List Token}
    (h : tokens.map face = (token :: rest).map face) :
    ∃ token' rest', tokens = token' :: rest' ∧ token'.kind = token.kind ∧
    token'.text = token.text ∧
      rest'.map face = rest.map face := by
  obtain ⟨token', rest', rfl, hface, hrest⟩ := List.map_eq_cons_iff.mp h
  obtain ⟨hkind, htext⟩ := Prod.mk.inj hface
  exact ⟨token', rest', rfl, hkind, htext, hrest⟩

theorem faces_single {token : Token} {tokens : List Token}
    (h : tokens.map face = [token].map face) :
    ∃ token', tokens = [token'] ∧ token'.kind = token.kind ∧ token'.text = token.text := by
  obtain ⟨token', rest', rfl, hkind, htext, hrest⟩ := faces_cons h
  obtain rfl := List.map_eq_nil_iff.mp hrest
  exact ⟨token', rfl, hkind, htext⟩

theorem isMark_of_same {token token' : Token} {mark : String} (h : IsMark mark token)
    (hkind : token'.kind = token.kind) (htext : token'.text = token.text) : IsMark mark token' :=
  ⟨hkind.trans h.1, htext.trans h.2⟩

/-- Tokens with the faces of tokens between two marks stand between these marks
themselves. -/
theorem faces_enclosed {opening closing : Token} {inner tokens : List Token} {first last : String}
    (hopening : IsMark first opening) (hclosing : IsMark last closing)
    (h : tokens.map face = (opening :: (inner ++ [closing])).map face) :
    ∃ opening' inner' closing', tokens = opening' :: (inner' ++ [closing']) ∧
    IsMark first opening' ∧
      inner'.map face = inner.map face ∧ IsMark last closing' := by
  obtain ⟨opening', others, rfl, hkind, htext, hothers⟩ := faces_cons h
  rw [List.map_append] at hothers
  obtain ⟨inner', ending, rfl, hinner, hending⟩ := List.map_eq_append_iff.mp hothers
  obtain ⟨closing', rfl, hkind', htext'⟩ := faces_single hending
  exact ⟨opening', inner', closing', rfl, isMark_of_same hopening hkind htext, hinner,
    isMark_of_same hclosing hkind' htext'⟩

/-- A nonterminal derives all tokens with the same faces alike, up to a height.
No position has a part in a derivation. -/
def Unplaced (derives : Nonterminal α) (bound : Nat) : Prop :=
  ∀ ⦃tokens tokens' : List Token⦄ ⦃value : α⦄ ⦃height : Nat⦄,
    derives tokens value height →
    height ≤ bound → tokens'.map face = tokens.map face → derives tokens' value height

theorem star_unplaced {derives : Nonterminal α} {bound : Nat} (h : Unplaced derives bound) :
    Unplaced (Star derives) bound := by
  intro tokens tokens' values height hstar hheight hfaces
  induction hstar generalizing tokens' with
  | nil =>
      obtain rfl := List.map_eq_nil_iff.mp hfaces
      exact .nil
  | cons hvalue _ ih =>
      obtain ⟨hfirst, hothers⟩ := Nat.max_le.mp hheight
      rw [List.map_append] at hfaces
      obtain ⟨front, back, rfl, hfront, hback⟩ := List.map_eq_append_iff.mp hfaces
      exact .cons (h hvalue hfirst hfront) (ih hothers hback)

theorem entry_unplaced {derives : Nonterminal α} {bound : Nat} (h : Unplaced derives bound) :
    Unplaced (Entry derives) bound := by
  intro tokens tokens' pair height hentry hheight hfaces
  cases hentry with
  | mk hname hcolon hvalue =>
      obtain ⟨name', others, rfl, hkind, htext, hothers⟩ := faces_cons hfaces
      obtain ⟨colon', rest, rfl, hkind', htext', hrest⟩ := faces_cons hothers
      rw [← htext]
      exact .mk (hkind.trans hname) (isMark_of_same hcolon hkind' htext') (h hvalue hheight hrest)

theorem value_unplaced (bound : Nat) : Unplaced Value bound := by
  -- the items of a list or an object are less high than it is
  induction bound using Nat.strongRecOn with
  | ind bound ih =>
      intro tokens tokens' value height hvalue hheight hfaces
      cases hvalue with
      | number hkind hshort hparse =>
          obtain ⟨token', rfl, hkind', htext⟩ := faces_single hfaces
          have hshort' : ¬ token'.IsLong := by
            rwa [IsLong, hkind', htext]
          exact .number (hkind'.trans hkind) hshort' (htext ▸ hparse)
      | string hkind hparse =>
          obtain ⟨token', rfl, hkind', htext⟩ := faces_single hfaces
          exact .string (hkind'.trans hkind) (htext ▸ hparse)
      | word hkind hword =>
          obtain ⟨token', rfl, hkind', htext⟩ := faces_single hfaces
          exact .word (hkind'.trans hkind) (htext ▸ hword)
      | list hopening hitems hclosing =>
          obtain ⟨opening', inner', closing', rfl, hopen, hinner, hclose⟩ :=
            faces_enclosed hopening hclosing hfaces
          have hbelow := star_unplaced (ih _ hheight) hitems (Nat.le_refl _) hinner
          exact .list hopen hbelow hclose
      | object hopening hentries hclosing =>
          obtain ⟨opening', inner', closing', rfl, hopen, hinner, hclose⟩ :=
            faces_enclosed hopening hclosing hfaces
          have hbelow :=
            star_unplaced (entry_unplaced (ih _ hheight)) hentries (Nat.le_refl _) hinner
          exact .object hopen hbelow hclose

theorem naming_of_faces {tokens tokens' : List Token} {name : String} {aliasName : Option String}
    (h : Naming tokens name aliasName) (hfaces : tokens'.map face = tokens.map face) :
    Naming tokens' name aliasName := by
  cases h with
  | plain hname =>
      obtain ⟨name', rfl, hkind, htext⟩ := faces_single hfaces
      rw [← htext]
      exact .plain (hkind.trans hname)
  | aliased hfirst hcolon hname =>
      obtain ⟨first', others, rfl, hkindFirst, htextFirst, hothers⟩ := faces_cons hfaces
      obtain ⟨colon', rest, rfl, hkindColon, htextColon, hrest⟩ := faces_cons hothers
      obtain ⟨name', rfl, hkind, htext⟩ := faces_single hrest
      rw [← htext, ← htextFirst]
      exact .aliased (hkindFirst.trans hfirst) (isMark_of_same hcolon hkindColon htextColon)
        (hkind.trans hname)

theorem arguments_unplaced (bound : Nat) : Unplaced Arguments bound := by
  intro tokens tokens' entries height harguments hheight hfaces
  cases harguments with
  | none =>
      obtain rfl := List.map_eq_nil_iff.mp hfaces
      exact .none
  | given hopening hentries hdistinct hclosing =>
      obtain ⟨opening', inner', closing', rfl, hopen, hinner, hclose⟩ :=
        faces_enclosed hopening hclosing hfaces
      have hbelow := star_unplaced (entry_unplaced (value_unplaced _)) hentries hheight hinner
      exact .given hopen hbelow hdistinct hclose

theorem braced_unplaced {derives : Nonterminal α} {bound : Nat}
    (h : ∀ below < bound, Unplaced derives below) : Unplaced (Braced derives) bound := by
  intro tokens tokens' values height hbraced hheight hfaces
  cases hbraced with
  | mk hopening hstar hnonempty hclosing =>
      obtain ⟨opening', inner', closing', rfl, hopen, hinner, hclose⟩ :=
        faces_enclosed hopening hclosing hfaces
      have hbelow := star_unplaced (h _ hheight) hstar (Nat.le_refl _) hinner
      exact .mk hopen hbelow hnonempty hclose

theorem selected_unplaced (bound : Nat) : Unplaced Selected bound := by
  -- a selection is as high as what is below it, but the set between takes a level
  induction bound using Nat.strongRecOn with
  | ind bound ih =>
      intro tokens tokens' selection height hselected hheight hfaces
      cases hselected with
      | leaf hnaming harguments =>
          rw [List.map_append] at hfaces
          obtain ⟨name', arguments', rfl, hname, harg⟩ := List.map_eq_append_iff.mp hfaces
          exact .leaf (naming_of_faces hnaming hname)
            (arguments_unplaced _ harguments (Nat.le_refl _) harg)
      | node hnaming harguments hbraced =>
          rw [List.map_append, List.map_append] at hfaces
          obtain ⟨front, set', rfl, hfront, hset⟩ := List.map_eq_append_iff.mp hfaces
          obtain ⟨name', arguments', rfl, hname, harg⟩ := List.map_eq_append_iff.mp hfront
          obtain ⟨-, hbelow⟩ := Nat.max_le.mp hheight
          exact .node (naming_of_faces hnaming hname)
            (arguments_unplaced _ harguments (Nat.le_refl _) harg)
            (braced_unplaced ih hbraced hbelow hset)

/-- Tokens with the faces of an operation are that operation. -/
theorem document_of_faces {tokens tokens' : List Token} {operation : Operation} {height : Nat}
    (h : Document tokens operation height) (hfaces : tokens'.map face = tokens.map face) :
    Document tokens' operation height := by
  -- the grammar looks at kinds and texts, and not at positions
  have hset : ∀ {tokens tokens' : List Token} {selections : List Selection} {height : Nat},
      Braced Selected tokens selections height → tokens'.map face = tokens.map face →
      Braced Selected tokens' selections height := fun hbraced hfaces =>
    braced_unplaced (fun below _ => selected_unplaced below) hbraced (Nat.le_refl _) hfaces
  cases h with
  | bare hbraced => exact .bare (hset hbraced hfaces)
  | headed hkeyword htext hbraced =>
      obtain ⟨keyword', others, rfl, hkind, htext', hothers⟩ := faces_cons hfaces
      exact .headed (hkind.trans hkeyword) (htext'.trans htext) (hset hbraced hothers)
  | named hkeyword htext hname hbraced =>
      obtain ⟨keyword', others, rfl, hkind, htext', hothers⟩ := faces_cons hfaces
      obtain ⟨name', rest, rfl, hkindName, htextName, hrest⟩ := faces_cons hothers
      rw [← htextName]
      exact .named (hkind.trans hkeyword) (htext'.trans htext) (hkindName.trans hname)
        (hset hbraced hrest)

/-! ### What faces stand for -/

/-- The faces of tokens that the parser takes for an operation. -/
def Stands (faces : List (TokenKind × String)) (operation : Operation) : Prop :=
  ∃ tokens height, tokens.map face = faces ∧ AllLexical tokens ∧
    Document tokens operation height ∧
    height ≤ nesting

/-- The faces of tokens settle what they are parsed into. -/
theorem parseTokens_iff {tokens : List Token} (hlex : AllLexical tokens) {operation : Operation} :
    parseTokens tokens = .ok operation ↔ Stands (tokens.map face) operation := by
  constructor
  · intro h
    obtain ⟨height, hdocument, hheight⟩ := parseTokens_sound hlex h
    exact ⟨tokens, height, rfl, hlex, hdocument, hheight⟩
  · rintro ⟨tokens', height, hfaces, -, hdocument, hheight⟩
    exact parseTokens_complete hlex (document_of_faces hdocument hfaces.symm) hheight

/-! ### Braces around an operation -/

/-- A selection set ends with its closing brace. -/
theorem braced_append {tokens more : List Token} (hlex : AllLexical (tokens ++ more))
    {selections selections' : List Selection} {height height' : Nat}
    (h : Braced Selected tokens selections height)
    (h' : Braced Selected (tokens ++ more) selections' height') : more = [] := by
  have hwhole : AllLexical ((tokens ++ more) ++ []) := by
    rw [List.append_nil]
    exact hlex
  -- the parser takes the shorter set and stops, and it takes the longer one as well
  have hread := selectionSet_complete (max height height') hwhole h' (Nat.le_max_right _ _) trivial
  rw [List.append_nil,
    selectionSet_complete (max height height') hlex h (Nat.le_max_left _ _) trivial] at hread
  exact (Prod.mk.inj (Except.ok.inj hread)).2

/-- An operation that starts with a brace is a selection set. -/
theorem braced_of_document {opening : Token} {rest : List Token} {operation : Operation}
    {height : Nat} (hopening : IsMark "\x7b" opening)
    (h : Document (opening :: rest) operation height) :
    ∃ selections, operation = ⟨.query, none, selections⟩ ∧
      Braced Selected (opening :: rest) selections height := by
  have hkind : opening.kind ≠ .name := by
    rw [hopening.1]
    decide
  cases h with
  | bare hbraced => exact ⟨_, rfl, hbraced⟩
  | headed hname _ _ => exact absurd hname hkind
  | named hname _ _ _ => exact absurd hname hkind

/-- What follows the opening brace of a selection set is a name. -/
theorem braced_second {opening second : Token} {rest : List Token} {selections : List Selection}
    {height : Nat} (h : Braced Selected (opening :: second :: rest) selections height) :
    second.kind = .name := by
  generalize htokens : opening :: second :: rest = tokens at h
  cases h with
  | @mk _ closing inner _ _ _ hstar hnonempty _ =>
      obtain ⟨-, hinner⟩ := List.cons.inj htokens
      cases hstar with
      | nil => exact absurd rfl hnonempty
      | cons hselected _ =>
          obtain ⟨token, others, rfl, hkind⟩ := selected_first hselected
          obtain ⟨rfl, -⟩ := List.cons.inj hinner
          exact hkind

theorem braced_last {derives : Nonterminal α} {tokens : List Token} {values : List α}
    {height : Nat} (h : Braced derives tokens values height) : ∃ closing ∈ tokens,
    IsMark "\x7d" closing := by
  cases h with
  | mk _ _ _ hclosing => exact ⟨_, by simp, hclosing⟩

/-- No selection is its own child. -/
theorem selections_ne_child {name : String} {aliasName : Option String}
    {arguments : List (String × Json)} (selections : List Selection) :
    selections ≠ [⟨name, aliasName, arguments, selections⟩] := by
  intro h
  have hsize := congrArg sizeOf h
  simp only [List.cons.sizeOf_spec, List.nil.sizeOf_spec, Selection.mk.sizeOf_spec] at hsize
  omega

/-- An operation in braces, or behind an opening brace only, is not that operation. -/
theorem not_wrapped {opening : Token} {tokens tail : List Token} {operation : Operation}
    {height height' : Nat} (hlex : AllLexical (opening :: (tokens ++ tail)))
    (hopening : IsMark "\x7b" opening) (htail : tail = [] ∨ ∃ closing, tail = [closing] ∧
      IsMark "\x7d" closing)
    (h : Document tokens operation height) :
    ¬ Document (opening :: (tokens ++ tail)) operation height' := by
  intro hwrapped
  obtain ⟨selections, rfl, hbraced⟩ := braced_of_document hopening hwrapped
  generalize hoperation : Operation.mk .query none selections = operation at h
  cases h with
  | bare hinner =>
      -- a set does not start with another one
      obtain ⟨second, others, rfl, hmark⟩ := braced_first hinner
      have hname := braced_second hbraced
      rw [hmark.1] at hname
      cases hname
  | named _ _ _ _ => cases hoperation
  | @headed kind keyword set _ _ hkeyword _ hinner =>
      cases hoperation
      -- the keyword is read as a field, and the set as the one of that field
      have hfield : Selected (keyword :: set) ⟨keyword.text, none, [], selections⟩ _ :=
        .node (.plain hkeyword) .none hinner
      have hstar := Star.cons hfield .nil
      rw [List.append_nil] at hstar
      have hset : ∀ closing, IsMark "\x7d" closing →
          Braced Selected (opening :: (keyword :: set ++ [closing]))
            [⟨keyword.text, none, [], selections⟩] _ := fun closing hclosing =>
        .mk hopening hstar (List.cons_ne_nil _ _) hclosing
      rcases htail with rfl | ⟨closing, rfl, hclosing⟩
      · -- with one more brace the whole would be that field, so it is no set without it
        obtain ⟨closing, hmem, hclosing⟩ := braced_last hinner
        have hends := hset closing hclosing
        rw [List.append_nil] at hbraced hlex
        have hlexical : AllLexical (opening :: (keyword :: set) ++ [closing]) := by
          refine allLexical_append.mpr ⟨hlex,
            allLexical_cons.mpr ⟨?_, fun _ h => nomatch h⟩⟩
          exact hlex closing (by simp [hmem])
        cases braced_append hlexical hbraced hends
      · exact selections_ne_child _ (braced_unique hlex hbraced (hset closing hclosing))

/-- Of faces that start with a brace, some stand for an operation only if no
further ones do. -/
theorem Stands.ends {faces more : List (TokenKind × String)} {operation operation' : Operation}
    (h : Stands ((.punct, "\x7b") :: faces) operation)
    (h' : Stands ((.punct, "\x7b") :: (faces ++ more)) operation') : more = [] := by
  obtain ⟨tokens, height, hfaces, -, hdocument, -⟩ := h
  obtain ⟨whole, height', hwhole, hlex, hdocument', -⟩ := h'
  obtain ⟨opening, others, rfl, hopening, hothers⟩ := List.map_eq_cons_iff.mp hwhole
  obtain ⟨front, back, rfl, hfront, hback⟩ := List.map_eq_append_iff.mp hothers
  have hmark : IsMark "\x7b" opening := Prod.mk.inj hopening
  have hshort : Document (opening :: front) operation height := by
    refine document_of_faces hdocument ?_
    rw [hfaces, List.map_cons, hopening, hfront]
  obtain ⟨selections, -, hset⟩ := braced_of_document hmark hshort
  obtain ⟨selections', -, hset'⟩ := braced_of_document hmark hdocument'
  rw [← List.cons_append] at hlex hset'
  obtain rfl := braced_append hlex hset hset'
  exact hback.symm

/-- Faces in braces, or behind an opening brace only, do not stand for what they
stand for alone. -/
theorem Stands.not_wrapped {faces tail : List (TokenKind × String)} {operation : Operation}
    (h : Stands faces operation) (htail : tail = [] ∨ tail = [closingFace]) :
    ¬ Stands ((.punct, "\x7b") :: (faces ++ tail)) operation := by
  rintro ⟨whole, height', hwhole, hlex, hwrapped, -⟩
  obtain ⟨tokens, height, hfaces, -, hdocument, -⟩ := h
  obtain ⟨opening, others, rfl, hopening, hothers⟩ := List.map_eq_cons_iff.mp hwhole
  obtain ⟨inner, back, rfl, hinner, hback⟩ := List.map_eq_append_iff.mp hothers
  have hends : back = [] ∨ ∃ closing, back = [closing] ∧ IsMark "\x7d" closing := by
    rcases htail with rfl | rfl
    · exact Or.inl (List.map_eq_nil_iff.mp hback)
    · obtain ⟨closing, rest, rfl, hclosing, hrest⟩ := List.map_eq_cons_iff.mp hback
      obtain rfl := List.map_eq_nil_iff.mp hrest
      exact Or.inr ⟨closing, rfl, Prod.mk.inj hclosing⟩
  have halone : Document inner operation height :=
    document_of_faces hdocument (hinner.trans hfaces.symm)
  exact Query.not_wrapped hlex (Prod.mk.inj hopening) hends halone hwrapped

end Query

end JsonSelection
