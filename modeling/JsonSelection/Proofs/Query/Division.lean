import JsonSelection.Proofs.Query.Lexemes

/-!
# The division of a text into tokens and gaps

A text is divided from its start on into gaps and tokens, each token as long as
one can be.

## What this module delivers

- `Token.Divided`: a text is divided up to some position. Every text is, up to
  its last gap or up to a place where nothing starts (`Token.exists_divided`).
- `Token.tokenize_eq_ok_iff`: the tokens of a text are those of a division that
  ends in a gap.
- `Token.tokenize_eq_error_iff`: a text has none if a division of it comes to a
  place where neither a gap nor a token starts.
- `Token.tokenize_divides`: both together, with what follows for the tokens.
  They stand in the text in order and apart from each other, each one is the
  slice of the text at its position, and all around them is gaps.

So nothing of a text is lost. The forms of tokens are those of
`Proofs/Query/Lexemes`, which do not mention the scanner.
-/

set_option autoImplicit false

namespace JsonSelection

namespace Token

/-- The position behind the last character of a token. The next token starts
there or further on. -/
def stop (token : Token) : Nat :=
  token.position + token.text.length

/-- A text, which starts at a position, is divided into gaps and tokens up to a
second position, at which a rest of it starts. -/
inductive Divided : Nat → List Char → List Token → Nat → List Char → Prop where
  | gap {start : Nat} {gap rest : List Char} : Gap gap →
      Divided start (gap ++ rest) [] (start + gap.length) rest
  | token {start finish : Nat} {gap lexeme more rest : List Char} {kind : TokenKind}
      {tokens : List Token} :
      Gap gap → Starts kind lexeme (lexeme ++ more) →
      Divided (start + gap.length + lexeme.length) more tokens finish rest →
      Divided start (gap ++ (lexeme ++ more))
        (⟨kind, String.ofList lexeme, start + gap.length⟩ :: tokens) finish rest

/-- What stands in a text before tokens, from a position on, and behind the last
of them is gaps. -/
def GapsAround (text : List Char) : Nat → List Token → Prop
  | start, [] => LastGap (text.drop start)
  | start, token :: rest =>
      Gap (text.extract start token.position) ∧ GapsAround text token.stop rest

theorem Starts.ne_nil {kind : TokenKind} {lexeme text : List Char} (h : Starts kind lexeme text) :
    lexeme ≠ [] := by
  rintro rfl
  obtain ⟨-, hform, -⟩ := h
  -- no kind of token has an empty form
  cases kind with
  | spread => cases hform
  | punct =>
      obtain ⟨c, hnil, -⟩ := hform
      cases hnil
  | number =>
      obtain ⟨c, tail, hnil, -⟩ := NumberLiteral.IsNumber.first hform
      cases hnil
  | string =>
      obtain ⟨body, hnil, -⟩ := hform
      cases hnil
  | name =>
      obtain ⟨c, tail, hnil, -⟩ := hform
      cases hnil

/-! ### Scanning gaps and tokens

The scanner goes character by character. Over a gap it comes to the character
behind it, and a token is cut off as long as it is. -/

/-- A line goes on up to the first character that ends it. -/
theorem takeWhile_line {body : List Char} (hbody : ∀ d ∈ body, isLineEnd d = false) {c : Char}
    (hc : isLineEnd c = true) (rest : List Char) :
    ((body ++ c :: rest).takeWhile fun d => !isLineEnd d) = body := by
  have hline : ∀ d ∈ body, (!isLineEnd d) = true := fun d hd => by
    rw [hbody d hd]
    rfl
  rw [List.takeWhile_append_of_pos hline, List.takeWhile_cons_of_neg (by simp [hc]),
    List.append_nil]

/-- A gap is passed over. -/
theorem scan_gap {gap : List Char} (h : Gap gap) (position : Nat) (rest : List Char) :
    scan 0 position (gap ++ rest) = scan 0 (position + gap.length) rest := by
  induction h generalizing position with
  | nil => rfl
  | ignored hc _ ih =>
      rw [List.cons_append, scan_ignored hc, ih, List.length_cons, Nat.add_right_comm,
        Nat.add_assoc]
  | @comment body others c hbody hc _ ih =>
      rw [List.cons_append, List.append_assoc, List.cons_append, scan_comment,
        takeWhile_line hbody hc,
        afterLine_of_line hbody hc, scan_ignored (isIgnored_of_isLineEnd hc), ih]
      congr 1
      simp only [List.length_cons, List.length_append]
      omega

theorem scan_lastGap {gap : List Char} (h : LastGap gap) (position : Nat) :
    scan 0 position gap = .ok [] := by
  cases h with
  | @closed gap h =>
      have hscan := scan_gap h position []
      rwa [List.append_nil, scan_nil] at hscan
  | @commented gap body h hbody =>
      rw [scan_gap h, scan_comment, afterLine_eq_nil hbody, scan_nil]

/-- The longest token at the start of a text is the first of its tokens. -/
theorem scan_starts {kind : TokenKind} {lexeme more : List Char}
    (h : Starts kind lexeme (lexeme ++ more)) (position : Nat) :
    scan 0 position (lexeme ++ more) =
      (scan 0 (position + lexeme.length) more).map fun tokens =>
        ⟨kind, String.ofList lexeme, position⟩ :: tokens := by
  cases lexeme with
  | nil => exact absurd rfl h.ne_nil
  | cons c tail =>
      rw [List.cons_append] at h ⊢
      obtain ⟨further, hlexeme, htaken⟩ := starts_iff.mp h
      -- the scanner cuts off as much as the token is long
      have htail : tail = (tail ++ more).take further := (List.cons.inj htaken).2
      have hlength : further = tail.length := by
        have hcount := congrArg List.length htail
        rw [List.length_take, Nat.min_eq_left (further_le hlexeme)] at hcount
        exact hcount.symm
      subst hlength
      rw [scan_token hlexeme, List.drop_left, List.take_left, List.length_cons, Nat.add_right_comm,
        Nat.add_assoc]

/-- The tokens of a division are the first ones of the text; the others are
those of the rest. -/
theorem Divided.scan_eq {start finish : Nat} {text rest : List Char} {tokens : List Token}
    (h : Divided start text tokens finish rest) :
    scan 0 start text = (scan 0 finish rest).map fun others => tokens ++ others := by
  induction h with
  | @gap start gap rest hgap =>
      rw [scan_gap hgap]
      cases scan 0 (start + gap.length) rest <;> rfl
  | @token start finish gap lexeme more rest kind tokens hgap hstarts _ ih =>
      rw [scan_gap hgap, scan_starts hstarts, ih]
      cases scan 0 finish rest <;> rfl

/-! ### Every text is divided

The induction is on the length of the text: a gap and a token are taken from its
front, and the rest is divided. -/

/-- A text is a gap, or a gap ends in it before its end. -/
theorem exists_gap (text : List Char) :
    LastGap text ∨ ∃ gap rest, text = gap ++ rest ∧ Gap gap ∧ ¬ Inert rest := by
  induction hlength : text.length using Nat.strongRecOn generalizing text with
  | ind length ih =>
      -- what stands before a shorter text is put before its gap
      have before : ∀ {front : List Char} (others : List Char), Gap front →
        text = front ++ others → front ≠ [] →
          LastGap text ∨ ∃ gap rest, text = gap ++ rest ∧ Gap gap ∧ ¬ Inert rest := by
        rintro front others hfront rfl hne
        have hshorter : others.length < length := by
          rw [← hlength, List.length_append]
          exact Nat.lt_add_of_pos_left (List.length_pos_iff.mpr hne)
        rcases ih _ hshorter others rfl with hlast | ⟨gap, rest, rfl, hgap, hrest⟩
        · exact Or.inl (hfront.append_last hlast)
        · exact Or.inr ⟨front ++ gap, rest, (List.append_assoc _ _ _).symm,
            hfront.append hgap, hrest⟩
      cases text with
      | nil => exact Or.inl (.closed .nil)
      | cons c rest =>
          by_cases hignored : isIgnored c = true
          · exact before rest (.ignored hignored .nil) rfl (List.cons_ne_nil _ _)
          by_cases hcomment : c = '#'
          · subst hcomment
            have hbody : ∀ d ∈ rest.takeWhile (fun d => !isLineEnd d), isLineEnd d = false :=
              fun d hd => by
              simpa using List.all_eq_true.mp List.all_takeWhile d hd
            have hsplit : rest = rest.takeWhile (fun d => !isLineEnd d) ++ afterLine rest :=
              List.takeWhile_append_dropWhile.symm
            cases hafter : afterLine rest with
            | nil =>
                rw [hafter, List.append_nil] at hsplit
                rw [hsplit]
                exact Or.inl (.commented .nil hbody)
            | cons d others =>
                have hend : isLineEnd d = true := by
                  have hhead := List.head?_dropWhile_not (fun d => !isLineEnd d) rest
                  rw [← afterLine, hafter] at hhead
                  simpa using hhead
                refine before others (.comment hbody hend .nil) ?_ (List.cons_ne_nil _ _)
                rw [hafter] at hsplit
                simpa using hsplit
          · refine Or.inr ⟨[], c :: rest, rfl, .nil, fun hinert => ?_⟩
            rcases hinert c rest rfl with h | h
            · exact hignored h
            · exact hcomment h

/-- A text is divided up to its last gap, or up to a place where nothing starts. -/
theorem exists_divided (start : Nat) (text : List Char) :
    ∃ tokens finish rest, Divided start text tokens finish rest ∧
    (LastGap rest ∨ NothingStarts rest) := by
  induction hlength : text.length using Nat.strongRecOn generalizing start text with
  | ind length ih =>
      rcases exists_gap text with hlast | ⟨gap, rest, rfl, hgap, hrest⟩
      · exact ⟨[], start, text, @Divided.gap start [] text .nil, Or.inl hlast⟩
      · by_cases hnothing : NothingStarts rest
        · exact ⟨[], start + gap.length, rest, .gap hgap, Or.inr hnothing⟩
        cases rest with
        | nil => exact absurd (fun _ _ h => nomatch h) hrest
        | cons c others =>
            cases hlexeme : lexeme? (c :: others) with
            | none => exact absurd (lexeme?_eq_none_iff.mp hlexeme) hnothing
            | some part =>
                obtain ⟨kind, further⟩ := part
                cases kind with
                | none =>
                    -- what is cut off would belong to the gap, which goes as far as it can
                    refine absurd ?_ hrest
                    intro d tail heq
                    obtain ⟨rfl, -⟩ := List.cons.inj heq
                    exact starts_of_gap hlexeme
                | some kind =>
                    have hsplit : c :: others = c :: others.take further ++
                        others.drop further := by
                      rw [List.cons_append, List.take_append_drop]
                    have hstarts : Starts kind (c :: others.take further)
                        (c :: others.take further ++ others.drop further) := by
                      rw [← hsplit]
                      exact starts_iff.mpr ⟨further, hlexeme, rfl⟩
                    have hshorter : (others.drop further).length < length := by
                      rw [← hlength, List.length_append, List.length_cons, List.length_drop]
                      omega
                    obtain ⟨tokens, finish, rest, hdivided, hend⟩ := ih _ hshorter
                      (start + gap.length + (c :: others.take further).length)
                      (others.drop further) rfl
                    rw [hsplit]
                    exact ⟨_, finish, rest, .token hgap hstarts hdivided, hend⟩

/-- Up to a last gap a division has all tokens of the text. -/
theorem Divided.scan_of_last {start finish : Nat} {text last : List Char} {tokens : List Token}
    (h : Divided start text tokens finish last) (hlast : LastGap last) :
    scan 0 start text = .ok tokens := by
  rw [h.scan_eq, scan_lastGap hlast, Except.map, List.append_nil]

/-- Where nothing starts, scanning fails at the character there. -/
theorem Divided.scan_of_nothing {start finish : Nat} {text rest : List Char} {tokens : List Token}
    (h : Divided start text tokens finish rest) (hnothing : NothingStarts rest) :
    ∃ c tail, rest = c :: tail ∧ scan 0 start text = .error (.unexpectedChar c finish) := by
  cases rest with
  | nil => exact absurd (fun _ _ heq => nomatch heq) hnothing.1
  | cons c tail =>
      refine ⟨c, tail, rfl, ?_⟩
      rw [h.scan_eq, scan_zero, lexeme?_eq_none_iff.mpr hnothing]
      rfl

/-! ### Tokens in order -/

section Order

variable {start finish : Nat} {text rest : List Char} {tokens : List Token}

theorem Divided.le_position (h : Divided start text tokens finish rest) :
    ∀ token ∈ tokens, start ≤ token.position := by
  induction h with
  | gap _ => simp
  | token _ _ _ ih =>
      intro token hmem
      rcases List.mem_cons.mp hmem with rfl | hmem
      · exact Nat.le_add_right _ _
      · have hle := ih token hmem
        omega

/-- A token of a division ends before the next one starts. -/
theorem Divided.pairwise (h : Divided start text tokens finish rest) :
    tokens.Pairwise fun first second => first.stop ≤ second.position := by
  induction h with
  | gap _ => exact .nil
  | token _ _ hdivided ih =>
      refine List.pairwise_cons.mpr ⟨fun second hmem => ?_, ih⟩
      have hle := hdivided.le_position second hmem
      simpa [stop] using hle

variable {whole : List Char}

/-- Every token of a division is the longest one at its position. -/
theorem Divided.starts (h : Divided start text tokens finish rest)
    (hwhole : whole.drop start = text) :
    ∀ token ∈ tokens, Starts token.kind token.text.toList (whole.drop token.position) := by
  induction h with
  | gap _ => simp
  | @token start finish gap lexeme more rest kind tokens _ hstarts _ ih =>
      have hlexeme : whole.drop (start + gap.length) = lexeme ++ more := by
        rw [← List.drop_drop, hwhole, List.drop_left]
      have hmore : whole.drop (start + gap.length + lexeme.length) = more := by
        rw [← List.drop_drop, hlexeme, List.drop_left]
      intro token hmem
      rcases List.mem_cons.mp hmem with rfl | hmem
      · simp only [String.toList_ofList, hlexeme]
        exact hstarts
      · exact ih hmore token hmem

/-- What a division leaves between its tokens is gaps. -/
theorem Divided.gapsAround (h : Divided start text tokens finish rest)
    (hwhole : whole.drop start = text) (hlast : LastGap rest) : GapsAround whole start tokens := by
  induction h with
  | @gap start gap rest hgap =>
      rw [GapsAround, hwhole]
      exact hgap.append_last hlast
  | @token start finish gap lexeme more rest kind tokens hgap _ _ ih =>
      have hmore : whole.drop (start + gap.length + lexeme.length) = more := by
        rw [Nat.add_assoc, ← List.drop_drop, hwhole, ← List.append_assoc,
          ← List.length_append, List.drop_left]
      refine ⟨?_, ?_⟩
      · simp only [List.extract_eq_take_drop, hwhole, Nat.add_sub_cancel_left, List.take_left]
        exact hgap
      · simp only [stop, String.length_ofList]
        exact ih hmore hlast

end Order

/-- A token at its position is the slice of the text from there to its end. -/
theorem Starts.extract_eq {token : Token} {text : List Char}
    (h : Starts token.kind token.text.toList (text.drop token.position)) :
    text.extract token.position token.stop = token.text.toList := by
  obtain ⟨⟨more, hmore⟩, -⟩ := h
  rw [List.extract_eq_take_drop, stop, Nat.add_sub_cancel_left, ← hmore, ← String.length_toList,
    List.take_left]

theorem Starts.position_lt_stop {token : Token} {text : List Char}
    (h : Starts token.kind token.text.toList text) : token.position < token.stop := by
  have hpos := List.length_pos_iff.mpr h.ne_nil
  rw [String.length_toList] at hpos
  rw [stop]
  omega

/-! ### Tokens of a text

Each text has a division to one of two ends, and the end tells whether scanning
succeeds. So each of the two equivalences needs one direction only. -/

/-- The tokens of a text are those of its division up to its last gap. -/
theorem tokenize_eq_ok_iff (text : String) (tokens : List Token) :
    tokenize text = .ok tokens ↔ ∃ finish last, Divided 0 text.toList tokens finish last ∧
    LastGap last := by
  rw [tokenize]
  constructor
  · intro htokens
    -- the division that the text has in any case tells what scanning gives
    obtain ⟨others, finish, rest, hdivided, hlast | hnothing⟩ := exists_divided 0 text.toList
    · rw [hdivided.scan_of_last hlast] at htokens
      obtain rfl := Except.ok.inj htokens
      exact ⟨finish, rest, hdivided, hlast⟩
    · obtain ⟨c, tail, -, herror⟩ := hdivided.scan_of_nothing hnothing
      rw [herror] at htokens
      cases htokens
  · rintro ⟨finish, last, hdivided, hlast⟩
    exact hdivided.scan_of_last hlast

/-- A text has no tokens if a division of it comes to a place where nothing starts. -/
theorem tokenize_eq_error_iff (text : String) (error : QueryError) :
    tokenize text = .error error ↔
      ∃ tokens finish c rest, Divided 0 text.toList tokens finish (c :: rest) ∧
      NothingStarts (c :: rest) ∧
        error = .unexpectedChar c finish := by
  rw [tokenize]
  constructor
  · intro hfails
    obtain ⟨tokens, finish, rest, hdivided, hlast | hnothing⟩ := exists_divided 0 text.toList
    · rw [hdivided.scan_of_last hlast] at hfails
      cases hfails
    · obtain ⟨c, tail, rfl, herror⟩ := hdivided.scan_of_nothing hnothing
      rw [herror] at hfails
      exact ⟨tokens, finish, c, tail, hdivided, hnothing, (Except.error.inj hfails).symm⟩
  · rintro ⟨tokens, finish, c, rest, hdivided, hnothing, rfl⟩
    obtain ⟨d, tail, heq, herror⟩ := hdivided.scan_of_nothing hnothing
    obtain ⟨rfl, -⟩ := List.cons.inj heq
    exact herror

/-- Scanning loses nothing. The tokens of a text are those of its division up to
its last gap: they stand in it in order and apart from each other, each of them
is the longest token at its position and the slice of the text there, and all
around them is gaps. Scanning fails exactly if a division of the text comes to a
place where neither a gap nor a token starts, and tells the character there. -/
theorem tokenize_divides (text : String) :
    (∀ tokens, tokenize text = .ok tokens ↔
      ∃ finish last, Divided 0 text.toList tokens finish last ∧ LastGap last) ∧
    (∀ tokens, tokenize text = .ok tokens →
      (tokens.Pairwise fun first second =>
        first.position < second.position ∧ first.stop ≤ second.position) ∧
      (∀ token ∈ tokens, text.toList.extract token.position token.stop = token.text.toList ∧
        Starts token.kind token.text.toList (text.toList.drop token.position)) ∧
      GapsAround text.toList 0 tokens) ∧
    ∀ error, tokenize text = .error error ↔
      ∃ tokens finish c rest, Divided 0 text.toList tokens finish (c :: rest) ∧
      NothingStarts (c :: rest) ∧
        error = .unexpectedChar c finish := by
  refine ⟨tokenize_eq_ok_iff text, ?_, tokenize_eq_error_iff text⟩
  intro tokens htokens
  obtain ⟨finish, last, hdivided, hlast⟩ := (tokenize_eq_ok_iff text tokens).mp htokens
  have hstarts : ∀ token ∈ tokens, Starts token.kind token.text.toList
      (text.toList.drop token.position) :=
    hdivided.starts rfl
  refine ⟨hdivided.pairwise.imp_of_mem ?_, fun token hmem =>
    ⟨(hstarts token hmem).extract_eq, hstarts token hmem⟩,
    hdivided.gapsAround rfl hlast⟩
  intro first second hfirst _ hle
  exact ⟨Nat.lt_of_lt_of_le (hstarts first hfirst).position_lt_stop hle, hle⟩

/-- A name, a comment that holds a quote, a string that holds a mark of every
kind, a number that touches the name behind it, and a comment that no line end
closes. -/
def crowded : String :=
  "a #\"\n\"\x7d,#\\\"\" -1.5e+3x # \""

theorem tokenize_divides_crowded :
    (∃ tokens, tokenize crowded = .ok tokens ∧
      tokens.map face = [(.name, "a"), (.string, "\"\x7d,#\\\"\""), (.number, "-1.5e+3"),
        (.name, "x")] ∧
      tokens.map position = [0, 5, 13, 20] ∧ GapsAround crowded.toList 0 tokens) ∧
    ∃ tokens finish c rest, Divided 0 "id \"open".toList tokens finish (c :: rest) ∧
      NothingStarts (c :: rest) ∧ c = '"' ∧ finish = 3 := by
  have htokens : tokenize crowded =
      .ok [⟨.name, "a", 0⟩, ⟨.string, "\"\x7d,#\\\"\"", 5⟩, ⟨.number, "-1.5e+3", 13⟩,
        ⟨.name, "x", 20⟩] := rfl
  have herror : tokenize "id \"open" = .error (.unexpectedChar '"' 3) := rfl
  obtain ⟨-, hloses, -⟩ := tokenize_divides crowded
  obtain ⟨-, -, hgaps⟩ := hloses _ htokens
  obtain ⟨-, -, hfails⟩ := tokenize_divides "id \"open"
  obtain ⟨tokens, finish, c, rest, hdivided, hnothing, heq⟩ := (hfails _).mp herror
  obtain ⟨hc, hfinish⟩ := QueryError.unexpectedChar.inj heq
  exact ⟨⟨_, htokens, rfl, rfl, hgaps⟩, tokens, finish, c, rest, hdivided, hnothing,
    hc.symm, hfinish.symm⟩

end Token

end JsonSelection
