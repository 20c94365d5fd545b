import JsonSelection.Proofs.Query.Gaps

/-!
# Texts that are cut into tokens

`Token.Reads` follows a text part by part and tells the faces of its tokens,
wherever the text starts, and whether the text ends in a comment.

## What this module delivers

- `Token.Reads.scans`, `Token.reads_of_scan`: a text can be followed in this way
  exactly if it has tokens, and their faces are the ones told.
- `Token.Reads.before`, `Token.Reads.behind`: a gap before a text or behind it
  changes none of the faces.
- `Token.Reads.closed`: a brace behind a text is a further token unless the text
  ends in a comment.
- `Token.Reads.of_closed`: a text that can be followed with a brace behind it
  can be followed without.

The relation leaves positions out, as the grammar does. That is what makes texts
with different gaps comparable at all.
-/

set_option autoImplicit false

namespace JsonSelection

namespace Token

/-- What follows the line that a text starts in, its end included. Nothing does
if the text has one line. -/
def afterLine (text : List Char) : List Char :=
  text.dropWhile fun c => !isLineEnd c

/-- A text that can be cut into parts up to its end: the faces of its tokens,
and whether it ends in a comment. -/
inductive Reads : List Char → List (TokenKind × String) → Bool → Prop where
  | nil : Reads [] [] false
  | ignored {c : Char} {rest : List Char} {faces : List (TokenKind × String)} {commented : Bool} :
      isIgnored c = true → Reads rest faces commented → Reads (c :: rest) faces commented
  | comment {rest : List Char} {faces : List (TokenKind × String)} {commented : Bool} :
      Reads (afterLine rest) faces commented →
      Reads ('#' :: rest) faces ((afterLine rest).isEmpty || commented)
  | token {c : Char} {rest : List Char} {kind : TokenKind} {further : Nat}
      {faces : List (TokenKind × String)} {commented : Bool} :
      lexeme? (c :: rest) = some (some kind, further) →
      Reads (rest.drop further) faces commented →
      Reads (c :: rest) ((kind, String.ofList (c :: rest.take further)) :: faces) commented

/-- Whether a text ends in a comment, so that nothing can follow in its last
line. `left` counts the characters that still belong to the part before. -/
def endsInComment (left : Nat) : List Char → Bool
  | [] => false
  | c :: rest =>
      match left with
      | left + 1 => endsInComment left rest
      | 0 =>
          match lexeme? (c :: rest) with
          | none => false
          | some (_, further) => (c == '#' && further == rest.length) || endsInComment further rest

theorem lexeme?_ignored {c : Char} (h : isIgnored c = true) (rest : List Char) :
    lexeme? (c :: rest) = some (none, (rest.takeWhile isIgnored).length) := by
  simp [lexeme?, h]

theorem lexeme?_comment (rest : List Char) :
    lexeme? ('#' :: rest) = some (none, (rest.takeWhile fun d => !isLineEnd d).length) := by
  simp [lexeme?, show isIgnored '#' = false from rfl]

section Scan

-- left open, this definition would be evaluated on unknown characters
attribute [local irreducible] lexeme?

/-- The rest of a part is passed over, as far as it goes. -/
theorem scan_further {further : Nat} {rest : List Char} (h : further ≤ rest.length)
    (position : Nat) :
    scan further position rest = scan 0 (position + further) (rest.drop further) := by
  have hskip := scan_skip position (rest.take further) (rest.drop further)
  rwa [List.take_append_drop, List.length_take, Nat.min_eq_left h] at hskip

theorem endsInComment_succ (left : Nat) (c : Char) (rest : List Char) :
    endsInComment (left + 1) (c :: rest) = endsInComment left rest := rfl

theorem endsInComment_zero (c : Char) (rest : List Char) :
    endsInComment 0 (c :: rest) =
      match lexeme? (c :: rest) with
      | none => false
      | some (_, further) =>
          (c == '#' && further == rest.length) || endsInComment further rest := rfl

theorem endsInComment_further {further : Nat} {rest : List Char} (h : further ≤ rest.length) :
    endsInComment further rest = endsInComment 0 (rest.drop further) := by
  induction rest generalizing further with
  | nil =>
      obtain rfl := Nat.le_zero.mp h
      rfl
  | cons c rest ih =>
      cases further with
      | zero => rfl
      | succ further =>
          rw [endsInComment_succ, List.drop_succ_cons]
          exact ih (Nat.le_of_succ_le_succ h)

theorem takeWhile_le (p : Char → Bool) (rest : List Char) :
    (rest.takeWhile p).length ≤ rest.length :=
  (List.takeWhile_prefix p).length_le

theorem drop_takeWhile (p : Char → Bool) (rest : List Char) :
    rest.drop (rest.takeWhile p).length = rest.dropWhile p := by
  have hsplit : (rest.takeWhile p ++ rest.dropWhile p).drop (rest.takeWhile p).length =
      rest.dropWhile p := List.drop_left
  rwa [List.takeWhile_append_dropWhile] at hsplit

/-- Characters that are left out can be passed over one by one. -/
theorem scan_ignored {c : Char} (h : isIgnored c = true) (position : Nat) (rest : List Char) :
    scan 0 position (c :: rest) = scan 0 (position + 1) rest := by
  rw [scan_zero, lexeme?_ignored h]
  cases rest with
  | nil => rfl
  | cons d tail =>
      by_cases hd : isIgnored d = true
      · simp only [List.takeWhile_cons, hd, if_true, List.length_cons, scan_succ]
        rw [scan_zero, lexeme?_ignored hd]
      · simp only [List.takeWhile_cons, hd, Bool.false_eq_true, if_false, List.length_nil]

theorem scan_comment (position : Nat) (rest : List Char) :
    scan 0 position ('#' :: rest) =
      scan 0 (position + 1 + (rest.takeWhile fun d => !isLineEnd d).length) (afterLine rest) := by
  rw [scan_zero, lexeme?_comment]
  simp only
  rw [scan_further (takeWhile_le _ rest), drop_takeWhile]
  rfl

theorem scan_token {c : Char} {rest : List Char} {kind : TokenKind} {further : Nat}
    (h : lexeme? (c :: rest) = some (some kind, further)) (position : Nat) :
    scan 0 position (c :: rest) =
      (scan 0 (position + 1 + further) (rest.drop further)).map fun tokens =>
        ⟨kind, String.ofList (c :: rest.take further), position⟩ :: tokens := by
  rw [scan_zero, h]
  simp only
  rw [scan_further (further_le h)]
  cases scan 0 (position + 1 + further) (rest.drop further) with
  | ok tokens => rfl
  | error error => rfl

/-- A text that can be cut into parts has the tokens that are told, wherever it
starts. -/
theorem Reads.scans {text : List Char} {faces : List (TokenKind × String)} {commented : Bool}
    (h : Reads text faces commented) (position : Nat) :
    ∃ tokens, scan 0 position text = .ok tokens ∧ tokens.map face = faces := by
  induction h generalizing position with
  | nil => exact ⟨[], rfl, rfl⟩
  | ignored hc _ ih =>
      rw [scan_ignored hc]
      exact ih _
  | comment _ ih =>
      rw [scan_comment]
      exact ih _
  | token hlexeme _ ih =>
      obtain ⟨tokens, htokens, hfaces⟩ := ih _
      refine ⟨_, by rw [scan_token hlexeme, htokens]; rfl, ?_⟩
      rw [List.map_cons, hfaces]
      rfl

theorem endsInComment_ignored {c : Char} (h : isIgnored c = true) (rest : List Char) :
    endsInComment 0 (c :: rest) = endsInComment 0 rest := by
  have hhash : (c == '#') = false := by
    rw [beq_eq_false_iff_ne]
    rintro rfl
    cases h
  rw [endsInComment_zero, lexeme?_ignored h]
  simp only [hhash, Bool.false_and, Bool.false_or]
  cases rest with
  | nil => rfl
  | cons d tail =>
      -- the scanner passes over such characters at once, here they are taken one by one
      by_cases hd : isIgnored d = true
      · have hother : (d == '#') = false := by
          rw [beq_eq_false_iff_ne]
          rintro rfl
          cases hd
        simp only [List.takeWhile_cons, hd, if_true, List.length_cons, endsInComment_succ]
        rw [endsInComment_zero, lexeme?_ignored hd]
        simp only [hother, Bool.false_and, Bool.false_or]
      · simp only [List.takeWhile_cons, hd, Bool.false_eq_true, if_false, List.length_nil]

theorem isEmpty_afterLine (rest : List Char) :
    ((rest.takeWhile fun d => !isLineEnd d).length == rest.length) = (afterLine rest).isEmpty := by
  have hsplit : (rest.takeWhile fun d => !isLineEnd d) ++ rest.dropWhile (fun d => !isLineEnd d) =
      rest :=
    List.takeWhile_append_dropWhile
  have hlength := congrArg List.length hsplit
  rw [List.length_append] at hlength
  rw [Bool.eq_iff_iff, beq_iff_eq, List.isEmpty_iff, ← List.length_eq_zero_iff, afterLine]
  omega

/-- The text ends in a comment as it is told. -/
theorem Reads.commented_eq {text : List Char} {faces : List (TokenKind × String)}
    {commented : Bool} (h : Reads text faces commented) : endsInComment 0 text = commented := by
  induction h with
  | nil => rfl
  | ignored hc _ ih =>
      rw [endsInComment_ignored hc]
      exact ih
  | @comment rest faces commented _ ih =>
      -- a comment reaches to the end of its line, and it is the last one if the
      -- text ends there
      rw [endsInComment_zero, lexeme?_comment]
      simp only [beq_self_eq_true, Bool.true_and, isEmpty_afterLine]
      rw [endsInComment_further (takeWhile_le _ rest), drop_takeWhile]
      exact congrArg _ ih
  | token hlexeme _ ih =>
      obtain ⟨-, hhash, -⟩ := starts_of_lexeme? hlexeme
      rw [endsInComment_zero, hlexeme]
      simp only [beq_eq_false_iff_ne.mpr hhash, Bool.false_and, Bool.false_or]
      rw [endsInComment_further (further_le hlexeme)]
      exact ih

/-- A text that has tokens can be cut into parts. -/
theorem reads_of_scan {text : List Char} {position : Nat} {tokens : List Token}
    (h : scan 0 position text = .ok tokens) : ∃ commented,
    Reads text (tokens.map face) commented := by
  -- the parts are as long as they are, so the induction is on the length of what is left
  generalize hn : text.length = n
  induction n using Nat.strongRecOn generalizing text position tokens with
  | ind n ih =>
      cases text with
      | nil =>
          obtain rfl := Except.ok.inj h
          exact ⟨false, .nil⟩
      | cons c rest =>
          have hrest : rest.length < n := by
            rw [← hn]
            exact Nat.lt_succ_self _
          by_cases hc : isIgnored c = true
          · rw [scan_ignored hc] at h
            obtain ⟨commented, hreads⟩ := ih _ hrest h rfl
            exact ⟨commented, .ignored hc hreads⟩
          · by_cases hhash : c = '#'
            · subst hhash
              rw [scan_comment] at h
              have hshort : (afterLine rest).length < n :=
                Nat.lt_of_le_of_lt (List.dropWhile_suffix _).length_le hrest
              obtain ⟨commented, hreads⟩ := ih _ hshort h rfl
              exact ⟨_, .comment hreads⟩
            · cases hlexeme : lexeme? (c :: rest) with
              | none =>
                  rw [scan_zero, hlexeme] at h
                  cases h
              | some part =>
                  obtain ⟨kind, further⟩ := part
                  cases kind with
                  | none => exact absurd (starts_of_gap hlexeme) (by simp [hc, hhash])
                  | some kind =>
                      rw [scan_token hlexeme] at h
                      obtain ⟨others, hothers, rfl⟩ := Outcome.map_eq_ok_iff.mp h
                      have hshort : (rest.drop further).length < n :=
                        Nat.lt_of_le_of_lt (List.drop_suffix _ _).length_le hrest
                      obtain ⟨commented, hreads⟩ := ih _ hshort hothers rfl
                      exact ⟨commented, .token hlexeme hreads⟩

/-! ### Gaps around a text

A comment at the end of a text swallows what follows it up to the end of the
line, so what is put behind it counts from its next line on (`Token.afterLine`). -/

theorem afterLine_append (front back : List Char) :
    afterLine (front ++ back) =
      if (afterLine front).isEmpty then afterLine back else afterLine front ++ back :=
  List.dropWhile_append

theorem afterLine_eq_nil {body : List Char} (h : ∀ c ∈ body, isLineEnd c = false) :
    afterLine body = [] := by
  have hskip : afterLine (body ++ []) = afterLine [] :=
    List.dropWhile_append_of_pos fun c hc => by rw [h c hc]; rfl
  rwa [List.append_nil] at hskip

theorem afterLine_of_line {body : List Char} (h : ∀ c ∈ body, isLineEnd c = false) {c : Char}
    (hc : isLineEnd c = true) (rest : List Char) : afterLine (body ++ c :: rest) = c :: rest := by
  rw [afterLine_append, afterLine_eq_nil h, List.isEmpty_nil, if_pos rfl, afterLine,
    List.dropWhile_cons_of_neg (by simp [hc])]

theorem afterLine_comment {body : List Char} (h : ∀ c ∈ body, isLineEnd c = false) :
    afterLine ('#' :: body) = [] := by
  apply afterLine_eq_nil
  intro c hc
  rcases List.mem_cons.mp hc with rfl | hc
  · rfl
  · exact h c hc

/-- A gap before a text changes none of its parts. -/
theorem Reads.before {gap text : List Char} (hgap : Gap gap) {faces : List (TokenKind × String)}
    {commented : Bool} (h : Reads text faces commented) : Reads (gap ++ text) faces commented := by
  induction hgap with
  | nil => exact h
  | ignored hc _ ih => exact .ignored hc ih
  | @comment body rest c hbody hc _ ih =>
      have hline := afterLine_of_line hbody hc (rest ++ text)
      have hreads := Reads.comment (hline ▸ Reads.ignored (isIgnored_of_isLineEnd hc) ih)
      rw [hline, List.isEmpty_cons, Bool.false_or] at hreads
      simpa using hreads

theorem LastGap.reads {gap : List Char} (h : LastGap gap) : ∃ commented,
    Reads gap [] commented := by
  cases h with
  | closed h =>
      have hreads := Reads.before h .nil
      rw [List.append_nil] at hreads
      exact ⟨false, hreads⟩
  | commented h hbody =>
      have hline := Reads.nil
      rw [← afterLine_eq_nil hbody] at hline
      exact ⟨_, Reads.before h (.comment hline)⟩

/-- The lines after the first one of a gap are a gap. -/
theorem LastGap.afterLine {gap : List Char} (h : LastGap gap) : LastGap (afterLine gap) := by
  -- a line of a gap ends in a character that is ignored or with a comment
  have hgap : ∀ {gap}, Gap gap → Gap (Token.afterLine gap) := by
    intro gap h
    induction h with
    | nil => exact .nil
    | @ignored c rest hc hrest ih =>
        cases hend : isLineEnd c with
        | true =>
            rw [Token.afterLine, List.dropWhile_cons_of_neg (by simp [hend])]
            exact .ignored hc hrest
        | false =>
            rw [Token.afterLine, List.dropWhile_cons_of_pos (by simp [hend])]
            exact ih
    | @comment body rest c hbody hc hrest _ =>
        have hline : Token.afterLine ('#' :: (body ++ c :: rest)) = c :: rest := by
          have hall : ∀ d ∈ '#' :: body, isLineEnd d = false := by
            intro d hd
            rcases List.mem_cons.mp hd with rfl | hd
            · rfl
            · exact hbody d hd
          exact afterLine_of_line hall hc rest
        rw [hline]
        exact .ignored (isIgnored_of_isLineEnd hc) hrest
  cases h with
  | closed h => exact .closed (hgap h)
  | commented h hbody =>
      rw [afterLine_append, afterLine_comment hbody]
      split
      · exact .closed .nil
      · exact .commented (hgap h) hbody

theorem faces_of_nil {faces : List (TokenKind × String)} {commented : Bool}
    (h : Reads [] faces commented) : faces = [] := by
  cases h
  rfl

/-- A gap behind a text adds no token. -/
theorem Reads.behind {text gap : List Char} {faces : List (TokenKind × String)} {commented : Bool}
    (h : Reads text faces commented) (hgap : LastGap gap) :
    ∃ commented', Reads (text ++ gap) faces commented' := by
  induction h with
  | nil => exact hgap.reads
  | ignored hc _ ih =>
      obtain ⟨commented', hreads⟩ := ih
      exact ⟨commented', .ignored hc hreads⟩
  | @comment rest faces commented hrest ih =>
      -- a comment at the end of the text takes the first line of the gap along
      have hline : ∃ commented', Reads (Token.afterLine (rest ++ gap)) faces commented' := by
        rw [afterLine_append]
        split
        · next hempty =>
            rw [List.isEmpty_iff.mp hempty] at hrest
            rw [faces_of_nil hrest]
            exact hgap.afterLine.reads
        · exact ih
      obtain ⟨commented', hreads⟩ := hline
      exact ⟨_, .comment hreads⟩
  | @token c rest kind further faces commented hlexeme _ ih =>
      obtain ⟨commented', hreads⟩ := ih
      have hle := further_le hlexeme
      rw [← List.drop_append_of_le_length hle] at hreads
      have htoken := Reads.token (lexeme?_before_gap hgap.inert hlexeme) hreads
      rw [List.take_append_of_le_length hle] at htoken
      exact ⟨commented', htoken⟩

/-- The end of a text that is put in braces. -/
def closing : List Char := [' ', '\x7d']

/-- The closing brace apart from its position. -/
def closingFace : TokenKind × String := (.punct, "\x7d")

theorem inert_closing : Inert closing := by
  intro c rest heq
  obtain ⟨rfl, -⟩ := List.cons.inj heq
  exact Or.inl rfl

theorem reads_closing : Reads closing [closingFace] false := by
  have hmark : lexeme? ['\x7d'] = some (some .punct, 0) := lexeme?_mark (Or.inr rfl) []
  exact .ignored rfl (.token hmark .nil)

theorem afterLine_closing (text : List Char) :
    afterLine (text ++ closing) = if (afterLine text).isEmpty then []
      else afterLine text ++ closing := by
  rw [afterLine_append]
  rfl

/-- A brace behind a text is a further token, unless the text ends in a comment. -/
theorem Reads.closed {text : List Char} {faces : List (TokenKind × String)} {commented : Bool}
    (h : Reads text faces commented) :
    Reads (text ++ closing) (faces ++ if commented then [] else [closingFace]) commented := by
  induction h with
  | nil => exact reads_closing
  | ignored hc _ ih => exact .ignored hc ih
  | @comment rest faces commented hrest ih =>
      -- a comment up to the end of the text takes the brace along
      have hcomment := afterLine_closing rest
      by_cases hempty : afterLine rest = []
      · rw [hempty] at hrest
        cases hrest
        rw [hempty, List.isEmpty_nil, if_pos rfl] at hcomment
        have hline := Reads.nil
        rw [← hcomment] at hline
        have hreads := Reads.comment hline
        rw [hcomment] at hreads
        simpa [hempty] using hreads
      · have hfilled : (afterLine rest).isEmpty = false := by simpa using hempty
        rw [hfilled, if_neg Bool.false_ne_true] at hcomment
        rw [← hcomment] at ih
        have hreads := Reads.comment ih
        have hlines : (afterLine (rest ++ closing)).isEmpty = false := by
          rw [hcomment]
          simp [closing]
        rw [hlines, Bool.false_or] at hreads
        rw [hfilled, Bool.false_or]
        exact hreads
  | @token c rest kind further faces commented hlexeme _ ih =>
      have hle := further_le hlexeme
      rw [← List.drop_append_of_le_length hle] at ih
      have htoken := Reads.token (lexeme?_before_gap inert_closing hlexeme) ih
      rwa [List.take_append_of_le_length hle] at htoken

/-- What can be cut into parts with a brace behind it can be cut without. -/
theorem Reads.of_closed {text : List Char} {faces : List (TokenKind × String)} {commented : Bool}
    (h : Reads (text ++ closing) faces commented) : ∃ faces' commented',
    Reads text faces' commented' := by
  generalize hwhole : text ++ closing = whole at h
  induction h generalizing text with
  | nil => simp [closing] at hwhole
  | @ignored c rest faces commented hc _ ih =>
      cases text with
      | nil => exact ⟨[], false, .nil⟩
      | cons d tail =>
          obtain ⟨rfl, hrest⟩ := List.cons.inj hwhole
          obtain ⟨faces', commented', hreads⟩ := ih hrest
          exact ⟨faces', commented', .ignored hc hreads⟩
  | @comment rest faces commented _ ih =>
      cases text with
      | nil => simp [closing] at hwhole
      | cons d tail =>
          rw [List.cons_append] at hwhole
          obtain ⟨rfl, rfl⟩ := List.cons.inj hwhole
          have hline := afterLine_closing tail
          by_cases hempty : afterLine tail = []
          · have hnil := Reads.nil
            rw [← hempty] at hnil
            exact ⟨_, _, .comment hnil⟩
          · have hfilled : (afterLine tail).isEmpty = false := by simpa using hempty
            rw [hfilled, if_neg Bool.false_ne_true] at hline
            obtain ⟨faces', commented', hreads⟩ := ih hline.symm
            exact ⟨_, _, .comment hreads⟩
  | @token c rest kind further faces commented hlexeme _ ih =>
      cases text with
      | nil =>
          obtain ⟨rfl, -⟩ := List.cons.inj hwhole
          exact absurd (starts_of_lexeme? hlexeme).1 (by decide)
      | cons d tail =>
          rw [List.cons_append] at hwhole
          obtain ⟨rfl, rfl⟩ := List.cons.inj hwhole
          obtain ⟨hignored, hcomment, -⟩ := starts_of_lexeme? hlexeme
          -- the brace is no quote, so it closes no string
          have hstring : stringLength? (tail ++ closing) = stringLength? tail := by
            cases hlength : stringLength? tail with
            | some length => exact stringLength?_append_of_some hlength closing
            | none =>
                refine stringLength?_append_of_none hlength rfl ?_
                intro e others heq
                obtain ⟨-, rfl⟩ := List.cons.inj heq
                rfl
          rw [lexeme?_append inert_closing hignored hcomment fun _ => hstring] at hlexeme
          have hle := further_le hlexeme
          obtain ⟨faces', commented', hreads⟩ := ih (List.drop_append_of_le_length hle).symm
          exact ⟨_, _, .token hlexeme hreads⟩

end Scan

end Token

end JsonSelection
