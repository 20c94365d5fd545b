import JsonSelection.Proofs.Query.Faces

/-!
# Gaps around a query

A query that starts with a brace or a definition word stands alone; any other
text is put in braces. Which of the two it is is seen from the text as it
starts, gaps included, so an operation behind a gap that is not blank is read as
a selection. A text that is put in braces loses the closing one to a comment at
its end.

## What this module delivers

- `Text.trim_surrounded`: what trimming leaves of gaps around a text.
- `Query.standsAlone_surrounded`: a text stands alone behind a gap if it does so
  anyway and nothing of the gap is left.
- `Query.parse_iff`: what a trimmed text is parsed into, from the faces of its
  own tokens.
- `Query.parse_surrounded_iff`: which gaps around a query leave it what it is.

The gaps are all those of `Proofs/Query/Gaps`, and the queries are all texts
that are parsed. The example at the end is a bare name with a comment behind it.
-/

set_option autoImplicit false

namespace JsonSelection

namespace Text

/-! ### Trimming -/

/-- A text without the blanks at its end. -/
def trimEnd (cs : List Char) : List Char :=
  (cs.reverse.dropWhile isBlank).reverse

theorem trim_eq (cs : List Char) : trim cs = trimEnd (cs.dropWhile isBlank) := rfl

theorem trimEnd_split (cs : List Char) :
    ∃ back, cs = trimEnd cs ++ back ∧ ∀ c ∈ back, isBlank c = true := by
  refine ⟨(cs.reverse.takeWhile isBlank).reverse, ?_, ?_⟩
  · rw [trimEnd, ← List.reverse_append, List.takeWhile_append_dropWhile, List.reverse_reverse]
  · intro c hc
    exact List.all_eq_true.mp List.all_takeWhile c (List.mem_reverse.mp hc)

/-- A text is blank if nothing is left of it. -/
theorem dropWhile_eq_nil_iff (cs : List Char) :
    cs.dropWhile isBlank = [] ↔ ∀ c ∈ cs, isBlank c = true := by
  constructor
  · intro h
    have hall := List.takeWhile_append_dropWhile (p := isBlank) (l := cs)
    rw [h, List.append_nil] at hall
    rw [← hall]
    exact List.all_eq_true.mp List.all_takeWhile
  · intro h
    have hskip : (cs ++ []).dropWhile isBlank = [].dropWhile isBlank :=
      List.dropWhile_append_of_pos h
    rwa [List.append_nil] at hskip

theorem isBlank_of_dropWhile {cs rest : List Char} {c : Char}
    (h : cs.dropWhile isBlank = c :: rest) :
    isBlank c = false := by
  have hne : cs.dropWhile isBlank ≠ [] := by
    rw [h]
    exact List.cons_ne_nil c rest
  have hhead := List.head_dropWhile_not isBlank hne
  simpa only [h, List.head_cons] using hhead

/-- Blanks are dropped up to a text that does not start with one. -/
theorem dropWhile_before {middle : List Char} (hne : middle ≠ [])
    (hfirst : ∀ c rest, middle = c :: rest → isBlank c = false) (front back : List Char) :
    (front ++ (middle ++ back)).dropWhile isBlank = front.dropWhile isBlank ++
      (middle ++ back) := by
  rw [List.dropWhile_append]
  split
  · next hempty =>
      rw [List.isEmpty_iff.mp hempty, List.nil_append]
      cases middle with
      | nil => exact absurd rfl hne
      | cons c rest => exact List.dropWhile_cons_of_neg (by simp [hfirst c rest rfl])
  · rfl

/-- Text around a text that is not blank does not reach into it when the whole
is trimmed. -/
theorem trim_surrounded {text : List Char} (h : trim text ≠ []) (before after : List Char) :
    ∃ front back, (∀ c ∈ front, isBlank c = true) ∧ (∀ c ∈ back, isBlank c = true) ∧
      trim (before ++ text ++ after) =
        (before ++ front).dropWhile isBlank ++ (trim text ++ trimEnd (back ++ after)) := by
  obtain ⟨back, hback, hblank⟩ := trimEnd_split (text.dropWhile isBlank)
  rw [← trim_eq] at hback
  have hsplit : text = text.takeWhile isBlank ++ (trim text ++ back) := by
    rw [← hback, List.takeWhile_append_dropWhile]
  -- a trimmed text neither starts nor ends with a blank
  have hfirst : ∀ c rest, trim text = c :: rest → isBlank c = false := by
    intro c rest heq
    rw [heq] at hback
    exact isBlank_of_dropWhile hback
  have hlast : ∀ c rest, (trim text).reverse = c :: rest → isBlank c = false := by
    intro c rest heq
    rw [trim, List.reverse_reverse] at heq
    exact isBlank_of_dropWhile heq
  refine ⟨text.takeWhile isBlank, back, List.all_eq_true.mp List.all_takeWhile, hblank, ?_⟩
  have hwhole : before ++ text ++ after =
      (before ++ text.takeWhile isBlank) ++ (trim text ++ (back ++ after)) := by
    conv => lhs; rw [hsplit]
    simp only [List.append_assoc]
  rw [hwhole, trim_eq, dropWhile_before h hfirst, trimEnd, List.reverse_append, List.reverse_append,
    List.append_assoc, dropWhile_before (List.reverse_ne_nil_iff.mpr h) hlast]
  simp only [trimEnd, List.reverse_append, List.reverse_reverse, List.append_assoc]

end Text

namespace Token

theorem LastGap.trimEnd {gap : List Char} (h : LastGap gap) : LastGap (Text.trimEnd gap) := by
  obtain ⟨back, hback, -⟩ := Text.trimEnd_split gap
  rw [hback] at h
  exact h.start

end Token

namespace Query

open Token Grammar

/-! ### Texts that stand alone

A definition word ends where no word character follows. No character of a gap is
a word character, which for those beyond ASCII is read off the two tables. -/

/-- Whether a text is a query without braces around it. It begins with a brace
of its own or with a definition word then. -/
def standsAlone (cs : List Char) : Bool :=
  definitionWords.any (startsWithWord · cs) || cs.head? == some '\x7b'

/-- The text of a query in braces. -/
def inBraces (cs : List Char) : List Char :=
  '\x7b' :: ' ' :: (cs ++ closing)

theorem toList_normalize (text : String) :
    (normalize text).toList =
      if standsAlone (Text.trim text.toList) then Text.trim text.toList
      else inBraces (Text.trim text.toList) := by
  have hnormal : normalize text =
      if standsAlone (Text.trim text.toList) then String.ofList (Text.trim text.toList)
      else "\x7b " ++ String.ofList (Text.trim text.toList) ++ " \x7d" := rfl
  rw [hnormal]
  split
  · exact String.toList_ofList
  · simp [inBraces, closing]

/-- The code points from U+0080 on that stand between tokens, as ranges. -/
def gapRanges : List (Nat × Nat) :=
  [(0x85, 0x85), (0xA0, 0xA0), (0x1680, 0x1680), (0x2000, 0x200A), (0x2028, 0x2029),
    (0x202F, 0x202F),
    (0x205F, 0x205F), (0x3000, 0x3000), (0xFEFF, 0xFEFF)]

theorem mem_gapRanges {c : Char} (h : isIgnored c = true) (hbeyond : 0x80 ≤ c.toNat) :
    ∃ range ∈ gapRanges, range.1 ≤ c.toNat ∧ c.toNat ≤ range.2 := by
  simp only [isIgnored, Text.isBlank, Bool.or_eq_true, Bool.and_eq_true, decide_eq_true_eq,
    beq_iff_eq] at h
  simp only [gapRanges, List.mem_cons, List.not_mem_nil, or_false, exists_eq_or_imp, exists_eq_left]
  rcases h with (h | rfl) | rfl
  · omega
  · exact absurd hbeyond (by decide)
  · decide

/-- No word goes on in a gap. -/
theorem isWord_of_inert {c : Char} (h : isIgnored c = true ∨ c = '#') :
    Text.isWord c = false := by
  -- walked as a list: to index the array again for each range would be slow
  have hapart : (Text.wordRanges.toList.all fun word =>
      gapRanges.all fun gap => word.2 < gap.1 || gap.2 < word.1) = true := by
    decide +kernel
  rw [Text.isWord]
  split
  · exact (not_char_of_inert h).1
  · next hbeyond =>
      rcases h with h | rfl
      · obtain ⟨gap, hgap, hstart, hend⟩ := mem_gapRanges h (Nat.le_of_not_lt hbeyond)
        rw [Text.inRanges, ← Array.any_toList, List.any_eq_false]
        intro word hword hin
        have hdisjoint := List.all_eq_true.mp (List.all_eq_true.mp hapart word hword) gap hgap
        simp only [Bool.or_eq_true, Bool.and_eq_true, decide_eq_true_eq] at hdisjoint hin
        omega
      · exact absurd (by decide) hbeyond

theorem startsWithWord_append {word : String} (hword : ∀ c ∈ word.toList, isNameChar c = true)
    {gap : List Char} (h : Inert gap) (cs : List Char) :
    startsWithWord word (cs ++ gap) = startsWithWord word cs := by
  rw [startsWithWord, startsWithWord, ← String.length_toList]
  generalize word.toList = letters at hword
  -- either the text has the next letter, or the gap would have to go on with it
  induction letters generalizing cs with
  | nil =>
      cases cs with
      | nil =>
          cases gap with
          | nil => rfl
          | cons c rest => simp [isWord_of_inert (h c rest rfl)]
      | cons c rest => rfl
  | cons letter letters ih =>
      cases cs with
      | nil =>
          cases gap with
          | nil => rfl
          | cons c rest =>
              have hother : (letter == c) = false := by
                rw [beq_eq_false_iff_ne]
                rintro rfl
                have hname := hword letter List.mem_cons_self
                rw [(not_char_of_inert (h letter rest rfl)).1] at hname
                cases hname
              simp [List.isPrefixOf, hother]
      | cons c rest =>
          have hrest := ih rest fun d hd => hword d (List.mem_cons_of_mem letter hd)
          simp only [List.cons_append, List.isPrefixOf, List.length_cons, List.drop_succ_cons,
            Bool.and_assoc, hrest]

/-- A gap behind a text does not change whether it stands alone. -/
theorem standsAlone_append {gap : List Char} (h : Inert gap) (cs : List Char) :
    standsAlone (cs ++ gap) = standsAlone cs := by
  have hall : (definitionWords.all fun word => word.toList.all isNameChar) = true := by
    decide +kernel
  have hletters : ∀ word ∈ definitionWords, ∀ c ∈ word.toList, isNameChar c = true :=
    fun word hword =>
    List.all_eq_true.mp (List.all_eq_true.mp hall word hword)
  have hwords : ∀ words : List String,
    (∀ word ∈ words, ∀ c ∈ word.toList, isNameChar c = true) →
      words.any (startsWithWord · (cs ++ gap)) = words.any (startsWithWord · cs) := by
    intro words hwords
    rw [Bool.eq_iff_iff, List.any_eq_true, List.any_eq_true]
    refine exists_congr fun word => and_congr_right fun hword => ?_
    rw [startsWithWord_append (hwords word hword) h]
  -- a gap does not start with a brace, so one that stands first is of the text
  have hbrace : ((cs ++ gap).head? == some '\x7b') = (cs.head? == some '\x7b') := by
    cases cs with
    | cons c rest => rfl
    | nil =>
        cases gap with
        | nil => rfl
        | cons c rest =>
            rw [Bool.eq_iff_iff]
            simp only [List.nil_append, List.head?_cons, List.head?_nil, beq_iff_eq,
              Option.some.injEq,
              reduceCtorEq, iff_false]
            rintro rfl
            exact absurd (h '\x7b' rest rfl) (by decide)
  rw [standsAlone, standsAlone, hwords definitionWords hletters, hbrace]

/-- A gap that is not empty keeps what follows it from standing alone. -/
theorem standsAlone_of_gap {gap : List Char} (h : Inert gap) (hne : gap ≠ []) (rest : List Char) :
    standsAlone (gap ++ rest) = false := by
  have hinert : Inert (gap ++ rest) := by
    cases gap with
    | nil => exact absurd rfl hne
    | cons c others =>
        intro d more heq
        obtain ⟨rfl, -⟩ := List.cons.inj heq
        exact h c others rfl
  exact (standsAlone_append hinert []).trans rfl

/-! ### Texts in braces -/

/-- The faces of the tokens of a query in braces, the closing one of which a
comment may hide. -/
def facesInBraces (faces : List (TokenKind × String)) (commented : Bool) :
    List (TokenKind × String) :=
  (.punct, "\x7b") :: (faces ++ if commented then [] else [closingFace])

theorem reads_inBraces {cs : List Char} {faces : List (TokenKind × String)} {commented : Bool}
    (h : Reads cs faces commented) : Reads (inBraces cs)
    (facesInBraces faces commented) commented :=
  .token (lexeme?_mark (Or.inl rfl) _) (.ignored rfl h.closed)

theorem reads_of_inBraces {cs : List Char} {faces : List (TokenKind × String)} {commented : Bool}
    (h : Reads (inBraces cs) faces commented) : ∃ faces' commented',
    Reads cs faces' commented' := by
  have hblank : ∀ {faces commented}, Reads (' ' :: (cs ++ closing)) faces commented →
      ∃ faces' commented', Reads cs faces' commented' := by
    intro faces commented h
    cases h with
    | ignored _ h => exact h.of_closed
    | token hlexeme _ => exact absurd (starts_of_lexeme? hlexeme).1 (by decide)
  cases h with
  | ignored hc _ => cases hc
  | token hlexeme h =>
      rw [lexeme?_mark (Or.inl rfl)] at hlexeme
      obtain ⟨-, rfl⟩ := Prod.mk.inj (Option.some.inj hlexeme)
      exact hblank h

/-- A text is parsed into what the faces of its tokens stand for. -/
theorem parse_iff_stands {text : String} {faces : List (TokenKind × String)} {commented : Bool}
    (h : Reads (normalize text).toList faces commented) {operation : Operation} :
    parse text = .ok operation ↔ Stands faces operation := by
  obtain ⟨tokens, hscan, hfaces⟩ := h.scans 0
  have hparse : parse text = parseTokens tokens := by
    rw [parse, tokenize, hscan]
    rfl
  rw [hparse, parseTokens_iff (lexical_of_scan hscan), hfaces]

/-- What a trimmed text is parsed into, from the faces of its own tokens. -/
theorem parse_iff {text : String} {faces : List (TokenKind × String)} {commented : Bool}
    (h : Reads (Text.trim text.toList) faces commented) {operation : Operation} :
    parse text = .ok operation ↔
      Stands (if standsAlone (Text.trim text.toList) then faces else facesInBraces faces commented)
        operation := by
  have hnormal : Reads (normalize text).toList
      (if standsAlone (Text.trim text.toList) then faces else facesInBraces faces commented)
        commented := by
    rw [toList_normalize]
    split
    · exact h
    · exact reads_inBraces h
  exact parse_iff_stands hnormal

/-- A text that is parsed has tokens without its braces. -/
theorem reads_of_parse {text : String} {operation : Operation} (h : parse text = .ok operation) :
    ∃ faces commented, Reads (Text.trim text.toList) faces commented := by
  obtain ⟨tokens, htokens, -⟩ := Outcome.bind_eq_ok_iff.mp h
  obtain ⟨commented, hreads⟩ := reads_of_scan htokens
  rw [toList_normalize] at hreads
  cases halone : standsAlone (Text.trim text.toList) with
  | true =>
      rw [halone, if_pos rfl] at hreads
      exact ⟨_, _, hreads⟩
  | false =>
      rw [halone, if_neg Bool.false_ne_true] at hreads
      exact reads_of_inBraces hreads

/-- A blank text is no query. -/
theorem trim_ne_nil_of_parse {text : String} {operation : Operation}
    (h : parse text = .ok operation) :
    Text.trim text.toList ≠ [] := by
  intro hnil
  have hreads : Reads (Text.trim text.toList) [] false := by
    rw [hnil]
    exact .nil
  have hstands := (parse_iff hreads).mp h
  rw [hnil] at hstands
  obtain ⟨tokens, height, hfaces, -, hdocument, -⟩ := hstands
  obtain ⟨opening, others, rfl, hopening, hothers⟩ := List.map_eq_cons_iff.mp hfaces
  obtain ⟨second, rest, rfl, hclosing, -⟩ := List.map_eq_cons_iff.mp hothers
  obtain ⟨_, -, hbraced⟩ := braced_of_document (Prod.mk.inj hopening) hdocument
  have hkind := (Prod.mk.inj hclosing).1
  rw [braced_second hbraced] at hkind
  cases hkind

/-- A query in braces needs the closing one if it has it, and has no use for it
otherwise. -/
theorem stands_inBraces_iff {faces : List (TokenKind × String)} {commented commented' : Bool}
    {operation : Operation} (h : Stands (facesInBraces faces commented) operation) :
    Stands (facesInBraces faces commented') operation ↔ commented' = commented := by
  have hends : Stands (facesInBraces faces true) operation →
      ¬ Stands (facesInBraces faces false) operation := by
    intro hopen hclosed
    simp only [facesInBraces, if_true, List.append_nil] at hopen
    cases hopen.ends hclosed
  constructor
  · intro h'
    cases commented <;> cases commented'
    · rfl
    · exact absurd h (hends h')
    · exact absurd h' (hends h)
    · rfl
  · rintro rfl
    exact h

/-! ### Gaps around a query -/

/-- A text stands alone behind a gap if it does so anyway and the gap is empty. -/
theorem standsAlone_surrounded {front back : List Char} (hfront : Inert front) (hback : Inert back)
    (cs : List Char) : standsAlone (front ++ (cs ++ back)) = (standsAlone cs && front.isEmpty) := by
  cases front with
  | nil => rw [List.nil_append, standsAlone_append hback, List.isEmpty_nil, Bool.and_true]
  | cons c rest =>
      rw [standsAlone_of_gap hfront (List.cons_ne_nil c rest), List.isEmpty_cons, Bool.and_false]

/-- Gaps around a query change it by what they do to its braces. A query that
stands alone stays what it is behind blanks and behind nothing else; one that is
put in braces stays what it is if the text ends in a comment now where it did
before, and ends in none where it did not. -/
theorem parse_surrounded_iff {before text after : String} {operation : Operation}
    (h : parse text = .ok operation) (hbefore : Gap before.toList) (hafter : LastGap after.toList) :
    parse (before ++ text ++ after) = .ok operation ↔
      if standsAlone (Text.trim text.toList) then ∀ c ∈ before.toList, Text.isBlank c = true
      else endsInComment 0 (Text.trim (before ++ text ++ after).toList) =
        endsInComment 0 (Text.trim text.toList) := by
  obtain ⟨faces, commented, hreads⟩ := reads_of_parse h
  have hstands := (parse_iff hreads).mp h
  obtain ⟨front, back, hfront, hback, htrim⟩ :=
    Text.trim_surrounded (trim_ne_nil_of_parse h) before.toList after.toList
  rw [← String.toList_append, ← String.toList_append] at htrim
  -- the gaps grow by the blanks of the text itself, and lose the blanks at their outer ends
  have hgap : Gap ((before.toList ++ front).dropWhile Text.isBlank) :=
    (hbefore.append (gap_of_blank hfront)).dropBlanks
  have hlast : LastGap (Text.trimEnd (back ++ after.toList)) :=
    ((gap_of_blank hback).append_last hafter).trimEnd
  obtain ⟨commented', hbehind⟩ := hreads.behind hlast
  have hwhole := hbehind.before hgap
  rw [← htrim] at hwhole
  have halone := standsAlone_surrounded (LastGap.closed hgap).inert hlast.inert
    (Text.trim text.toList)
  rw [← htrim] at halone
  rw [parse_iff hwhole, halone, hwhole.commented_eq, hreads.commented_eq]
  cases hcore : standsAlone (Text.trim text.toList) with
  | true =>
      rw [hcore, if_pos rfl] at hstands
      have hblank : ((before.toList ++ front).dropWhile Text.isBlank).isEmpty = true ↔
          ∀ c ∈ before.toList, Text.isBlank c = true := by
        rw [List.isEmpty_iff, Text.dropWhile_eq_nil_iff, List.forall_mem_append]
        exact and_iff_left hfront
      -- behind a gap the text is put in braces, where it is another query or none
      rw [if_pos rfl, Bool.true_and, ← hblank]
      split
      · next hempty => exact iff_of_true hstands hempty
      · next hother =>
          refine iff_of_false (hstands.not_wrapped ?_) hother
          cases commented'
          · exact Or.inr rfl
          · exact Or.inl rfl
  | false =>
      rw [hcore, if_neg Bool.false_ne_true] at hstands
      rw [Bool.false_and, if_neg Bool.false_ne_true, if_neg Bool.false_ne_true]
      exact stands_inBraces_iff hstands

/-- A comment behind a bare name hides the closing brace. -/
theorem parse_surrounded_iff_hidden :
    parse "id" = .ok ⟨.query, none, [⟨"id", none, [], []⟩]⟩ ∧ Gap "".toList ∧
    LastGap " # the key".toList ∧
      parse ("" ++ "id" ++ " # the key") ≠ .ok ⟨.query, none,
        [⟨"id", none, [], []⟩]⟩ := by
  have htokens : tokenize (normalize "id") =
      .ok [⟨.punct, "\x7b", 0⟩, ⟨.name, "id", 2⟩, ⟨.punct, "\x7d", 5⟩] := rfl
  have hname : Selected ([⟨.name, "id", 2⟩] ++ []) ⟨"id", none, [], []⟩ 0 :=
    .leaf (.plain rfl) .none
  have hset : Braced Selected (⟨.punct, "\x7b", 0⟩ ::
    ([⟨.name, "id", 2⟩] ++ [⟨.punct, "\x7d", 5⟩]))
      [⟨"id", none, [], []⟩] 1 :=
    .mk ⟨rfl, rfl⟩ (.cons hname .nil) (List.cons_ne_nil _ _) ⟨rfl, rfl⟩
  have hparse : parse "id" = .ok ⟨.query, none, [⟨"id", none, [], []⟩]⟩ := by
    rw [parse, htokens]
    exact parseTokens_complete (lexical_of_tokenize htokens) (.bare hset) (by decide)
  have hgap : Gap [' '] := .ignored rfl .nil
  have hall : (" the key".toList.all fun d => !isLineEnd d) = true := by
    decide +kernel
  have hline : ∀ d ∈ " the key".toList, isLineEnd d = false := by
    simpa using hall
  have hcomment : LastGap " # the key".toList := .commented hgap hline
  have hnone : Gap "".toList := .nil
  refine ⟨hparse, hnone, hcomment, fun hbehind => ?_⟩
  -- the comment has no end of line of its own, so the brace becomes part of it
  have hends := (parse_surrounded_iff hparse hnone hcomment).mp hbehind
  revert hends
  decide +kernel

end Query

end JsonSelection
