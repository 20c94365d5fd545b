import JsonSelection.Proofs.Query.Parsing

/-!
# Query texts made of words

A query without arguments and aliases can be written as words between single
blanks: names, braces and the keyword of a mutation.

## What this module delivers

- `Token.IsName`: a word that is a name.
- `Token.tokenize_words`: a text of words is cut into its words again.
- `Query.Written`: the words of some selections, and the height of the text.
- `Query.parse_written_iff`: such a text is parsed into the selections that it
  writes, unless it has more braces in each other than the parser takes.
- `Query.parse_writtenMutation`: the same behind the keyword of a mutation.
- `Query.parse_mutation_tooDeep`: a mutation that is too deep is refused for its
  depth, whatever it holds.

The texts of this module are the ones that the library itself suggests and that
the statements about whole schemas need. Texts with other gaps are the subject
of `Proofs/Query/Surrounding`.
-/

set_option autoImplicit false

namespace JsonSelection

namespace Token

/-- A word that is a name: a letter or an underscore, and then letters, digits
and underscores. -/
def IsName (word : String) : Prop :=
  ∃ c rest, word.toList = c :: rest ∧ isNameStart c = true ∧ ∀ d ∈ rest,
    isNameChar d = true

/-- A name or a brace. A text of such words with blanks between them is cut into
the same words again. -/
def IsWord (word : String) : Prop :=
  word = "\x7b" ∨ word = "\x7d" ∨ IsName word

/-- What a token is apart from its position. The parser asks for nothing else,
except to say where an error is. -/
def face (token : Token) : TokenKind × String :=
  (token.kind, token.text)

/-- The token of a word apart from its position. -/
def wordFace (word : String) : TokenKind × String :=
  (if word = "\x7b" ∨ word = "\x7d" then .punct else .name, word)

theorem isNameChar_of_isNameStart {c : Char} (h : isNameStart c = true) : isNameChar c = true := by
  simp only [isNameStart, Bool.or_eq_true] at h
  simp only [isNameChar, Char.isAlphanum, Bool.or_eq_true]
  rcases h with h | h
  · exact Or.inl (Or.inl h)
  · exact Or.inr h

theorem toNat_of_isDigit {c : Char} (h : c.isDigit = true) : 48 ≤ c.toNat ∧ c.toNat ≤ 57 := by
  simp only [Char.isDigit, Bool.and_eq_true, decide_eq_true_eq, ge_iff_le,
    UInt32.le_iff_toNat_le] at h
  exact h

/-- The characters that start names lie in three ranges. -/
theorem toNat_of_isNameStart {c : Char} (h : isNameStart c = true) :
    (65 ≤ c.toNat ∧ c.toNat ≤ 90) ∨ c.toNat = 95 ∨
    (97 ≤ c.toNat ∧ c.toNat ≤ 122) := by
  have hclass : (c.isUpper || c.isLower || c == '_') = true := h
  rw [Bool.or_eq_true, Bool.or_eq_true] at hclass
  rcases hclass with (hupper | hlower) | heq
  · have hrange : decide (c.val ≥ 'A'.val ∧ c.val ≤ 'Z'.val) = true := hupper
    obtain ⟨hleast, hmost⟩ := of_decide_eq_true hrange
    exact Or.inl ⟨UInt32.le_iff_toNat_le.mp hleast, UInt32.le_iff_toNat_le.mp hmost⟩
  · have hrange : (decide (c.val ≥ 'a'.val) && decide (c.val ≤ 'z'.val)) = true := hlower
    obtain ⟨hleast, hmost⟩ := Bool.and_eq_true_iff.mp hrange
    exact Or.inr (Or.inr ⟨UInt32.le_iff_toNat_le.mp (of_decide_eq_true hleast),
      UInt32.le_iff_toNat_le.mp (of_decide_eq_true hmost)⟩)
  · rw [beq_iff_eq.mp heq]
    exact Or.inr (Or.inl rfl)

/-- The characters of names lie in four ranges. -/
theorem toNat_of_isNameChar {c : Char} (h : isNameChar c = true) :
    (48 ≤ c.toNat ∧ c.toNat ≤ 57) ∨ (65 ≤ c.toNat ∧ c.toNat ≤ 90) ∨ c.toNat = 95 ∨
      (97 ≤ c.toNat ∧ c.toNat ≤ 122) := by
  have hsplit : c.isDigit = true ∨ isNameStart c = true := by
    simp only [isNameChar, Char.isAlphanum, Bool.or_eq_true] at h
    simp only [isNameStart, Bool.or_eq_true]
    rcases h with (h | h) | h
    · exact Or.inr (Or.inl h)
    · exact Or.inl h
    · exact Or.inr (Or.inr h)
  rcases hsplit with h | h
  · exact Or.inl (toNat_of_isDigit h)
  · exact Or.inr (toNat_of_isNameStart h)

theorem ne_of_isNameChar {c d : Char} (h : isNameChar c = true) (hd : isNameChar d = false) :
    c ≠ d := by
  rintro rfl
  rw [h] at hd
  cases hd

theorem isBlank_of_isNameChar {c : Char} (h : isNameChar c = true) : Text.isBlank c = false := by
  have hrange := toNat_of_isNameChar h
  rw [Bool.eq_false_iff]
  intro hblank
  simp only [Text.isBlank, Bool.or_eq_true, Bool.and_eq_true, decide_eq_true_eq,
    beq_iff_eq] at hblank
  omega

theorem isIgnored_of_isNameChar {c : Char} (h : isNameChar c = true) : isIgnored c = false := by
  simp [isIgnored, isBlank_of_isNameChar h,
    ne_of_isNameChar h (show isNameChar ',' = false from rfl),
    ne_of_isNameChar h (show isNameChar '\uFEFF' = false from rfl)]

theorem isPunct_of_isNameChar {c : Char} (h : isNameChar c = true) : isPunct c = false := by
  rw [Bool.eq_false_iff]
  intro hpunct
  have hc : isNameChar c = false := by
    simp only [isPunct, List.contains_eq_mem, decide_eq_true_eq] at hpunct
    have hall : ['\x7b', '\x7d', '(', ')', '[', ']', ':', '!', '$', '=', '@', '|', '&'].all
        (fun c => !isNameChar c) = true := by
      decide
    simpa using List.all_eq_true.mp hall c hpunct
  rw [h] at hc
  cases hc

/-- No number starts with a letter or an underscore. -/
theorem numberLength?_of_isNameStart {c : Char} (h : isNameStart c = true) (rest : List Char) :
    numberLength? (c :: rest) = none := by
  rw [numberLength?, Option.map_eq_none_iff]
  cases hread : NumberLiteral.read? (c :: rest) with
  | none => rfl
  | some read =>
      obtain ⟨literal, after⟩ := read
      obtain ⟨d, part, hcs, hd, -⟩ := NumberLiteral.read?_spec hread
      obtain ⟨rfl, -⟩ := List.cons.inj hcs
      rcases hd with rfl | hd
      · cases h
      · have hrange := toNat_of_isNameStart h
        have hdigit := toNat_of_isDigit hd
        omega

section Scan

-- left open, this definition would be evaluated on unknown characters
attribute [local irreducible] lexeme?

/-- The rest of a part is passed over. -/
theorem scan_skip (position : Nat) (front rest : List Char) :
    scan front.length position (front ++ rest) = scan 0 (position + front.length) rest := by
  induction front generalizing position with
  | nil => rfl
  | cons c front ih =>
      rw [List.length_cons, List.cons_append, scan_succ, ih]
      congr 1
      omega

end Scan

theorem lexeme?_blank {c : Char} (h : isIgnored c = false) (rest : List Char) :
    lexeme? (' ' :: c :: rest) = some (none, 0) := by
  simp [lexeme?, show isIgnored ' ' = true from rfl, h]

theorem lexeme?_mark {c : Char} (h : c = '\x7b' ∨ c = '\x7d') (rest : List Char) :
    lexeme? (c :: rest) = some (some .punct, 0) := by
  rcases h with rfl | rfl
  · simp [lexeme?, show isIgnored '\x7b' = false from rfl, show isPunct '\x7b' = true from rfl]
  · simp [lexeme?, show isIgnored '\x7d' = false from rfl, show isPunct '\x7d' = true from rfl]

/-- A name reaches as far as characters of names go. -/
theorem lexeme?_name {c : Char} {tail rest : List Char} (hstart : isNameStart c = true)
    (htail : ∀ d ∈ tail, isNameChar d = true) (hrest : ∀ d others, rest = d :: others →
      isNameChar d = false) : lexeme? (c :: (tail ++ rest)) = some (some .name, tail.length) := by
  have hc := isNameChar_of_isNameStart hstart
  have hspan : (tail ++ rest).takeWhile isNameChar = tail := by
    rw [List.takeWhile_append_of_pos htail]
    cases rest with
    | nil => simp
    | cons d others => simp [hrest d others rfl]
  simp [lexeme?, isIgnored_of_isNameChar hc, isPunct_of_isNameChar hc,
    numberLength?_of_isNameStart hstart, hstart, hspan,
    ne_of_isNameChar hc (show isNameChar '#' = false from rfl),
    ne_of_isNameChar hc (show isNameChar '.' = false from rfl),
    ne_of_isNameChar hc (show isNameChar '"' = false from rfl)]

theorem IsName.ne_brace {word : String} (h : IsName word) : word ≠ "\x7b" ∧
    word ≠ "\x7d" := by
  obtain ⟨c, rest, hlist, hstart, -⟩ := h
  have hne : ∀ d : Char, isNameStart d = false → word ≠ String.ofList [d] := by
    rintro d hd rfl
    rw [String.toList_ofList] at hlist
    obtain ⟨rfl, -⟩ := List.cons.inj hlist
    rw [hstart] at hd
    cases hd
  exact ⟨hne '\x7b' rfl, hne '\x7d' rfl⟩

/-- Words between blanks start with the first character of the first word. -/
theorem intercalate_first {word : String} {c : Char} {tail : List Char}
    (h : word.toList = c :: tail) (others : List String) :
    ∃ after, [' '].intercalate ((word :: others).map String.toList) = c :: after := by
  rw [List.map_cons, h]
  cases others.map String.toList with
  | nil => exact ⟨tail, List.intercalate_singleton⟩
  | cons text texts => exact ⟨_, List.intercalate_cons_cons⟩

/-- A word starts with a character that is neither a blank nor left out. -/
theorem IsWord.first {word : String} (h : IsWord word) :
    ∃ c rest, word.toList = c :: rest ∧ isIgnored c = false := by
  rcases h with rfl | rfl | ⟨c, rest, hlist, hstart, -⟩
  · exact ⟨'\x7b', [], rfl, rfl⟩
  · exact ⟨'\x7d', [], rfl, rfl⟩
  · exact ⟨c, rest, hlist, isIgnored_of_isNameChar (isNameChar_of_isNameStart hstart)⟩

section Scan

attribute [local irreducible] lexeme?

theorem scan_part {c : Char} {kind : TokenKind} {front rest : List Char} {position : Nat}
    {tokens : List Token} (hpart : lexeme? (c :: (front ++ rest)) = some (some kind, front.length))
    (hrest : scan 0 (position + 1 + front.length) rest = .ok tokens) :
    scan 0 position (c :: (front ++ rest)) =
      .ok (⟨kind, String.ofList (c :: front), position⟩ :: tokens) := by
  rw [scan_zero, hpart]
  simp only [scan_skip, hrest, List.take_left']

/-- A word is cut off as one token. -/
theorem scan_word {word : String} (h : IsWord word) {rest : List Char}
    (hrest : ∀ d others, rest = d :: others → isNameChar d = false) {position : Nat}
    {tokens : List Token} (hscan : scan 0 (position + word.toList.length) rest = .ok tokens) :
    ∃ token, scan 0 position (word.toList ++ rest) = .ok (token :: tokens) ∧
      token.face = wordFace word := by
  rcases h with rfl | rfl | hname
  · exact ⟨_, scan_part (lexeme?_mark (Or.inl rfl) ([] ++ rest)) hscan, rfl⟩
  · exact ⟨_, scan_part (lexeme?_mark (Or.inr rfl) ([] ++ rest)) hscan, rfl⟩
  · obtain ⟨hopen, hclose⟩ := hname.ne_brace
    obtain ⟨c, tail, hlist, hstart, htail⟩ := hname
    rw [hlist, List.length_cons, Nat.add_comm tail.length, ← Nat.add_assoc] at hscan
    have htext : String.ofList (c :: tail) = word := by
      rw [← hlist, String.ofList_toList]
    rw [hlist]
    refine ⟨_, scan_part (lexeme?_name hstart htail hrest) hscan, ?_⟩
    simp [face, wordFace, hopen, hclose, htext]

/-- Words between single blanks are cut into one token each. -/
theorem scan_words {words : List String} (h : ∀ word ∈ words, IsWord word) (position : Nat) :
    ∃ tokens, scan 0 position ([' '].intercalate (words.map String.toList)) = .ok tokens ∧
      tokens.map face = words.map wordFace := by
  induction words generalizing position with
  | nil => exact ⟨[], scan_nil 0 position, rfl⟩
  | cons word rest ih =>
      have hword := h word List.mem_cons_self
      have hothers : ∀ other ∈ rest, IsWord other := fun other hmem =>
        h other (List.mem_cons_of_mem _ hmem)
      cases rest with
      | nil =>
          have hnil : ∀ d others, ([] : List Char) = d :: others →
              isNameChar d = false := by simp
          obtain ⟨token, hscan, hface⟩ := scan_word hword hnil (scan_nil 0 (position + _))
          exact ⟨[token], by simpa using hscan, by simp [hface]⟩
      | cons next others =>
          obtain ⟨tokens, hscan, hfaces⟩ := ih hothers (position + word.toList.length + 1)
          -- the blank before the next word is passed over on its own
          have hblank : scan 0 (position + word.toList.length)
              (' ' :: [' '].intercalate ((next :: others).map String.toList)) = .ok tokens := by
            obtain ⟨c, tail, hlist, hc⟩ := (hothers next List.mem_cons_self).first
            obtain ⟨after, hafter⟩ := intercalate_first hlist others
            rw [hafter] at hscan ⊢
            rw [scan_zero, lexeme?_blank hc]
            exact hscan
          have hspace : ∀ d others', ' ' ::
            [' '].intercalate ((next :: others).map String.toList) =
              d :: others' → isNameChar d = false := by
            intro d others' heq
            obtain ⟨rfl, -⟩ := List.cons.inj heq
            rfl
          obtain ⟨token, htoken, hface⟩ := scan_word hword hspace hblank
          refine ⟨token :: tokens, ?_, by simp only [List.map_cons, hfaces, hface]⟩
          rw [List.map_cons, List.map_cons, List.intercalate_cons_cons, ← List.map_cons]
          simpa using htoken

end Scan

/-- A text of words between single blanks has its words as tokens. -/
theorem tokenize_words {words : List String} (h : ∀ word ∈ words, IsWord word) :
    ∃ tokens, tokenize (" ".intercalate words) = .ok tokens ∧
    tokens.map face = words.map wordFace := by
  have hlist : (" ".intercalate words).toList = [' '].intercalate (words.map String.toList) :=
    String.toList_intercalate
  rw [tokenize, hlist]
  exact scan_words h 0

end Token

namespace Text

/-- A text without blanks at its ends stays as it is. -/
theorem trim_eq_self {first last : Char} (middle : List Char) (hfirst : isBlank first = false)
    (hlast : isBlank last = false) :
    trim (first :: (middle ++ [last])) = first :: (middle ++ [last]) := by
  simp [trim, hfirst, hlast]

end Text

namespace Query

open Token Grammar

/-! ### Normalized texts -/

/-- A text between braces is normalized. -/
theorem normalize_braced (middle : List Char) :
    normalize (String.ofList ('\x7b' :: (middle ++ ['\x7d']))) =
      String.ofList ('\x7b' :: (middle ++ ['\x7d'])) := by
  simp [normalize, Text.trim_eq_self middle (show Text.isBlank '\x7b' = false from rfl)
    (show Text.isBlank '\x7d' = false from rfl)]

/-- A mutation that ends in a brace is normalized. -/
theorem normalize_mutation (middle : List Char) :
    normalize (String.ofList ("mutation ".toList ++ (middle ++ ['\x7d']))) =
      String.ofList ("mutation ".toList ++ (middle ++ ['\x7d'])) := by
  have htrim : Text.trim ("mutation ".toList ++ (middle ++ ['\x7d'])) =
      "mutation ".toList ++ (middle ++ ['\x7d']) :=
    Text.trim_eq_self ("utation ".toList ++ middle) rfl rfl
  have hword : startsWithWord "mutation" ("mutation ".toList ++ (middle ++ ['\x7d'])) = true := rfl
  have hdefinition : definitionWords.any
      (startsWithWord · ("mutation ".toList ++ (middle ++ ['\x7d']))) = true :=
    List.any_eq_true.mpr ⟨"mutation", by decide, hword⟩
  rw [normalize, String.toList_ofList, htrim]
  simp only [hdefinition, Bool.true_or, if_true]

/-- A text of at least two words starts with the first and ends with the last. -/
theorem intercalate_ends (first : String) (words : List String) (last : String) :
    ∃ middle, " ".intercalate (first :: (words ++ [last])) =
      String.ofList (first.toList ++ ' ' :: (middle ++ last.toList)) := by
  -- the last word stands at the end, whatever is between
  have hlast : ∃ middle, " ".intercalate (words ++ [last]) =
      String.ofList (middle ++ last.toList) := by
    cases words with
    | nil => exact ⟨[], by simp⟩
    | cons word rest =>
        refine ⟨(" ".intercalate (word :: rest) ++ " ").toList, ?_⟩
        rw [String.intercalate_append_of_ne_nil (List.cons_ne_nil word rest)
            (List.cons_ne_nil last []),
          String.intercalate_singleton, String.ofList_append, String.ofList_toList,
          String.ofList_toList]
  obtain ⟨middle, hmiddle⟩ := hlast
  have hne : words ++ [last] ≠ [] := List.append_ne_nil_of_right_ne_nil words
    (List.cons_ne_nil last [])
  refine ⟨middle, ?_⟩
  rw [String.intercalate_cons_of_ne_nil hne, hmiddle]
  exact String.toList_inj.mp (by simp)

theorem normalize_set (words : List String) :
    normalize (" ".intercalate ("\x7b" :: (words ++ ["\x7d"]))) =
      " ".intercalate ("\x7b" :: (words ++ ["\x7d"])) := by
  obtain ⟨middle, hmiddle⟩ := intercalate_ends "\x7b" words "\x7d"
  rw [hmiddle]
  exact normalize_braced (' ' :: middle)

theorem normalize_mutationSet (words : List String) :
    normalize (" ".intercalate ("mutation" :: (words ++ ["\x7d"]))) =
      " ".intercalate ("mutation" :: (words ++ ["\x7d"])) := by
  obtain ⟨middle, hmiddle⟩ := intercalate_ends "mutation" words "\x7d"
  rw [hmiddle]
  exact normalize_mutation middle

/-! ### Written selections

The words of selections derive them in the grammar, so the parser finds a tree
for them, and the tree is the only one. -/

/-- The words of selections without aliases and arguments, and the height of the
written text. -/
inductive Written : List Selection → List String → Nat → Prop where
  | nil : Written [] [] 0
  | leaf {name : String} {rest : List Selection} {words : List String} {height : Nat} :
      IsName name → Written rest words height →
        Written (⟨name, none, [], []⟩ :: rest) (name :: words) height
  | node {name : String} {children rest : List Selection} {inner words : List String}
      {below height : Nat} :
      IsName name → Written children inner below → children ≠ [] →
      Written rest words height →
        Written (⟨name, none, [], children⟩ :: rest)
          (name :: "\x7b" :: (inner ++ "\x7d" :: words)) (max (below + 1) height)

theorem Written.isWord {selections : List Selection} {words : List String} {height : Nat}
    (h : Written selections words height) : ∀ word ∈ words, IsWord word := by
  induction h with
  | nil => simp
  | leaf hname _ ih =>
      intro word hword
      rcases List.mem_cons.mp hword with rfl | hword
      · exact Or.inr (Or.inr hname)
      · exact ih word hword
  | node hname _ _ _ ihChildren ih =>
      intro word hword
      simp only [List.mem_cons, List.mem_append] at hword
      rcases hword with rfl | rfl | hword | rfl | hword
      · exact Or.inr (Or.inr hname)
      · exact Or.inl rfl
      · exact ihChildren word hword
      · exact Or.inr (Or.inl rfl)
      · exact ih word hword

theorem name_of_face {token : Token} {word : String} (hname : IsName word)
    (h : token.face = wordFace word) : token.kind = .name ∧ token.text = word := by
  obtain ⟨hopen, hclose⟩ := hname.ne_brace
  simpa [face, wordFace, hopen, hclose] using h

theorem isMark_of_face {token : Token} {mark : String} (hmark : mark = "\x7b" ∨ mark = "\x7d")
    (h : token.face = wordFace mark) : IsMark mark token := by
  simpa [IsMark, face, wordFace, hmark] using h

/-- The tokens of written selections derive them. -/
theorem Written.derives {selections : List Selection} {words : List String} {height : Nat}
    (h : Written selections words height) {tokens : List Token}
    (hfaces : tokens.map face = words.map wordFace) : Star Selected tokens selections height := by
  induction h generalizing tokens with
  | nil =>
      obtain rfl := List.map_eq_nil_iff.mp hfaces
      exact .nil
  | @leaf name rest words height hname _ ih =>
      obtain ⟨token, others, rfl, hface, hothers⟩ := List.map_eq_cons_iff.mp hfaces
      obtain ⟨hkind, rfl⟩ := name_of_face hname hface
      have hselected : Selected ([token] ++ []) ⟨token.text, none, [], []⟩ 0 :=
        .leaf (.plain hkind) .none
      have hstar := Star.cons hselected (ih hothers)
      rwa [Nat.zero_max] at hstar
  | @node name children rest inner words below height hname _ hnonempty _ ihChildren ih =>
      obtain ⟨token, others, rfl, hface, hfaces⟩ := List.map_eq_cons_iff.mp hfaces
      -- the tokens are cut where the words are: name, brace, inner words, brace
      obtain ⟨opening, others, rfl, hopening, hfaces⟩ := List.map_eq_cons_iff.mp hfaces
      rw [List.map_append] at hfaces
      obtain ⟨tokens, others, rfl, htokens, hfaces⟩ := List.map_eq_append_iff.mp hfaces
      obtain ⟨closing, others, rfl, hclosing, hothers⟩ := List.map_eq_cons_iff.mp hfaces
      obtain ⟨hkind, rfl⟩ := name_of_face hname hface
      have hbraced : Braced Selected (opening :: (tokens ++ [closing])) children (below + 1) :=
        .mk (isMark_of_face (Or.inl rfl) hopening) (ihChildren htokens) hnonempty
          (isMark_of_face (Or.inr rfl) hclosing)
      have hselected := Selected.node (.plain hkind) .none hbraced
      have hstar := Star.cons hselected (ih hothers)
      rw [Nat.zero_max] at hstar
      simpa using hstar

/-- The tokens of a written set derive it. -/
theorem Written.braced {selections : List Selection} {words : List String} {height : Nat}
    (h : Written selections words height) (hnonempty : selections ≠ []) {tokens : List Token}
    (hfaces : tokens.map face = ("\x7b" :: (words ++ ["\x7d"])).map wordFace) :
    Braced Selected tokens selections (height + 1) := by
  obtain ⟨opening, others, rfl, hopening, hfaces⟩ := List.map_eq_cons_iff.mp hfaces
  rw [List.map_append] at hfaces
  obtain ⟨tokens, others, rfl, htokens, hfaces⟩ := List.map_eq_append_iff.mp hfaces
  obtain ⟨closing, others, rfl, hclosing, hnil⟩ := List.map_eq_cons_iff.mp hfaces
  obtain rfl := List.map_eq_nil_iff.mp hnil
  exact .mk (isMark_of_face (Or.inl rfl) hopening) (h.derives htokens) hnonempty
    (isMark_of_face (Or.inr rfl) hclosing)

theorem isWord_of_mem_set {words : List String} (h : ∀ word ∈ words, IsWord word) :
    ∀ word ∈ "\x7b" :: (words ++ ["\x7d"]), IsWord word := by
  intro word hword
  simp only [List.mem_cons, List.mem_append, List.not_mem_nil, or_false] at hword
  rcases hword with rfl | hword | rfl
  · exact Or.inl rfl
  · exact h word hword
  · exact Or.inr (Or.inl rfl)

/-- A written set is parsed into what it writes. -/
theorem parse_written {selections : List Selection} {words : List String} {height : Nat}
    (h : Written selections words height) (hnonempty : selections ≠ [])
    (hheight : height < nesting) :
    parse (" ".intercalate ("\x7b" :: (words ++ ["\x7d"]))) =
      .ok ⟨.query, none, selections⟩ := by
  obtain ⟨tokens, htokens, hfaces⟩ := tokenize_words (isWord_of_mem_set h.isWord)
  have hparse := parseTokens_complete (lexical_of_tokenize htokens)
    (.bare (h.braced hnonempty hfaces)) hheight
  rw [parse, normalize_set, htokens]
  exact hparse

/-- No derivation of written selections is lower than the text. -/
theorem Written.height_le {selections : List Selection} {words : List String} {height : Nat}
    (h : Written selections words height) {tokens : List Token} {height' : Nat}
    (hstar : Star Selected tokens selections height') : height ≤ height' := by
  induction h generalizing tokens height' with
  | nil => exact Nat.zero_le _
  | leaf _ _ ih =>
      cases hstar with
      | cons _ hrest => exact Nat.le_trans (ih hrest) (Nat.le_max_right _ _)
  | node _ _ hnonempty _ ihChildren ih =>
      cases hstar with
      | cons hselected hrest =>
          have hothers := ih hrest
          cases hselected with
          | leaf => exact absurd rfl hnonempty
          | node _ _ hbraced =>
              cases hbraced with
              | mk _ hchildren _ _ =>
                  -- the derivation has a set around that of the children, as the
                  -- text has
                  have hset := ihChildren hchildren
                  omega

/-- Tokens are a selection set in one way only. -/
theorem braced_unique {tokens : List Token} (hlex : AllLexical tokens)
    {selections selections' : List Selection} {height height' : Nat}
    (h : Braced Selected tokens selections height)
    (h' : Braced Selected tokens selections' height') : selections = selections' := by
  have hlex' : AllLexical (tokens ++ []) := by
    rw [List.append_nil]
    exact hlex
  have hread := selectionSet_complete (max height height') hlex' h (Nat.le_max_left _ _) trivial
  rw [selectionSet_complete (max height height') hlex' h' (Nat.le_max_right _ _) trivial] at hread
  exact (Prod.mk.inj (Except.ok.inj hread)).1.symm

/-- A written set is parsed into what it writes, unless it is too high for the
parser. -/
theorem parse_written_iff {selections : List Selection} {words : List String} {height : Nat}
    (h : Written selections words height) (hnonempty : selections ≠ []) (operation : Operation) :
    parse (" ".intercalate ("\x7b" :: (words ++ ["\x7d"]))) = .ok operation ↔
      operation = ⟨.query, none, selections⟩ ∧ height < nesting := by
  constructor
  · intro hparse
    obtain ⟨tokens, htokens, hfaces⟩ := tokenize_words (isWord_of_mem_set h.isWord)
    have hlex := lexical_of_tokenize htokens
    have hset := h.braced hnonempty hfaces
    obtain ⟨opening, others, rfl, hopening⟩ := braced_first hset
    have hkind : opening.kind ≠ .name := by
      rw [hopening.1]
      decide
    rw [parse, normalize_set, htokens] at hparse
    obtain ⟨height', hdocument, hheight⟩ := parseTokens_sound hlex hparse
    -- the text starts with a brace, so the operation has no keyword
    cases hdocument with
    | bare hbraced =>
        obtain rfl := braced_unique hlex hset hbraced
        refine ⟨rfl, ?_⟩
        cases hbraced with
        | mk _ hstar _ _ => exact Nat.lt_of_lt_of_le (Nat.lt_succ_of_le (h.height_le hstar)) hheight
    | headed hname => exact absurd hname hkind
    | named hname => exact absurd hname hkind
  · rintro ⟨rfl, hheight⟩
    exact parse_written h hnonempty hheight

theorem mutation_isName : IsName "mutation" :=
  ⟨'m', "utation".toList, rfl, rfl, List.all_eq_true.mp rfl⟩

/-- A written set after the keyword is parsed into the mutation that it writes. -/
theorem parse_writtenMutation {selections : List Selection} {words : List String} {height : Nat}
    (h : Written selections words height) (hnonempty : selections ≠ [])
    (hheight : height < nesting) :
    parse (" ".intercalate ("mutation" :: "\x7b" :: (words ++ ["\x7d"]))) =
      .ok ⟨.mutation, none, selections⟩ := by
  have hwords : ∀ word ∈ "mutation" :: "\x7b" :: (words ++ ["\x7d"]), IsWord word := by
    intro word hword
    rcases List.mem_cons.mp hword with rfl | hword
    · exact Or.inr (Or.inr mutation_isName)
    · exact isWord_of_mem_set h.isWord word hword
  obtain ⟨tokens, htokens, hfaces⟩ := tokenize_words hwords
  have hlex := lexical_of_tokenize htokens
  obtain ⟨keyword, others, rfl, hkeyword, hfaces⟩ := List.map_eq_cons_iff.mp hfaces
  obtain ⟨hkind, htext⟩ := name_of_face mutation_isName hkeyword
  have hdocument : Document (keyword :: others) ⟨.mutation, none, selections⟩ (height + 1) :=
    .headed hkind htext (h.braced hnonempty hfaces)
  have hparse := parseTokens_complete hlex hdocument hheight
  rw [parse, ← List.cons_append, normalize_mutationSet, List.cons_append, htokens]
  exact hparse

/-! ### Texts that are too deep

The depth is found out as the braces are opened, before anything else in the
text is looked at, so what stands behind the last opening brace does not matter. -/

/-- Tokens that open selection sets in each other, one more than told, each but
the innermost after the name of the first field of the set around it. -/
inductive Opens : Nat → List Token → Prop where
  | innermost {opening : Token} {rest : List Token} : IsMark "\x7b" opening →
      Opens 0 (opening :: rest)
  | around {levels : Nat} {opening name : Token} {rest : List Token} :
      IsMark "\x7b" opening → name.Lexical → name.kind = .name → Opens levels rest →
        Opens (levels + 1) (opening :: name :: rest)

theorem Opens.exists_opening {levels : Nat} {tokens : List Token} (h : Opens levels tokens) :
    ∃ opening rest, tokens = opening :: rest ∧ IsMark "\x7b" opening := by
  cases h with
  | innermost hopening => exact ⟨_, _, rfl, hopening⟩
  | around hopening _ _ _ => exact ⟨_, _, rfl, hopening⟩

/-- A field without arguments is refused for the set below it. -/
theorem selection_error {value : Parser Json} {set : Parser (List Selection)} {name opening : Token}
    {rest : List Token} {error : QueryError} (hlex : name.Lexical) (hkind : name.kind = .name)
    (hopening : IsMark "\x7b" opening) (hset : set (opening :: rest) = .error error) :
    selection value set (name :: opening :: rest) = .error error := by
  have hlist : AllLexical [name] := by
    simpa [AllLexical] using hlex
  have hcolon : at? ":" (opening :: rest) = false :=
    at?_eq_false (hopening.text_ne (by decide)) rest
  have hparen : at? "(" (opening :: rest) = false :=
    at?_eq_false (hopening.text_ne (by decide)) rest
  have hbrace : at? "\x7b" (opening :: rest) = true := by
    simp [at?, hopening.1, hopening.2]
  have hfield : fieldName (name :: opening :: rest) = .ok ((name.text, none), opening :: rest) :=
    fieldName_complete hlist (.plain hkind) hcolon
  have hsupported := supported_of_isMark hopening (by decide) (by decide)
  have harguments : arguments value (opening :: rest) = .ok ([], opening :: rest) := by
    simp only [arguments, hparen]
    rfl
  simp only [selection, hfield, harguments, Outcome.ok_bind,
    rejectUnsupported_cons hsupported, hbrace]
  rw [if_pos trivial, hset]
  rfl

/-- A set with more sets in each other than there are levels left is refused for
its depth. -/
theorem selectionSet_tooDeep {levels : Nat} {tokens : List Token} (h : Opens levels tokens) :
    selectionSet levels tokens = .error .tooDeep := by
  induction h with
  | innermost hopening =>
      simp only [selectionSet, expect_mark hopening]
      rfl
  | @around levels opening name rest hopening hlex hkind hrest ih =>
      obtain ⟨inner, others, rfl, hinner⟩ := hrest.exists_opening
      -- a name follows, so the set is not closed before the next one opens
      have hclose : at? "\x7d" (name :: inner :: others) = false :=
        at?_eq_false (hlex.text_ne (by rw [hkind]; decide) closeBrace_markText) _
      have hselection : selection (value levels) (selectionSet levels) (name :: inner :: others) =
          .error .tooDeep :=
        selection_error hlex hkind hinner ih
      have hmany : many "\x7d" .unclosedSet
        (fun _ => selection (value levels) (selectionSet levels))
          (name :: inner :: others) = .error .tooDeep := by
        simp only [many, manyWith, hclose, hselection]
        rfl
      simp only [selectionSet, expect_mark hopening, Outcome.ok_bind, hmany]
      rfl

/-- The words that open a set after each of some names. -/
def openings (names : List String) : List String :=
  names.flatMap fun name => ["\x7b", name]

theorem opens_of_face {names : List String} (hnames : ∀ name ∈ names, IsName name)
    {tokens : List Token} {others : List (TokenKind × String)} (hlex : AllLexical tokens)
    (hfaces : tokens.map face = (openings names).map wordFace ++ wordFace "\x7b" :: others) :
    Opens names.length tokens := by
  induction names generalizing tokens with
  | nil =>
      obtain ⟨opening, rest, rfl, hopening, -⟩ := List.map_eq_cons_iff.mp hfaces
      exact .innermost (isMark_of_face (Or.inl rfl) hopening)
  | cons name names ih =>
      obtain ⟨opening, rest, rfl, hopening, hfaces⟩ := List.map_eq_cons_iff.mp hfaces
      obtain ⟨token, rest, rfl, hname, hfaces⟩ := List.map_eq_cons_iff.mp hfaces
      obtain ⟨-, hlex⟩ := allLexical_cons.mp hlex
      obtain ⟨htoken, hlex⟩ := allLexical_cons.mp hlex
      have hkind := (name_of_face (hnames name List.mem_cons_self) hname).1
      have hrest := ih (fun other hother => hnames other (List.mem_cons_of_mem _ hother)) hlex
        hfaces
      exact .around (isMark_of_face (Or.inl rfl) hopening) htoken hkind hrest

theorem isWord_of_mem_openings {names : List String} (hnames : ∀ name ∈ names, IsName name) :
    ∀ word ∈ openings names, IsWord word := by
  intro word hword
  obtain ⟨name, hname, hword⟩ := List.mem_flatMap.mp hword
  simp only [List.mem_cons, List.not_mem_nil, or_false] at hword
  rcases hword with rfl | rfl
  · exact Or.inl rfl
  · exact Or.inr (Or.inr (hnames _ hname))

/-- A mutation that opens more sets in each other than the parser goes deep is
refused for its depth, whatever they hold. -/
theorem parse_mutation_tooDeep {names words : List String}
    (hnames : ∀ name ∈ names, IsName name) (hlength : names.length = nesting)
    (hwords : ∀ word ∈ words, IsWord word) :
    parse (" ".intercalate ("mutation" :: ((openings names ++ "\x7b" :: words) ++ ["\x7d"]))) =
      .error .tooDeep := by
  have hall : ∀ word ∈ "mutation" :: ((openings names ++ "\x7b" :: words) ++ ["\x7d"]),
      IsWord word := by
    intro word hword
    simp only [List.mem_cons, List.mem_append, List.not_mem_nil, or_false] at hword
    rcases hword with rfl | (hword | rfl | hword) | rfl
    · exact Or.inr (Or.inr mutation_isName)
    · exact isWord_of_mem_openings hnames word hword
    · exact Or.inl rfl
    · exact hwords word hword
    · exact Or.inr (Or.inl rfl)
  obtain ⟨tokens, htokens, hfaces⟩ := tokenize_words hall
  have hlex := lexical_of_tokenize htokens
  obtain ⟨keyword, others, rfl, hkeyword, hfaces⟩ := List.map_eq_cons_iff.mp hfaces
  obtain ⟨hkind, htext⟩ := name_of_face mutation_isName hkeyword
  -- every token has the face of its word, so as many sets are opened
  have hopens : Opens nesting others := by
    rw [← hlength]
    apply opens_of_face hnames (allLexical_cons.mp hlex).2
    rw [hfaces, List.append_assoc, List.map_append]
    rfl
  obtain ⟨opening, rest, rfl, hopening⟩ := hopens.exists_opening
  have hheader : header (keyword :: opening :: rest) =
      .ok ((.mutation, none), opening :: rest) := by
    have hkeyword : keyword.text = OperationKind.mutation.keyword := htext
    rw [header_keyword hkind hkeyword]
    exact heading_brace .mutation hopening rest
  rw [parse, normalize_mutationSet, htokens]
  simp only [Outcome.ok_bind, parseTokens, hheader, selectionSet_tooDeep hopens]
  rfl

end Query

end JsonSelection
