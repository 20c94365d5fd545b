import JsonSelection.CommandLine.Options

/-!
# The values of options

A command line that is run holds values of its own options only, and each of
them is one that the option takes (`CommandLine.accepted_of_readRequest`). So an
option that takes an integer has one wherever it is given
(`CommandLine.isSome_integer?_iff`).

Two invariants carry this. Reading takes no word for an option that the line
does not have (`Word.Knows`), whichever way it is shortened; and taking stores a
value only after its option has accepted it (`Arguments.Accepted`). The first
one is shown for each way to read a word, the second one along the recursion of
`takeWords`.

Nothing is said of which lines are valid, nor of which words are operands.
-/

set_option autoImplicit false

namespace JsonSelection

namespace CommandLine

variable {specs : List OptionSpec}

/-- If a word is an option with a name, that is one of the options. Words that
are no options, or that no option has the name of, are known in any case. -/
def Word.Knows (specs : List OptionSpec) (word : Word) : Prop :=
  ∀ spec value, word = .option (some spec) value → spec ∈ specs

/-- All values are of options of the line and are taken by them. So an integer
can be read from the value of an integer option. -/
def Arguments.Accepted (specs : List OptionSpec) (arguments : Arguments) : Prop :=
  ∀ entry ∈ arguments.given, ∃ spec ∈ specs, spec.name = entry.1 ∧
    accepts spec.kind entry.2 = true

/-! ### Words

An option is found by its full name, by a start of it, or by a letter with its
value attached; each way picks it from the options of the line. -/

theorem knows_option {spec : OptionSpec} (h : spec ∈ specs) (value : Option String) :
    (Word.option (some spec) value).Knows specs := by
  intro other value' heq
  obtain ⟨hspec, -⟩ := Word.option.inj heq
  exact Option.some.inj hspec ▸ h

theorem knows_shortened {text : List Char} {word : Word} (h : word ∈ shortened specs text) :
    word.Knows specs := by
  unfold shortened at h
  split at h
  · obtain ⟨spec, hspec, rfl⟩ := List.mem_map.mp h
    exact knows_option (List.mem_filter.mp hspec).1 _
  · obtain ⟨spec, hspec, rfl⟩ := List.mem_map.mp h
    exact knows_option (List.mem_filter.mp hspec).1 _
  · cases h

theorem knows_readDashed {text : String} {word : Word} (h : readDashed specs text = some word) :
    word.Knows specs := by
  unfold readDashed at h
  split at h
  · next only hshortened =>
      obtain rfl := Option.some.inj h
      exact knows_shortened (hshortened ▸ List.mem_singleton_self _)
  · cases h
  · split at h
    · obtain rfl := Option.some.inj h
      intro spec value heq
      cases heq
    · obtain rfl := Option.some.inj h
      intro spec value heq
      cases heq

/-- What a word is taken for is no option but one of the line. -/
theorem knows_readWord {text : String} {word : Word} (h : readWord specs text = some word) :
    word.Knows specs := by
  unfold readWord at h
  split at h
  · split at h
    · next spec hfind =>
        obtain rfl := Option.some.inj h
        exact knows_option (List.mem_of_find?_eq_some hfind) none
    · split at h
      · split at h
        · next spec hfind =>
            obtain rfl := Option.some.inj h
            exact knows_option (List.mem_of_find?_eq_some hfind) _
        · exact knows_readDashed h
      · exact knows_readDashed h
  · obtain rfl := Option.some.inj h
    intro spec value heq
    cases heq

theorem knows_readWords {texts : List String} {words : List Word}
    (h : readWords specs texts = some words) :
    ∀ word ∈ words, word.Knows specs := by
  have operand : ∀ text, (Word.operand text).Knows specs :=
    fun text spec value heq => by cases heq
  induction texts generalizing words with
  | nil =>
      obtain rfl := Option.some.inj h
      simp
  | cons text rest ih =>
      rw [readWords] at h
      split at h
      -- a separator: it and everything behind it are operands, which know no option
      · obtain rfl := Option.some.inj h
        intro word hmem
        rcases List.mem_cons.mp hmem with rfl | hmem
        · intro spec value heq
          cases heq
        · obtain ⟨text, -, rfl⟩ := List.mem_map.mp hmem
          exact operand text
      · split at h
        · cases h
        · next first hfirst =>
            obtain ⟨others, hothers, rfl⟩ := Option.map_eq_some_iff.mp h
            intro word hmem
            rcases List.mem_cons.mp hmem with rfl | hmem
            · exact knows_readWord hfirst
            · exact ih hothers word hmem

/-! ### Arguments -/

/-- A value that is stored has been accepted by its option. -/
theorem Arguments.Accepted.store {arguments stored : Arguments} {spec : OptionSpec} {value : String}
    (h : arguments.Accepted specs) (hspec : spec ∈ specs)
    (hstore : CommandLine.store spec value arguments = some stored) : stored.Accepted specs := by
  rw [CommandLine.store] at hstore
  split at hstore
  · next haccepts =>
      obtain rfl := Option.some.inj hstore
      intro entry hmem
      rcases List.mem_append.mp hmem with hmem | hmem
      · exact h entry hmem
      · obtain rfl := List.mem_singleton.mp hmem
        exact ⟨spec, hspec, rfl, haccepts⟩
  · cases hstore

/-- An operand is kept apart from the values of options. -/
theorem given_takeOperand {words : List Word} {arguments taken : Arguments}
    (h : takeOperand words arguments = some taken) : taken.given = arguments.given := by
  unfold takeOperand at h
  split at h <;> cases h <;> rfl

/-- Words that are taken add values that their options take. -/
theorem accepted_of_takeWords {words : List Word} {arguments final : Arguments} {extra : Bool}
    (hwords : ∀ word ∈ words, word.Knows specs) (h : arguments.Accepted specs)
    (htake : takeWords arguments extra words = .run final) : final.Accepted specs := by
  have hhead : ∀ {spec value rest},
    (∀ word ∈ Word.option (some spec) value :: rest, word.Knows specs) →
      spec ∈ specs := fun hall => hall _ List.mem_cons_self _ _ rfl
  have htail : ∀ {first rest}, (∀ word ∈ first :: rest, Word.Knows specs word) →
      ∀ word ∈ rest, word.Knows specs := fun hall word hmem =>
        hall word (List.mem_cons_of_mem _ hmem)
  -- the line goes on where an operand is passed over or a value is stored; all other cases end it
  fun_induction takeWords arguments extra words with
  | case2 arguments =>
      obtain rfl := Request.run.inj htake
      exact h
  | case3 arguments extra value rest ih => exact ih (htail hwords) h htake
  | case7 arguments extra spec rest hkind ih =>
      -- a flag takes no value, and the empty one stands for it
      have hflag : CommandLine.store spec "" arguments =
          some { arguments with given := arguments.given ++ [(spec.name, "")] } := by
        rw [CommandLine.store, hkind]
        rfl
      exact ih (htail hwords) (h.store (hhead hwords) hflag) htake
  | case9 arguments extra spec rest value stored hstore _ _ ih =>
      exact ih (htail hwords) (h.store (hhead hwords) hstore) htake
  | case11 arguments extra spec value rest stored hstore _ _ ih =>
      exact ih (htail (htail hwords)) (h.store (hhead hwords) hstore) htake
  | case14 arguments extra rest _ text _ _ _ ih => exact ih (htail hwords) h htake
  | case15 arguments extra word rest _ _ _ _ ih => exact ih (htail hwords) h htake
  | case17 arguments extra word rest _ _ _ taken htaken _ =>
      obtain rfl := Request.run.inj htake
      rw [Arguments.Accepted, given_takeOperand htaken]
      exact h
  | _ => cases htake

/-- The values of a line that is run are values that its options take. -/
theorem accepted_of_readRequest {argv : List String} {arguments : Arguments}
    (h : readRequest specs argv = .run arguments) : arguments.Accepted specs := by
  rw [readRequest] at h
  split at h
  · cases h
  · next words hwords =>
      have hnone : Arguments.Accepted specs {} := fun entry hmem => by cases hmem
      split at h
      · next taken htake =>
          split at h
          · obtain rfl := Request.run.inj h
            exact accepted_of_takeWords (knows_readWords hwords) hnone htake
          · cases h
      · exact accepted_of_takeWords (knows_readWords hwords) hnone h

/-- An option that takes an integer has one exactly if it is given. -/
theorem isSome_integer?_iff {argv : List String} {arguments : Arguments}
    (h : readRequest specs argv = .run arguments) (name : String)
    (hkind : ∀ spec ∈ specs, spec.name = name → spec.kind = .integer) :
    (arguments.integer? name).isSome = arguments.has name := by
  rw [Arguments.integer?, Arguments.value?, Arguments.has]
  cases hlast : (arguments.values name).getLast? with
  | none =>
      rw [List.getLast?_eq_none_iff.mp hlast]
      rfl
  | some value =>
      have hmem : value ∈ arguments.values name := List.mem_of_getLast? hlast
      have hgiven : (arguments.values name).isEmpty = false :=
        List.isEmpty_eq_false_iff.mpr (List.ne_nil_of_mem hmem)
      -- the last value was taken by an option of that name, which takes integers
      obtain ⟨entry, hentry, rfl⟩ := List.mem_map.mp hmem
      obtain ⟨hentry, hname⟩ := List.mem_filter.mp hentry
      obtain ⟨spec, hspec, hspecName, haccepts⟩ := accepted_of_readRequest h entry hentry
      rw [hkind spec hspec (hspecName.trans (beq_iff_eq.mp hname))] at haccepts
      rw [hgiven]
      exact haccepts

end CommandLine

end JsonSelection
