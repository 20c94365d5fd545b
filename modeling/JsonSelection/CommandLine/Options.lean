import JsonSelection.Entries
import JsonSelection.Text.Integer

/-!
# Command line options

Words of a command line are options, values of options, or the one operand. Long
options may be shortened to any start that no other option shares, a value may
follow an equal sign, a word that looks like a negative number is a value, and
after a lone pair of dashes nothing is an option.

## What this module delivers

- `OptionSpec`: an option by its full name and by what it takes.
- `readWords`: what each word is taken for, on its own (`Word`).
- `takeWords`: the values that the words give together (`Arguments`).
- `readRequest`: what a command line asks for, which is a run with some values,
  help, or nothing valid (`Request`).

The two passes are kept apart because the reading of a word does not depend on
the words before it, the separator apart, while the taking does: an option
claims the word behind it. The words of a usage message are not described.
-/

set_option autoImplicit false

namespace JsonSelection

namespace CommandLine

/-! ## Options and their values -/

/-- What an option takes: nothing, a text, an integer, or nothing because it
asks for help. -/
inductive OptionKind where
  | flag
  | text
  | integer
  | help
deriving DecidableEq, Repr

/-- An option by its full name, dashes included. -/
structure OptionSpec where
  name : String
  kind : OptionKind
  required : Bool := false
deriving DecidableEq, Repr

/-- What a word is taken for. An option word tells the option, unless no option
has the name, and the value behind its equal sign. -/
inductive Word where
  | operand (text : String)
  | separator
  | option (spec : Option OptionSpec) (value : Option String)
deriving DecidableEq, Repr

/-- The values of a command line: the operand and, for each option that is
given, its values in order. -/
structure Arguments where
  operand : Option String := none
  given : List (String × String) := []
deriving DecidableEq, Repr

/-- What a command line asks for: to run with some values, to be told how the
program is used, or nothing that is valid. -/
inductive Request where
  | run (arguments : Arguments)
  | help
  | invalid
deriving DecidableEq, Repr

namespace Arguments

/-- The values of an option in order. -/
def values (arguments : Arguments) (name : String) : List String :=
  (arguments.given.filter fun entry => entry.1 == name).map Prod.snd

/-- The value of an option. An option that is given several times has the value
that was given last. -/
def value? (arguments : Arguments) (name : String) : Option String :=
  (arguments.values name).getLast?

/-- The value of an option, or what stands for it if it is not given. -/
def valueOr (arguments : Arguments) (name default : String) : String :=
  (arguments.value? name).getD default

/-- The integer value of an option. Taking the words of a line has made sure
that there is one if the option is given (`accepts`). -/
def integer? (arguments : Arguments) (name : String) : Option Int :=
  (arguments.value? name).bind Text.integer?

/-- Whether a flag is given. -/
def has (arguments : Arguments) (name : String) : Bool :=
  !(arguments.values name).isEmpty

end Arguments

/-! ## Reading single words -/

/-- Whether a word looks like a negative number; a line feed at its end does not
matter. -/
def isNegativeNumber (word : List Char) : Bool :=
  let isDigit (c : Char) : Bool := (Text.decimalDigit? c).isSome
  -- the end of a line counts as the end of a word
  let body := if word.getLast? == some '\n' then word.dropLast else word
  match body with
  | '-' :: number =>
      let after := number.dropWhile isDigit
      match after with
      | [] => !number.isEmpty
      | '.' :: places => !places.isEmpty && places.all isDigit
      | _ => false
  | _ => false

/-- The part of a word before its first equal sign, and the part after it if
there is one. -/
def splitValue (word : List Char) : String × Option String :=
  let name := String.ofList (word.takeWhile fun c => c != '=')
  match word.dropWhile fun c => c != '=' with
  | [] => (name, none)
  | _ :: value => (name, some (String.ofList value))

/-- The readings of a word that starts with a dash as a shortened option. With
two dashes the word may be the start of a full name, with a value behind an
equal sign; with one dash it is a one-letter option with its value attached. -/
def shortened (specs : List OptionSpec) (word : List Char) : List Word :=
  match word with
  | '-' :: '-' :: _ =>
      let (start, value) := splitValue word
      (specs.filter fun spec => start.toList.isPrefixOf spec.name.toList).map fun spec =>
        .option (some spec) value
  | '-' :: letter :: more =>
      (specs.filter fun spec => spec.name.toList == ['-', letter]).map fun spec =>
        .option (some spec) (some (String.ofList more))
  | _ => []

/-- What a word that starts with a dash is taken for when no option has it as
its name; a word that could be several options is nothing. -/
def readDashed (specs : List OptionSpec) (text : String) : Option Word :=
  match shortened specs text.toList with
  | [word] => some word
  | _ :: _ :: _ => none
  | [] =>
      if isNegativeNumber text.toList || text.toList.contains ' ' then some (.operand text)
      else some (.option none none)

/-- What a word is taken for. Full names of options are tried before shortened
ones, and a word without a dash in front, or with nothing behind it, is an
operand. -/
def readWord (specs : List OptionSpec) (text : String) : Option Word :=
  match text.toList with
  | '-' :: _ :: _ =>
      match specs.find? fun spec => spec.name == text with
      | some spec => some (.option (some spec) none)
      | none =>
          -- a whole name comes first; then the name may end at an equals sign
          match splitValue text.toList with
          | (name, some value) =>
              match specs.find? fun spec => spec.name == name with
              | some spec => some (.option (some spec) (some value))
              | none => readDashed specs text
          | (_, none) => readDashed specs text
  | _ => some (.operand text)

/-- What the words of a command line are taken for, or nothing if one of
them could be several options. Behind a lone pair of dashes all words are
operands. -/
def readWords (specs : List OptionSpec) : List String → Option (List Word)
  | [] => some []
  | text :: rest =>
      if text = "--" then some (.separator :: rest.map .operand)
      else
        match readWord specs text with
        | none => none
        | some word => (readWords specs rest).map fun words => word :: words

/-! ## Taking the words of a line -/

/-- Whether a text is a value of an option. -/
def accepts (kind : OptionKind) (value : String) : Bool :=
  match kind with
  | .integer => (Text.integer? value).isSome
  | _ => true

/-- Takes the value of an option that is no flag. A value that the option does
not accept spoils the line. -/
def store (spec : OptionSpec) (value : String) (arguments : Arguments) : Option Arguments :=
  if accepts spec.kind value then
    some { arguments with given := arguments.given ++ [(spec.name, value)] }
  else none

/-- What is left once all options are taken: at most the operand, with a
separator before or after it. -/
def takeOperand (words : List Word) (arguments : Arguments) : Option Arguments :=
  match arguments.operand, words with
  | _, [] => some arguments
  | none, [.operand text] => some { arguments with operand := some text }
  | none, [.separator] => some arguments
  | none, [.separator, .operand text] => some { arguments with operand := some text }
  | none, [.operand text, .separator] => some { arguments with operand := some text }
  | _, _ => none

/-- Whether some word is an option. Operands are taken differently as long as
there is one to come. -/
def hasOption (words : List Word) : Bool :=
  words.any fun word =>
    match word with
    | .option _ _ => true
    | _ => false

/-- Whether the value attached to a help option repeats it: a row of letters `h`
behind the short option is as many requests for help. -/
def repeatsHelp (spec : OptionSpec) (value : String) : Bool :=
  spec.name == "-h" && !value.isEmpty && value.toList.all (· == 'h')

/-- Takes words from the left, an option together with its value. `extra` tells
that some word before had no meaning, which spoils the line unless it asks for
help further on. -/
def takeWords (arguments : Arguments) (extra : Bool) : List Word → Request
  | [] => if extra then .invalid else .run arguments
  | .option none _ :: rest => takeWords arguments true rest
  | .option (some spec) value :: rest =>
      match spec.kind, value with
      -- a help option ends the line at once, whatever follows
      | .help, none => .help
      | .help, some more => if repeatsHelp spec more then .help else .invalid
      | .flag, none =>
          takeWords { arguments with given := arguments.given ++ [(spec.name, "")] } extra rest
      | .flag, some _ => .invalid
      | _, some value =>
          match store spec value arguments with
          | some arguments => takeWords arguments extra rest
          | none => .invalid
      | _, none =>
          match rest with
          | .operand value :: rest =>
              match store spec value arguments with
              | some arguments => takeWords arguments extra rest
              | none => .invalid
          | _ => .invalid
  | word :: rest =>
      if hasOption rest then
        -- with options still to come only the first operand is taken
        match word, arguments.operand with
        | .operand text, none => takeWords { arguments with operand := some text } extra rest
        | _, _ => takeWords arguments true rest
      else
        match takeOperand (word :: rest) arguments with
        | some arguments => if extra then .invalid else .run arguments
        | none => .invalid

/-- Whether all options are given that must be. -/
def isComplete (specs : List OptionSpec) (arguments : Arguments) : Bool :=
  specs.all fun spec => !spec.required || arguments.has spec.name

/-- What the words of a command line ask for. Words that ask for help do so even
if an option that must be given is missing. -/
def readRequest (specs : List OptionSpec) (argv : List String) : Request :=
  match readWords specs argv with
  | none => .invalid
  | some words =>
      match takeWords {} false words with
      | .run arguments => if isComplete specs arguments then .run arguments else .invalid
      | other => other

end CommandLine

end JsonSelection
