import PageGraph.CommandLine.Basic
import PageGraph.Text.Decimal
import PageGraph.Text.Search

/-!
# Reading a command line

A command line has two levels: words before the command and words after it. Both levels know the global
options, and the lower one those of its command. An option is written `--name value`, `--name=value`, `-n value` or
`-nvalue`, and several options of one letter may share a dash. After `--` no word is an option.

A value that stands in a word of its own is looked at only when the next option, page or end of the level comes
(`Reading.settle`), so a fault in a later word can be found before a fault in the value. Each level has to be
without conflicts by itself; where both give an option the lower one counts.
-/

namespace PageGraph.CommandLine

/-- The names of the commands. -/
inductive CommandName where
  | raw
  | shallow
  | deep
  | tree
  deriving DecidableEq, Repr

/-- The command that a word names. -/
def CommandName.ofWord? : String → Option CommandName
  | "raw" => some .raw
  | "shallow" => some .shallow
  | "deep" => some .deep
  | "tree" => some .tree
  | _ => none

/-- The word that asks for help in the place of a command. -/
def helpWord : String := "help"

/-- Whether a word can stand in the place of a command. -/
def isCommandWord (word : String) : Bool := word = helpWord || (CommandName.ofWord? word).isSome

/-- The level of a word: before the command, or after it. -/
abbrev Level := Option CommandName

/-! ### Options -/

/-- What an option takes. -/
inductive Shape where
  /-- Nothing: it is given or not. -/
  | flag
  /-- A text that is not empty. -/
  | path
  | text
  /-- A natural number of 64 bits. -/
  | count
  deriving DecidableEq, Repr

/-- The options. -/
inductive OptionName where
  | help
  | version
  | verbose
  | quiet
  | configuration
  | storesDir
  | outputDir
  | records
  | summary
  | depth
  | format
  deriving DecidableEq, Repr

namespace OptionName

/-- The name after two dashes. -/
def long : OptionName → String
  | .help => "help"
  | .version => "version"
  | .verbose => "verbose"
  | .quiet => "quiet"
  | .configuration => "config"
  | .storesDir => "stores-dir"
  | .outputDir => "output-dir"
  | .records => "records"
  | .summary => "summary"
  | .depth => "depth"
  | .format => "format"

/-- The letter after one dash. -/
def short? : OptionName → Option Char
  | .help => some 'h'
  | .version => some 'V'
  | .verbose => some 'v'
  | .quiet => some 'q'
  | .configuration => some 'c'
  | .outputDir => some 'o'
  | .depth => some 'd'
  | .format => some 'f'
  | .storesDir | .records | .summary => none

/-- What an option takes. -/
def shape : OptionName → Shape
  | .help | .version | .verbose | .quiet | .summary => .flag
  | .configuration | .storesDir | .outputDir | .records => .path
  | .depth => .count
  | .format => .text

/-- The options that both levels know. -/
def global : List OptionName := [.help, .verbose, .quiet, .configuration, .storesDir, .outputDir]

/-- The options of a level. -/
def ofLevel : Level → List OptionName
  | none => .version :: global
  | some .raw => global
  | some .shallow => .records :: global
  | some .deep => [.records, .summary] ++ global
  | some .tree => [.depth, .format, .records] ++ global

end OptionName

/-- The value of an option. -/
inductive Value where
  | present
  | text (value : String)
  | count (value : Nat)
  deriving DecidableEq, Repr

/-- The number that a text writes: digits, after a plus sign or not, for a number of 64 bits. -/
def count? (text : String) : Option Nat :=
  let digits :=
    match text.toList with
    | '+' :: rest => rest
    | all => all
  if digits.isEmpty ∨ !digits.all Char.isDigit then none
  else if Text.Decimal.value digits < UInt64.size then some (Text.Decimal.value digits)
  else none

/-- The value that a text stands for. -/
def Shape.value : Shape → String → Except Usage Value
  | .flag, _ => .ok .present
  | .path, value => if value.isEmpty then .error .valueMissing else .ok (.text value)
  | .text, value => .ok (.text value)
  | .count, value => ((count? value).map Value.count).elim (.error .valueInvalid) .ok

/-! ### Words -/

/-- What is known of a level after some of its words. -/
structure Reading where
  /-- The options that are settled, in the order in which they were given. -/
  given : List (OptionName × Value) := []
  /-- An option whose value is still to come or not looked at yet. -/
  pending : Option (OptionName × Option String) := none
  page : Option String := none
  /-- Whether `--` has come. -/
  wordsOnly : Bool := false
  deriving DecidableEq, Repr

namespace Reading

/-- Whether an option is settled. -/
def has (reading : Reading) (option : OptionName) : Bool := (reading.given.lookup option).isSome

/-- Gives an option a value, once. -/
def give (reading : Reading) (option : OptionName) (text : String) : Except Usage Reading := do
  if reading.has option then .error .conflict
  else .ok { reading with given := reading.given ++ [(option, ← option.shape.value text)] }

/-- Looks at the option that is pending. -/
def settle (reading : Reading) : Except Usage Reading :=
  match reading.pending with
  | none => .ok reading
  | some (_, none) => .error .valueMissing
  | some (option, some text) => give { reading with pending := none } option text

/-- Takes an option without a value. -/
def raise (reading : Reading) (option : OptionName) : Except Usage Reading := do
  let reading ← reading.settle
  match option with
  | .help => .error .help
  | .version => .error .version
  | option => reading.give option ""

/-- Takes an option with a value, which is attached to it or comes in the next word. -/
def expect (reading : Reading) (option : OptionName) (attached : Option String) : Except Usage Reading := do
  let reading ← reading.settle
  match attached with
  | some text => reading.give option text
  | none => .ok { reading with pending := some (option, none) }

/-- Takes a word with two dashes: a name, and a value after the first `=` if there is one. -/
def long (level : Level) (reading : Reading) (word : List Char) : Except Usage Reading :=
  let (name, attached) :=
    match Text.splitAtFirst? ['='] word with
    | some (name, value) => (name, some (String.ofList value))
    | none => (word, none)
  match (OptionName.ofLevel level).find? fun option => option.long.toList = name with
  | none => .error .argumentUnknown
  | some option =>
    if option.shape ≠ .flag then reading.expect option attached
    else if attached.isSome then .error .valueUnexpected
    else reading.raise option

/-- Takes a word with one dash: letters, up to the first one whose option takes the rest as its value. -/
def short (level : Level) (reading : Reading) : List Char → Except Usage Reading
  | [] => .ok reading
  | letter :: rest =>
    match (OptionName.ofLevel level).find? fun option => option.short? = some letter with
    | none => .error .argumentUnknown
    | some option =>
      if option.shape = .flag then do short level (← reading.raise option) rest
      else
        match rest with
        | [] => reading.expect option none
        | '=' :: value => reading.expect option (some (String.ofList value))
        | value => reading.expect option (some (String.ofList value))

/-- Takes a word that is neither an option nor a value. Only a tree has a place for one: its page. -/
def positional (level : Level) (reading : Reading) (word : String) : Except Usage Reading := do
  match level with
  | some .tree =>
    if reading.page.isSome then .error .argumentUnknown
    else
      let reading ← reading.settle
      .ok { reading with page := some word }
  | some _ => .error .argumentUnknown
  | none =>
    if reading.wordsOnly ∧ isCommandWord word then .error .argumentUnknown else .error .commandUnknown

/-- Takes the next word of a level. -/
def next (level : Level) (reading : Reading) (word : String) : Except Usage Reading :=
  if reading.wordsOnly then reading.positional level word
  else
    match word.toList with
    | ['-', '-'] => .ok { reading with wordsOnly := true }
    | '-' :: '-' :: rest => reading.long level rest
    | '-' :: c :: rest => reading.short level (c :: rest)
    | _ =>
      match reading.pending with
      | some (option, none) => .ok { reading with pending := some (option, some word) }
      | _ => reading.positional level word

/-- Whether the next word is the value of an option. -/
def awaitsValue (reading : Reading) : Bool := reading.pending.any fun (_, text) => text.isNone

/-- Whether the next word may be a command. -/
def takesCommand (level : Level) (reading : Reading) : Bool :=
  level.isNone && !reading.wordsOnly && !reading.awaitsValue

/-- The answer to a call for help: help on a command, if the words name one. -/
def helpOn : List String → Usage
  | [] => .help
  | [word] => if isCommandWord word then .help else .commandUnknown
  | _ => .commandUnknown

/-- Takes the words of a level, up to a command, which is given back with the words after it. -/
def words (level : Level) (reading : Reading) :
    List String → Except Usage (Reading × Option (CommandName × List String))
  | [] => .ok (reading, none)
  | word :: rest =>
    if reading.takesCommand level ∧ word = helpWord then .error (helpOn rest)
    else
      match if reading.takesCommand level then CommandName.ofWord? word else none with
      | some command => .ok (reading, some (command, rest))
      | none => do words level (← reading.next level word) rest

/-- Ends a level: the last value is settled, and the level is without conflicts. -/
def finish (reading : Reading) : Except Usage Reading := do
  let reading ← reading.settle
  if reading.has .verbose ∧ reading.has .quiet then .error .conflict else .ok reading

end Reading

/-! ### Invocations -/

/-- The options of both levels, the lower one before the upper one. -/
def Reading.merge (lower upper : Reading) : List (OptionName × Value) := lower.given ++ upper.given

/-- The text that an option is given. -/
def textOf? (given : List (OptionName × Value)) (option : OptionName) : Option String :=
  match given.lookup option with
  | some (.text value) => some value
  | _ => none

/-- The number that an option is given. -/
def countOf? (given : List (OptionName × Value)) (option : OptionName) : Option Nat :=
  match given.lookup option with
  | some (.count value) => some value
  | _ => none

/-- How a tree is shown unless the command line says it. -/
def defaultFormat : String := "tree"

/-- The command that was named, with its options and its page. -/
def commandOf (name : CommandName) (given : List (OptionName × Value)) (page : Option String) :
    Except Usage Command :=
  let saved := textOf? given .records
  match name with
  | .raw => .ok .raw
  | .shallow => .ok (.shallow saved)
  | .deep => .ok (.deep saved (given.lookup .summary).isSome)
  | .tree =>
    match page with
    | none => .error .argumentMissing
    | some page => .ok (.tree page (countOf? given .depth) ((textOf? given .format).getD defaultFormat) saved)

/-- What a command line asks for. -/
def parse (words : List String) : Except Usage Invocation := do
  match ← Reading.words none {} words with
  | (upper, none) =>
    let upper ← upper.settle
    if upper.given.isEmpty then .error .nothingGiven else .error .commandMissing
  | (upper, some (name, rest)) =>
    let (lower, _) ← Reading.words (some name) {} rest
    let lower ← lower.finish
    let command ← commandOf name lower.given lower.page
    let upper ← upper.finish
    let given := lower.merge upper
    .ok {
      command
      quiet := (given.lookup .quiet).isSome
      configuration := textOf? given .configuration
      storesDir := textOf? given .storesDir
      outputDir := textOf? given .outputDir }

end PageGraph.CommandLine
