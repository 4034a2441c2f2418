import PipelineMigration.Keyed
import PipelineMigration.Text.Basic
set_option autoImplicit false

/- The words behind a command, taken apart by the form of the command. An option is written with
   its name and two dashes, or with one dash and its letter; letters may stand together, and a
   value follows its option, behind an equals sign or in the same word. After two dashes alone
   nothing is an option. -/
namespace PipelineMigration.CommandLine

structure OptionForm where
  name : Text
  letter : Option Char := none
  takesValue : Bool := true
deriving DecidableEq

/-- What a command takes. -/
structure CommandForm where
  options : List OptionForm
  /-- Whether options may follow such words. -/
  mixed : Bool := true

inductive UsageFault where
  | unknownOption | needsValue | takesNoValue | missingArgument | extraArgument | invalidValue
  | unknownCommand | missingCommand
deriving DecidableEq

/-- Words taken apart: the options as they came, with their values, and the others. -/
structure Arguments where
  options : List (Text × Text) := []
  words : List Text := []

namespace CommandForm

def ofName? (form : CommandForm) (name : Text) : Option OptionForm :=
  form.options.find? (·.name == name)

def ofLetter? (form : CommandForm) (letter : Char) : Option OptionForm :=
  form.options.find? (·.letter == some letter)

/-- One option taken from a word, with the words that are left. -/
abbrev Taken := Except UsageFault (List (Text × Text) × List Text)

/-- An option whose name is written out, perhaps with its value. -/
def takeNamed (o : OptionForm) (value : Option Text) (rest : List Text) : Taken :=
  if o.takesValue then match value, rest with
    | some v, rest => .ok ([(o.name, v)], rest)
    | none, v :: rest => .ok ([(o.name, v)], rest)
    | none, [] => .error .needsValue
  else match value with
    | some _ => .error .takesNoValue
    | none => .ok ([(o.name, [])], rest)

/-- Options by their letters; what follows the letter of an option with a value is the value. -/
def takeLetters (form : CommandForm) (rest : List Text) : Text → Taken
  | [] => .ok ([], rest)
  | c :: more => match form.ofLetter? c with
    | none => .error .unknownOption
    | some o =>
      if o.takesValue then
        takeNamed o (if more.isEmpty then none else some more) rest
      else do
        let (options, rest) ← takeLetters form rest more
        pure ((o.name, []) :: options, rest)

def takeOption (form : CommandForm) (word : Text) (rest : List Text) : Taken :=
  let (name, value) := match Text.splitOnce "=" word with
    | some (name, value) => (name, some value)
    | none => (word, none)
  match name with
  | '-' :: '-' :: long => match form.ofName? long with
    | some o => takeNamed o value rest
    | none => .error .unknownOption
  | _ => form.takeLetters rest (word.drop 1)

def isOptionWord : Text → Bool
  | '-' :: _ :: _ => true
  | _ => false

/-- Takes words apart; the fuel bounds their number. -/
def takeWords (form : CommandForm) : Nat → List Text → Except UsageFault Arguments
  | 0, words => .ok { words }
  | _ + 1, [] => .ok {}
  | fuel + 1, word :: rest =>
    if word == "--".toList then .ok { words := rest }
    else if isOptionWord word then do
      let (options, rest) ← form.takeOption word rest
      let more ← form.takeWords fuel rest
      pure { more with options := options ++ more.options }
    else if form.mixed then do
      let more ← form.takeWords fuel rest
      pure { more with words := word :: more.words }
    else .ok { words := word :: rest }

def take (form : CommandForm) (words : List Text) : Except UsageFault Arguments :=
  form.takeWords (words.length + 1) words

end CommandForm

namespace Arguments

def has (name : String) (a : Arguments) : Bool := Keyed.has name.toList a.options

/-- The value of an option, the last one when it is repeated. -/
def value? (name : String) (a : Arguments) : Option Text :=
  Keyed.get? name.toList a.options.reverse

/-- The words that a command needs, neither more nor fewer. -/
def exactly (count : Nat) (a : Arguments) : Except UsageFault (List Text) :=
  if a.words.length < count then .error .missingArgument
  else if count < a.words.length then .error .extraArgument
  else .ok a.words

end Arguments
end PipelineMigration.CommandLine
