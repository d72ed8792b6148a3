import Patchwork.Text.Blank
/-!
Options and operands on a command line. An option has a long name, and perhaps a letter; letters may
be put together behind one hyphen. Whatever does not begin with a hyphen is an operand or the value
of the option before it, and after two hyphens everything is an operand.

Arguments are taken from left to right, so the first thing that is wrong, or that asks for help,
decides.
-/
namespace Patchwork.CommandLine

/-- What is wrong with a command line. -/
inductive ArgumentError where
  | unknownOption (option : String)
  | missingValue (option : String)
  | unexpectedValue (option : String)
  | invalidValue (option value : String)
  | repeatedOption (option : String)
  | conflict (option other : String)
  | missingOperand (operand : String)
  | extraOperand (value : String)
  | unknownCommand (name : String)
  | noCommand
deriving DecidableEq, Repr

/-- The wording of what is wrong. -/
def ArgumentError.text : ArgumentError → String
  | unknownOption option => "unknown option '" ++ option ++ "'"
  | missingValue option => "option '--" ++ option ++ "' needs a value"
  | unexpectedValue option => "option '--" ++ option ++ "' takes no value"
  | invalidValue option value => "'" ++ value ++ "' is no value for '--" ++ option ++ "'"
  | repeatedOption option => "option '--" ++ option ++ "' is given twice"
  | conflict option other =>
    "options '--" ++ option ++ "' and '--" ++ other ++ "' exclude each other"
  | missingOperand operand => operand ++ " is missing"
  | extraOperand value => "unexpected argument '" ++ value ++ "'"
  | unknownCommand name => "unknown command '" ++ name ++ "'"
  | noCommand => "no command is given"

/-- Why no command is run. -/
inductive Stop where
  | help
  | version
  | invalid (error : ArgumentError)
deriving DecidableEq, Repr

/-- What an option is followed by. -/
inductive OptionValue where
  /-- Nothing; the option is there or not. -/
  | flag
  /-- Nothing, since the option ends the command line. -/
  | stop (reason : Stop)
  /-- A value of some form. -/
  | required (accepts : String → Bool)
  /-- A value of some form, or nothing, which stands for a usual value. -/
  | optional (accepts : String → Bool) (usual : String)

/-- An option. -/
structure OptionSpec where
  name : String
  letter : Option Char
  value : OptionValue
  /-- Whether it may be given more than once. -/
  repeatable : Bool

/-- Options that were given with their values; the value of a flag is empty. -/
abbrev Given := List (String × String)

/-- Whether an option was given. -/
def Given.has (g : Given) (name : String) : Bool := (g.lookup name).isSome

/-- Whether an argument is no option. -/
def isOperand (arg : String) : Bool := arg == "-" || !Text.startsWith "-" arg

namespace OptionSpec

/-- A value that an option accepts. -/
def accepted (spec : OptionSpec) (accepts : String → Bool) (value : String) :
    Except Stop String :=
  if accepts value then .ok value else .error (.invalid (.invalidValue spec.name value))

/-- The value of an option, which is attached to it or the next argument, and how many arguments it
takes. -/
def take (spec : OptionSpec) (attached : Option String) (rest : List String) :
    Except Stop (String × Nat) :=
  match attached with
  | some value =>
    match spec.value with
    | .required accepts | .optional accepts _ => return (← spec.accepted accepts value, 0)
    | _ => throw (.invalid (.unexpectedValue spec.name))
  | none =>
    let next := rest.head?.filter isOperand
    match spec.value, next with
    | .flag, _ => return ("", 0)
    | .stop reason, _ => throw reason
    | .required accepts, some value | .optional accepts _, some value =>
      return (← spec.accepted accepts value, 1)
    | .required _, none => throw (.invalid (.missingValue spec.name))
    | .optional _ usual, none => return (usual, 0)

/-- Adds an option to those that were given. -/
def add (spec : OptionSpec) (given : Given) (value : String) : Except Stop Given :=
  if given.has spec.name ∧ !spec.repeatable then .error (.invalid (.repeatedOption spec.name))
  else .ok ((spec.name, value) :: given)

/-- Whether letters can be followed by other letters. -/
def standsAlone (spec : OptionSpec) : Bool :=
  match spec.value with
  | .flag | .stop _ => true
  | _ => false

end OptionSpec

/-- What a taken option leaves: the options given so far, and how many arguments belong to it. -/
abbrev Taken := Given × Nat

/-- Takes an option by its long name, which follows two hyphens. -/
def takeNamed (specs : List OptionSpec) (given : Given) (body : String) (rest : List String) :
    Except Stop Taken := do
  let (name, attached) := match Text.splitOnce? "=" body with
    | some (name, value) => (name, some value)
    | none => (body, none)
  match specs.find? (·.name == name) with
  | none => throw (.invalid (.unknownOption ("--" ++ name)))
  | some spec =>
    let (value, count) ← spec.take attached rest
    return (← spec.add given value, count)

/-- Takes options by letters, which follow one hyphen. What follows the letter of an option with a
value is the value, with or without a sign between them. -/
def takeLetters (specs : List OptionSpec) (rest : List String) :
    Given → List Char → Except Stop Taken
  | given, [] => return (given, 0)
  | given, c :: cs => do
    match specs.find? (·.letter == some c) with
    | none => throw (.invalid (.unknownOption ("-" ++ String.singleton c)))
    | some spec =>
      if spec.standsAlone then
        let (value, _) ← spec.take none rest
        takeLetters specs rest (← spec.add given value) cs
      else
        let attached := match cs with
          | [] => none
          | '=' :: value => some (String.ofList value)
          | value => some (String.ofList value)
        let (value, count) ← spec.take attached rest
        return (← spec.add given value, count)

/-- Takes an option. -/
def takeOption (specs : List OptionSpec) (given : Given) (arg : String) (rest : List String) :
    Except Stop Taken :=
  match arg.toList with
  | '-' :: '-' :: body => takeNamed specs given (String.ofList body) rest
  | _ :: letters => takeLetters specs rest given letters
  | [] => return (given, 0)

theorem length_drop_lt {α : Type} (x : α) (xs : List α) (n : Nat) :
    (xs.drop n).length < (x :: xs).length := by
  rw [List.length_drop, List.length_cons]
  omega

/-- Takes the options in front of the first operand, and gives what is left. -/
def takeLeading (specs : List OptionSpec) (given : Given) :
    List String → Except Stop (Given × List String)
  | [] => return (given, [])
  | arg :: rest => do
    if isOperand arg ∨ arg = "--" then return (given, arg :: rest)
    let (given, count) ← takeOption specs given arg rest
    takeLeading specs given (rest.drop count)
termination_by args => args.length
decreasing_by exact length_drop_lt ..

/-- Adds operands, of which there may be so many. -/
def addOperands (limit : Nat) (operands : List String) : List String → Except Stop (List String)
  | [] => return operands
  | value :: rest =>
    if operands.length < limit then addOperands limit (operands ++ [value]) rest
    else throw (.invalid (.extraOperand value))

/-- Takes all options and operands. -/
def takeAll (specs : List OptionSpec) (limit : Nat) (given : Given) (operands : List String) :
    List String → Except Stop (Given × List String)
  | [] => return (given, operands)
  | arg :: rest => do
    if arg = "--" then return (given, ← addOperands limit operands rest)
    else if isOperand arg then
      takeAll specs limit given (← addOperands limit operands [arg]) rest
    else
      let (given, count) ← takeOption specs given arg rest
      takeAll specs limit given operands (rest.drop count)
termination_by args => args.length
decreasing_by
  · exact Nat.lt_succ_self _
  · exact length_drop_lt ..

end Patchwork.CommandLine
