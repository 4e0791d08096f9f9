/- # Command-line options

The arguments are at most one file and two options, each at most once, in any order.  The value of
an option follows it, either after an equals sign or as the next argument, which then must not look
like an option itself.  Two hyphens alone end the options; one hyphen alone is no option.
-/
import BytecodeVm.Machine.Basic
import BytecodeVm.Text.Integer

namespace BytecodeVm.CommandLine

/-- What the arguments ask to be run. -/
structure Options where
  file : Option String
  settings : Settings
  deriving Repr

/-- Why the arguments are refused. -/
inductive UsageError where
  | unknownOption (option : String)
  | repeatedOption (option : String)
  | missingValue (option : String)
  | invalidValue (option value : String)
  | unwantedValue (option : String)
  | surplusArgument (argument : String)
  | emptyFileName
  deriving DecidableEq, Repr

/-- What the user is told. -/
def UsageError.message : UsageError → String
  | unknownOption option => s!"unexpected argument '{option}' found"
  | repeatedOption option => s!"the argument '{option}' cannot be used multiple times"
  | missingValue option => s!"a value is required for '{option}' but none was supplied"
  | invalidValue option value => s!"invalid value '{value}' for '{option}'"
  | unwantedValue option => s!"unexpected value for '{option}' found; no more were expected"
  | surplusArgument argument => s!"unexpected argument '{argument}' found"
  | emptyFileName => "a value is required for '[FILE]' but none was supplied"

/-- The options that take a value. -/
inductive Setting where
  | entry | maxCallDepth
  deriving DecidableEq, Repr

/-- The option that a setting is given by. -/
def Setting.option : Setting → String
  | entry => "--entry"
  | maxCallDepth => "--max-call-depth"

/-- The setting that an option gives. -/
def Setting.ofOption? (option : String) : Option Setting :=
  [entry, maxCallDepth].find? (fun setting => decide (setting.option = option))

/-- What has been gathered from the arguments so far. -/
structure Gathered where
  file : Option String
  entry : Option String
  maxCallDepth : Option Nat

namespace Gathered

/-- Nothing gathered yet. -/
def none : Gathered :=
  ⟨.none, .none, .none⟩

/-- The file comes once, and has a name. -/
def setFile (g : Gathered) (file : String) : Except UsageError Gathered :=
  if g.file.isSome then .error (.surplusArgument file)
  else if file = "" then .error .emptyFileName
  else .ok { g with file := some file }

/-- An option comes once, and its value has to be of its sort. -/
def set (g : Gathered) (value : String) : Setting → Except UsageError Gathered
  | .entry =>
    if g.entry.isSome then .error (.repeatedOption Setting.entry.option)
    else .ok { g with entry := some value }
  | .maxCallDepth =>
    match parseUInt64? value.toList with
    | .none => .error (.invalidValue Setting.maxCallDepth.option value)
    | some n =>
      if g.maxCallDepth.isSome then .error (.repeatedOption Setting.maxCallDepth.option)
      else .ok { g with maxCallDepth := some n }

/-- What was gathered, with the defaults for the rest. -/
def options (g : Gathered) : Options where
  file := g.file
  settings :=
    { entrySuffix := g.entry.getD Settings.default.entrySuffix
      maxDepth := g.maxCallDepth.getD Settings.default.maxDepth }

end Gathered

/-- What the arguments ask for. -/
inductive Command where
  | help
  | run (options : Options)
  deriving Repr

/-- Whether an argument is taken for an option: it starts with a hyphen and is more than that. -/
def looksLikeOption (argument : String) : Bool :=
  match argument.toList with
  | '-' :: _ :: _ => true
  | _ => false

/-- An option and the value attached to it by an equals sign. -/
def splitAttached (argument : String) : String × Option String :=
  let chars := argument.toList
  let option := chars.takeWhile (· ≠ '=')
  match chars.drop option.length with
  | _ :: value => (String.ofList option, some (String.ofList value))
  | [] => (argument, none)

/-- Takes the arguments one by one.  Behind two hyphens alone every argument is a file. -/
def gather (filesOnly : Bool) (g : Gathered) : List String → Except UsageError Command
  | [] => .ok (.run g.options)
  | argument :: rest =>
    if filesOnly || !looksLikeOption argument then do
      gather filesOnly (← g.setFile argument) rest
    else if argument = "--" then gather true g rest
    else if "-h".toList.isPrefixOf argument.toList then .ok .help
    else
      let (option, attached) := splitAttached argument
      match Setting.ofOption? option, attached with
      | some setting, some value => do
        gather false (← g.set value setting) rest
      | some setting, none =>
        match rest with
        | [] => .error (.missingValue option)
        | value :: rest =>
          if looksLikeOption value then .error (.missingValue option)
          else do
            gather false (← g.set value setting) rest
      | none, none => if option = "--help" then .ok .help else .error (.unknownOption option)
      | none, some _ =>
        if option = "--help" then .error (.unwantedValue option) else .error (.unknownOption option)

/-- Reads the arguments. -/
def parse (arguments : List String) : Except UsageError Command :=
  gather false .none arguments

end BytecodeVm.CommandLine
