import XtAsm.Text.Quoted

/-!
# Command line flags

A flag is written by its name after two dashes or by its letter after one.  A switch is on or off;
every other flag takes a value.  Letters can be put together, and everything after a bare pair of
dashes is an argument.

* `Flag`, `FlagError`;
* `parseFlags`: the flags and arguments of a command line.
-/

namespace XtAsm.CommandLine

/-- A flag.  One without a default value is a switch, which is off by default. -/
structure Flag where
  name : Text
  letter? : Option UInt8
  default? : Option Text
  usage : Text
  deriving DecidableEq

namespace Flag

/-- The flag takes no value. -/
def isSwitch (f : Flag) : Bool := f.default?.isNone

/-- The ways to write a flag. -/
def render (f : Flag) : Text :=
  match f.letter? with
  | some letter => "-" ++ [letter] ++ ", --" ++ f.name
  | none => "--" ++ f.name

end Flag

/-- What can be wrong with the flags of a command line. -/
inductive FlagError
  | badSyntax (argument : Text)
  | unknownName (name : Text)
  | unknownLetter (letter : UInt8) (letters : Text)
  | missingValue (argument : Text)
  | missingLetterValue (letter : UInt8) (letters : Text)
  | invalidSwitch (flag : Flag) (value : Text)
  deriving DecidableEq

namespace FlagError

/-- A letter between single quotes. -/
def quotedLetter (b : UInt8) : Text :=
  let c := Char.ofNat b.toNat
  let inner := if c = '\'' then ['\\', c] else if c = '"' then [c] else Text.quotedChar c
  Text.ofChars ('\'' :: inner ++ ['\''])

/-- The description of the defect. -/
def message : FlagError → Text
  | .badSyntax argument => "bad flag syntax: " ++ argument
  | .unknownName name => "unknown flag: --" ++ name
  | .unknownLetter letter letters =>
    "unknown shorthand flag: " ++ quotedLetter letter ++ " in -" ++ letters
  | .missingValue argument => "flag needs an argument: " ++ argument
  | .missingLetterValue letter letters =>
    "flag needs an argument: " ++ quotedLetter letter ++ " in -" ++ letters
  | .invalidSwitch flag value =>
    "invalid argument " ++ value.quoted ++ " for " ++ flag.render.quoted ++
      " flag: strconv.ParseBool: parsing " ++ value.quoted ++ ": invalid syntax"

end FlagError

/-- The state of a switch, as written. -/
def switchValue? (value : Text) : Option Bool :=
  if (["1", "t", "T", "true", "TRUE", "True"] : List Text).contains value then some true
  else if (["0", "f", "F", "false", "FALSE", "False"] : List Text).contains value then some false
  else none

/-- The value of a switch that is on. -/
def on : Text := "true"

/-- The values of flags, the last one first, and the arguments in order. -/
structure Parsed where
  values : List (Text × Text)
  arguments : List Text
  deriving DecidableEq

namespace Parsed

/-- The value of a flag that takes one. -/
def value (p : Parsed) (f : Flag) : Text :=
  ((p.values.find? fun v => v.1 = f.name).map (·.2)).getD (f.default?.getD [])

/-- The state of a switch. -/
def isOn (p : Parsed) (f : Flag) : Bool := (switchValue? (p.value f)).getD false

end Parsed

/-- A value for a flag; the value of a switch has to be a state. -/
def assign (f : Flag) (value : Text) : Except FlagError (Text × Text) :=
  if f.isSwitch && (switchValue? value).isNone then .error (.invalidSwitch f value)
  else .ok (f.name, value)

/-- A flag written by its name: the name, and the value after an equals sign. -/
def splitName (t : Text) : Text × Option Text :=
  let name := t.takeWhile (· ≠ 61)
  (name, if name.length < t.length then some (t.drop (name.length + 1)) else none)

/-- What the letters after a dash assign, and whether the last one takes its value from the next
argument. -/
def parseLetters (flags : List Flag) (next? : Option Text) :
    Text → Except FlagError (List (Text × Text) × Bool)
  | [] => .ok ([], false)
  | letter :: rest =>
    match flags.find? fun f => f.letter? = some letter with
    | none => .error (.unknownLetter letter (letter :: rest))
    | some f =>
      match rest with
      | 61 :: value :: more => do
        return ([← assign f (value :: more)], false)
      | _ =>
        if f.isSwitch then do
          let (values, taken) ← parseLetters flags next? rest
          return ((f.name, on) :: values, taken)
        else if rest ≠ [] then do
          return ([← assign f rest], false)
        else match next? with
          | some value => do
            return ([← assign f value], true)
          | none => .error (.missingLetterValue letter (letter :: rest))

/-- What a flag written by its name assigns, and whether it takes its value from the next
argument. -/
def parseName (flags : List Flag) (next? : Option Text) (argument : Text) :
    Except FlagError ((Text × Text) × Bool) :=
  let t := argument.drop 2
  if t.head? = some 45 ∨ t.head? = some 61 then .error (.badSyntax argument)
  else
    let (name, value?) := splitName t
    match flags.find? fun f => f.name = name, value? with
    | none, _ => .error (.unknownName name)
    | some f, some value => do
      return (← assign f value, false)
    | some f, none =>
      if f.isSwitch then .ok ((f.name, on), false)
      else match next? with
        | some value => do
          return (← assign f value, true)
        | none => .error (.missingValue argument)

/-- How one argument is read: as an argument, as the end of the flags, or as values of flags. -/
inductive Reading
  | argument
  | endOfFlags
  | values (values : List (Text × Text)) (tookNext : Bool)

/-- How an argument is read, given the one after it.  Letters that start a test flag are passed
over. -/
def readArgument (flags : List Flag) (next? : Option Text) (argument : Text) :
    Except FlagError Reading :=
  match argument with
  | 45 :: 45 :: [] => .ok .endOfFlags
  | 45 :: 45 :: _ => do
    let (value, tookNext) ← parseName flags next? argument
    return .values [value] tookNext
  | 45 :: letter :: rest =>
    if (Text.ofString "test.").isPrefixOf (letter :: rest) then .ok (.values [] false)
    else do
      let (values, tookNext) ← parseLetters flags next? (letter :: rest)
      return .values values tookNext
  | _ => .ok .argument

/-- The flags and arguments of a command line, given those read before. -/
def parseFrom (flags : List Flag) (before : Parsed) : List Text → Except FlagError Parsed
  | [] => .ok before
  | [argument] => do
    match ← readArgument flags none argument with
    | .argument => return { before with arguments := before.arguments ++ [argument] }
    | .endOfFlags => return before
    | .values values _ => return { before with values := values.reverse ++ before.values }
  | argument :: next :: rest => do
    match ← readArgument flags (some next) argument with
    | .argument =>
      parseFrom flags { before with arguments := before.arguments ++ [argument] } (next :: rest)
    | .endOfFlags => return { before with arguments := before.arguments ++ next :: rest }
    | .values values tookNext =>
      let after : Parsed := { before with values := values.reverse ++ before.values }
      if tookNext then parseFrom flags after rest else parseFrom flags after (next :: rest)

/-- The flags and arguments of a command line. -/
def parseFlags (flags : List Flag) (arguments : List Text) : Except FlagError Parsed :=
  parseFrom flags ⟨[], []⟩ arguments

end XtAsm.CommandLine
