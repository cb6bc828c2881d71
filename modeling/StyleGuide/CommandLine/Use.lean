import StyleGuide.CommandLine.Switch

/-! # Uses of switches

The arguments of a command line, taken in order, use switches and name inputs. The value of a
parameter stands in the same argument or is the next one, which then must not look like a switch.
Behind two hyphens that stand alone, every argument is an input.
-/

namespace StyleGuide.CommandLine

/-- What is wrong with a command line. -/
inductive UsageError where
  | unknownSwitch (argument : Text)
  /-- A flag has a value. -/
  | unexpectedValue (argument : Text)
  | missingValue
  | emptyPath
  | notANumber (value : Text)
  /-- A switch that may occur once occurs twice. -/
  | repeatedSwitch
  deriving Repr, DecidableEq, BEq

/-- The error in words. -/
def UsageError.message : UsageError → String
  | .unknownSwitch argument => s!"unexpected argument '{String.ofList argument}' found"
  | .unexpectedValue argument => s!"unexpected value in '{String.ofList argument}' found"
  | .missingValue => "a value is required but none was supplied"
  | .emptyPath => "a path must not be empty"
  | .notANumber value => s!"invalid number '{String.ofList value}'"
  | .repeatedSwitch => "an argument cannot be used multiple times"

/-- The form of an argument. -/
inductive Argument where
  /-- Two hyphens alone. -/
  | separator
  /-- A long name and perhaps a value behind an equals sign. -/
  | named (name : Text) (value : Option Text)
  /-- Letters behind a hyphen, the last of them perhaps with a value. -/
  | lettered (letters : Text)
  | plain (value : Text)
  deriving Repr, DecidableEq

/-- The form of an argument. A hyphen alone is plain. -/
def Argument.ofText : Text → Argument
  | ['-', '-'] => .separator
  | '-' :: '-' :: rest =>
    match Text.cut? ['='] rest with
    | none => .named rest none
    | some (name, value) => .named name (some value)
  | '-' :: letter :: rest => .lettered (letter :: rest)
  | value => .plain value

/-- One thing that a command line asks for. -/
inductive Use where
  | flag (flag : Flag)
  /-- A parameter with its value in the same argument. -/
  | value (parameter : Parameter) (value : Text)
  /-- A parameter with the next argument as its value, if that is plain. -/
  | nextValue (parameter : Parameter) (value : Option Text)
  /-- A run of inputs. -/
  | inputs (values : List Text)
  | mistake (error : UsageError)
  deriving Repr, DecidableEq

namespace Use

/-- What a named argument uses, and the parameter that still needs a value. -/
def named (argument name : Text) (value : Option Text) : List Use × Option Parameter :=
  match Switch.ofName? name, value with
  | none, _ => ([mistake (.unknownSwitch argument)], none)
  | some (.flag f), none => ([flag f], none)
  | some (.flag _), some _ => ([mistake (.unexpectedValue argument)], none)
  | some (.parameter p), none => ([], some p)
  | some (.parameter p), some v => ([Use.value p v], none)

/-- What letters use, and the parameter that still needs a value. The letters behind that of a
    parameter are its value, perhaps with an equals sign in front. -/
def lettered (argument : Text) : Text → List Use × Option Parameter
  | [] => ([], none)
  | letter :: rest =>
    match Switch.ofLetter? letter with
    | none => ([mistake (.unknownSwitch argument)], none)
    | some (.flag f) =>
      let (uses, parameter) := lettered argument rest
      (flag f :: uses, parameter)
    | some (.parameter p) =>
      match rest with
      | [] => ([], some p)
      | '=' :: v => ([Use.value p v], none)
      | v => ([Use.value p v], none)

/-- Put an input in front; it joins a run of inputs. -/
def consInput (input : Text) : List Use → List Use
  | inputs values :: rest => inputs (input :: values) :: rest
  | rest => inputs [input] :: rest

/-- What the arguments of a command line use. -/
def ofArguments : List Text → List Use
  | [] => []
  | argument :: rest =>
    let withValue (uses : List Use × Option Parameter) : List Use :=
      match uses with
      | (uses, none) => uses ++ ofArguments rest
      | (uses, some p) =>
        match rest with
        | [] => uses ++ [nextValue p none]
        | next :: more =>
          match Argument.ofText next with
          | .plain v => uses ++ nextValue p (some v) :: ofArguments more
          | _ => uses ++ nextValue p none :: ofArguments (next :: more)
    match Argument.ofText argument with
    | .separator => if rest.isEmpty then [] else [inputs rest]
    | .named name v => withValue (named argument name v)
    | .lettered letters => withValue (lettered argument letters)
    | .plain v => consInput v (ofArguments rest)

/-- Whether the use is judged only when the next one begins or the command line ends. -/
def isOpen : Use → Bool
  | nextValue .. => true
  | inputs _ => true
  | _ => false

/-- The uses in the order in which they are judged: a mistake comes before an open use in front of
    it. -/
def judged : List Use → List Use
  | [] => []
  | use :: rest =>
    match rest with
    | mistake e :: _ => if use.isOpen then [mistake e] else [use, mistake e]
    | _ => use :: judged rest

end Use

end StyleGuide.CommandLine
