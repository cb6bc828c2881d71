import StyleGuide.CommandLine.Use
import StyleGuide.Config.Settings
import StyleGuide.Path

/-! # Command lines -/

namespace StyleGuide

namespace CommandLine

/-- What a command line asks for. -/
structure Options where
  /-- The files and directories to check. -/
  inputs : List Path := []
  verbose : Nat := 0
  quiet : Nat := 0
  everyOccurrence : Bool := false
  showSource : Bool := false
  showGuidance : Bool := false
  /-- Print the counts of the codes. -/
  statistics : Bool := false
  /-- Print the number of violations. -/
  count : Bool := false
  /-- Print the speed. -/
  benchmark : Bool := false
  /-- Check the examples of the rules. -/
  doctest : Bool := false
  fix : Bool := false
  inPlace : Bool := false
  exclude : Option (List String) := none
  filename : Option (List String) := none
  select : Option (List String) := none
  ignore : Option (List String) := none
  /-- The directory of fixture files. -/
  testsuite : Option Path := none
  /-- The settings document to read. -/
  config : Option Path := none
  maxLineLength : Option Nat := none
  tabSize : Option Nat := none
  /-- The number of files to check at a time. It does not change any answer. -/
  jobs : Option Nat := none
  deriving Repr, DecidableEq

/-- Why a command line is not carried out. -/
inductive Stop where
  | help
  | version
  | misuse (error : UsageError)
  deriving Repr, DecidableEq, BEq

/-- The highest count of a flag that counts. -/
def countLimit : Nat := 255

/-- A path, which must not be empty. -/
def path (value : Text) : Except UsageError Path :=
  if value.isEmpty then .error .emptyPath else .ok value

/-- A number of 64 bits, perhaps with a plus sign. -/
def number (value : Text) : Except UsageError Nat :=
  let digits := if value.head? = some '+' then value.drop 1 else value
  let n := digits.foldl (fun n c => n * 10 + (c.toNat - 48)) 0
  if digits.isEmpty || !digits.all Char.isDigit || UInt64.size ≤ n then .error (.notANumber value)
  else .ok n

/-- A list of items with commas between them. -/
def list (value : Text) : List String := splitList (String.ofList value)

namespace Options

/-- Refuse a switch that has been used before. -/
def once (isUsed : Bool) : Except UsageError Unit :=
  if isUsed then .error .repeatedSwitch else .ok ()

/-- Take in the value of a parameter. -/
def setParameter (o : Options) (value : Text) : Parameter → Except UsageError Options
  | .exclude => do once o.exclude.isSome; return { o with exclude := some (list value) }
  | .filename => do once o.filename.isSome; return { o with filename := some (list value) }
  | .select => do once o.select.isSome; return { o with select := some (list value) }
  | .ignore => do once o.ignore.isSome; return { o with ignore := some (list value) }
  | .testsuite => do once o.testsuite.isSome; return { o with testsuite := some (← path value) }
  | .maxLineLength => do
    once o.maxLineLength.isSome
    return { o with maxLineLength := some (← number value) }
  | .tabSize => do once o.tabSize.isSome; return { o with tabSize := some (← number value) }
  | .config => do once o.config.isSome; return { o with config := some (← path value) }
  | .jobs => do once o.jobs.isSome; return { o with jobs := some (← number value) }

/-- Take in a flag. -/
def setFlag (o : Options) : Flag → Except Stop Options
  | .help => .error .help
  | .version => .error .version
  | .verbose => .ok { o with verbose := min countLimit (o.verbose + 1) }
  | .quiet => .ok { o with quiet := min countLimit (o.quiet + 1) }
  | .everyOccurrence => change o.everyOccurrence { o with everyOccurrence := true }
  | .showSource => change o.showSource { o with showSource := true }
  | .showGuidance => change o.showGuidance { o with showGuidance := true }
  | .statistics => change o.statistics { o with statistics := true }
  | .count => change o.count { o with count := true }
  | .benchmark => change o.benchmark { o with benchmark := true }
  | .doctest => change o.doctest { o with doctest := true }
  | .fix => change o.fix { o with fix := true }
  | .inPlace => change o.inPlace { o with inPlace := true }
where
  /-- Change the options, unless they have been changed so before. -/
  change (isUsed : Bool) (changed : Options) : Except Stop Options :=
    ((once isUsed).mapError .misuse).map fun _ => changed

/-- Take in one use. -/
def add (o : Options) : Use → Except Stop Options
  | .flag f => o.setFlag f
  | .value p value => (o.setParameter value p).mapError .misuse
  | .nextValue p (some value) => (o.setParameter value p).mapError .misuse
  | .nextValue _ none => .error (.misuse .missingValue)
  | .inputs values =>
    ((values.mapM path).mapError .misuse).map fun paths => { o with inputs := o.inputs ++ paths }
  | .mistake e => .error (.misuse e)

/-- The options of a command line, or the first reason why it is not carried out. -/
def ofArguments (arguments : List Text) : Except Stop Options :=
  (Use.judged (Use.ofArguments arguments)).foldlM add {}

/-- The settings that the options ask for. Selected codes and self tests put an end to ignored
    codes. -/
def settings (o : Options) : Settings :=
  let asked (flag : Bool) : Option Bool := if flag then some true else none
  { select := o.select
    ignore := o.ignore <|>
      if o.select.isSome || o.doctest || o.testsuite.isSome then some [] else none
    maxLineLength := o.maxLineLength
    tabSize := o.tabSize
    everyOccurrence := asked o.everyOccurrence
    fix := asked o.fix
    inPlace := asked o.inPlace
    showSource := asked o.showSource
    showGuidance := asked o.showGuidance
    exclude := o.exclude
    filename := o.filename }

end Options

end CommandLine

end StyleGuide
