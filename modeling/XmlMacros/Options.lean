import XmlMacros.Config
import XmlMacros.Decimal.Integer

/-!
# The options of the command line

Words of the command line are options, values of options, substitution arguments (`name:=value`) or
names of files. Short options may be put together behind one hyphen, long ones may be shortened as
long as it is clear which one is meant. Options and file names may stand in any order; after `--`
all words are file names.
-/

namespace XmlMacros

/-- The options that there are. -/
inductive Flag
  | help
  | output
  | inOrder
  | legacy
  | permissive
  | globalProperties
  | workingPath
  | config
  | deps
  | quiet
  | verbose
  | verbosity
deriving DecidableEq, Repr

namespace Flag

/-- All options. -/
def all : List Flag :=
  [.help, .output, .inOrder, .legacy, .permissive, .globalProperties, .workingPath, .config, .deps,
    .quiet, .verbose, .verbosity]

/-- The letter of an option. -/
def letter? : Flag → Option Char
  | .help => some 'h'
  | .output => some 'o'
  | .inOrder => some 'i'
  | .quiet => some 'q'
  | .verbose => some 'v'
  | _ => none

/-- The word of an option. -/
def word? : Flag → Option String
  | .help => some "--help"
  | .inOrder => some "--inorder"
  | .legacy => some "--legacy"
  | .permissive => some "--permissive"
  | .globalProperties => some "--global-properties"
  | .workingPath => some "--working-path"
  | .config => some "--config"
  | .deps => some "--deps"
  | .verbosity => some "--verbosity"
  | .output | .quiet | .verbose => none

/-- Whether an option has a value. -/
def takesValue : Flag → Bool
  | .output | .workingPath | .config | .verbosity => true
  | _ => false

/-- The option with a letter. -/
def ofLetter? (c : Char) : Option Flag :=
  all.find? (·.letter? == some c)

end Flag

/-- Why the command line is not accepted, or does not lead to a run. -/
inductive Refusal
  /-- Help was asked for. -/
  | help
  | unknown (option : String)
  | ambiguous (option : String) (candidates : List String)
  | missingValue (option : String)
  | unwantedValue (option : String)
  | notAnInteger (option value : String)
  | inputCount
deriving DecidableEq, Repr

/-- The wording of a refusal. -/
def Refusal.message : Refusal → String
  | .help => ""
  | .unknown option => "no such option: " ++ option
  | .ambiguous option candidates =>
    "ambiguous option: " ++ option ++ " (" ++ ", ".intercalate candidates ++ "?)"
  | .missingValue option => option ++ " option requires 1 argument"
  | .unwantedValue option => option ++ " option does not take a value"
  | .notAnInteger option value =>
    "option " ++ option ++ ": invalid integer value: " ++ Text.quoted value
  | .inputCount => "expected exactly one input file as argument"

/-- How the program is called. -/
def usageText : String := "Usage: xacro_parser [options] <input>\n"

/-- What the program prints when help is asked for. -/
def helpText : String :=
  usageText ++ "
Options:
  -h, --help           show this help message and exit
  -o FILE              write output to FILE instead of stdout
  -i, --inorder        use processing in read order [default]
  --legacy             gather all properties and macros before expansion
  --permissive         also accept directive tags without xacro: prefix
  --global-properties  define all properties in global scope
  --working-path=PATH  base path of relative include filenames
                       [default: directory of <input>]
  --config=FILE        load options from a YAML file
  --deps               print file dependencies
  -q                   quiet operation suppressing warnings
  -v                   increase verbosity
  --verbosity=level    set verbosity level
                       0: quiet, suppressing warnings
                       1: default, showing warnings
                       2: show warning locations and stack trace on errors
                       3: log property definitions and usage
"

/-- What the options of a command line say. -/
structure Options where
  output : Option String := none
  inOrder : Option Bool := none
  requirePrefix : Option Bool := none
  localProperties : Option Bool := none
  workingPath : Option String := none
  config : Option String := none
  justDeps : Bool := false
  verbosity : Option Int := none
  /-- How often more diagnostics were asked for. -/
  verbose : Option Nat := none
  mappings : Dict String := Dict.empty
deriving Inhabited

namespace Options

/-! ## Substitution arguments -/

/-- The texts before and after the first place where a pattern stands. -/
def splitAtMark? (mark : List Char) : List Char → Option (List Char × List Char)
  | [] => none
  | c :: cs =>
    if mark.isPrefixOf (c :: cs) then some ([], (c :: cs).drop mark.length)
    else (splitAtMark? mark cs).map fun (before, after) => (c :: before, after)

/-- The two sides of a word that gives a substitution argument, without white space around them. -/
def assignment? (word : String) : Option (String × String) :=
  (splitAtMark? ":=".toList word.toList).map fun (name, value) =>
    (Text.strip (String.ofList name), Text.strip (String.ofList value))

/-- Whether an assignment is for others: its name starts with a single underscore and has more
characters. -/
def isForeign (name : String) : Bool :=
  match name.toList with
  | '_' :: c :: _ => c != '_'
  | _ => false

/-- The substitution arguments among words. Those with an empty side are left out. -/
def readMappings (words : List String) : Dict String :=
  Dict.ofList ((words.filterMap assignment?).filter fun (name, value) =>
    name != "" && value != "" && !isForeign name)

/-! ## Integers -/

/-- The integer that a text denotes to a base. -/
def readBase? (base : Nat) (text : String) : Option Int :=
  (Decimal.readInteger base text.toList).toOption

/-- The integer that a value of an option denotes. Its start tells the base: `0x`, `0b`, or `0` for
eight. -/
def readInt? (text : String) : Option Int :=
  match text.toList with
  | '0' :: c :: rest =>
    if c == 'x' || c == 'X' then readBase? 16 text
    else if c == 'b' || c == 'B' then
      if rest.isEmpty then some 0 else readBase? 2 (String.ofList rest)
    else readBase? 8 text
  | ['0'] => readBase? 8 text
  | _ => readBase? 10 text

/-! ## Words -/

/-- Applies an option, as it was written, with its value. -/
def apply (o : Options) (flag : Flag) (written value : String) : Except Refusal Options :=
  match flag with
  | .help => .error .help
  | .output => .ok { o with output := some value }
  | .inOrder => .ok { o with inOrder := some true }
  | .legacy => .ok { o with inOrder := some false }
  | .permissive => .ok { o with requirePrefix := some false }
  | .globalProperties => .ok { o with localProperties := some false }
  | .workingPath => .ok { o with workingPath := some value }
  | .config => .ok { o with config := some value }
  | .deps => .ok { o with justDeps := true }
  | .quiet => .ok { o with verbosity := some 0 }
  | .verbose => .ok { o with verbose := some (o.verbose.getD 0 + 1) }
  | .verbosity =>
    match readInt? value with
    | some n => .ok { o with verbosity := some n }
    | none => .error (.notAnInteger written value)

/-- What is known after some words of the command line. -/
structure Progress where
  options : Options
  inputs : List String
  /-- An option whose value is the next word, as it was written. -/
  pending : Option (Flag × String)
  /-- Whether all further words are file names. -/
  inputsOnly : Bool

namespace Progress

/-- Nothing is known. -/
def start : Progress := ⟨{}, [], none, false⟩

/-- Applies an option. -/
def apply (p : Progress) (flag : Flag) (written value : String) : Except Refusal Progress :=
  (p.options.apply flag written value).map fun o => { p with options := o, pending := none }

/-- Reads letters behind a hyphen. The rest of them is the value of an option that takes one. -/
def readLetters (p : Progress) : List Char → Except Refusal Progress
  | [] => .ok p
  | c :: cs =>
    let written := String.ofList ['-', c]
    match Flag.ofLetter? c with
    | none => .error (.unknown written)
    | some flag =>
      if !flag.takesValue then do
        let p ← p.apply flag written ""
        p.readLetters cs
      else if cs.isEmpty then .ok { p with pending := some (flag, written) }
      else p.apply flag written (String.ofList cs)

/-- The option that a word stands for, and the whole of its word. -/
def matchWord (word : String) : Except Refusal (Flag × String) :=
  let known := Flag.all.filterMap fun flag => flag.word?.map (flag, ·)
  match known.find? (·.2 == word) with
  | some found => .ok found
  | none =>
    match known.filter fun (_, full) => word.toList.isPrefixOf full.toList with
    | [] => .error (.unknown word)
    | [found] => .ok found
    | several =>
      .error (.ambiguous word ((several.map Prod.snd).mergeSort fun a b => decide (a ≤ b)))

/-- Reads a word behind two hyphens, with the value after an equals sign if there is one. -/
def readWord (p : Progress) (word : String) : Except Refusal Progress := do
  let cs := word.toList
  let (flag, full) ← matchWord (String.ofList (cs.takeWhile (· != '=')))
  match flag.takesValue, cs.dropWhile (· != '=') with
  | true, _ :: value => p.apply flag full (String.ofList value)
  | true, [] => return { p with pending := some (flag, full) }
  | false, _ :: _ => throw (.unwantedValue full)
  | false, [] => p.apply flag full ""

/-- Reads a word of the command line. -/
def read (p : Progress) (word : String) : Except Refusal Progress :=
  match p.pending with
  | some (flag, written) => p.apply flag written word
  | none =>
    if p.inputsOnly then .ok { p with inputs := p.inputs ++ [word] }
    else
      match word.toList with
      | ['-', '-'] => .ok { p with inputsOnly := true }
      | '-' :: '-' :: _ => p.readWord word
      | '-' :: c :: cs => p.readLetters (c :: cs)
      | _ => .ok { p with inputs := p.inputs ++ [word] }

end Progress

/-- Reads the words of a command line: its options and its input, which must be there if
`requireInput` is true. -/
def parse (requireInput : Bool) (words : List String) :
    Except Refusal (Options × Option String) := do
  let plain := words.filter fun word => (assignment? word).isNone
  let p ← plain.foldlM Progress.read Progress.start
  if let some (_, written) := p.pending then throw (.missingValue written)
  let o := { p.options with
    verbosity := p.options.verbosity.or (p.options.verbose.map fun n => 1 + n)
    mappings := readMappings words }
  match p.inputs with
  | [input] => return (o, some input)
  | _ => if requireInput then throw .inputCount else return (o, none)

/-- The file that options are loaded from. An empty name is none. -/
def configFile? (o : Options) : Option String :=
  o.config.filter (· != "")

/-- The configuration of a run. What the command line says wins over a file. -/
def makeConfig [Yaml.Loader] (o : Options) (files : Files) : Except ConfigError Config := do
  let overrides : List (String × Datum) :=
    (o.inOrder.map fun b => ("in_order", Datum.bool b)).toList
      ++ (o.localProperties.map fun b => ("local_properties", Datum.bool b)).toList
      ++ (o.requirePrefix.map fun b => ("require_prefix", Datum.bool b)).toList
      ++ (o.workingPath.map fun s => ("working_path", Datum.text s)).toList
      ++ (o.verbosity.map fun n => ("verbosity", Datum.int n)).toList
  let c ← match o.configFile? with
    | none => Config.ofOptions overrides
    | some path => Config.load files path overrides
  return { c with mappings := c.mappings.update o.mappings }

end Options

end XmlMacros
