import XmlMacros.Disk
import XmlMacros.Expansion.Document
import XmlMacros.Yaml.Graph

/-!
# Configurations

The options of a run. Each may be given a value of any sort; only the substitution arguments are
looked at when a configuration is made. What a run makes of the values is `Config.start`.
-/

namespace XmlMacros

/-- The options of a run. -/
structure Config where
  /-- Whether the document is processed in reading order. -/
  inOrder : Datum
  /-- Whether properties belong to the scope they are defined in. -/
  localProperties : Datum
  /-- Whether only tags with the prefix are directives. -/
  requirePrefix : Datum
  /-- Where relative names of included files start. -/
  workingPath : Datum
  /-- Commands as they were given; those that a run can call are handed over with it. -/
  commands : Datum
  /-- The substitution arguments. -/
  mappings : Dict String
  /-- How much is reported. -/
  verbosity : Datum
deriving Inhabited

/-- Why a configuration cannot be made. -/
inductive ConfigError
  | fault (f : Fault)
  /-- An option is not a text, or commands are no table. -/
  | wrongType
  /-- The commands are a list, and one of its items is not a key and a value. -/
  | wrongLength (index length : Nat)
  /-- The substitution arguments are no table. -/
  | notATable
  /-- A substitution argument has an integer that is too long to be written. -/
  | tooLong
  /-- A value of a loaded text is not what it looks like. -/
  | unreadable (e : Yaml.ReadError)
deriving Repr

namespace Config

/-- The options by name, with the values they have if they are not given. -/
def defaults : List (String × Datum) :=
  [("in_order", .bool true), ("local_properties", .bool true), ("require_prefix", .bool true),
    ("working_path", .text ""), ("rospack_commands", .null), ("mappings", .null),
    ("verbosity", .int 1)]

/-- The names among options that no option has, in the order of texts. -/
def unknownOptions (options : List (String × Datum)) : List String :=
  ((options.map Prod.fst).filter fun name => (defaults.lookup name).isNone).mergeSort
    (fun a b => decide (a ≤ b))

/-- The substitution arguments that a value stands for. -/
def mappingsOf (value : Datum) : Except ConfigError (Dict String) :=
  if !value.isTruthy then .ok Dict.empty
  else
    match value with
    | .table entries =>
      if entries.all fun (k, v) => k.isShowable && v.isShowable then
        .ok (Dict.ofList (entries.map fun (k, v) => (k.toText, v.toText)))
      else .error .tooLong
    | _ => .error .notATable

/-- The entry of a table that a value stands for, which stands at a place among others. -/
def entryOf (value : Datum) (index : Nat) : Except ConfigError (Datum × Datum) :=
  match value.elements? with
  | none => .error .wrongType
  | some [k, v] => if k.isKey then .ok (k, v) else .error .wrongType
  | some parts => .error (.wrongLength index parts.length)

/-- The commands that a value stands for: a table, or keys with their values. -/
def commandsOf (value : Datum) : Except ConfigError Datum :=
  if !value.isTruthy then .ok (.table [])
  else
    match value, value.elements? with
    | .table entries, _ => .ok (.table entries)
    | _, none => .error .wrongType
    | _, some items => do
      let entries ← items.zipIdx.foldlM (fun entries (item, index) => do
        let (k, v) ← entryOf item index
        return Datum.insertEntry k v entries) []
      return .table entries

/-- Refuses options with a name that stands for something else where they are given. -/
def refuseNames (taken : List String) (options : List (String × Datum)) :
    Except ConfigError Unit :=
  if options.any fun (name, _) => taken.contains name then .error .wrongType else .ok ()

/-- The configuration with some options given. The name `self` stands for the configuration. -/
def ofOptions (options : List (String × Datum)) : Except ConfigError Config := do
  refuseNames ["self"] options
  let unknown := unknownOptions options
  if !unknown.isEmpty then
    let text := "unknown option(s): " ++ ", ".intercalate unknown
    throw (.fault { cause := .stated .general (some text) })
  let value (name : String) : Datum :=
    ((options.lookup name).or (defaults.lookup name)).getD .null
  return {
    inOrder := value "in_order"
    localProperties := value "local_properties"
    requirePrefix := value "require_prefix"
    workingPath := value "working_path"
    commands := ← commandsOf (value "rospack_commands")
    mappings := ← mappingsOf (value "mappings")
    verbosity := value "verbosity" }

/-- The wording of an item that is not a key and a value. -/
def lengthText (index length : Nat) : String :=
  "dictionary update sequence element #" ++ toString index ++ " has length " ++ toString length
    ++ "; 2 is required"

/-- A fault in words. -/
def saying (text : String) : ConfigError :=
  .fault { cause := .stated .general (some text) }

/-- The options that entries stand for, if all keys are texts. -/
def optionsOf (entries : List (Datum × Datum)) : Except ConfigError (List (String × Datum)) :=
  entries.mapM fun (k, v) =>
    match k.text? with
    | some name => .ok (name, v)
    | none => .error .wrongType

/-- The entries of the value that a loaded text stands for. A value that counts as false has none.
Substitution arguments are turned into texts one by one, so each is looked at on its own. -/
def loadedEntries (g : Yaml.Graph) : Except ConfigError (List (Datum × Datum)) :=
  match g.root with
  | none => .ok []
  | some root =>
    match g.table? root with
    | some entries => .ok (entries.map fun (k, v) =>
        (k, if k.text? == some "mappings" then g.spread v else g.datum v))
    | none =>
      if (g.datum root).isTruthy then .error (saying "config must be a mapping of options")
      else .ok []

/-- The configuration that loaded values describe, with some options given besides, which win. -/
def ofGraph (g : Yaml.Graph) (overrides : List (String × Datum)) : Except ConfigError Config := do
  let entries ← loadedEntries g
  if (Datum.lookupEntry? "rospack_commands" entries).isSome then
    throw (saying "rospack_commands cannot be loaded from a config file")
  let entries := overrides.foldl (fun es (name, value) => Datum.insertEntry (.text name) value es)
    entries
  ofOptions (← optionsOf entries)

/-- The fault that a configuration could not be loaded. -/
def loadFault (reason : String) : ConfigError :=
  .fault { cause := .stated .general (some "Failed to load config:"), reason := some reason }

/-- The names that stand for what is loaded and how. -/
def loadNames : List String := ["cls", "inp"]

section
variable [Yaml.Loader]

/-- The configuration that a YAML text describes, with some options given besides. -/
def ofYaml (text : String) (overrides : List (String × Datum)) : Except ConfigError Config := do
  refuseNames loadNames overrides
  match Yaml.safeLoad text with
  | .ok g => ofGraph g overrides
  | .error .malformed => throw (loadFault "malformed document")
  | .error e => throw (.unreadable e)

/-- The configuration that a file describes, with some options given besides. -/
def load (files : Files) (path : String) (overrides : List (String × Datum)) :
    Except ConfigError Config := do
  refuseNames loadNames overrides
  match files.read path with
  | .ok text => ofYaml text overrides
  | .error e => throw (loadFault (e.message path))

end

/-- All options with their values, in a fixed order. -/
def options (c : Config) : List (String × Datum) :=
  let mappings : Datum := .table (c.mappings.entries.map fun (k, v) => (.text k, .text v))
  [("in_order", c.inOrder), ("local_properties", c.localProperties),
    ("require_prefix", c.requirePrefix), ("working_path", c.workingPath),
    ("rospack_commands", c.commands), ("mappings", mappings), ("verbosity", c.verbosity)]

/-- The configuration as it is shown. -/
def describe (c : Config) : String :=
  "XacroConfig(" ++ ", ".intercalate (c.options.map fun (k, v) => k ++ "=" ++ v.describe) ++ ")"

/-- How much is reported. -/
def reporting (c : Config) : Verbosity :=
  match c.verbosity.keyNumber? with
  | some x => .level x
  | none => .incomparable c.verbosity

/-- What a run with this configuration reads. `custom` are the commands that it brings along, which
come before those that every run has. -/
def environment [Limits] (c : Config) (custom : Commands) (surroundings : Surroundings)
    (fetch : String → Except Expansion.FetchFailure String) : Expansion.Environment :=
  { requirePrefix := c.requirePrefix.isTruthy
    commands := standardCommands.update custom
    surroundings := surroundings
    fetch := fetch }

/-- The state in which a run with this configuration starts. -/
def start (c : Config) (filename : Option String) (console : Console) : Expansion.State :=
  { scopes := Scopes.initial
    macros := Dict.empty
    files := [filename]
    filename := filename
    calls := []
    workingPath := match c.workingPath.text? with
      | some s => .ok s
      | none => .error (.workingPath c.workingPath)
    localProperties := c.localProperties.isTruthy
    args := c.mappings
    includes := []
    preloaded := Dict.empty
    failed := Dict.empty
    requested := []
    console := console }

end Config

/-- How the expansion of a document ends: with a result or early, what was asked for, and the
console. -/
structure Expanded where
  result : Except Expansion.Abort Markup.Document
  requested : List String
  console : Console

/-- Expands the text of a document. Its configuration sets how much is reported while it runs;
afterwards the console is as talkative as before. -/
def expand [Limits] (c : Config) (custom : Commands) (surroundings : Surroundings)
    (fetch : String → Except Expansion.FetchFailure String) (filename : Option String)
    (console : Console) (text : String) : Expanded :=
  match Markup.read text with
  | .error e => ⟨.error (.unreadable e), [], console⟩
  | .ok d =>
    let env := c.environment custom surroundings fetch
    let s := c.start filename { console with verbosity := c.reporting }
    let (result, s) :=
      (Expansion.expandDocument env Expansion.depthLimit c.inOrder.isTruthy d).run s
    ⟨result, s.requested, { s.console with verbosity := console.verbosity }⟩

end XmlMacros
