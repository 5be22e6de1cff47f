import XmlMacros.Expansion.State
import XmlMacros.Markup.Attributes
import XmlMacros.Markup.Reader

/-!
# What directives do

One function for each directive. Those that expand nodes take the expansion of a node as the
parameter `expand`, which goes one level deeper; so each of them can be understood, and reasoned
about, on its own.
-/

namespace XmlMacros.Expansion

open XmlMacros.Markup

/-- The expansion of a node: the nodes that take its place. -/
abbrev Expand := Node → M (List Node)

/-- Expands nodes one after the other. -/
def expandNodes (expand : Expand) : List Node → M (List Node)
  | [] => pure []
  | n :: rest => do
    let first ← expand n
    return first ++ (← expandNodes expand rest)

/-- A result that may be a fault. -/
def liftFault (x : Except Fault α) : M α :=
  match x with
  | .ok a => pure a
  | .error f => throw (.fault f)

/-- The value of an attribute that must be there. -/
def requireAttr (e : Element) (name : String) : M String :=
  liftFault (e.requireAttr name)

/-- Warns about attributes that a directive does not have. -/
def warnExtraAttrs (e : Element) (allowed : List String) : M Unit :=
  match e.extraWarning? allowed with
  | some message => say .warning message
  | none => pure ()

/-! ## Nodes that stand for themselves -/

/-- Evaluates the data of a node that is not an element. Instructions are kept as they are. -/
def expandLeaf (env : Environment) : Node → M Node
  | .text data => .text <$> evalText env data
  | .cdata data => .cdata <$> evalText env data
  | .comment data => .comment <$> evalText env data
  | n => pure n

/-- Evaluates the value of an attribute, if it has one. -/
def expandAttr (env : Environment) (a : Attr) : M Attr :=
  if a.resetsNamespace then throw (.mismatch .declaration)
  else do return { a with value? := some (← evalText env a.value) }

/-- Evaluates the values of attributes. -/
def expandAttrs (env : Environment) : List Attr → M (List Attr)
  | [] => pure []
  | a :: rest => do
    let first ← expandAttr env a
    return first :: (← expandAttrs env rest)

/-- Expands an ordinary element: its attributes, then its children. -/
def expandElement (env : Environment) (expand : Expand) (e : Element) : M Element := do
  let attrs ← expandAttrs env e.attrs
  let children ← expandNodes expand e.children
  return ⟨e.tag, attrs, children⟩

/-! ## Definitions -/

/-- Keeps nodes for later, if they could be expanded at this depth. -/
def capture (depth : Nat) (nodes : List Node) : M (List Node) :=
  if heightOfNodes nodes ≤ depth then pure nodes else throw .overflow

/-- Where the word of a property's directive says that the property is written. -/
def placementOf (name : String) : Option String → M Placement
  | none => pure .current
  | some word =>
    match Placement.ofWord? word with
    | some placement => pure placement
    | none => do
      warn (name ++ ": unknown property scope " ++ inDoubleQuotes word)
      return .current

/-- Where a property is written, given the word of its directive: without local properties always
in the global scope. -/
def placementFor (name : String) (word : Option String) : M Placement := do
  let placement ← placementOf name word
  return if (← get).localProperties then placement else .global

/-- Warns about the name of a property that no expression can mention. -/
def warnUnreferable (name : String) : M Unit :=
  if Expr.isReferable name then pure ()
  else warn ("Property name cannot be referenced in expressions: " ++ name)

/-- What a directive gives a property: the text of an attribute, or its children. -/
def givenProperty (depth : Nat) (e : Element) : M Property :=
  match (e.attr? "value").or (e.attr? "default") with
  | some text => pure (.text text)
  | none => .block <$> capture depth e.children

/-- The value that is written at a placement. Texts of the current scope are evaluated where they
are used, all others now. -/
def writtenProperty (env : Environment) : Property → Placement → M Property
  | .text text, .parent | .text text, .global => .text <$> evalText env text
  | value, _ => pure value

/-- Defines a property. -/
def defineProperty (env : Environment) (depth : Nat) (e : Element) : M (List Node) := do
  let name ← requireAttr e "name"
  warnExtraAttrs e ["name", "value", "default", "scope"]
  warnUnreferable name
  let given ← givenProperty depth e
  let placement ← placementFor name (e.attr? "scope")
  let value ← writtenProperty env given placement
  define name value placement
  return []

/-- Warns about the name of a macro that is a keyword. -/
def warnKeyword (name : String) : M Unit :=
  if name == "call" then warn "deprecated use of macro name 'call'; xacro:call is a keyword"
  else pure ()

/-- The macro that an element defines, where a macro of that name may be defined already. A new
definition goes on with the history of the old one. -/
def definedMacro (name : String) (e : Element) (body : List Node) (files : FileStack)
    (old : Option Macro) : Macro where
  name := name
  params := readParams ((e.attr? "params").getD "")
  body := body
  history := (old.map Macro.history).getD [] ++ [files]

/-- Defines a macro. A new definition takes the place of an old one. -/
def defineMacro (depth : Nat) (e : Element) : M (List Node) := do
  let name ← stripTag <$> requireAttr e "name"
  warnExtraAttrs e ["name", "params"]
  warnKeyword name
  let body ← capture depth e.children
  modify fun s =>
    { s with
      macros := s.macros.insert name
        (definedMacro name e body s.files (s.macros.get? name)) }
  return []

/-- Gives a substitution argument its value, unless it has one. -/
def setArg (env : Environment) (name fallback : String) : M Unit := do
  if (← get).args.contains name then return ()
  let value ← evalText env fallback
  modify fun s => { s with args := s.args.insert name value }

/-- Does what an element for a substitution argument says. -/
def defineArg (env : Environment) (e : Element) : M (List Node) := do
  let name ← requireAttr e "name"
  let fallback ← requireAttr e "default"
  warnExtraAttrs e ["name", "default"]
  setArg env name fallback
  return []

/-! ## Blocks and conditions -/

/-- The nodes of a block. -/
def blockOf (name : String) : M (List Node) := do
  if (← get).scopes.contains name then
    match ← resolve name with
    | .text _ => fail (.notABlock name)
    | .block nodes => return nodes
  else fail (.undefinedBlock name)

/-- The nodes of the block that an element names. -/
def namedBlock (e : Element) : M (List Node) := do
  let name ← requireAttr e "name"
  warnExtraAttrs e ["name"]
  blockOf name

/-- Expands the nodes of a block in the current scope. -/
def insertBlock (expand : Expand) (e : Element) : M (List Node) := do
  expandNodes expand (← namedBlock e)

/-- The children of an element if its condition is as wanted, and nothing otherwise. -/
def keptChildren (env : Environment) (wanted : Bool) (e : Element) : M (List Node) := do
  let condition ← requireAttr e "value"
  warnExtraAttrs e ["value"]
  return if holds (← evalText env condition) == wanted then e.children else []

/-- Expands the children of an element if its condition is as wanted. -/
def expandIf (env : Environment) (expand : Expand) (wanted : Bool) (e : Element) :
    M (List Node) := do
  expandNodes expand (← keptChildren env wanted e)

/-! ## Included files -/

/-- The path of an included file, seen from a working path. -/
def includePath (filename : String) (workingPath : Except Mismatch String) :
    M String :=
  if IncludePath.isAbsolute filename then pure filename
  else return IncludePath.resolve filename (← liftMismatch workingPath)

/-- Asks for a file. -/
def fetch (env : Environment) (path : String) : M (Except FetchFailure String) := do
  modify fun s => { s with requested := s.requested ++ [path] }
  return env.fetch path

/-- Records that a file was loaded. -/
def recordInclude (path : String) : M Unit :=
  modify fun s => { s with includes := s.includes ++ [path] }

/-- The fault that a file could not be loaded. -/
def includeFault (path : String) (failure : FetchFailure) : Fault :=
  { cause := .includeFailure path, reason := some failure.text }

/-- The root of a file's document. -/
def parseRoot (text : String) : M Element :=
  match Markup.read text with
  | .ok d => pure d.root
  | .error e => throw (.unreadable e)

/-- Fetches and reads a file. -/
def loadInclude (env : Environment) (path : String) : M Element := do
  match ← fetch env path with
  | .error failure => throw (.fault (includeFault path failure))
  | .ok text =>
    recordInclude path
    parseRoot text

/-- The state with a file on top of the file stack, which is the current file now. -/
def pushFile (path : String) (s : State) : State :=
  { s with files := some path :: s.files, filename := some path }

/-- The state with a file stack as it was before. The file on top of it is the current one again. -/
def restoreFiles (files : FileStack) (s : State) : State :=
  { s with files := files, filename := files.head?.join }

/-- The state in which the content of a file is expanded: the file is on top of the file stack, and
relative names start from its directory. -/
def enterFile (path : String) (s : State) : State :=
  { pushFile path s with workingPath := .ok (IncludePath.base path) }

/-- Runs `x` for the content of a file. The file stack and the directory are as before
afterwards. -/
def insideFile (path : String) (x : M α) : M α :=
  bracket (enterFile path)
    (fun before after =>
      { restoreFiles before.files after with workingPath := before.workingPath })
    x

/-- Warns about a name space of an include. -/
def warnNameSpace : Option String → M Unit
  | none => pure ()
  | some name =>
    warn ("xacro:include name spaces are not supported, ignoring ns=" ++ inDoubleQuotes name)

/-- The root of the document in a file. A file that was loaded before is not loaded again. -/
def fileRoot (env : Environment) (path : String) : M Element := do
  let s ← get
  match s.failed.get? path, s.preloaded.get? path with
  | some failure, _ => throw (.fault (includeFault path failure))
  | none, some record => return record.root
  | none, none => loadInclude env path

/-- The path of the file that an element names, and the root of its document. -/
def namedFile (env : Environment) (e : Element) : M (String × Element) := do
  let filename ← requireAttr e "filename"
  warnExtraAttrs e ["filename", "ns"]
  warnNameSpace (e.attr? "ns")
  let filename ← evalText env filename
  let path ← includePath filename (← get).workingPath
  return (path, ← fileRoot env path)

/-- Expands the content of a file in the current scope. -/
def includeFile (env : Environment) (expand : Expand) (e : Element) : M (List Node) := do
  let (path, root) ← namedFile env e
  insideFile path (expandNodes expand root.children)

/-! ## Calls of macros -/

/-- Takes the first element with a tag out of a list. -/
def takeTagged? (tag : String) : List Element → Option (Element × List Element)
  | [] => none
  | e :: rest =>
    if e.tag == tag then some (e, rest)
    else (takeTagged? tag rest).map fun (found, rest) => (found, e :: rest)

/-- Gives each parameter for the content of a named element the first element with its name that is
left, in the order of declaration. Parameters that are given as attributes take none. -/
def claimBlocks (given : String → Bool) :
    List (String × Param) → List Element → Dict (List Node) × List Element
  | [], pool => (Dict.empty, pool)
  | (name, param) :: rest, pool =>
    if param.kind == .multiBlock && !given name then
      match takeTagged? name pool with
      | some (e, pool) =>
        let (claimed, pool) := claimBlocks given rest pool
        (claimed.insert name e.children, pool)
      | none => claimBlocks given rest pool
    else claimBlocks given rest pool

/-- The value of a parameter that a call does not give: the caller's property of the same name if
the parameter forwards it, or else the default. Both are evaluated in the caller's scope. -/
def fallbackValue (env : Environment) (m : Macro) (name : String) (param : Param) : M Property := do
  let scopes := (← get).scopes
  let forwarded := if param.forward then scopes.lookup? name else none
  match forwarded, param.fallback with
  | some (.text text), _ => .text <$> evalText env text
  | some (.block nodes), _ => pure (.block nodes)
  | none, some text => .text <$> evalText env text
  | none, none =>
    throw (.fault { cause := .undefinedForward name, macros := [m.name] })

/-- Writes a parameter into the scope of a call. -/
def bindParam (name : String) (value : Property) (table : Table) : M Table := do
  logProperty "set" ((← get).scopes.depth + 1) name value
  return table.insert name value

/-- Binds parameters one after the other. `attrs` are the attributes of the call that are left,
`pool` the elements for block parameters, and `table` the scope of the call so far. -/
def bindParams (env : Environment) (m : Macro) (claimed : Dict (List Node)) :
    List (String × Param) → Dict String → List Element → Table → M (Dict String × Table)
  | [], attrs, _, table => return (attrs, table)
  | (name, param) :: rest, attrs, pool, table => do
    match attrs.get? name, param.kind, pool, claimed.get? name with
    | some text, _, _, _ =>
      let value ← evalText env text
      bindParams env m claimed rest (attrs.erase name) pool (← bindParam name (.text value) table)
    | none, .block, e :: pool, _ =>
      bindParams env m claimed rest attrs pool (← bindParam name (.block [e.node]) table)
    | none, .multiBlock, _, some nodes =>
      bindParams env m claimed rest attrs pool (← bindParam name (.block nodes) table)
    | _, _, _, _ =>
      if param.forward || param.fallback.isSome then
        let value ← fallbackValue env m name param
        bindParams env m claimed rest attrs pool (← bindParam name value table)
      else
        throw (.fault
          { cause := .missingParameter name
            suffix := some ("when instantiating macro " ++ inDoubleQuotes m.name)
            macros := [m.name] })

/-- The state in which the body of a macro is expanded: in a scope of its own that starts as
`table`, above the caller's scopes. -/
def enterCall (m : Macro) (table : Table) (s : State) : State :=
  { s with scopes := { s.scopes.push with current := table }, calls := m :: s.calls }

/-- Runs `x` for the body of a macro, in a scope and with a registry of its own. The caller's
registry is as before afterwards. -/
def insideCall (m : Macro) (table : Table) (x : M α) : M α :=
  bracket (enterCall m table)
    (fun before after =>
      { after with
        scopes := after.scopes.pop
        calls := after.calls.tail
        macros := before.macros })
    x

/-- Warns about attributes of a call that are no parameters. -/
def warnUnknownParams (m : Macro) : List String → M Unit
  | [] => pure ()
  | name :: rest => do
    warn (m.name ++ ": unknown parameter " ++ inDoubleQuotes name)
    warnUnknownParams m rest

/-- The arguments among the attributes of a call. Declarations of namespaces are none. -/
def argumentsOf (attrs : List Attr) : Dict String :=
  let arguments := attrs.filter fun a => !"xmlns".toList.isPrefixOf a.name.toList
  Dict.ofList (arguments.map fun a => (a.name, a.value))

/-- The scope of a macro's body: the caller's scope with the parameters bound. `children` is what
the children of the call expand to. -/
def bindCall (env : Environment) (m : Macro) (arguments : Dict String) (children : List Node) :
    M Table := do
  let (claimed, pool) :=
    claimBlocks arguments.contains m.params.entries (children.filterMap Node.element?)
  let (unknown, table) ←
    bindParams env m claimed m.params.entries arguments pool (← get).scopes.current
  warnUnknownParams m unknown.keys
  return table

/-- Instantiates a macro once the children of the call are expanded: binds the parameters, and
expands the body in a scope of its own. -/
def instantiate (env : Environment) (expand : Expand) (m : Macro) (arguments : Dict String)
    (children : List Node) : M (List Node) := do
  let table ← bindCall env m arguments children
  insideCall m table (expandNodes expand m.body)

/-- The macro with a name. -/
def findMacro (name : String) : M Macro := do
  match (← get).macros.get? name with
  | some m => return m
  | none => fail (.macroNotFound name)

/-- How a call says which macro it means. -/
inductive Naming
  | byTag
  | byAttr
deriving DecidableEq, Repr

/-- The macro that an element calls, and the arguments. -/
def callee (env : Environment) (e : Element) : Naming → M (Macro × Dict String)
  | .byTag => do
    return (← findMacro (stripTag e.tag), argumentsOf e.attrs)
  | .byAttr => do
    let name ← requireAttr e "macro"
    let m ← findMacro (stripTag (← evalText env name))
    return (m, argumentsOf (e.attrs.filter (·.name != "macro")))

/-- Calls a macro. The children of the call are expanded in the caller's scope. -/
def callMacro (env : Environment) (expand : Expand) (naming : Naming) (e : Element) :
    M (List Node) := do
  let (m, arguments) ← callee env e naming
  let children ← expandNodes expand e.children
  instantiate env expand m arguments children

end XmlMacros.Expansion
