import XmlMacros.Proofs.Expansion.Basic

/-!
# Steps that only report

Most steps of an expansion read the state and change nothing but the console: all that evaluate
texts, look up names, bind parameters and warn. They are `Quiet`. Loading a file also records that
it was asked for (`Booked`), and definitions of macros and of substitution arguments are kept, but
still the expansion stays at its place: in the same scopes, files and calls (`SamePlace`). The
directive of a property is the one that writes to a scope, and `defineProperty_writes` says all that
it can do; `defineArg_writes` says the same of the directive of a substitution argument.
-/

namespace XmlMacros

open XmlMacros.Markup

namespace Expansion

/-- Nothing but the console changes. -/
def Quiet (s s' : State) : Prop :=
  ∃ console, s' = { s with console := console }

instance : Std.Refl Quiet := ⟨fun s => ⟨s.console, rfl⟩⟩

instance : IsTrans State Quiet where
  trans := by
    rintro s _ _ ⟨c, rfl⟩ ⟨c', rfl⟩
    exact ⟨c', rfl⟩

/-- The expansion stays at its place: the scopes do not change, nor what files and calls it is in,
where relative names start and where properties go. -/
structure SamePlace (s s' : State) : Prop where
  scopes : s'.scopes = s.scopes
  files : s'.files = s.files
  filename : s'.filename = s.filename
  calls : s'.calls = s.calls
  workingPath : s'.workingPath = s.workingPath
  localProperties : s'.localProperties = s.localProperties

instance : Std.Refl SamePlace := ⟨fun _ => ⟨rfl, rfl, rfl, rfl, rfl, rfl⟩⟩

instance : IsTrans State SamePlace where
  trans _ _ _ h h' :=
    ⟨h'.scopes.trans h.scopes, h'.files.trans h.files, h'.filename.trans h.filename,
      h'.calls.trans h.calls, h'.workingPath.trans h.workingPath,
      h'.localProperties.trans h.localProperties⟩

/-- The expansion stays at its place with the same macros and substitution arguments. What may
change is what is known of files, and what was reported. -/
structure Booked (s s' : State) : Prop extends SamePlace s s' where
  macros : s'.macros = s.macros
  args : s'.args = s.args

instance : Std.Refl Booked := ⟨fun s => ⟨Std.Refl.refl s, rfl, rfl⟩⟩

instance : IsTrans State Booked where
  trans _ _ _ h h' :=
    ⟨IsTrans.trans _ _ _ h.toSamePlace h'.toSamePlace, h'.macros.trans h.macros,
      h'.args.trans h.args⟩

/-- The console is one of the books. -/
theorem Quiet.booked {s s' : State} (h : Quiet s s') : Booked s s' := by
  obtain ⟨_, rfl⟩ := h
  exact ⟨⟨rfl, rfl, rfl, rfl, rfl, rfl⟩, rfl, rfl⟩

/-- What only reports stays in the same place: in the same files, calls and directory. -/
theorem Quiet.samePlace {s s' : State} (h : Quiet s s') : SamePlace s s' :=
  h.booked.toSamePlace

end Expansion

/-- So a step that only reports changes nothing but the books. -/
theorem Keeps.booked {α : Type} {x : Expansion.M α} (h : Keeps Expansion.Quiet x) :
    Keeps Expansion.Booked x :=
  fun s => (h s).booked

theorem Keeps.samePlace {α : Type} {x : Expansion.M α} (h : Keeps Expansion.Quiet x) :
    Keeps Expansion.SamePlace x :=
  fun s => (h s).samePlace

namespace Expansion

section
variable {R : State → State → Prop} [Std.Refl R]

/-- A failure from outside changes nothing, whatever is asked to be kept. -/
theorem liftFault_keeps {α : Type} (x : Except Fault α) : Keeps R (liftFault x) := by
  cases x with
  | ok a => exact .pure a
  | error f => exact .throw _

theorem liftMismatch_keeps {α : Type} (x : Except Mismatch α) : Keeps R (liftMismatch x) := by
  cases x with
  | ok a => exact .pure a
  | error m => exact .throw _

/-- Nodes are copied for later without a look at the state. -/
theorem capture_keeps (depth : Nat) (nodes : List Node) : Keeps R (capture depth nodes) := by
  unfold capture
  split
  · exact .pure _
  · exact .throw _

end

section
variable (env : Environment)

/-! ## Diagnostics -/

/-- The console may be changed in any way. -/
theorem console_quiet (f : State → Console) :
    Keeps Quiet (modify fun s => { s with console := f s } : M Unit) :=
  fun s => ⟨f s, rfl⟩

theorem say_quiet (channel : Channel) (message : String) : Keeps Quiet (say channel message) :=
  .get_bind fun _ => (liftMismatch_keeps _).bind fun c => console_quiet fun _ => c

/-- A warning is a message, and where it is detailed enough a second one with the place that it
comes from. -/
theorem warn_quiet (message : String) : Keeps Quiet (warn message) := by
  refine (say_quiet _ _).bind fun _ => .get_bind fun s => (liftMismatch_keeps _).bind fun b => ?_
  cases b with
  | true => exact console_quiet _
  | false => exact .pure _

theorem logProperty_quiet (action : String) (depth : Nat) (name : String) (value : Property) :
    Keeps Quiet (logProperty action depth name value) :=
  say_quiet _ _

/-- Attributes that a directive does not have are reported at most. -/
theorem warnExtraAttrs_quiet (e : Element) (allowed : List String) :
    Keeps Quiet (warnExtraAttrs e allowed) := by
  unfold warnExtraAttrs
  split
  · exact say_quiet _ _
  · exact .pure _

/-! ## Names and texts -/

/-- A property is looked up, and that it is not there is a fault. -/
theorem resolve_quiet (name : String) : Keeps Quiet (resolve name) := by
  refine .get_bind fun s => ?_
  dsimp only
  split
  · exact .throw _
  · exact (logProperty_quiet _ _ _ _).bind fun _ => .pure _

/-- Each property that a text used is reported. -/
theorem logUses_quiet (depth : Nat) (uses : List (String × Property)) :
    Keeps Quiet (logUses depth uses) := by
  induction uses with
  | nil => exact .pure _
  | cons use rest ih => exact (logProperty_quiet _ _ _ _).bind fun _ => ih

/-- An evaluation reports which properties it used and why it failed. Its own record of what is
under way is gone afterwards. -/
theorem evalText_quiet (text : String) : Keeps Quiet (evalText env text) := by
  unfold evalText
  split
  · exact .pure _
  · refine .get_bind fun s => (logUses_quiet _ _).bind fun _ => ?_
    split
    · exact .pure _
    · exact (warn_quiet _).bind fun _ => .pure _

/-- Texts, comments and CDATA sections are evaluated, and other nodes without children stay. -/
theorem expandLeaf_quiet (n : Node) : Keeps Quiet (expandLeaf env n) := by
  cases n with
  | text data | cdata data | comment data => exact (evalText_quiet env data).map _
  | element | instruction => exact .pure _

/-- The value of an attribute is evaluated, if it has one. -/
theorem expandAttr_quiet (a : Attr) : Keeps Quiet (expandAttr env a) := by
  unfold expandAttr
  split
  · exact .throw _
  · exact (evalText_quiet env a.value).bind fun _ => .pure _

/-- Attributes are evaluated one after the other, by induction on their list. -/
theorem expandAttrs_quiet (attrs : List Attr) : Keeps Quiet (expandAttrs env attrs) := by
  induction attrs with
  | nil => exact .pure _
  | cons a rest ih => exact (expandAttr_quiet env a).bind fun _ => ih.bind fun _ => .pure _

/-- What stands outside of the root is evaluated if it is a comment. -/
theorem evalMisc_quiet (m : Misc) : Keeps Quiet (evalMisc env m) := by
  cases m with
  | comment data => exact (evalText_quiet env data).map _
  | instruction => exact .pure _

theorem expandMisc_quiet (ms : List Misc) : Keeps Quiet (expandMisc env ms) := by
  induction ms with
  | nil => exact .pure _
  | cons m rest ih => exact (evalMisc_quiet env m).bind fun _ => ih.bind fun _ => .pure _

/-! ## Directives -/

theorem requireAttr_quiet (e : Element) (name : String) : Keeps Quiet (requireAttr e name) :=
  liftFault_keeps _

/-- A scope that there is none of is warned of. -/
theorem placementOf_quiet (name : String) (word : Option String) :
    Keeps Quiet (placementOf name word) := by
  cases word with
  | none => exact .pure _
  | some word =>
    rw [placementOf]
    split
    · exact .pure _
    · exact (warn_quiet _).bind fun _ => .pure _

theorem placementFor_quiet (name : String) (word : Option String) :
    Keeps Quiet (placementFor name word) :=
  (placementOf_quiet _ _).bind fun _ => .get_bind fun _ => .pure _

/-- A name that expressions cannot refer to is warned of where it is defined. -/
theorem warnUnreferable_quiet (name : String) : Keeps Quiet (warnUnreferable name) := by
  unfold warnUnreferable
  split
  · exact .pure _
  · exact warn_quiet _

/-- And so is one that means something else in them. -/
theorem warnKeyword_quiet (name : String) : Keeps Quiet (warnKeyword name) := by
  unfold warnKeyword
  split
  · exact warn_quiet _
  · exact .pure _

/-- A property comes from an attribute or from the children of its directive. -/
theorem givenProperty_quiet (depth : Nat) (e : Element) : Keeps Quiet (givenProperty depth e) := by
  unfold givenProperty
  split
  · exact .pure _
  · exact (capture_keeps _ _).map _

/-- A text is evaluated before it is written, unless it is written in the current scope. -/
theorem writtenProperty_quiet (value : Property) (placement : Placement) :
    Keeps Quiet (writtenProperty env value placement) := by
  unfold writtenProperty
  split
  · exact (evalText_quiet _ _).map _
  · exact (evalText_quiet _ _).map _
  · exact .pure _

/-- A block is looked up like a property, and a text is none. -/
theorem blockOf_quiet (name : String) : Keeps Quiet (blockOf name) := by
  refine .get_bind fun s => ?_
  split
  · refine (resolve_quiet name).bind fun value => ?_
    split
    · exact .throw _
    · exact .pure _
  · exact .throw _

theorem namedBlock_quiet (e : Element) : Keeps Quiet (namedBlock e) :=
  (requireAttr_quiet _ _).bind fun _ => (warnExtraAttrs_quiet _ _).bind fun _ => blockOf_quiet _

/-- The value of a condition is evaluated, and then read as a truth value. -/
theorem keptChildren_quiet (wanted : Bool) (e : Element) :
    Keeps Quiet (keptChildren env wanted e) :=
  (requireAttr_quiet _ _).bind fun _ => (warnExtraAttrs_quiet _ _).bind fun _ =>
    (evalText_quiet _ _).bind fun _ => .pure _

/-! ## Calls -/

/-- A parameter without an argument is forwarded from the caller or has a default, which
is evaluated. -/
theorem fallbackValue_quiet (m : Macro) (name : String) (param : Param) :
    Keeps Quiet (fallbackValue env m name param) := by
  refine .get_bind fun s => ?_
  dsimp only
  split
  · exact (evalText_quiet _ _).map _
  · exact .pure _
  · exact (evalText_quiet _ _).map _
  · exact .throw _

theorem bindParam_quiet (name : String) (value : Property) (table : Table) :
    Keeps Quiet (bindParam name value table) :=
  .get_bind fun _ => (logProperty_quiet _ _ _ _).bind fun _ => .pure _

/-- Parameters are bound in a table that is handed from one to the next and not yet in the state. -/
theorem bindParams_quiet (m : Macro) (claimed : Dict (List Node)) (params : List (String × Param))
    (attrs : Dict String) (pool : List Element) (table : Table) :
    Keeps Quiet (bindParams env m claimed params attrs pool table) := by
  induction params generalizing attrs pool table with
  | nil => exact .pure _
  | cons entry rest ih =>
    unfold bindParams
    split
    · exact (evalText_quiet _ _).bind fun _ => (bindParam_quiet _ _ _).bind fun _ => ih _ _ _
    · exact (bindParam_quiet _ _ _).bind fun _ => ih _ _ _
    · exact (bindParam_quiet _ _ _).bind fun _ => ih _ _ _
    · split
      · exact (fallbackValue_quiet _ _ _ _).bind fun _ => (bindParam_quiet _ _ _).bind fun _ =>
          ih _ _ _
      · exact .throw _

theorem warnUnknownParams_quiet (m : Macro) (names : List String) :
    Keeps Quiet (warnUnknownParams m names) := by
  induction names with
  | nil => exact .pure _
  | cons name rest ih => exact (warn_quiet _).bind fun _ => ih

/-- Binding the parameters of a call changes nothing for the caller. -/
theorem bindCall_quiet (m : Macro) (arguments : Dict String) (children : List Node) :
    Keeps Quiet (bindCall env m arguments children) :=
  .get_bind fun _ => (bindParams_quiet _ _ _ _ _ _ _).bind fun _ =>
    (warnUnknownParams_quiet _ _).bind fun _ => .pure _

/-- A macro is looked up in the registry, and that it is not there is a fault. -/
theorem findMacro_quiet (name : String) : Keeps Quiet (findMacro name) := by
  refine .get_bind fun s => ?_
  split
  · exact .pure _
  · exact .throw _

/-- The name of a macro is written in the tag or evaluated from an attribute, and so are its
arguments. -/
theorem callee_quiet (e : Element) (naming : Naming) : Keeps Quiet (callee env e naming) := by
  cases naming with
  | byTag => exact (findMacro_quiet _).bind fun _ => .pure _
  | byAttr =>
    exact (requireAttr_quiet _ _).bind fun _ => (evalText_quiet _ _).bind fun _ =>
      (findMacro_quiet _).bind fun _ => .pure _

/-! ## Files -/

/-- That a file is asked for stands in the books. -/
theorem fetch_booked (path : String) : Keeps Booked (fetch env path) :=
  fun _ => ⟨⟨rfl, rfl, rfl, rfl, rfl, rfl⟩, rfl, rfl⟩

/-- And so do the files that were found. -/
theorem recordInclude_booked (path : String) : Keeps Booked (recordInclude path) :=
  fun _ => ⟨⟨rfl, rfl, rfl, rfl, rfl, rfl⟩, rfl, rfl⟩

/-- To read the text of a file changes nothing. -/
theorem parseRoot_keeps {R : State → State → Prop} [Std.Refl R] (text : String) :
    Keeps R (parseRoot text) := by
  unfold parseRoot
  split
  · exact .pure _
  · exact .throw _

/-- A file is fetched and recorded, and then read. -/
theorem loadInclude_booked (path : String) : Keeps Booked (loadInclude env path) := by
  refine (fetch_booked env path).bind fun text => ?_
  split
  · exact .throw _
  · exact (recordInclude_booked path).bind fun _ => parseRoot_keeps _

/-- A file that was taken in before is not fetched again. -/
theorem fileRoot_booked (path : String) : Keeps Booked (fileRoot env path) := by
  refine .get_bind fun s => ?_
  split
  · exact .throw _
  · exact .pure _
  · exact loadInclude_booked env path

/-- Where a relative name leads is told by the directory that includes start from. -/
theorem includePath_keeps {R : State → State → Prop} [Std.Refl R] [IsTrans State R]
    (filename : String) (workingPath : Except Mismatch String) :
    Keeps R (includePath filename workingPath) := by
  unfold includePath
  split
  · exact .pure _
  · exact (liftMismatch_keeps _).bind fun _ => .pure _

theorem warnNameSpace_quiet (name : Option String) : Keeps Quiet (warnNameSpace name) := by
  cases name with
  | none => exact .pure _
  | some name => exact warn_quiet _

/-- Loading a file leaves the expansion at its place. -/
theorem namedFile_booked (e : Element) : Keeps Booked (namedFile env e) := by
  refine (requireAttr_quiet _ _).booked.bind fun filename => ?_
  refine (warnExtraAttrs_quiet _ _).booked.bind fun _ => ?_
  refine (warnNameSpace_quiet _).booked.bind fun _ => ?_
  refine (evalText_quiet _ _).booked.bind fun filename => .get_bind fun s => ?_
  refine (includePath_keeps _ _).bind fun path => ?_
  exact (fileRoot_booked env path).bind fun _ => .pure _

/-- The file of a directive is looked for in the place where the directive stands. -/
theorem namedFile_samePlace (e : Element) : Keeps SamePlace (namedFile env e) :=
  fun s => (namedFile_booked env e s).toSamePlace

/-- Looking for the files that are included loads none of them. -/
theorem includePaths_quiet (workingPath : Except Mismatch String) (es : List Element)
    (paths : List String) : Keeps Quiet (includePaths env workingPath es paths) := by
  induction es generalizing paths with
  | nil => exact .pure _
  | cons e rest ih =>
    unfold includePaths
    split
    · exact ih paths
    · refine (evalText_quiet env _).bind fun filename => (includePath_keeps _ _).bind fun path => ?_
      refine .get_bind fun s => ?_
      split
      · exact ih paths
      · exact ih _

/-- Files are asked for one after the other before any of them is taken in. -/
theorem fetchAll_booked (paths : List String) : Keeps Booked (fetchAll env paths) := by
  induction paths with
  | nil => exact .pure _
  | cons path rest ih =>
    exact (fetch_booked env path).bind fun _ => ih.bind fun _ => .pure _

end

/-! ## Macros that are called -/

/-- A macro that is found is the one in the registry under the name. -/
theorem findMacro_ok {name : String} {m : Macro} {s s' : State}
    (h : findMacro name s = (.ok m, s')) : s.macros.get? name = some m := by
  unfold findMacro at h
  rw [get_bind_apply] at h
  cases hget : s.macros.get? name with
  | none => rw [hget] at h; cases h
  | some found => rw [hget] at h; cases h; rfl

/-- A macro that is called by its tag is registered under it. -/
theorem callee_byTag_ok {env : Environment} {e : Element} {m : Macro} {arguments : Dict String}
    {s s' : State} (h : callee env e .byTag s = (.ok (m, arguments), s')) :
    s.macros.get? (stripTag e.tag) = some m := by
  obtain ⟨_, _, hfind, h⟩ := bind_ok h
  cases h
  exact findMacro_ok hfind

/-- A macro that is called is registered. -/
theorem callee_registered {env : Environment} {naming : Naming} {e : Element} {m : Macro}
    {arguments : Dict String} {s s' : State}
    (h : callee env e naming s = (.ok (m, arguments), s')) :
    ∃ name, s.macros.get? name = some m := by
  cases naming with
  | byTag => exact ⟨_, callee_byTag_ok h⟩
  | byAttr =>
    obtain ⟨_, _, hname, h⟩ := bind_ok h
    obtain ⟨_, _, hvalue, h⟩ := bind_ok h
    obtain ⟨_, _, hfind, h⟩ := bind_ok h
    cases h
    obtain ⟨_, rfl⟩ := (requireAttr_quiet e "macro").of_run hname
    obtain ⟨_, rfl⟩ := (evalText_quiet env _).of_run hvalue
    have hget := findMacro_ok hfind
    exact ⟨_, hget⟩

/-! ## Properties -/

/-- An attribute that is required is there, if this does not fail. -/
theorem attr?_of_requireAttr {e : Element} {name value : String} {s s' : State}
    (h : requireAttr e name s = (.ok value, s')) : e.attr? name = some value := by
  unfold requireAttr Element.requireAttr liftFault at h
  cases he : e.attr? name with
  | none => rw [he] at h; cases h
  | some value' => rw [he] at h; cases h; rfl

/-- There is one word that asks for the scope of the caller. -/
theorem placementOf_parent {name : String} {word : Option String} {s s' : State}
    (h : placementOf name word s = (.ok .parent, s')) : word = some "parent" := by
  cases word with
  | none => cases h
  | some word =>
    unfold placementOf at h
    cases hword : Placement.ofWord? word with
    | some placement =>
      simp only [hword] at h
      cases h
      rw [Placement.eq_of_ofWord?_eq_parent hword]
    | none =>
      simp only [hword] at h
      obtain ⟨_, _, _, h⟩ := bind_ok h
      cases h

/-- Words for scopes count only as long as properties are local. -/
theorem placementFor_ok {name : String} {word : Option String} {s s' : State}
    {placement : Placement} (h : placementFor name word s = (.ok placement, s')) :
    ∃ written, placementOf name word s = (.ok written, s') ∧
      placement = if s.localProperties then written else .global := by
  obtain ⟨written, s₁, h₁, h⟩ := bind_ok h
  obtain ⟨console, rfl⟩ := (placementOf_quiet name word).of_run h₁
  rw [get_bind_apply] at h
  cases h
  exact ⟨written, h₁, rfl⟩

/-- Only a directive that says so writes to the parent. -/
theorem placementFor_parent {name : String} {word : Option String} {s s' : State}
    (h : placementFor name word s = (.ok .parent, s')) : word = some "parent" := by
  obtain ⟨written, hwritten, hplacement⟩ := placementFor_ok h
  cases hlocal : s.localProperties with
  | false => rw [hlocal] at hplacement; cases hplacement
  | true =>
    rw [hlocal] at hplacement
    cases hplacement
    exact placementOf_parent hwritten

/-- Where properties are global all are defined in the global scope. -/
theorem placementFor_global {name : String} {word : Option String} {s s' : State}
    {placement : Placement} (hlocal : s.localProperties = false)
    (h : placementFor name word s = (.ok placement, s')) : placement = .global := by
  obtain ⟨_, _, hplacement⟩ := placementFor_ok h
  rw [hlocal] at hplacement
  exact hplacement

/-- What only reports does so after a definition as before it. -/
theorem define_quiet (name : String) (value : Property) (placement : Placement) {s s' : State}
    (h : Quiet s s') :
    Quiet { s with scopes := s.scopes.define name value placement }
      (define name value placement s').2 := by
  obtain ⟨console, rfl⟩ := h
  obtain ⟨console', hlog⟩ :=
    logProperty_quiet "set" (s.scopes.depthAt placement) name value
      { s with scopes := s.scopes.define name value placement, console := console }
  exact ⟨console', hlog⟩

/-- What all states have in common that differ by reports from a state before holds after a sequence
if it holds after the rest of it. -/
theorem after_quiet {α β : Type} {P : State → Prop} {s₀ s : State} {x : M α} {f : α → M β}
    (hP : ∀ s', Quiet s₀ s' → P s') (h : Quiet s₀ s) (hx : Keeps Quiet x)
    (hf : ∀ a s', Quiet s₀ s' → x s = (.ok a, s') → P (f a s').2) : P ((x >>= f) s).2 := by
  rw [bind_apply]
  rcases hr : x s with ⟨_ | a, s'⟩
  · exact hP s' (IsTrans.trans _ _ _ h (hx.of_run hr))
  · exact hf a s' (IsTrans.trans _ _ _ h (hx.of_run hr)) hr

/-- The directive of a property changes one thing but the console, if at all: it writes the property
that it names, to the parent only if it says so, and without local properties always to the global
scope. -/
theorem defineProperty_writes (env : Environment) (depth : Nat) (e : Element) (s : State) :
    Quiet s (defineProperty env depth e s).2 ∨
      ∃ name value placement, e.attr? "name" = some name ∧
        (placement = .parent → e.attr? "scope" = some "parent") ∧
        (s.localProperties = false → placement = .global) ∧
        Quiet { s with scopes := s.scopes.define name value placement }
          (defineProperty env depth e s).2 := by
  have hquiet : ∀ s', Quiet s s' → Quiet s s' ∨ ∃ name value placement,
      e.attr? "name" = some name ∧ (placement = .parent → e.attr? "scope" = some "parent") ∧
      (s.localProperties = false → placement = .global) ∧
      Quiet { s with scopes := s.scopes.define name value placement } s' := fun _ => .inl
  unfold defineProperty
  refine after_quiet hquiet (Std.Refl.refl s) (requireAttr_quiet _ _) fun name _ h₁ hname => ?_
  refine after_quiet hquiet h₁ (warnExtraAttrs_quiet _ _) fun _ _ h₂ _ => ?_
  refine after_quiet hquiet h₂ (warnUnreferable_quiet _) fun _ _ h₃ _ => ?_
  refine after_quiet hquiet h₃ (givenProperty_quiet _ _) fun given _ h₄ _ => ?_
  refine after_quiet hquiet h₄ (placementFor_quiet _ _) fun placement s₅ h₅ hplacement => ?_
  refine after_quiet hquiet h₅ (writtenProperty_quiet _ _ _) fun value s₆ h₆ _ => ?_
  have hparent : placement = .parent → e.attr? "scope" = some "parent" := by
    rintro rfl
    exact placementFor_parent hplacement
  have hglobal : s.localProperties = false → placement = .global := fun hlocal =>
    placementFor_global (h₄.samePlace.localProperties.trans hlocal) hplacement
  refine .inr ⟨name, value, placement, attr?_of_requireAttr hname, hparent, hglobal, ?_⟩
  rw [bind_pure_snd]
  exact define_quiet name value placement h₆

/-- The directive of a property is in every relation that reports and what is written to scopes are
in. -/
theorem defineProperty_keeps {R : State → State → Prop} [IsTrans State R]
    (hquiet : ∀ {s s'}, Quiet s s' → R s s') (hwrite : ∀ s scopes, R s { s with scopes := scopes })
    (env : Environment) (depth : Nat) (e : Element) : Keeps R (defineProperty env depth e) := by
  intro s
  rcases defineProperty_writes env depth e s with h | ⟨name, value, placement, -, -, -, h⟩
  · exact hquiet h
  · exact IsTrans.trans _ _ _ (hwrite s _) (hquiet h)

/-! ## Definitions of macros -/

/-- The directive of a macro changes one thing but the console, if at all: it registers a macro with
what it declares. -/
theorem defineMacro_writes (depth : Nat) (e : Element) (s : State) :
    Quiet s (defineMacro depth e s).2 ∨
      ∃ name body, Quiet
        { s with
          macros := s.macros.insert name (definedMacro name e body s.files (s.macros.get? name)) }
        (defineMacro depth e s).2 := by
  have hquiet : ∀ s', Quiet s s' → Quiet s s' ∨ ∃ name body, Quiet
      { s with
        macros := s.macros.insert name (definedMacro name e body s.files (s.macros.get? name)) }
      s' := fun _ => .inl
  unfold defineMacro
  refine after_quiet hquiet (Std.Refl.refl s) ((requireAttr_quiet _ _).map _) fun name _ h₁ _ => ?_
  refine after_quiet hquiet h₁ (warnExtraAttrs_quiet _ _) fun _ _ h₂ _ => ?_
  refine after_quiet hquiet h₂ (warnKeyword_quiet _) fun _ _ h₃ _ => ?_
  refine after_quiet hquiet h₃ (capture_keeps _ _) fun body _ h₄ _ => ?_
  obtain ⟨console, rfl⟩ := h₄
  exact .inr ⟨name, body, console, rfl⟩

/-- The directive of a macro is in every relation that reports and changes of the registry
are in. -/
theorem defineMacro_keeps {R : State → State → Prop} [IsTrans State R]
    (hquiet : ∀ {s s'}, Quiet s s' → R s s') (hwrite : ∀ s macros, R s { s with macros := macros })
    (depth : Nat) (e : Element) : Keeps R (defineMacro depth e) := by
  intro s
  rcases defineMacro_writes depth e s with h | ⟨name, body, h⟩
  · exact hquiet h
  · exact IsTrans.trans _ _ _ (hwrite s _) (hquiet h)

theorem defineMacro_samePlace (depth : Nat) (e : Element) :
    Keeps SamePlace (defineMacro depth e) :=
  defineMacro_keeps Quiet.samePlace (fun _ _ => ⟨rfl, rfl, rfl, rfl, rfl, rfl⟩) depth e

/-! ## Substitution arguments -/

/-- The directive of a substitution argument changes one thing but the console, if at all: it gives
a value to an argument that had none. -/
theorem defineArg_writes (env : Environment) (e : Element) (s : State) :
    Quiet s (defineArg env e s).2 ∨
      ∃ name value, s.args.get? name = none ∧
        Quiet { s with args := s.args.insert name value } (defineArg env e s).2 := by
  have hquiet : ∀ s', Quiet s s' → Quiet s s' ∨ ∃ name value, s.args.get? name = none ∧
      Quiet { s with args := s.args.insert name value } s' := fun _ => .inl
  unfold defineArg
  refine after_quiet hquiet (Std.Refl.refl s) (requireAttr_quiet _ _) fun name _ h₁ _ => ?_
  refine after_quiet hquiet h₁ (requireAttr_quiet _ _) fun fallback _ h₂ _ => ?_
  refine after_quiet hquiet h₂ (warnExtraAttrs_quiet _ _) fun _ s₃ h₃ _ => ?_
  rw [bind_pure_snd]
  unfold setArg
  rw [get_bind_apply]
  cases hname : s₃.args.get? name with
  | some =>
    rw [if_pos (by rw [Dict.contains, hname]; rfl)]
    exact .inl h₃
  | none =>
    rw [if_neg (by rw [Dict.contains, hname]; nofun)]
    refine after_quiet hquiet h₃ (evalText_quiet env _) fun value s₄ h₄ _ => ?_
    obtain ⟨_, rfl⟩ := h₃
    obtain ⟨console, rfl⟩ := h₄
    exact .inr ⟨name, value, hname, console, rfl⟩

/-- The directive of a substitution argument is in every relation that reports and changes of the
arguments are in. -/
theorem defineArg_keeps {R : State → State → Prop} [IsTrans State R]
    (hquiet : ∀ {s s'}, Quiet s s' → R s s') (hwrite : ∀ s args, R s { s with args := args })
    (env : Environment) (e : Element) : Keeps R (defineArg env e) := by
  intro s
  rcases defineArg_writes env e s with h | ⟨name, value, -, h⟩
  · exact hquiet h
  · exact IsTrans.trans _ _ _ (hwrite s _) (hquiet h)

theorem defineArg_samePlace (env : Environment) (e : Element) :
    Keeps SamePlace (defineArg env e) :=
  defineArg_keeps Quiet.samePlace (fun _ _ => ⟨rfl, rfl, rfl, rfl, rfl, rfl⟩) env e

/-! ## Reports where the verbosity is a number -/

section
variable {s : State} {x : Expr.Number} (h : s.console.verbosity = .level x)

include h

/-- Where the verbosity is a number messages cannot fail, and they change the text on the console
alone. -/
theorem say_of_level (channel : Channel) (message : String) :
    ∃ text, say channel message s = (.ok (), { s with console := ⟨.level x, text⟩ }) := by
  obtain ⟨shown, hshown⟩ : ∃ shown, channel.isShown (.level x) = .ok shown := by
    cases channel <;> cases x <;> exact ⟨_, rfl⟩
  unfold say Console.say
  rw [get_bind_apply, h, hshown]
  cases shown with
  | true => exact ⟨_, by rw [← h]; rfl⟩
  | false => exact ⟨s.console.text, by rw [← h]; rfl⟩

theorem warn_of_level (message : String) : ∃ s', warn message s = (.ok (), s') := by
  obtain ⟨text, hsay⟩ := say_of_level h .warning message
  obtain ⟨above, habove⟩ : ∃ above, (Verbosity.level x).isAbove 1 = .ok above := by
    cases x <;> exact ⟨_, rfl⟩
  unfold warn
  rw [bind_of_ok hsay, get_bind_apply, habove]
  cases above <;> exact ⟨_, rfl⟩

end

/-- The log can only be written to where the verbosity is a number. -/
theorem level_of_logProperty {action name : String} {depth : Nat} {value : Property} {s s' : State}
    (h : logProperty action depth name value s = (.ok (), s')) :
    ∃ x, s'.console.verbosity = .level x := by
  cases hverbosity : s.console.verbosity with
  | level x =>
    obtain ⟨text, hsay⟩ := say_of_level hverbosity .debug
      (String.ofList (List.replicate depth ' ') ++ action ++ " " ++ name ++ ": " ++ value.describe)
    cases hsay.symm.trans h
    exact ⟨x, rfl⟩
  | incomparable =>
    unfold logProperty say Console.say at h
    rw [get_bind_apply, hverbosity] at h
    cases h

end Expansion

end XmlMacros
