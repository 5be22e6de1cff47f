import XmlMacros.Proofs.Expansion.Faultless
import XmlMacros.Proofs.Expansion.Moment

/-!
# Reading back global properties

Without local properties every property is written to the global scope. A scope of a call is a copy
of the caller's scope with the parameters bound, and is looked at before the global one; so what a
property was just given is what its name stands for (`global_property_read_back`), unless the name
was bound when the call was made (`BoundByCall`): then the call goes on with that binding, as with
that of a parameter (`not_global_property_read_back`).

That the scopes of calls stay as they were made is an invariant of runs: the global scope is the
only one that is written to (`SameCalls.keeping`), so at every moment the current scope is the
global one or the one that the innermost call was made with (`placed_invariant`).
-/

namespace XmlMacros

open XmlMacros.Markup

namespace Expansion

/-! ## What is done without local properties -/

/-- The expansion is in the same calls, and without local properties their scopes are as before. -/
structure SameCalls (s s' : State) : Prop where
  calls : s'.calls = s.calls
  localProperties : s.localProperties = false → s'.localProperties = false
  inner : s.localProperties = false → s'.scopes.inner = s.scopes.inner

instance : Std.Refl SameCalls := ⟨fun _ => ⟨rfl, id, fun _ => rfl⟩⟩

instance : IsTrans State SameCalls where
  trans _ _ _ h h' :=
    ⟨h'.calls.trans h.calls, fun hs => h'.localProperties (h.localProperties hs),
      fun hs => (h'.inner (h.localProperties hs)).trans (h.inner hs)⟩

/-- A step that stays in its place leaves all scopes as they are. -/
theorem SamePlace.sameCalls {s s' : State} (h : SamePlace s s') : SameCalls s s' where
  calls := h.calls
  localProperties hs := h.localProperties.trans hs
  inner _ := congrArg Scopes.inner h.scopes

end Expansion

/-- And so does one that only reports. -/
theorem Keeps.sameCalls {α : Type} {x : Expansion.M α} (h : Keeps Expansion.Quiet x) :
    Keeps Expansion.SameCalls x :=
  fun s => (h s).samePlace.sameCalls

namespace Expansion

/-- Where properties are global a definition is written to the global scope, whatever its directive
says. -/
theorem defineProperty_sameCalls (env : Environment) (depth : Nat) (e : Element) :
    Keeps SameCalls (defineProperty env depth e) := by
  intro s
  rcases defineProperty_writes env depth e s with hquiet | hwrites
  · exact hquiet.samePlace.sameCalls
  · obtain ⟨name, value, placement, -, -, hlocal, hquiet⟩ := hwrites
    have hwritten : SameCalls s { s with scopes := s.scopes.define name value placement } := by
      refine ⟨rfl, id, fun hs => ?_⟩
      rw [hlocal hs]
      exact Scopes.inner_define_global _ _ _
    exact IsTrans.trans _ _ _ hwritten hquiet.samePlace.sameCalls

/-- Without local properties nothing is written to the scopes of calls, and the scope of a call is
gone when the call is left. -/
theorem SameCalls.keeping (env : Environment) : Keeping env SameCalls where
  booked h := h.toSamePlace.sameCalls
  arg e s := (defineArg_samePlace env e s).sameCalls
  defineMacro depth e s := (defineMacro_samePlace depth e s).sameCalls
  property := defineProperty_sameCalls env
  insideFile path hx s :=
    have h := hx (enterFile path s)
    ⟨h.calls, h.localProperties, h.inner⟩
  insideCall m table hx s :=
    have h := hx (enterCall m table s)
    ⟨congrArg List.tail h.calls, h.localProperties,
      fun hs => (Scopes.inner_pop _).trans (congrArg List.tail (h.inner hs))⟩
  withFile path hx s :=
    have h := hx (pushFile path s)
    ⟨h.calls, h.localProperties, h.inner⟩

/-- Once properties are global they stay so. -/
theorem disableLocalProperties_sameCalls : Keeps SameCalls disableLocalProperties := by
  refine .get_bind fun s => ?_
  split
  · exact (warn_quiet _).sameCalls.bind fun _ _ => ⟨rfl, fun _ => rfl, fun _ => rfl⟩
  · exact .pure _

/-! ## How the scope of a call is made -/

section
variable {env : Environment}

/-- A parameter is bound by writing it to the table. -/
theorem bindParam_insert (name : String) (value : Property) (table : Table) :
    Returns (· = table.insert name value) (bindParam name value table) := by
  unfold bindParam
  exact .bind fun _ => .bind fun _ => .pure rfl

/-- The parameters are bound in addition to what is bound already. -/
theorem bindParams_contains (m : Macro) (claimed : Dict (List Node))
    (params : List (String × Param)) (attrs : Dict String) (pool : List Element) (table : Table) :
    Returns (fun r => ∀ name, r.2.contains name ↔ name ∈ params.map Prod.fst ∨ table.contains name)
      (bindParams env m claimed params attrs pool table) := by
  induction params generalizing attrs pool table with
  | nil => exact .pure fun name => by simp
  | cons entry rest ih =>
    obtain ⟨param, _⟩ := entry
    have hstep (attrs : Dict String) (pool : List Element) (value : Property) :
        Returns (fun r => ∀ name,
            r.2.contains name ↔ name ∈ param :: rest.map Prod.fst ∨ table.contains name)
          (do bindParams env m claimed rest attrs pool (← bindParam param value table)) := by
      refine .bind_of (bindParam_insert param value table) fun table₁ hinsert => ?_
      refine (ih attrs pool table₁).mono fun h name => ?_
      rw [h name, hinsert, Dict.contains_insert, List.mem_cons, or_left_comm, or_assoc]
    unfold bindParams
    split
    · exact .bind fun _ => hstep _ _ _
    · exact hstep _ _ _
    · exact hstep _ _ _
    · split
      · exact .bind fun _ => hstep _ _ _
      · exact .throw _

/-- The names that are bound in the scope of a call are the parameters and those that are bound in
the caller's scope. -/
theorem bindCall_contains {m : Macro} {arguments : Dict String} {children : List Node}
    {table : Table} {s s' : State} (h : bindCall env m arguments children s = (.ok table, s'))
    (name : String) :
    table.contains name ↔ m.params.contains name ∨ s.scopes.current.contains name := by
  unfold bindCall at h
  dsimp only at h
  rw [get_bind_apply] at h
  obtain ⟨⟨unknown, table'⟩, s₁, hparams, h⟩ := bind_ok h
  obtain ⟨_, s₂, -, h⟩ := bind_ok h
  cases h
  rw [bindParams_contains m _ _ _ _ _ _ _ _ hparams name, Dict.contains_iff_mem_keys m.params]
  rfl

end

/-! ## The scope of the innermost call -/

/-- The innermost call is that of a macro, made in the state of the caller, and its scope is as it
was made. -/
structure InCall (env : Environment) (Reached : State → Prop) (t : State) (m : Macro)
    (caller : State) : Prop where
  reached : Reached caller
  made : ∃ arguments children s,
    bindCall env m arguments children caller = (.ok t.scopes.current, s)
  calls : t.calls = m :: caller.calls
  inner : t.scopes.inner = t.scopes.current :: caller.scopes.inner

/-- Properties are not local, and the current scope is the global one or that of a call. -/
structure Placed (env : Environment) (Reached : State → Prop) (t : State) : Prop where
  localProperties : t.localProperties = false
  scope : t.scopes.inner = [] ∨ ∃ m caller, InCall env Reached t m caller

section
variable {env : Environment} {Reached : State → Prop}

/-- What is known of the calls around a state is known of all states with the same calls. -/
theorem Placed.kept {s s' : State} (h : SameCalls s s') (hs : Placed env Reached s) :
    Placed env Reached s' := by
  have hinner := h.inner hs.localProperties
  refine ⟨h.localProperties hs.localProperties, ?_⟩
  rcases hs.scope with hnone | ⟨m, caller, hcall⟩
  · exact .inl (hinner.trans hnone)
  · rw [hcall.inner] at hinner
    have hcurrent := Scopes.current_of_inner hinner
    exact .inr ⟨m, caller, hcall.reached, hcurrent ▸ hcall.made, h.calls.trans hcall.calls,
      hcurrent ▸ hinner⟩

/-- So it is known at every moment of a run. -/
theorem placed_invariant : Invariant env SameCalls Reached (Placed env Reached) where
  keeping := SameCalls.keeping env
  disable := disableLocalProperties_sameCalls
  kept := Placed.kept
  enterFile _ := Placed.kept ⟨rfl, id, fun _ => rfl⟩
  takingIn _ := Placed.kept ⟨rfl, id, fun _ => rfl⟩
  enterCall {_ m arguments children table _ s s'} _ _ hreached hbind hs := by
    obtain ⟨console, rfl⟩ := (bindCall_quiet env m arguments children).of_run hbind
    exact ⟨hs.localProperties, .inr ⟨m, s, hreached, ⟨_, _, _, hbind⟩, rfl, rfl⟩⟩

/-- The innermost call was made with a parameter of the name, or where the name was bound in the
caller's scope. -/
def BoundByCall (env : Environment) (Reached : State → Prop) (t : State) (name : String) : Prop :=
  ∃ m caller, InCall env Reached t m caller ∧
    (m.params.contains name ∨ caller.scopes.current.contains name)

/-- In a call the innermost scope is the table of the call. -/
theorem InCall.own?_eq {t caller : State} {m : Macro} (h : InCall env Reached t m caller)
    (name : String) : t.scopes.own? name = t.scopes.current.get? name := by
  unfold Scopes.own?
  rw [h.inner]
  rfl

/-- The table of a call binds the parameters of its macro, and what the scope of the caller bound
when it was copied. -/
theorem InCall.own?_isSome_iff {t caller : State} {m : Macro} (h : InCall env Reached t m caller)
    (name : String) : (t.scopes.own? name).isSome ↔
      m.params.contains name ∨ caller.scopes.current.contains name := by
  obtain ⟨arguments, children, s, hmade⟩ := h.made
  rw [h.own?_eq]
  exact bindCall_contains hmade name

/-- Following the calls outwards, a name is bound below the global scope just where one of them has
a parameter of this name. -/
theorem Placed.own?_isSome_iff {t : State} (h : Placed env Reached t) (name : String) :
    (t.scopes.own? name).isSome ↔ BoundByCall env Reached t name := by
  constructor
  · intro hsome
    rcases h.scope with hnone | ⟨m, caller, hcall⟩
    · unfold Scopes.own? at hsome
      rw [hnone] at hsome
      cases hsome
    · exact ⟨m, caller, hcall, (hcall.own?_isSome_iff name).1 hsome⟩
  · rintro ⟨m, caller, hcall, hbound⟩
    exact (hcall.own?_isSome_iff name).2 hbound

end

/-! ## Writing and reading properties -/

section
variable {s s' : State} {name : String} {value : Property}

/-- A definition that does not fail is written, and its report shows that the verbosity is
a number. -/
theorem define_ok {placement : Placement} (h : define name value placement s = (.ok (), s')) :
    s'.scopes = s.scopes.define name value placement ∧ ∃ x, s'.console.verbosity = .level x := by
  unfold define at h
  rw [get_bind_apply] at h
  obtain ⟨_, s₁, hwrite, hlog⟩ := bind_ok h
  cases hwrite
  exact ⟨((logProperty_quiet _ _ _ _).of_run hlog).samePlace.scopes, level_of_logProperty hlog⟩

/-- A property that is bound is found, where looking it up can be reported. -/
theorem resolve_of_level {x : Expr.Number} (hverbosity : s.console.verbosity = .level x)
    (hvalue : s.scopes.lookup? name = some value) : ∃ s', resolve name s = (.ok value, s') := by
  obtain ⟨text, hsay⟩ := say_of_level hverbosity .debug
    (String.ofList (List.replicate s.scopes.depth ' ') ++ "use" ++ " " ++ name ++ ": "
      ++ value.describe)
  unfold resolve
  rw [get_bind_apply]
  simp only [hvalue]
  exact ⟨_, bind_of_ok hsay⟩

end

section
variable {env : Environment} {s s' : State} {e : Element} {name text : String}

/-- Without local properties a text is evaluated and written to the global scope. That this is
logged shows the verbosity to be a number. -/
theorem defineProperty_global (h : TextProperty e name text) (hlocal : s.localProperties = false)
    {depth : Nat} {out : List Node} (hrun : defineProperty env depth e s = (.ok out, s')) :
    ∃ u value w, Quiet s u ∧ evalText env text u = (.ok value, w) ∧
      s'.scopes = s.scopes.define name (.text value) .global ∧
      ∃ x, s'.console.verbosity = .level x := by
  rw [defineProperty_eq h] at hrun
  obtain ⟨_, s₁, hextra, hrun⟩ := bind_ok hrun
  obtain ⟨_, s₂, hunreferable, hrun⟩ := bind_ok hrun
  obtain ⟨placement, u, hplacement, hrun⟩ := bind_ok hrun
  obtain ⟨written, w, hwritten, hrun⟩ := bind_ok hrun
  obtain ⟨_, _, hdefine, hrun⟩ := bind_ok hrun
  cases hrun
  have h₁ : Quiet s s₁ := (warnExtraAttrs_quiet _ _).of_run hextra
  have h₂ : Quiet s s₂ := IsTrans.trans _ _ _ h₁ ((warnUnreferable_quiet _).of_run hunreferable)
  have hu : Quiet s u := IsTrans.trans _ _ _ h₂ ((placementFor_quiet _ _).of_run hplacement)
  cases placementFor_global (h₂.samePlace.localProperties.trans hlocal) hplacement
  have hw : Quiet s w := IsTrans.trans _ _ _ hu ((writtenProperty_quiet env _ _).of_run hwritten)
  obtain ⟨value, hvalue, rfl⟩ : ∃ value, evalText env text u = (.ok value, w) ∧
      Property.text value = written := map_ok hwritten
  obtain ⟨hscopes, hlevel⟩ := define_ok hdefine
  exact ⟨u, value, w, hu, hvalue, by rw [hscopes, hw.samePlace.scopes], hlevel⟩

end

/-! ## Reading back -/

/-- Without local properties, whenever a property with a text is defined in the course of a run, the
global scope binds its name to the value that the text evaluates to, and looking up the name gives
this value, unless the current scope is that of a call that was made with the name bound, as a
parameter or in the scope of the caller. Then the scope of the call keeps this binding, and looking
up the name gives it. -/
theorem global_property_read_back (env : Environment) (depth : Nat) (inOrder : Bool) (d : Document)
    (s t t' : State) (levels : Nat) (e : Element) (name text : String) (out : List Node)
    (hlocal : s.localProperties = false) (hmoment : Moment env (.document depth inOrder d) s t)
    (hmeans : classify env t e = .property) (htext : TextProperty e name text)
    (hrun : expandNode env (levels + 1) e.node t = (.ok out, t')) :
    ∃ u value w, Quiet t u ∧ evalText env text u = (.ok value, w) ∧
      t'.scopes.global.get? name = some (.text value) ∧
      (¬ BoundByCall env (Moment env (.document depth inOrder d) s) t name →
        ∃ t'', resolve name t' = (.ok (.text value), t'')) ∧
      (BoundByCall env (Moment env (.document depth inOrder d) s) t name →
        ∃ own t'', t.scopes.current.get? name = some own ∧
          t'.scopes.current.get? name = some own ∧ resolve name t' = (.ok own, t'')) := by
  have hplaced := hmoment.invariant placed_invariant id ⟨hlocal, .inl rfl⟩
  have hdefine : defineProperty env levels e t = (.ok out, t') := by
    rw [← (defineProperty_faultless htext env levels).reportFault_eq, ← hrun]
    show _ = reportFault (perform env levels _ e (classify env t e)) t
    rw [hmeans]
    rfl
  obtain ⟨u, value, w, hu, hvalue, hscopes, x, hlevel⟩ :=
    defineProperty_global htext hplaced.localProperties hdefine
  have hglobal : t'.scopes.global.get? name = some (.text value) := by
    rw [hscopes, Scopes.global_define_global, Dict.get?_insert, if_pos rfl]
  have hinner : t'.scopes.inner = t.scopes.inner := by
    rw [hscopes, Scopes.inner_define_global]
  have hlookup : t'.scopes.lookup? name = (t.scopes.own? name).or (some (.text value)) := by
    rw [Scopes.lookup?_eq, hglobal, Scopes.own?, hinner, Scopes.own?]
  refine ⟨u, value, w, hu, hvalue, hglobal, fun hbound => ?_, fun hbound => ?_⟩
  · rw [← hplaced.own?_isSome_iff, Option.not_isSome_iff_eq_none] at hbound
    rw [hbound] at hlookup
    exact resolve_of_level hlevel hlookup
  · obtain ⟨own, hown⟩ := Option.isSome_iff_exists.1 ((hplaced.own?_isSome_iff name).2 hbound)
    rw [hown] at hlookup
    obtain ⟨t'', hresolve⟩ := resolve_of_level hlevel hlookup
    obtain ⟨m, caller, hcall, -⟩ := hbound
    have hcurrent : t'.scopes.current = t.scopes.current :=
      Scopes.current_of_inner (hinner.trans hcall.inner)
    rw [hcall.own?_eq] at hown
    exact ⟨own, t'', hown, hcurrent ▸ hown, hresolve⟩

/-! ### A property in a call -/

/-- A property with a text that needs no evaluation. -/
def assignment (name : String) : Element :=
  ⟨"xacro:property", [⟨"name", name⟩, ⟨"value", "2"⟩], []⟩

/-- The definition of a macro with the parameter `x`, which defines a property. -/
def assigning (name : String) : Element :=
  ⟨"xacro:macro", [⟨"name", "m"⟩, ⟨"params", "x"⟩], [(assignment name).node]⟩

/-- The macro that is defined. -/
def assigningMacro (name : String) : Macro :=
  definedMacro "m" (assigning name) [(assignment name).node] [none] none

/-- A call of the macro, in which `x` is bound. -/
def assigningCall : Element :=
  ⟨"xacro:m", [⟨"x", "1"⟩], []⟩

/-- A document that defines and calls the macro. -/
def assigningDocument (name : String) : Document where
  before := []
  root := ⟨"r", [], [(assigning name).node, assigningCall.node]⟩
  after := []

/-- The state in which the macro is called. -/
def callingState (name : String) : State :=
  { State.fresh false with macros := Dict.empty.insert "m" (assigningMacro name) }

/-- The state in which the property is defined. -/
def assigningState (name : String) : State :=
  enterCall (assigningMacro name) (Scopes.initialTable.insert "x" (.text "1")) (callingState name)

theorem defineMacro_assigning (name : String) :
    defineMacro 8 (assigning name) (.fresh false) = (.ok [], callingState name) := by
  have hgiven : requireAttr (assigning name) "name" = pure "m" := by rfl
  have hname : stripTag "m" = "m" := by decide
  have hextra : (assigning name).extraWarning? ["name", "params"] = none := by
    simp [Element.extraWarning?, Element.extraAttrs, assigning]
  have hkeyword : warnKeyword "m" = pure () := by rfl
  unfold defineMacro warnExtraAttrs
  rw [hgiven, map_pure, hname, hextra]
  simp only [pure_bind, hkeyword]
  rfl

/-- The call binds its parameter to what it was given. -/
theorem bindCall_assigning (name : String) :
    bindCall (.ofFiles true []) (assigningMacro name) (Dict.ofList [("x", "1")]) []
      (callingState name)
        = (.ok (Scopes.initialTable.insert "x" (.text "1")), callingState name) := by
  have hparams : (assigningMacro name).params.entries = [("x", ⟨.scalar, none, false⟩)] := by
    show (readParams "x").entries = _
    decide +kernel
  unfold bindCall
  rw [hparams]
  rfl

/-- The macro is defined, and then it is called: in its body the property is assigned. -/
theorem moment_assigning (name : String) :
    Moment (.ofFiles true []) (.document 9 true (assigningDocument name)) (.fresh false)
      (assigningState name) := by
  let env : Environment := .ofFiles true []
  have hmacro : stripTag? (assigning name).tag = some "macro" := by
    show stripTag? "xacro:macro" = _
    decide
  have hdefine : expandNode env 9 (assigning name).node (.fresh false)
      = (.ok [], callingState name) := by
    show reportFault (perform env 8 _ _ (classify env _ (assigning name))) _ = _
    rw [classify_of_stripTag? hmacro]
    exact reportFault_of_ok (defineMacro_assigning name)
  have hcall : stripTag? assigningCall.tag = some "m" := by decide
  have hcallee : callee env assigningCall .byTag (callingState name)
      = (.ok (assigningMacro name, Dict.ofList [("x", "1")]), callingState name) := by
    rfl
  have hbody : Moment env (.nodes 8 [(assignment name).node]) (assigningState name)
      (assigningState name) := .own (Std.Refl.refl _)
  exact .inRoot rfl rfl rfl (.later hdefine
    (.body (classify_of_stripTag? hcall _) hcallee rfl (bindCall_assigning name) hbody))

/-- What `global_property_read_back` is about, for a property with a name that the call does not
bind. -/
theorem global_property_read_back_unbound :
    let env := Environment.ofFiles true []
    let t := assigningState "y"
    ¬ BoundByCall env (Moment env (.document 9 true (assigningDocument "y")) (.fresh false)) t "y" ∧
      ∃ t'', resolve "y" (expandNode env 8 (assignment "y").node t).2 = (.ok (.text "2"), t'') := by
  intro env t
  have hmeans : classify env t (assignment "y") = .property := by decide
  have hok : (expandNode env 8 (assignment "y").node t).1.toOption.isSome := by decide
  obtain ⟨out, hrun⟩ := exists_ok hok
  have hmoment := moment_assigning "y"
  have hbound : ¬ BoundByCall env
      (Moment env (.document 9 true (assigningDocument "y")) (.fresh false)) t "y" := by
    rw [← (hmoment.invariant placed_invariant id ⟨rfl, .inl rfl⟩).own?_isSome_iff]
    decide
  obtain ⟨u, value, w, -, hvalue, -, hresolve, -⟩ :=
    global_property_read_back env 9 true _ _ t _ 7 _ "y" "2" out rfl hmoment hmeans ⟨rfl, rfl⟩ hrun
  rw [evalText_of_not_mem (by decide)] at hvalue
  cases hvalue
  exact ⟨hbound, hresolve hbound⟩

/-- Looking up the name of a global property does not give the value that it was just given where
the name is that of a parameter. -/
theorem not_global_property_read_back :
    ¬ ∀ (env : Environment) (depth : Nat) (inOrder : Bool) (d : Document) (s t t' : State)
      (levels : Nat) (e : Element) (name text : String) (out : List Node),
      s.localProperties = false → Moment env (.document depth inOrder d) s t →
      classify env t e = .property → TextProperty e name text →
      expandNode env (levels + 1) e.node t = (.ok out, t') →
      ∃ u value w t'', Quiet t u ∧ evalText env text u = (.ok value, w) ∧
        resolve name t' = (.ok (.text value), t'') := by
  intro h
  let env : Environment := .ofFiles true []
  let t := assigningState "x"
  have hmeans : classify env t (assignment "x") = .property := by decide
  have hok : (expandNode env 8 (assignment "x").node t).1.toOption.isSome := by decide
  have hread : (resolve "x" (expandNode env 8 (assignment "x").node t).2).1.toOption.map
      Property.describe = some "1" := by
    decide
  obtain ⟨out, hrun⟩ := exists_ok hok
  obtain ⟨u, value, w, t'', -, hvalue, hresolve⟩ :=
    h env 9 true _ _ t _ 7 _ "x" "2" out rfl (moment_assigning "x") hmeans ⟨rfl, rfl⟩ hrun
  rw [evalText_of_not_mem (by decide)] at hvalue
  cases hvalue
  rw [hresolve] at hread
  exact absurd (Option.some.inj hread) (by decide)

end Expansion

end XmlMacros
