import XmlMacros.Proofs.Expansion.Binding
import XmlMacros.Proofs.Expansion.Phase
import XmlMacros.Proofs.Substitution.Alone

/-!
# Values that are passed on

A value goes from name to name: a property refers to another one, a call gives it to a parameter, a
default refers to it, a parameter forwards it (`Passed`). However long the chain of names is, and
however deep the calls are that it goes through, a reference to the last name evaluates to the value
to the letter (`evalText_passed`). Only what the names are looked up as matters to it: every name of
the scope is bound to the value, or refers to one before it (`Linked`).

Properties that are not evaluated yet refer to one another, and each of them takes room when the
last one is evaluated. The chain of these must not be longer than there is room (`Linked.length_le`,
`not_evalText_passed`); calls and properties that are evaluated at once begin a new one.
-/

namespace XmlMacros

open XmlMacros.Markup

/-! ## Scopes -/

/-- The scope at a placement. -/
def Scopes.tableAt (s : Scopes) : Placement → Table
  | .current => s.current
  | .parent => s.parent
  | .global => s.global

/-- A name that is defined stands for its value in the table that it is put in. -/
theorem Scopes.get?_tableAt_define (s : Scopes) (name : String) (value : Property)
    (placement : Placement) :
    ((s.define name value placement).tableAt placement).get? name = some value := by
  have hinsert (t : Table) : (t.insert name value).get? name = some value := by
    rw [Dict.get?_insert, if_pos rfl]
  obtain ⟨current, enclosing⟩ := s
  cases placement with
  | current => exact hinsert _
  | parent => cases enclosing <;> exact hinsert _
  | global =>
    rw [tableAt, global_define_global]
    exact hinsert _

/-- A new scope has the same global one, whatever it starts as. -/
theorem Scopes.global_push (s : Scopes) (table : Table) :
    ({ s.push with current := table } : Scopes).global = s.global := by
  obtain ⟨current, enclosing⟩ := s
  cases enclosing <;> rfl

namespace Expansion

open XmlMacros.Expr XmlMacros.Substitution

/-! ## Chains of names -/

/-- The last name of the chain is bound to the value, and every other one to a reference to the name
behind it. -/
inductive Linked (scopes : Scopes) (v : String) : List String → Prop
  | value {name : String} (h : scopes.lookup? name = some (.text v)) : Linked scopes v [name]
  | reference {name last : String} {rest : List String}
    (h : scopes.lookup? name = some (.text (braced last))) (hlast : Referable last.toList)
    (hrest : Linked scopes v (last :: rest)) : Linked scopes v (name :: last :: rest)

section
variable {scopes scopes' : Scopes} {v name : String} {names : List String}

/-- A chain is linked in all scopes in which its names stand for the same. -/
theorem Linked.congr (h : Linked scopes v names)
    (hsame : ∀ name ∈ names, scopes'.lookup? name = scopes.lookup? name) :
    Linked scopes' v names := by
  induction h with
  | value h => exact .value ((hsame _ List.mem_cons_self).trans h)
  | reference h hlast _ ih =>
    exact .reference ((hsame _ List.mem_cons_self).trans h) hlast
      (ih fun name hname => hsame name (List.mem_cons_of_mem _ hname))

/-- The first name of the chain is worth the value, in room for those behind it. -/
theorem Linked.nameGives (ctx : Context) (hplain : '$' ∉ v.toList) (hshort : ¬ OverlongInteger v)
    (h : Linked ctx.scopes v (name :: names)) : NameGives ctx names.length name v := by
  obtain ⟨token, htoken⟩ := exists_ofText hshort
  generalize hchain : name :: names = chain at h
  induction h generalizing name names with
  | value h =>
    cases hchain
    exact ⟨v, h, .of_not_mem hplain⟩
  | reference h hlast _ ih =>
    cases hchain
    exact ⟨_, h, .braced_name hlast (ih rfl) htoken⟩

/-- A reference to the first name of the chain takes room for all of them. -/
theorem Linked.length_le {ctx : Context} {room : Nat} {text : String}
    (h : Linked ctx.scopes v (name :: names)) (hname : Referable name.toList)
    (hgives : GivesWithin ctx room (braced name) text) : (name :: names).length ≤ room := by
  generalize hchain : name :: names = chain at h
  induction h generalizing name names room text with
  | value =>
    cases hchain
    obtain ⟨room, _, rfl, -⟩ := exists_nameGives_of_braced hname hgives
    exact Nat.succ_le_succ (Nat.zero_le room)
  | reference h hlast _ ih =>
    cases hchain
    obtain ⟨room, _, rfl, x, hx, hgives⟩ := exists_nameGives_of_braced hname hgives
    cases h.symm.trans hx
    exact Nat.succ_le_succ (ih hlast hgives rfl)

end

/-! ## Calls -/

/-- A call of a macro enters its body: the children of the call are expanded, and the parameters
bound in the state that this gives. -/
inductive Enters (env : Environment) (depth : Nat) (e : Element) (s s₁ : State) (m : Macro)
    (arguments : Dict String) (children : List Node) : State → Prop
  | intro (naming : Naming) {table : Table} {s₀ s₂ : State}
    (hmeans : classify env s e = naming.directive)
    (hcallee : callee env e naming s = (.ok (m, arguments), s₀))
    (hchildren : expandNodes (expandNode env depth) e.children s₀ = (.ok children, s₁))
    (hbind : bindCall env m arguments children s₁ = (.ok table, s₂)) :
    Enters env depth e s s₁ m arguments children (enterCall m table s₂)

section
variable {env : Environment} {depth : Nat} {e : Element} {s s₁ t : State} {m : Macro}
  {arguments : Dict String} {children : List Node} {name text : String} {param : Param}

/-- The scope of the body is that of the caller with the parameters bound, below the same global
scope. -/
theorem Enters.rebinds (h : Enters env depth e s s₁ m arguments children t) :
    ∃ claimed left, Claims (openNames arguments.contains .multiBlock m.params.entries)
        (children.filterMap Node.element?) claimed left ∧
      (∀ p ∈ m.params.entries,
        (Call.at (s₁.context env) claimed m.params.entries arguments left).value? p.1 p.2 ≠ none) ∧
      (Call.at (s₁.context env) claimed m.params.entries arguments left).Rebinds m.params.entries
        s₁.scopes.current t.scopes.current ∧
      t.scopes.global = s₁.scopes.global := by
  obtain @⟨_, table, _, s₂, -, -, -, hbind⟩ := h
  obtain ⟨claimed, left, hclaims, hbinds⟩ := bindCall_binds env m arguments children s₁
  rw [hbind] at hbinds
  cases hbinds with
  | bound hvalues hafter hreported =>
    have hscopes : s₂.scopes = s₁.scopes := hreported.quiet.samePlace.scopes
    refine ⟨claimed, left, hclaims, hvalues, hafter, ?_⟩
    rw [enterCall, Scopes.global_push, hscopes]

/-- In the body of the macro, a parameter has the value that the call gives it. -/
theorem Enters.lookup? (h : Enters env depth e s s₁ m arguments children t)
    (hparam : m.params.get? name = some param) :
    ∃ claimed left value, Claims (openNames arguments.contains .multiBlock m.params.entries)
        (children.filterMap Node.element?) claimed left ∧
      (Call.at (s₁.context env) claimed m.params.entries arguments left).value? name param =
        some value ∧
      t.scopes.lookup? name = some value := by
  obtain ⟨claimed, left, hclaims, hvalues, hafter, -⟩ := h.rebinds
  obtain ⟨value, hvalue⟩ := Option.ne_none_iff_exists'.1 (hvalues _ (Dict.mem_of_get? hparam))
  have hcurrent : t.scopes.current.get? name = some value := by
    rw [hafter name, show m.params.entries.lookup name = some param from hparam]
    exact hvalue
  exact ⟨claimed, left, value, hclaims, hvalue, by rw [Scopes.lookup?, hcurrent]⟩

/-- In the body of the macro, a name that is no parameter has the value that it has for
the caller. -/
theorem Enters.lookup?_other (h : Enters env depth e s s₁ m arguments children t)
    (hparam : m.params.get? name = none) : t.scopes.lookup? name = s₁.scopes.lookup? name := by
  obtain ⟨claimed, left, -, -, hafter, hglobal⟩ := h.rebinds
  have hcurrent : t.scopes.current.get? name = s₁.scopes.current.get? name := by
    rw [hafter name, show m.params.entries.lookup name = none from hparam]
  rw [Scopes.lookup?, Scopes.lookup?, hcurrent, hglobal]

/-- A parameter with an argument is bound to the value of the argument. -/
theorem Enters.lookup?_argument (h : Enters env depth e s s₁ m arguments children t)
    (hparam : m.params.get? name = some param) (hargument : arguments.get? name = some text) :
    t.scopes.lookup? name = some (.text (valueIn (s₁.context env) text)) := by
  obtain ⟨_, _, value, -, hvalue, hlookup⟩ := h.lookup? hparam
  rw [hlookup, ← hvalue, Call.value?]
  simp only [Call.at, hargument]

/-- A parameter without an argument that takes no block is bound to what it falls back on. -/
theorem Enters.lookup?_fallback (h : Enters env depth e s s₁ m arguments children t)
    (hparam : m.params.get? name = some param) (hargument : arguments.get? name = none)
    (hblock : ∀ nodes, t.scopes.lookup? name ≠ some (.block nodes)) :
    t.scopes.lookup? name = fallback? (s₁.context env) name param := by
  obtain ⟨_, _, value, -, hvalue, hlookup⟩ := h.lookup? hparam
  rw [hlookup, ← hvalue]
  rw [hlookup, ← hvalue] at hblock
  unfold Call.value? at hblock ⊢
  simp only [Call.at, hargument] at hblock ⊢
  cases hkind : param.kind with
  | scalar => rfl
  | block | multiBlock =>
    simp only [hkind] at hblock ⊢
    rw [Option.or_eq_right_of_none]
    refine Option.map_eq_none_iff.2 (Option.eq_none_iff_forall_ne_some.2 fun e he => ?_)
    rw [he] at hblock
    exact hblock _ rfl

/-- A parameter that is not given anything and has nothing to forward is bound to its default. -/
theorem Enters.lookup?_default (h : Enters env depth e s s₁ m arguments children t)
    (hparam : m.params.get? name = some param) (hargument : arguments.get? name = none)
    (hblock : ∀ nodes, t.scopes.lookup? name ≠ some (.block nodes))
    (hforward : param.forward = true → s₁.scopes.lookup? name = none)
    (hdefault : param.fallback = some text) :
    t.scopes.lookup? name = some (.text (valueIn (s₁.context env) text)) := by
  have hnone : (if param.forward then (s₁.context env).scopes.lookup? name else none) = none := by
    split
    · next hforwards => exact hforward hforwards
    · rfl
  rw [h.lookup?_fallback hparam hargument hblock, fallback?, hnone, hdefault]
  rfl

/-- A parameter that forwards a text is bound to its value. -/
theorem Enters.lookup?_forwarded (h : Enters env depth e s s₁ m arguments children t)
    (hparam : m.params.get? name = some param) (hargument : arguments.get? name = none)
    (hblock : ∀ nodes, t.scopes.lookup? name ≠ some (.block nodes))
    (hforward : param.forward = true)
    (htext : s₁.scopes.lookup? name = some (.text text)) :
    t.scopes.lookup? name = some (.text (valueIn (s₁.context env) text)) := by
  have hsome : (s₁.context env).scopes.lookup? name = some (.text text) := htext
  rw [h.lookup?_fallback hparam hargument hblock, fallback?, hforward, if_pos rfl, hsome]

end

/-! ## Properties -/

section
variable {s s' : State} {α : Type} {x : M α} {a : α}

/-- A mute step that has a result leaves the state as it was. -/
theorem MuteAt.eq_of_ok (h : MuteAt s x) (hrun : x s = (.ok a, s')) : s' = s := by
  obtain ⟨_, h⟩ | ⟨_, h⟩ := h <;> cases hrun.symm.trans h
  rfl

variable (hs : ¬ Reportable s)

include hs

/-- Warning of attributes changes nothing where it is not possible to report. -/
theorem warnExtraAttrs_muteAt (e : Element) (allowed : List String) :
    MuteAt s (warnExtraAttrs e allowed) := by
  unfold warnExtraAttrs
  split
  · exact .inr (say_of_not_reportable hs (by decide : Channel.warning ≠ .error) _)
  · exact .pure ()

theorem warnUnreferable_muteAt (name : String) : MuteAt s (warnUnreferable name) := by
  unfold warnUnreferable
  split
  · exact .pure ()
  · exact warn_muteAt hs _

theorem placementFor_muteAt (name : String) (word : Option String) :
    MuteAt s (placementFor name word) := by
  refine .bind ?_ fun _ => .get_bind (.pure _)
  unfold placementOf
  split
  · exact .pure _
  · split
    · exact .pure _
    · exact (warn_muteAt hs _).bind fun _ => .pure _

/-- Finding what a property is defined as changes nothing where it is not possible to report. -/
theorem writtenProperty_muteAt (env : Environment) (value : Property) (placement : Placement) :
    MuteAt s (writtenProperty env value placement) := by
  unfold writtenProperty
  split
  · exact (evalText_muteAt hs env _).bind fun _ => .pure _
  · exact (evalText_muteAt hs env _).bind fun _ => .pure _
  · exact .pure _

end

section
variable {env : Environment} {depth : Nat} {e : Element} {name text : String} {s s' : State}
  {out : List Node}

/-- Where a property can be defined, the verbosity is a number: that it is written is logged. -/
theorem reportable_of_defineProperty (h : TextProperty e name text)
    (hrun : defineProperty env depth e s = (.ok out, s')) : Reportable s := by
  by_contra hs
  rw [defineProperty_eq h] at hrun
  obtain ⟨_, _, hextra, hrun⟩ := bind_ok hrun
  cases (warnExtraAttrs_muteAt hs _ _).eq_of_ok hextra
  obtain ⟨_, _, hunreferable, hrun⟩ := bind_ok hrun
  cases (warnUnreferable_muteAt hs _).eq_of_ok hunreferable
  obtain ⟨placement, _, hplacement, hrun⟩ := bind_ok hrun
  cases (placementFor_muteAt hs _ _).eq_of_ok hplacement
  obtain ⟨value, _, hwritten, hrun⟩ := bind_ok hrun
  cases (writtenProperty_muteAt hs env _ _).eq_of_ok hwritten
  obtain ⟨_, _, hdefine, -⟩ := bind_ok hrun
  unfold define at hdefine
  rw [get_bind_apply] at hdefine
  obtain ⟨_, s₁, hwrite, hlog⟩ := bind_ok hdefine
  have hs₁ : ¬ Reportable s₁ := by
    cases hwrite
    exact hs
  obtain ⟨_, hmute⟩ := logProperty_of_not_reportable hs₁ "set" (s.scopes.depthAt placement) name value
  cases hlog.symm.trans hmute

/-- What the scopes are after a property was defined. -/
theorem scopes_of_defineProperty (h : TextProperty e name text)
    (hrun : defineProperty env depth e s = (.ok out, s')) :
    s'.scopes = s.scopes.define name
      (.text (textAt (s.context env) text (placementIn s (e.attr? "scope"))))
      (placementIn s (e.attr? "scope")) := by
  obtain ⟨_, hrun', hreported⟩ :=
    defineProperty_apply h (reportable_of_defineProperty h hrun) env depth
  cases hrun.symm.trans hrun'
  exact hreported.quiet.samePlace.scopes

end

/-! ## Passing on -/

/-- In the course of a run a value is passed on from name to name. In the state, the first name of
the list stands for the value, if necessary by way of the other ones. Where the names are evaluated,
there is room for them. -/
inductive Passed (env : Environment) (v : String) : State → List String → Prop
  /-- A name is bound to the value. -/
  | start {s : State} {name : String} (h : s.scopes.lookup? name = some (.text v)) :
    Passed env v s [name]
  /-- Whatever happens, the names are looked up as before. -/
  | meanwhile {s t : State} {names : List String} (h : Passed env v s names)
    (hsame : ∀ name ∈ names, t.scopes.lookup? name = s.scopes.lookup? name) : Passed env v t names
  /-- A new property of the current scope refers to the last name. It is evaluated where it
  is used. -/
  | deferred {s s' : State} {depth : Nat} {e : Element} {name last : String} {rest : List String}
    {out : List Node} (h : Passed env v s (last :: rest)) (hlast : Referable last.toList)
    (hproperty : TextProperty e name (braced last))
    (hplacement : placementIn s (e.attr? "scope") = .current) (hnew : name ∉ last :: rest)
    (hrun : defineProperty env depth e s = (.ok out, s')) : Passed env v s' (name :: last :: rest)
  /-- A property of another scope refers to the last name. It is evaluated now, and stands for the
  value wherever it is looked up in that scope. -/
  | immediate {s s' t : State} {depth : Nat} {e : Element} {name last : String} {rest : List String}
    {out : List Node} (h : Passed env v s (last :: rest)) (hlast : Referable last.toList)
    (hproperty : TextProperty e name (braced last))
    (hplacement : placementIn s (e.attr? "scope") ≠ .current)
    (hroom : (last :: rest).length ≤ env.limits.evaluation)
    (hrun : defineProperty env depth e s = (.ok out, s'))
    (hseen : t.scopes.lookup? name =
      (s'.scopes.tableAt (placementIn s (e.attr? "scope"))).get? name) : Passed env v t [name]
  /-- An argument of a call refers to the last name. -/
  | argument {s s₁ t : State} {depth : Nat} {e : Element} {m : Macro} {arguments : Dict String}
    {children : List Node} {name last : String} {rest : List String} {param : Param}
    (h : Passed env v s₁ (last :: rest)) (hlast : Referable last.toList)
    (hroom : (last :: rest).length ≤ env.limits.evaluation)
    (hcall : Enters env depth e s s₁ m arguments children t)
    (hparam : m.params.get? name = some param) (hargument : arguments.get? name = some (braced last)) :
    Passed env v t [name]
  /-- The default of a parameter refers to the last name, and nothing else is given. -/
  | default {s s₁ t : State} {depth : Nat} {e : Element} {m : Macro} {arguments : Dict String}
    {children : List Node} {name last : String} {rest : List String} {param : Param}
    (h : Passed env v s₁ (last :: rest)) (hlast : Referable last.toList)
    (hroom : (last :: rest).length ≤ env.limits.evaluation)
    (hcall : Enters env depth e s s₁ m arguments children t)
    (hparam : m.params.get? name = some param) (hargument : arguments.get? name = none)
    (hblock : ∀ nodes, t.scopes.lookup? name ≠ some (.block nodes))
    (hforward : param.forward = true → s₁.scopes.lookup? name = none)
    (hdefault : param.fallback = some (braced last)) : Passed env v t [name]
  /-- A parameter forwards the last name. -/
  | forwarded {s s₁ t : State} {depth : Nat} {e : Element} {m : Macro} {arguments : Dict String}
    {children : List Node} {last : String} {rest : List String} {param : Param}
    (h : Passed env v s₁ (last :: rest)) (hroom : rest.length ≤ env.limits.evaluation)
    (hcall : Enters env depth e s s₁ m arguments children t)
    (hparam : m.params.get? last = some param) (hargument : arguments.get? last = none)
    (hblock : ∀ nodes, t.scopes.lookup? last ≠ some (.block nodes))
    (hforward : param.forward = true) : Passed env v t [last]

section
variable {env : Environment} {v last : String} {s : State} {names rest : List String}

/-- A reference to the first name of a chain is worth the value, if there is room for the chain. -/
theorem Linked.gives_braced {ctx : Context} (hplain : '$' ∉ v.toList) (hshort : ¬ OverlongInteger v)
    (h : Linked ctx.scopes v (last :: rest)) (hlast : Referable last.toList)
    (hroom : (last :: rest).length ≤ ctx.limits.evaluation) : Gives ctx (braced last) v := by
  obtain ⟨token, htoken⟩ := exists_ofText hshort
  exact (GivesWithin.braced_name hlast (h.nameGives ctx hplain hshort) htoken).mono hroom

/-- One case for each way to pass a value on. -/
theorem Passed.linked (hplain : '$' ∉ v.toList) (hshort : ¬ OverlongInteger v)
    (h : Passed env v s names) : Linked s.scopes v names := by
  induction h with
  | start h => exact .value h
  | meanwhile _ hsame ih => exact ih.congr hsame
  | @deferred s s' _ e name last rest _ _ hlast hproperty hplacement hnew hrun ih =>
    have hscopes := scopes_of_defineProperty hproperty hrun
    rw [hplacement, textAt, if_pos rfl] at hscopes
    refine .reference ?_ hlast (ih.congr fun other hother => ?_)
    · rw [hscopes, Scopes.lookup?_define_current, if_pos rfl]
    · rw [hscopes, Scopes.lookup?_define_current, if_neg (ne_of_mem_of_not_mem hother hnew)]
  | immediate _ hlast hproperty hplacement hroom hrun hseen ih =>
    have hscopes := scopes_of_defineProperty hproperty hrun
    rw [textAt, if_neg hplacement,
      valueIn_of_gives (ih.gives_braced hplain hshort hlast hroom)] at hscopes
    refine .value ?_
    rw [hseen, hscopes, Scopes.get?_tableAt_define]
  | argument _ hlast hroom hcall hparam hargument ih =>
    refine .value ?_
    rw [hcall.lookup?_argument hparam hargument,
      valueIn_of_gives (ih.gives_braced hplain hshort hlast hroom)]
  | default _ hlast hroom hcall hparam hargument hblock hforward hdefault ih =>
    refine .value ?_
    rw [hcall.lookup?_default hparam hargument hblock hforward hdefault,
      valueIn_of_gives (ih.gives_braced hplain hshort hlast hroom)]
  | @forwarded s s₁ _ _ _ _ _ _ _ _ _ _ hroom hcall hparam hargument hblock hforward ih =>
    obtain ⟨text, htext, hgives⟩ := ih.nameGives (s₁.context env) hplain hshort
    refine .value ?_
    rw [hcall.lookup?_forwarded hparam hargument hblock hforward htext,
      valueIn_of_gives (hgives.mono hroom)]

end

/-- Values are passed on to the letter. If nothing in a text is to be evaluated, and it is not an
integer with too many digits, it can be passed on from name to name any number of times, through
properties, arguments, defaults and forwarded parameters, in any number of nested calls: a reference
to the last name evaluates to just this text, be it a number, blank or in quotes. Wherever names are
evaluated that refer to one another, there has to be room for them. -/
theorem evalText_passed (env : Environment) (v : String) (s : State) (last : String)
    (rest : List String) (hplain : '$' ∉ v.toList) (hshort : ¬ OverlongInteger v)
    (hpassed : Passed env v s (last :: rest)) (hlast : Referable last.toList)
    (hroom : (last :: rest).length ≤ env.limits.evaluation) :
    (Substitution.evalText (s.context env) (braced last) .fresh).1 = .ok v := by
  rw [evalText_ok_iff]
  exact (hpassed.linked hplain hshort).gives_braced hplain hshort hlast hroom

/-- A macro with one parameter. -/
def passingMacro : Macro where
  name := "m"
  params := readParams "p"
  body := []
  history := []

/-- A state in which a name is bound to a number with more digits than it needs. -/
def passingState : State :=
  { State.fresh true with
    scopes := Scopes.initial.define "a" (.text "0.50") .current
    macros := Dict.ofList [("m", passingMacro)] }

/-- A property that refers to the first one. -/
def passingProperty : Element :=
  ⟨"xacro:property", [⟨"name", "b"⟩, ⟨"value", "${a}"⟩], []⟩

/-- A call of the macro with a reference to this property. -/
def passingCall : Element :=
  ⟨"xacro:m", [⟨"p", "${b}"⟩], []⟩

theorem not_overlongInteger_half : ¬ OverlongInteger "0.50" := by
  have hpoint : (Decimal.signedNumeral? "0.50").map (·.2.isInteger) = some false := by
    decide
  rintro ⟨negative, n, hn, hinteger, -⟩
  rw [hn, Option.map_some, hinteger] at hpoint
  cases hpoint

/-- The zero at the end of a number is still there behind a property and in a call. -/
theorem evalText_passed_number : ∃ s, Passed (.ofFiles true []) "0.50" s ["p"] ∧
    (Substitution.evalText (s.context (.ofFiles true [])) "${p}" .fresh).1 = .ok "0.50" := by
  let env : Environment := .ofFiles true []
  have hreferable (c : Char) (h : Expr.isNameStart c = true) : Referable [c] :=
    ⟨c, [], rfl, h, nofun⟩
  have ha : Passed env "0.50" passingState ["a"] := .start rfl
  -- the property refers to the name and is not evaluated yet
  obtain ⟨_, hdefine⟩ := exists_ok (x := defineProperty env 8 passingProperty) (s := passingState)
    (by decide)
  have hb := ha.deferred (hreferable 'a' (by decide)) ⟨rfl, rfl⟩ rfl (by decide) hdefine
  -- the call gives the property to the parameter
  let s := (defineProperty env 8 passingProperty passingState).2
  have hmacro : stripTag? passingCall.tag = some "m" := by decide
  have hcallee : callee env passingCall .byTag s =
      (.ok (passingMacro, argumentsOf passingCall.attrs), s) := by
    have hname : stripTag passingCall.tag = "m" := by decide
    unfold callee
    rw [hname]
    rfl
  obtain ⟨table, hbind⟩ := exists_ok
    (x := bindCall env passingMacro (argumentsOf passingCall.attrs) []) (s := s) (by decide +kernel)
  have hentered : Enters env 8 passingCall s s passingMacro (argumentsOf passingCall.attrs) [] _ :=
    .intro .byTag (classify_of_stripTag? hmacro s) hcallee rfl hbind
  have hparam : passingMacro.params.get? "p" = some ⟨.scalar, none, false⟩ := by decide +kernel
  have hp := hb.argument (hreferable 'b' (by decide)) (by decide) hentered hparam rfl
  exact ⟨_, hp, evalText_passed env "0.50" _ "p" [] (by decide) not_overlongInteger_half hp
    (hreferable 'p' (by decide)) (by decide)⟩

/-- A name for each number. -/
def aliasName (n : Nat) : String :=
  String.ofList ('p' :: List.replicate n '0')

/-- The names up to a number, the last one first. -/
def aliasNames : Nat → List String
  | 0 => [aliasName 0]
  | n + 1 => aliasName (n + 1) :: aliasNames n

/-- A property that refers to the name of the number before. -/
def aliasProperty (n : Nat) : Element :=
  ⟨"xacro:property", [⟨"name", some (aliasName (n + 1))⟩, ⟨"value", some (braced (aliasName n))⟩], []⟩

/-- The names of the chain can be referred to. -/
theorem referable_aliasName (n : Nat) : Referable (aliasName n).toList := by
  refine ⟨'p', List.replicate n '0', String.toList_ofList, by decide, fun d hd => ?_⟩
  rw [(List.mem_replicate.1 hd).2]
  decide

theorem aliasNames_eq_cons (n : Nat) : ∃ rest, aliasNames n = aliasName n :: rest ∧
    rest.length = n := by
  induction n with
  | zero => exact ⟨[], rfl, rfl⟩
  | succ n ih =>
    obtain ⟨rest, hrest, hlength⟩ := ih
    refine ⟨aliasNames n, rfl, ?_⟩
    rw [hrest, List.length_cons, hlength]

/-- The name of a number is not among those of smaller numbers, so no link of the chain binds a name
of another one. -/
theorem aliasName_not_mem {n m : Nat} (h : m < n) : aliasName n ∉ aliasNames m := by
  have hne {k : Nat} (hk : k ≤ m) : aliasName n ≠ aliasName k := by
    intro heq
    have hlength := congrArg (fun name => name.toList.length) heq
    simp only [aliasName, String.toList_ofList, List.length_cons, List.length_replicate] at hlength
    omega
  induction m with
  | zero => exact fun hmem => hne (Nat.le_refl 0) (List.mem_singleton.1 hmem)
  | succ m ih =>
    intro hmem
    rcases List.mem_cons.1 hmem with heq | hmem
    · exact hne (Nat.le_refl _) heq
    · exact ih (Nat.lt_of_succ_lt h) (fun hk => hne (Nat.le_succ_of_le hk)) hmem

/-- A value is passed on through any number of properties that are not evaluated yet. -/
theorem exists_passed_aliasNames (env : Environment) (n : Nat) :
    ∃ s, Passed env "0.50" s (aliasNames n) ∧ Reportable s ∧ s.localProperties = true := by
  induction n with
  | zero =>
    let s : State := { State.fresh true with
      scopes := Scopes.initial.define (aliasName 0) (.text "0.50") .current }
    exact ⟨s, .start rfl, ⟨_, rfl⟩, rfl⟩
  | succ n ih =>
    obtain ⟨s, hpassed, hs, hlocal⟩ := ih
    obtain ⟨rest, hrest, -⟩ := aliasNames_eq_cons n
    have hproperty : TextProperty (aliasProperty n) (aliasName (n + 1)) (braced (aliasName n)) :=
      ⟨rfl, rfl⟩
    obtain ⟨s', hrun, hs'⟩ := defineProperty_apply hproperty hs env 0
    have hnew := aliasName_not_mem (Nat.lt_succ_self n)
    have hplacement : placementIn s ((aliasProperty n).attr? "scope") = .current := by
      rw [placementIn, if_pos hlocal]
      rfl
    rw [hrest] at hpassed hnew
    refine ⟨s', ?_, hs'.reportable hs, ?_⟩
    · rw [aliasNames, hrest]
      exact hpassed.deferred (referable_aliasName n) hproperty hplacement hnew hrun
    · obtain ⟨_, rfl⟩ := hs'
      exact hlocal

/-- There has to be room for names that refer to one another: if there is room for 500 names, the
value gets lost behind 501. -/
theorem not_evalText_passed : ∃ s last rest, Passed (.ofFiles true []) "0.50" s (last :: rest) ∧
    (last :: rest).length = 501 ∧ Referable last.toList ∧ '$' ∉ "0.50".toList ∧
    ¬ OverlongInteger "0.50" ∧
    (Substitution.evalText (s.context (.ofFiles true [])) (braced last) .fresh).1 ≠ .ok "0.50" := by
  obtain ⟨s, hpassed, -⟩ := exists_passed_aliasNames (.ofFiles true []) 500
  obtain ⟨rest, hrest, hlength⟩ := aliasNames_eq_cons 500
  rw [hrest] at hpassed
  have hlength : (aliasName 500 :: rest).length = 501 := by rw [List.length_cons, hlength]
  refine ⟨s, _, rest, hpassed, hlength, referable_aliasName 500, by decide,
    not_overlongInteger_half,
    fun hvalue => ?_⟩
  rw [evalText_ok_iff] at hvalue
  have hlinked : Linked (s.context (.ofFiles true [])).scopes "0.50" (aliasName 500 :: rest) :=
    hpassed.linked (by decide) not_overlongInteger_half
  have hroom : (aliasName 500 :: rest).length ≤ 500 :=
    hlinked.length_le (referable_aliasName 500) hvalue
  rw [hlength] at hroom
  exact absurd hroom (by decide)

end Expansion

end XmlMacros
