import XmlMacros.Proofs.Expansion.Correspondence
import XmlMacros.Proofs.Substitution.Deferral

/-!
# Phases of an expansion with texts or values

Two expansions of a document are compared, one of which has the properties of the global scope as
texts and the other one as values. Between two directives of properties this is one and the same
`Phase`: the expansions simulate each other, as long as no call binds another property to the names
(`deferral_simulation`). The directive of a property that is the next one leads to another phase
(`defineProperty_deferral`).
-/

namespace XmlMacros.Expansion

open XmlMacros.Markup Substitution

/-! ## Meanings by tags -/

/-- Elements with the tag may have the meaning, whatever their attributes and children. -/
def MayMean (env : Environment) (d : Directive) (tag : String) : Prop :=
  ∃ attrs children, meaning env ⟨tag, attrs, children⟩ = d

/-- Besides includes, what an element means as a directive is told by its tag. -/
theorem meaning_of_mayMean {env : Environment} {d : Directive} {e : Element}
    (h : MayMean env d e.tag) (hinclude : d ≠ .includeFile) (hordinary : d ≠ .ordinary) :
    meaning env e = d := by
  obtain ⟨attrs, children, h⟩ := h
  unfold meaning Directive.classify at h ⊢
  dsimp only at h
  cases hword : stripTag? e.tag with
  | some word =>
    rw [hword] at h
    exact h
  | none =>
    rw [hword] at h
    dsimp only at h ⊢
    cases hrequired : env.requirePrefix with
    | true =>
      rw [hrequired] at h
      exact absurd h.symm hordinary
    | false =>
      rw [hrequired] at h
      simp only [Bool.false_eq_true, if_false] at h ⊢
      cases hbare : Directive.ofBareTag? e.tag with
      | none =>
        rw [hbare] at h
        exact absurd h.symm hordinary
      | some directive =>
        rw [hbare] at h
        cases directive with
        | includeFile =>
          dsimp only at h
          split at h
          · exact absurd h.symm hordinary
          · exact absurd h.symm hinclude
        | _ => exact h

/-- What an element means in a state its tag may mean. -/
theorem mayMean_of_classify {env : Environment} {s : State} {d : Directive} {e : Element}
    (h : classify env s e = d) (hinvoke : d ≠ .invoke) (hordinary : d ≠ .ordinary) :
    MayMean env d e.tag :=
  ⟨e.attrs, e.children, (classify_eq_iff hinvoke hordinary).1 h⟩

/-! ## Between two directives of properties -/

/-- The names of the parameters that the directive of a macro declares. -/
def declaredParams (e : Element) : List String :=
  (readParams ((e.attr? "params").getD "")).keys

/-- The element has one of the tags, no element with its tag defines a property, and it declares no
parameter with a reserved name. -/
structure Harmless (env : Environment) (tags reserved : List String) (e : Element) : Prop where
  tag : e.tag ∈ tags
  property : ¬ MayMean env .property e.tag
  params : MayMean env .defineMacro e.tag → ∀ name ∈ declaredParams e, name ∉ reserved

/-- The properties that hold between two directives of properties, with their texts and with the
values of these, and what texts could see when the first of the two was expanded. -/
structure Phase where
  raw : Table
  evaluated : Table
  args : Dict String
  filename : Option String

/-- What texts can see of a phase. -/
def Phase.context (env : Environment) (p : Phase) : Context where
  scopes := ⟨p.raw, []⟩
  commands := env.commands
  view := ⟨env.surroundings, p.args, p.filename⟩
  limits := env.limits

/-- What a name stands for in a phase. -/
theorem Phase.context_lookup? (env : Environment) (p : Phase) (name : String) :
    (p.context env).scopes.lookup? name = p.raw.get? name := by
  have hcurrent : (p.context env).scopes.current = p.raw := rfl
  have hglobal : (p.context env).scopes.global = p.raw := rfl
  rw [Scopes.lookup?, hcurrent, hglobal]
  cases p.raw.get? name <;> rfl

/-- The properties have reserved names, and their texts are worth what they have for values. -/
structure Phase.Valid (env : Environment) (reserved : List String) (p : Phase) : Prop where
  worth : ∀ name, Option.Rel (fun v v' => ∃ text value, v = .text text ∧ v' = .text value ∧
    WorthPlain (p.context env) text value) (p.raw.get? name) (p.evaluated.get? name)
  named : ∀ name, (p.raw.get? name).isSome → name ∈ reserved

/-- How an expansion that evaluates properties late compares to one that does at once, in
a phase. -/
def deferral (env : Environment) (tags reserved : List String) (p : Phase) : Comparison where
  overflows₁ := False
  overflows₂ := False
  deep := Eq
  flat := Eq
  pair e e' := e' = e ∧ Harmless env tags reserved e
  splice _ _ := False
  tables table table' := ∀ name,
    if name ∈ reserved then
      table.get? name = p.raw.get? name ∧ table'.get? name = p.evaluated.get? name
    else
      Option.Rel (Property.Alike Eq (Corresponding (fun e e' => e' = e ∧ Harmless env tags reserved e)
        fun _ _ => False)) (table.get? name) (table'.get? name)
  footing a b :=
    a.localProperties = true ∧ b.localProperties = false ∧
      a.filename = p.filename ∧ b.filename = p.filename ∧
      a.global = p.raw ∧ b.global = p.evaluated ∧
      ∀ name value, p.args.get? name = some value → a.args.get? name = some value
  param name := name ∉ reserved
  text := HasRoom
  file _ := False

section
variable {env : Environment} {tags reserved : List String} {p : Phase} {s t : State}

/-- Nothing but elements that are harmless is related, each to itself. -/
theorem eq_of_corresponding {ns ns' : List Node}
    (h : Corresponding (fun e e' => e' = e ∧ Harmless env tags reserved e) (fun _ _ => False) ns ns') :
    ns' = ns := by
  induction h with
  | nil => rfl
  | leaf _ _ ih => rw [ih]
  | element hpair _ _ _ ih =>
    cases hpair.1
    rw [ih]
  | splice hsplice => exact hsplice.elim

/-- What a reserved name stands for. -/
theorem deferral_reserved (hst : (deferral env tags reserved p).States s t) {name : String}
    (hname : name ∈ reserved) :
    s.scopes.lookup? name = p.raw.get? name ∧ t.scopes.lookup? name = p.evaluated.get? name := by
  have hcurrent := hst.current name
  have hglobal := hst.global name
  rw [if_pos hname] at hcurrent hglobal
  unfold Scopes.lookup?
  rw [hcurrent.1, hcurrent.2, hglobal.1, hglobal.2]
  constructor
  · split
    · rename_i hvalue
      exact hvalue.symm
    · rfl
  · split
    · rename_i hvalue
      exact hvalue.symm
    · rfl

/-- What other names stand for. -/
theorem deferral_other (hst : (deferral env tags reserved p).States s t) {name : String}
    (hname : name ∉ reserved) :
    Option.Rel (Property.Alike Eq (deferral env tags reserved p).Nodes) (s.scopes.lookup? name)
      (t.scopes.lookup? name) := by
  refine hst.lookup? fun htables => ?_
  have hname' := htables name
  rwa [if_neg hname] at hname'

/-- What texts can see of the phase they still see later on. -/
theorem Phase.Valid.extends (hp : p.Valid env reserved)
    (hst : (deferral env tags reserved p).States s t) :
    Extends (p.context env) (s.context env) where
  texts name text hname := by
    have hraw : p.raw.get? name = some (.text text) := p.context_lookup? env name ▸ hname
    have hreserved := hp.named name (by rw [hraw]; rfl)
    exact (deferral_reserved hst hreserved).1.trans hraw
  answers := by
    obtain ⟨-, -, hfilename, -, -, -, hargs⟩ := hst.footing
    exact .of_args rfl rfl hfilename hargs

/-- Commands see the same in both expansions. -/
theorem deferral_view (hst : (deferral env tags reserved p).States s t) :
    (t.context env).view = (s.context env).view := by
  obtain ⟨-, -, hfilename, hfilename', -⟩ := hst.footing
  have hfilename : s.filename = p.filename := hfilename
  have hfilename' : t.filename = p.filename := hfilename'
  show CommandView.mk _ t.args t.filename = CommandView.mk _ s.args s.filename
  rw [hst.args, hfilename, hfilename']

/-- Where the one expansion has a text, the other one has it too, or what it is worth. -/
theorem Phase.Valid.lookup? (hp : p.Valid env reserved)
    (hst : (deferral env tags reserved p).States s t) (name : String) :
    Option.Rel (Property.Alike (fun text text' => text' = text ∨
      WorthPlain (s.context env) text text') fun _ _ => True) (s.scopes.lookup? name)
      (t.scopes.lookup? name) := by
  by_cases hname : name ∈ reserved
  · obtain ⟨hs, ht⟩ := deferral_reserved hst hname
    have hworth := hp.worth name
    rw [hs, ht]
    generalize p.raw.get? name = v at hworth ⊢
    generalize p.evaluated.get? name = v' at hworth ⊢
    cases hworth with
    | none => exact .none
    | some h =>
      obtain ⟨text, value, rfl, rfl, hworth⟩ := h
      exact .some (.text (.inr (hworth.extend (hp.extends hst))))
  · exact Property.Alike.mono (deferral_other hst hname) (fun _ _ h => .inl h.symm) fun _ _ _ =>
      trivial

/-- The contexts of both expansions hold texts and what they are worth, and commands see
  the same. -/
theorem Phase.Valid.holdsValues (hp : p.Valid env reserved)
    (hst : (deferral env tags reserved p).States s t) :
    HoldsValues (s.context env) (t.context env) where
  texts name _ hname := Property.Alike.exists_right (hp.lookup? hst name) hname
  values name _ hname := Property.Alike.exists_left (hp.lookup? hst name) hname
  answers := .of_args rfl (by rw [deferral_view hst]) (by rw [deferral_view hst])
    (by rw [deferral_view hst]; exact fun _ _ => id)
  answers' := .of_args rfl (by rw [deferral_view hst]) (by rw [deferral_view hst])
    (by rw [deferral_view hst]; exact fun _ _ => id)
  limits := rfl

/-- A text has the same value in both runs if there is room for what is evaluated late. -/
theorem deferral_value (hp : p.Valid env reserved) (hst : (deferral env tags reserved p).States s t)
    {text : String} (hroom : HasRoom (s.context env) text) :
    valueIn (t.context env) text = valueIn (s.context env) text :=
  valueIn_congr fun _ => Gives.iff_of_holdsValues (hp.holdsValues hst) hroom

/-- A value that stands for a text is what the text is worth. -/
theorem deferral_forwarded (hp : p.Valid env reserved)
    (hst : (deferral env tags reserved p).States s t) {name text text' : String}
    (hs : s.scopes.lookup? name = some (.text text))
    (ht : t.scopes.lookup? name = some (.text text')) (hroom : HasRoom (s.context env) text) :
    valueIn (t.context env) text' = valueIn (s.context env) text := by
  obtain ⟨x, hx, rfl | ⟨⟨room, hgives⟩, hplain⟩⟩ := (hp.holdsValues hst).values name text' ht
  all_goals cases hs.symm.trans hx
  · exact deferral_value hp hst hroom
  · rw [valueIn_of_not_mem hplain, valueIn_of_gives (hroom room text' hgives)]

/-- In a phase both expansions do the same with harmless elements. -/
theorem deferral_simulation (hp : p.Valid env reserved) :
    Simulation (deferral env tags reserved p) env env where
  flat_of_deep h := h
  deep_of_flat h := Nat.succ.inj h
  flat_of_splice h := h.elim
  overflow_left h := nomatch h
  overflow_right h := nomatch h
  overflow_splice h := h.elim
  heights h hnodes := by
    cases h
    rw [eq_of_corresponding hnodes]
    exact .inl Iff.rfl
  attrs h := by rw [h.1]
  stripTag h := by rw [h.1]
  classify h isMacro := by rw [h.1]
  tag h _ := by rw [h.1]
  output {e _ s} h hmeans attrs children := by
    refine ⟨rfl, h.2.tag, h.2.property, fun hdefined => ?_⟩
    have hmacros : classify env s e = .defineMacro ↔ meaning env e = .defineMacro :=
      classify_eq_iff nofun nofun
    cases hmeans.symm.trans (hmacros.2 (meaning_of_mayMean hdefined nofun nofun))
  params h hmeans := h.2.params (mayMean_of_classify hmeans nofun nofun)
  lookup h name := by
    have hname := h name
    split at hname
    · have hworth := hp.worth name
      rw [hname.1, hname.2]
      generalize p.raw.get? name = v at hworth ⊢
      generalize p.evaluated.get? name = v' at hworth ⊢
      cases hworth with
      | none => exact .none
      | some h =>
        obtain ⟨text, value, rfl, rfl, -⟩ := h
        exact .some (.text trivial)
    · exact Property.Alike.weaken hname
  bind {_ _ name _ _} h hparam hvalue other := by
    have hother := h other
    rw [Dict.get?_insert, Dict.get?_insert]
    by_cases heq : other = name
    · subst heq
      rw [if_neg hparam]
      rw [if_pos rfl, if_pos rfl]
      exact .some hvalue
    · rwa [if_neg heq, if_neg heq]
  define h hmeans := absurd (mayMean_of_classify hmeans nofun nofun) h.2.property
  define_footing h hmeans := absurd (mayMean_of_classify hmeans nofun nofun) h.2.property
  insertArg {a b name} h hnew value := by
    obtain ⟨hlocal, hlocal', hfilename, hfilename', hglobal, hglobal', hargs⟩ := h
    refine ⟨hlocal, hlocal', hfilename, hfilename', hglobal, hglobal', fun other v hv => ?_⟩
    have hold := hargs other v hv
    show (a.args.insert name value).get? other = some v
    rw [Dict.get?_insert]
    split
    · rename_i heq
      simp_all [Dict.contains]
    · exact hold
  value hst hroom := deferral_value hp hst hroom
  forwarded hst hs ht hroom := deferral_forwarded hp hst hs ht hroom
  localProperties h hmeans := absurd (mayMean_of_classify hmeans nofun nofun) h.2.property
  path h := h.elim
  known h := h.elim
  fetch h := h.elim
  content h := h.elim
  enterFile h := h.elim
  leaveFile h := h.elim
  spliced h := h.elim
  splice_content h := h.elim
  splice_known h := h.elim
  splice_enter h := h.elim
  splice_leave h := h.elim

end

/-! ## The directive of a property -/

/-- The text evaluates in the state to one in which nothing is left to evaluate. -/
def HasPlainValue (env : Environment) (s : State) (text : String) : Prop :=
  ∃ value, (Substitution.evalText (s.context env) text .fresh).1 = .ok value ∧ '$' ∉ value.toList

section
variable {env : Environment} {s t : State} {e : Element} {name text : String}

/-- What is written for the text of a property at a placement. -/
def textAt (ctx : Context) (text : String) (placement : Placement) : String :=
  if placement = .current then text else valueIn ctx text

theorem writtenProperty_reportsAt (hs : Reportable s) (env : Environment) (text : String)
    (placement : Placement) :
    ReportsAt s (writtenProperty env (.text text) placement)
      (.text (textAt (s.context env) text placement)) := by
  have hvalue : ReportsAt s (Property.text <$> evalText env text)
      (.text (valueIn (s.context env) text)) := by
    rw [← bind_pure_comp]
    exact (evalText_reportsAt hs env text).bind fun s' _ => .pure s' _
  cases placement with
  | current => exact .pure s _
  | parent | global => exact hvalue

/-- A definition puts the value in its table, and at most reports besides. -/
theorem define_reported (hs : Reportable s) (name : String) (value : Property)
    (placement : Placement) :
    ∃ s', define name value placement s = (.ok (), s') ∧
      Reported { s with scopes := s.scopes.define name value placement } s' := by
  obtain ⟨s', hlog, hs'⟩ := logProperty_reporting "set" (s.scopes.depthAt placement) name value
    { s with scopes := s.scopes.define name value placement } hs
  exact ⟨s', hlog, hs'⟩

/-- The directive of a property writes what its placement says, and reports. -/
theorem defineProperty_apply (h : TextProperty e name text) (hs : Reportable s) (env : Environment)
    (depth : Nat) :
    ∃ s', defineProperty env depth e s = (.ok [], s') ∧
      Reported { s with
        scopes := s.scopes.define name
          (.text (textAt (s.context env) text (placementIn s (e.attr? "scope"))))
          (placementIn s (e.attr? "scope")) } s' := by
  obtain ⟨s₁, hextra, hs₁⟩ := warnExtraAttrs_reporting e ["name", "value", "default", "scope"] s hs
  obtain ⟨s₂, hunreferable, hs₂⟩ := warnUnreferable_reporting name s₁ (hs₁.reportable hs)
  have hs₂ : Reported s s₂ := IsTrans.trans _ _ _ hs₁ hs₂
  obtain ⟨s₃, hplacement, hs₃⟩ :=
    placementFor_reportsAt (hs₂.reportable hs) name (e.attr? "scope")
  have hsame : placementIn s₂ (e.attr? "scope") = placementIn s (e.attr? "scope") := by
    obtain ⟨_, rfl⟩ := hs₂
    rfl
  generalize placementIn s (e.attr? "scope") = placement at hsame ⊢
  have hs₃ : Reported s s₃ := IsTrans.trans _ _ _ hs₂ hs₃
  obtain ⟨s₄, hwritten, hs₄⟩ :=
    writtenProperty_reportsAt (hs₃.reportable hs) env text placement
  have hs₄ : Reported s s₄ := IsTrans.trans _ _ _ hs₃ hs₄
  rw [hs₃.quiet.context] at hwritten
  rw [defineProperty_eq h, bind_of_ok hextra, bind_of_ok hunreferable, bind_of_ok hplacement, hsame,
    bind_of_ok hwritten]
  obtain ⟨console, rfl⟩ := hs₄
  obtain ⟨s₅, hdefine, hs₅⟩ := define_reported
    (s := { s with console := ⟨s.console.verbosity, console⟩ }) hs name
    (.text (textAt (s.context env) text placement)) placement
  rw [bind_of_ok hdefine]
  obtain ⟨console', rfl⟩ := hs₅
  exact ⟨_, rfl, console', rfl⟩

end

/-! ## From phase to phase -/

/-- The phase that begins where a property is given a text in the one expansion, and a value in the
other one. -/
def Phase.define (p : Phase) (args : Dict String) (name text value : String) : Phase :=
  ⟨p.raw.insert name (.text text), p.evaluated.insert name (.text value), args, p.filename⟩

section
variable {env : Environment} {tags reserved : List String} {p : Phase} {s t s' t' : State}
  {e : Element} {name text value : String}

/-- A new property whose text is worth a plain value may be among those that are evaluated late. -/
theorem Phase.Valid.define (hp : p.Valid env reserved) {args : Dict String}
    (hargs : ∀ name value, p.args.get? name = some value → args.get? name = some value)
    (hname : name ∈ reserved) (hnew : p.raw.get? name = none)
    (hworth : WorthPlain (Phase.context env { p with args := args }) text value) :
    (p.define args name text value).Valid env reserved := by
  have htexts (args' : Dict String) : ∀ other x,
      (Phase.context env { p with args := args' }).scopes.lookup? other = some (.text x) →
      ((p.define args name text value).context env).scopes.lookup? other = some (.text x) := by
    intro other x hx
    rw [Phase.context_lookup?] at hx ⊢
    show (p.raw.insert name _).get? other = _
    rw [Dict.get?_insert, if_neg, hx]
    rintro rfl
    cases hnew.symm.trans hx
  have hnow : Extends (Phase.context env { p with args := args })
      ((p.define args name text value).context env) :=
    ⟨htexts args, .of_args rfl rfl rfl fun _ _ => id⟩
  have hbefore : Extends (p.context env) ((p.define args name text value).context env) :=
    ⟨htexts p.args, .of_args rfl rfl rfl hargs⟩
  refine ⟨fun other => ?_, fun other hother => ?_⟩
  · show Option.Rel _ ((p.raw.insert name _).get? other) ((p.evaluated.insert name _).get? other)
    rw [Dict.get?_insert, Dict.get?_insert]
    split
    · exact .some ⟨text, value, rfl, rfl, hworth.extend hnow⟩
    · have hold := hp.worth other
      generalize p.raw.get? other = v at hold ⊢
      generalize p.evaluated.get? other = v' at hold ⊢
      cases hold with
      | none => exact .none
      | some h =>
        obtain ⟨x, y, hx, hy, hold⟩ := h
        exact .some ⟨x, y, hx, hy, hold.extend hbefore⟩
  · have hother : ((p.raw.insert name _).get? other).isSome := hother
    rw [Dict.get?_insert] at hother
    split at hother
    · rename_i heq
      exact heq ▸ hname
    · exact hp.named other hother

/-- Where the global scopes are the only ones, they are those of the phase. -/
theorem deferral_scopes (hst : (deferral env tags reserved p).States s t)
    (hdepth : s.scopes.depth = 0) :
    s.scopes = ⟨p.raw, []⟩ ∧ t.scopes = ⟨p.evaluated, []⟩ := by
  obtain ⟨-, -, -, -, hs, ht, -⟩ := hst.footing
  have hs : s.scopes.global = p.raw := hs
  have ht : t.scopes.global = p.evaluated := ht
  have hdepth' : t.scopes.depth = 0 := hst.depth.trans hdepth
  generalize s.scopes = a at hs hdepth
  generalize t.scopes = b at ht hdepth'
  obtain ⟨current, enclosing⟩ := a
  obtain ⟨current', enclosing'⟩ := b
  cases List.eq_nil_of_length_eq_zero hdepth
  cases List.eq_nil_of_length_eq_zero hdepth'
  cases hs
  cases ht
  exact ⟨rfl, rfl⟩

/-- In another phase nothing but the properties changes. -/
theorem deferral_define (hst : (deferral env tags reserved p).States s t)
    (hp : (p.define s.args name text value).Valid env reserved)
    (hs : Reported { s with scopes := ⟨p.raw.insert name (.text text), []⟩ } s')
    (ht : Reported { t with scopes := ⟨p.evaluated.insert name (.text value), []⟩ } t') :
    (deferral env tags reserved (p.define s.args name text value)).States s' t' := by
  obtain ⟨hlocal, hlocal', hfilename, hfilename', -⟩ := hst.footing
  have hreportable₁ := hs.reportable hst.reportable₁
  have hreportable₂ := ht.reportable hst.reportable₂
  obtain ⟨_, rfl⟩ := hs
  obtain ⟨_, rfl⟩ := ht
  refine ⟨.cons (fun other => ?_) .nil, fun other => ?_, hst.args, hreportable₁, hreportable₂,
    hlocal, hlocal', hfilename, hfilename', rfl, rfl, fun _ _ => id⟩
  · split
    · exact ⟨rfl, rfl⟩
    · rename_i hother
      have hworth := hp.worth other
      have hnone : (p.define s.args name text value).raw.get? other = none :=
        Option.not_isSome_iff_eq_none.1 fun h => hother (hp.named other h)
      rw [hnone] at hworth
      generalize hv : (p.define s.args name text value).evaluated.get? other = v at hworth
      cases hworth
      show Option.Rel _ ((p.define s.args name text value).raw.get? other)
        ((p.define s.args name text value).evaluated.get? other)
      rw [hnone, hv]
      exact .none
  · have hmacros := hst.macros other
    show Option.Rel _ (s.macros.get? other) (t.macros.get? other)
    generalize s.macros.get? other = m at hmacros ⊢
    generalize t.macros.get? other = m' at hmacros ⊢
    cases hmacros with
    | none => exact .none
    | some h => exact .some ⟨h.name, h.params, h.body, h.allowed⟩

theorem placementIn_of_global {word : Option String} (h : s.localProperties = false) :
    placementIn s word = .global := by
  unfold placementIn
  rw [h]
  rfl

/-- The directive of a property directly below the root leads to the next phase. -/
theorem defineProperty_deferral (hp : p.Valid env reserved)
    (hst : (deferral env tags reserved p).States s t) (hdepth : s.scopes.depth = 0)
    (htext : TextProperty e name text) (hname : name ∈ reserved) (hnew : p.raw.get? name = none)
    (hplain : HasPlainValue env s text) (depth : Nat) :
    ∃ s' t' x y, defineProperty env depth e s = (.ok [], s') ∧
      defineProperty env depth e t = (.ok [], t') ∧ s'.scopes.depth = 0 ∧
      (p.define s.args name x y).Valid env reserved ∧
      (deferral env tags reserved (p.define s.args name x y)).States s' t' := by
  obtain ⟨value, hvalue, hnone⟩ := hplain
  rw [evalText_ok_iff] at hvalue
  have hvalueIn : valueIn (t.context env) text = value :=
    (deferral_value hp hst (.of_gives hvalue)).trans (valueIn_of_gives hvalue)
  obtain ⟨s', hrun, hs'⟩ := defineProperty_apply htext hst.reportable₁ env depth
  obtain ⟨t', hrun', ht'⟩ := defineProperty_apply htext hst.reportable₂ env depth
  obtain ⟨-, hlocal, hfilename, -, -, -, hargs⟩ := hst.footing
  have hlocal : t.localProperties = false := hlocal
  obtain ⟨hscopes, hscopes'⟩ := deferral_scopes hst hdepth
  have hcontext : s.context env = Phase.context env { p with args := s.args } := by
    unfold State.context Phase.context
    rw [hscopes, show s.filename = p.filename from hfilename]
  have hdefine (current : Table) (value : Property) (placement : Placement) :
      Scopes.define ⟨current, []⟩ name value placement = ⟨current.insert name value, []⟩ := by
    cases placement <;> rfl
  rw [hscopes, hdefine] at hs'
  rw [placementIn_of_global hlocal, hscopes', hdefine, textAt, if_neg nofun, hvalueIn] at ht'
  have hworth : WorthPlain (s.context env)
      (textAt (s.context env) text (placementIn s (e.attr? "scope"))) value := by
    unfold textAt
    split
    · exact .of_gives hvalue hnone
    · rw [valueIn_of_gives hvalue]
      exact .of_not_mem hnone
  generalize textAt (s.context env) text (placementIn s (e.attr? "scope")) = x at hs' hworth
  have hp' := hp.define hargs hname hnew (hcontext ▸ hworth)
  refine ⟨s', t', x, value, hrun, hrun', ?_, hp', deferral_define hst hp' hs' ht'⟩
  obtain ⟨_, rfl⟩ := hs'
  rfl

end

end XmlMacros.Expansion
