import XmlMacros.Proofs.Expansion.NoDirectives
import XmlMacros.Proofs.Expansion.Phase

/-!
# Properties that are evaluated late or at once

Local properties keep their texts, which are evaluated wherever the properties are used; global
properties are evaluated where they are defined. For a document that defines each property once,
directly below the root, with a text that evaluates to one in which nothing is left to evaluate,
this makes no difference (`expandDocument_deferred`). Directly below the root one phase follows the
other (`expandNodes_belowRoot`).

A parameter called `True` or `False` is another matter: texts of properties that are evaluated in
the call see it. And there must be room for what is evaluated late (`LeavesRoom`), where each
property brings along those that it refers to (`not_expandDocument_deferred`).
-/

namespace XmlMacros.Expansion

open XmlMacros.Markup Substitution

/-! ## Documents that define each property once -/

/-- The elements among some nodes. -/
def elementsAmong (nodes : List Node) : List Element :=
  nodes.filterMap Node.element?

/-- The names of the properties that are defined among some nodes. -/
def propertyNames (env : Environment) (nodes : List Node) : List String :=
  ((elementsAmong nodes).filter (meaning env · == .property)).filterMap (·.attr? "name")

/-- Properties are defined directly below the root only, each of them once and with a text. Their
names are names of no parameters, and do not stand for truth values. -/
structure SingleAssignment (env : Environment) (d : Document) : Prop where
  atRoot : ∀ child ∈ elementsAmong d.root.children, ∀ e ∈ elementsIn child.children,
    meaning env e ≠ .property
  texts : ∀ e ∈ elementsAmong d.root.children, meaning env e = .property →
    ((e.attr? "value").or (e.attr? "default")).isSome
  distinct : (propertyNames env d.root.children).Nodup
  params : ∀ e ∈ elementsIn d.root.children, meaning env e = .defineMacro →
    ∀ name ∈ declaredParams e, name ∉ propertyNames env d.root.children
  noTruths : "True" ∉ propertyNames env d.root.children ∧
    "False" ∉ propertyNames env d.root.children

/-- No macro has a parameter with the name of a truth value. -/
def NoTruthParams (env : Environment) (d : Document) : Prop :=
  ∀ e ∈ elementsIn d.root.children, meaning env e = .defineMacro →
    "True" ∉ declaredParams e ∧ "False" ∉ declaredParams e

/-- When a document is expanded in reading order, no element with a tag of the document includes a
file. -/
def IncludesNothing (env : Environment) (depth : Nat) (d : Document) (s : State) : Prop :=
  ∀ k e t, VisitsDocument env depth d s k e.node t →
    e.tag ∈ (elementsIn d.root.children).map Element.tag → classify env t e ≠ .includeFile

/-- When nodes are expanded one after the other, it is the node's turn in the state. -/
inductive Turn (env : Environment) (depth : Nat) : List Node → State → Node → State → Prop
  | here {n : Node} {rest : List Node} {s : State} : Turn env depth (n :: rest) s n s
  | later {m n : Node} {out rest : List Node} {s s' t : State}
    (hrun : expandNode env depth m s = (.ok out, s')) (h : Turn env depth rest s' n t) :
    Turn env depth (m :: rest) s n t

/-- When a document is expanded in reading order, it is the turn of the node directly below the root
in the state. -/
def TurnBelowRoot (env : Environment) (depth : Nat) (d : Document) (s : State) (n : Node)
    (t : State) : Prop :=
  ∃ before s₁ attrs s₂, expandMisc env d.before (opened s) = (.ok before, s₁) ∧
    expandAttrs env d.root.attrs s₁ = (.ok attrs, s₂) ∧ Turn env depth d.root.children s₂ n t

/-- Wherever a property is defined below the root, its text has a plain value. -/
def PlainValues (env : Environment) (depth : Nat) (d : Document) (s : State) : Prop :=
  ∀ e t name text, TurnBelowRoot env depth d s e.node t → meaning env e = .property →
    TextProperty e name text → HasPlainValue env t text

/-- There is room for every text that is evaluated when a document is expanded in reading order. -/
def LeavesRoom (env : Environment) (depth : Nat) (d : Document) (s : State) : Prop :=
  ∀ text ctx, TextOfDocument env depth d s text ctx → HasRoom ctx text

/-! ## Directly below the root -/

/-- The nodes are harmless, but for directives of properties with texts, whose names are reserved
and distinct. -/
structure RootNodes (env : Environment) (tags reserved : List String) (ns : List Node) : Prop where
  texts : ∀ e ∈ elementsAmong ns, meaning env e = .property →
    ((e.attr? "value").or (e.attr? "default")).isSome
  harmless : ∀ e ∈ elementsAmong ns, meaning env e ≠ .property →
    Harmless env tags reserved e ∧ ∀ e' ∈ elementsIn e.children, Harmless env tags reserved e'
  distinct : (propertyNames env ns).Nodup
  reserved : ∀ name ∈ propertyNames env ns, name ∈ reserved

/-- How the expansions compare directly below the root, where the pending names stand for nothing
yet. -/
def belowRoot (env : Environment) (tags reserved pending : List String) : Pairing where
  states s t := s.scopes.depth = 0 ∧ ∃ p : Phase, p.Valid env reserved ∧
    (∀ name ∈ pending, p.raw.get? name = none) ∧ (deferral env tags reserved p).States s t
  overflows₁ := False
  overflows₂ := False

section
variable {env : Environment} {tags reserved : List String} {s t : State} {depth : Nat}
  {e : Element} {n : Node} {rest ns : List Node}

/-- Nodes in which all elements are harmless are related to themselves. -/
theorem corresponding_of_harmless :
    ∀ ns, (∀ e ∈ elementsIn ns, Harmless env tags reserved e) →
      Corresponding (fun e e' => e' = e ∧ Harmless env tags reserved e) (fun _ _ => False) ns ns
  | [], _ => .nil
  | .element tag attrs children :: rest, h => by
    have h : ∀ e ∈ ⟨tag, attrs, children⟩ :: elementsIn children ++ elementsIn rest,
        Harmless env tags reserved e :=
      elementsIn_cons ⟨tag, attrs, children⟩ rest ▸ h
    refine .element ⟨rfl, h _ List.mem_cons_self⟩ ?_ ?_
    · exact corresponding_of_harmless children fun e he =>
        h e (List.mem_append_left _ (List.mem_cons_of_mem _ he))
    · exact corresponding_of_harmless rest fun e he => h e (List.mem_append_right _ he)
  | .text _ :: rest, h | .cdata _ :: rest, h | .comment _ :: rest, h
  | .instruction _ _ :: rest, h => .leaf rfl (corresponding_of_harmless rest h)

theorem elementsAmong_cons (e : Element) (rest : List Node) :
    elementsAmong (e.node :: rest) = e :: elementsAmong rest := rfl

/-- An element that defines no property has no part in the names. -/
theorem propertyNames_of_ne (hmeans : meaning env e ≠ .property) :
    propertyNames env (e.node :: rest) = propertyNames env rest := by
  unfold propertyNames
  rw [elementsAmong_cons, List.filter_cons_of_neg (by simpa using hmeans)]

/-- An element that defines a property puts its name in front of the names that follow. -/
theorem propertyNames_of_eq (hmeans : meaning env e = .property) :
    propertyNames env (e.node :: rest) =
      (e.attr? "name").toList ++ propertyNames env rest := by
  unfold propertyNames
  rw [elementsAmong_cons, List.filter_cons_of_pos (by simpa using hmeans), List.filterMap_cons]
  cases e.attr? "name" <;> rfl

/-- What is asked of the nodes below the root is asked of those that are left. -/
theorem RootNodes.tail (h : RootNodes env tags reserved (n :: rest)) :
    RootNodes env tags reserved rest := by
  have hsublist : (propertyNames env rest).Sublist (propertyNames env (n :: rest)) := by
    refine ((List.Sublist.filterMap _ ?_).filter _).filterMap _
    exact List.sublist_cons_self n rest
  have hmem : ∀ e ∈ elementsAmong rest, e ∈ elementsAmong (n :: rest) := fun e he =>
    ((List.sublist_cons_self n rest).filterMap Node.element?).subset he
  exact ⟨fun e he => h.texts e (hmem e he), fun e he => h.harmless e (hmem e he),
    h.distinct.sublist hsublist, fun name hname => h.reserved name (hsublist.subset hname)⟩

/-- No harmless element includes a file, and there is room for all texts. -/
structure Unhindered (env : Environment) (tags : List String) (depth : Nat) (n : Node)
    (t : State) : Prop where
  includes : ∀ e, n = e.node → e.tag ∈ tags → classify env t e ≠ .includeFile
  room : ∀ text ctx, TextOf env depth t n text ctx → HasRoom ctx text

/-- Where nothing hinders during an expansion, everything is fine for the comparison. -/
theorem fine_of_unhindered {p : Phase}
    (h : During env (Unhindered env tags) depth ns s) :
    During env ((deferral env tags reserved p).Fine env) depth ns s := by
  refine fun k n t hvisits => ⟨(h k n t hvisits).room, ?_⟩
  rintro e e' name rfl ⟨-, hharmless⟩ hmeans
  exact absurd hmeans ((h k _ t hvisits).includes e rfl hharmless.tag)

/-- What is expanded in one phase leaves pending what was pending. -/
theorem belowRoot_of_phase {p : Phase} {pending : List String} (hdepth : s.scopes.depth = 0)
    (hp : p.Valid env reserved) (hpending : ∀ name ∈ pending, p.raw.get? name = none)
    (h : Parallel (deferral env tags reserved p).pairing (deferral env tags reserved p).Output s t
      (expandNode env depth n) (expandNode env depth n)) :
    Parallel (belowRoot env tags reserved pending) (fun out out' => out' = out) s t
      (expandNode env depth n) (expandNode env depth n) := by
  have hlifted : Parallel (belowRoot env tags reserved pending)
      (deferral env tags reserved p).Output s t (expandNode env depth n)
        (expandNode env depth n) := by
    refine Pairing.Ends.lift h (fun hst => ?_) id id
    have hframe := (expandNode_frame env depth n s).depth
    exact ⟨hframe.trans hdepth, p, hp, hpending, hst⟩
  exact hlifted.mono fun hout => hout.1

/-- Nodes with harmless elements are expanded in one phase. -/
theorem expandNode_belowRoot_harmless {pending : List String}
    (hst : (belowRoot env tags reserved pending).states s t)
    (hnode : n.element? = none ∨ ∃ e, n = e.node ∧ Harmless env tags reserved e ∧
      ∀ e' ∈ elementsIn e.children, Harmless env tags reserved e')
    (hduring : During env (Unhindered env tags) depth [n] s) :
    Parallel (belowRoot env tags reserved pending) (fun out out' => out' = out) s t
      (expandNode env depth n) (expandNode env depth n) := by
  obtain ⟨hdepth, p, hp, hpending, hst⟩ := hst
  refine belowRoot_of_phase hdepth hp hpending ?_
  rcases hnode with hleaf | ⟨e, rfl, hharmless, hchildren⟩
  · exact (deferral_simulation hp).expandNode_leaf rfl hst hleaf (fine_of_unhindered hduring)
  · exact (deferral_simulation hp).expandNode rfl ⟨rfl, hharmless⟩
      (corresponding_of_harmless _ hchildren) hst (fine_of_unhindered hduring)

/-- Where an element defines a property, there is nothing else to do. -/
theorem expandNode_of_property (hmeans : meaning env e = .property) (depth : Nat) :
    expandNode env (depth + 1) e.node = reportFault (defineProperty env depth e) := by
  funext s
  have hproperties : classify env s e = .property ↔ meaning env e = .property :=
    classify_eq_iff nofun nofun
  show reportFault (perform env depth (expandNode env depth) e (classify env s e)) s = _
  rw [hproperties.2 hmeans]
  rfl

/-- The directive of a property with a text ends the phase. -/
theorem expandNode_belowRoot_property
    (hst : (belowRoot env tags reserved (propertyNames env (e.node :: rest))).states s t)
    (hmeans : meaning env e = .property)
    (htext : ((e.attr? "value").or (e.attr? "default")).isSome)
    (hdistinct : (propertyNames env (e.node :: rest)).Nodup)
    (hreserved : ∀ name ∈ propertyNames env (e.node :: rest), name ∈ reserved)
    (hvalue : ∀ name text, TextProperty e name text → HasPlainValue env s text) :
    Parallel (belowRoot env tags reserved (propertyNames env rest)) (fun out out' => out' = out) s t
      (expandNode env depth e.node) (expandNode env depth e.node) := by
  obtain ⟨hdepth, p, hp, hpending, hst⟩ := hst
  rw [propertyNames_of_eq hmeans] at hpending hdistinct hreserved
  cases depth with
  | zero => exact Parallel.abort (p := belowRoot env tags reserved _) nofun
  | succ depth =>
    cases hname : e.attr? "name" with
    | none =>
      have hfault : Parallel (deferral env tags reserved p).pairing
          (deferral env tags reserved p).Output s t (defineProperty env depth e)
          (defineProperty env depth e) :=
        hst.requireAttr rfl "name" fun name hattr => nomatch hname.symm.trans hattr
      refine belowRoot_of_phase hdepth hp (fun name hpends => hpending name ?_) ?_
      · exact List.mem_append_right _ hpends
      · rw [expandNode_of_property hmeans]
        exact Comparison.States.reportFault hfault
    | some name =>
      obtain ⟨text, htext⟩ := Option.isSome_iff_exists.1 htext
      have hgiven : TextProperty e name text := ⟨hname, htext⟩
      rw [hname] at hpending hdistinct hreserved
      unfold Parallel
      rw [expandNode_of_property hmeans, (defineProperty_faultless hgiven env depth).reportFault_eq]
      obtain ⟨s', t', x, y, hrun, hrun', hdepth', hp', hst'⟩ :=
        defineProperty_deferral hp hst hdepth hgiven (hreserved name List.mem_cons_self)
          (hpending name List.mem_cons_self) (hvalue name text hgiven) depth
      rw [hrun, hrun']
      refine .ok rfl ⟨hdepth', _, hp', fun other hother => ?_, hst'⟩
      show (p.raw.insert name _).get? other = none
      rw [Dict.get?_insert, if_neg]
      · exact hpending other (List.mem_cons_of_mem _ hother)
      · rintro rfl
        exact (List.nodup_cons.1 hdistinct).1 hother

/-- The nodes directly below the root expand to the same in both expansions. -/
theorem expandNodes_belowRoot (hroot : RootNodes env tags reserved ns)
    (hst : (belowRoot env tags reserved (propertyNames env ns)).states s t)
    (hduring : During env (Unhindered env tags) depth ns s)
    (hvalues : ∀ e u name text, Turn env depth ns s e.node u → meaning env e = .property →
      TextProperty e name text → HasPlainValue env u text) :
    Parallel (belowRoot env tags reserved []) (fun out out' => out' = out) s t
      (expandNodes (expandNode env depth) ns) (expandNodes (expandNode env depth) ns) := by
  induction ns generalizing s t with
  | nil => exact Parallel.pure (p := belowRoot env tags reserved []) rfl hst
  | cons n rest ih =>
    have hhead : Parallel (belowRoot env tags reserved (propertyNames env rest))
        (fun out out' => out' = out) s t (expandNode env depth n) (expandNode env depth n) := by
      cases n with
      | element tag attrs children =>
        let e : Element := ⟨tag, attrs, children⟩
        have he : e ∈ elementsAmong (e.node :: rest) := List.mem_cons_self
        by_cases hmeans : meaning env e = .property
        · exact expandNode_belowRoot_property (e := e) hst hmeans (hroot.texts e he hmeans)
            hroot.distinct hroot.reserved fun name text => hvalues e s name text .here hmeans
        · obtain ⟨hharmless, hchildren⟩ := hroot.harmless e he hmeans
          rw [show Node.element tag attrs children = e.node from rfl,
            propertyNames_of_ne hmeans] at hst
          exact expandNode_belowRoot_harmless hst (.inr ⟨e, rfl, hharmless, hchildren⟩) hduring.head
      | text | cdata | comment | instruction =>
        exact expandNode_belowRoot_harmless hst (.inl rfl) hduring.head
    have hforget (s' t' : State) :
        (belowRoot env tags reserved (propertyNames env rest)).states s' t' →
          (belowRoot env tags reserved []).states s' t' :=
      fun ⟨hdepth, p, hp, _, hst'⟩ => ⟨hdepth, p, hp, nofun, hst'⟩
    unfold expandNodes
    refine hhead.bind_lift hforget False.elim False.elim fun out out' s₁ t₁ hrun _ hout hst₁ => ?_
    refine (ih hroot.tail hst₁ (hduring.later hrun) fun e u name text hturn =>
      hvalues e u name text (.later hrun hturn)).bind fun more more' s₂ t₂ _ _ hmore hst₂ => ?_
    rw [hout, hmore]
    exact Parallel.pure (p := belowRoot env tags reserved []) rfl hst₂

end

/-! ## Documents -/

/-- The phase in which documents begin. -/
def Phase.initial (s : State) : Phase :=
  ⟨Scopes.initialTable, Scopes.initialTable, s.args, s.filename⟩

section
variable {env : Environment} {tags reserved : List String} {s : State} {depth : Nat}
  {d : Document}

/-- At the beginning there are the truth values. -/
theorem initialTable_get? {name : String} {v : Property}
    (h : Scopes.initialTable.get? name = some v) :
    (name = "True" ∨ name = "False") ∧ ∃ text, v = .text text ∧ '$' ∉ text.toList := by
  have hentries : Scopes.initialTable.entries = [("True", .text "1"), ("False", .text "0")] := rfl
  have hmem := Dict.mem_of_get? h
  rw [hentries, List.mem_pair] at hmem
  rcases hmem with heq | heq <;> cases heq
  · exact ⟨.inl rfl, "1", rfl, by decide⟩
  · exact ⟨.inr rfl, "0", rfl, by decide⟩

/-- At the start nothing but the truth values stands for anything, and their names are reserved. -/
theorem Phase.initial_valid (htrue : "True" ∈ reserved) (hfalse : "False" ∈ reserved) :
    (Phase.initial s).Valid env reserved := by
  refine ⟨fun name => ?_, fun name hname => ?_⟩
  · show Option.Rel _ (Scopes.initialTable.get? name) (Scopes.initialTable.get? name)
    cases hv : Scopes.initialTable.get? name with
    | none => exact .none
    | some v =>
      obtain ⟨-, text, rfl, hplain⟩ := initialTable_get? hv
      exact .some ⟨text, text, rfl, rfl, .of_not_mem hplain⟩
  · obtain ⟨v, hv⟩ := Option.isSome_iff_exists.1 hname
    obtain ⟨rfl | rfl, -⟩ := initialTable_get? hv
    · exact htrue
    · exact hfalse

/-- Documents begin in corresponding states. -/
theorem deferral_opened (hs : Reportable s) : (deferral env tags reserved (.initial s)).States
    (opened { s with localProperties := true }) (opened { s with localProperties := false }) where
  scopes := by
    refine .cons (fun name => ?_) .nil
    split
    · exact ⟨rfl, rfl⟩
    · show Option.Rel _ (Scopes.initialTable.get? name) (Scopes.initialTable.get? name)
      cases hv : Scopes.initialTable.get? name with
      | none => exact .none
      | some v =>
        obtain ⟨-, text, rfl, -⟩ := initialTable_get? hv
        exact .some (.text rfl)
  macros _ := .none
  args := rfl
  reportable₁ := hs
  reportable₂ := hs
  footing := ⟨rfl, rfl, rfl, rfl, rfl, rfl, fun _ _ => id⟩

/-- The elements below one of some nodes are elements below these nodes. -/
theorem elementsIn_of_among {ns : List Node} {e : Element} (he : e ∈ elementsAmong ns) :
    e ∈ elementsIn ns ∧ elementsIn e.children ⊆ elementsIn ns :=
  have hmem := filterMap_element?_subset ns he
  ⟨hmem, elementsIn_subset hmem⟩

/-- The names that no call binds another property to. -/
def reservedNames (env : Environment) (d : Document) : List String :=
  "True" :: "False" :: propertyNames env d.root.children

/-- The children of the root of such a document are as `RootNodes` describes them, with the tags and
the reserved names of the document itself. -/
theorem SingleAssignment.rootNodes (h : SingleAssignment env d) (hparams : NoTruthParams env d) :
    RootNodes env ((elementsIn d.root.children).map Element.tag) (reservedNames env d)
      d.root.children := by
  have hharmless : ∀ e ∈ elementsIn d.root.children, meaning env e ≠ .property →
      Harmless env ((elementsIn d.root.children).map Element.tag) (reservedNames env d) e := by
    intro e he hmeans
    refine ⟨List.mem_map_of_mem he, fun hmay => hmeans (meaning_of_mayMean hmay nofun nofun),
      fun hmay name hname hreserved => ?_⟩
    have hdefined : meaning env e = .defineMacro := meaning_of_mayMean hmay nofun nofun
    obtain ⟨htrue, hfalse⟩ := hparams e he hdefined
    rcases List.mem_cons.1 hreserved with rfl | hreserved
    · exact htrue hname
    rcases List.mem_cons.1 hreserved with rfl | hreserved
    · exact hfalse hname
    · exact h.params e he hdefined name hname hreserved
  refine ⟨h.texts, fun e he hmeans => ?_, h.distinct, fun name hname => ?_⟩
  · obtain ⟨hmem, hsubset⟩ := elementsIn_of_among he
    exact ⟨hharmless e hmem hmeans, fun e' he' => hharmless e' (hsubset he') (h.atRoot e he e' he')⟩
  · exact List.mem_cons_of_mem _ (List.mem_cons_of_mem _ hname)

/-- Documents expand to the same in both expansions. -/
theorem expandParts_deferral (hs : Reportable s) (h : SingleAssignment env d)
    (hparams : NoTruthParams env d)
    (hincludes : IncludesNothing env depth d { s with localProperties := true })
    (hvalues : PlainValues env depth d { s with localProperties := true })
    (hroom : LeavesRoom env depth d { s with localProperties := true }) :
    Pairing.Ends ⟨fun _ _ => True, False, False⟩ (fun out out' => out' = out)
      (expandParts env depth d (opened { s with localProperties := true }))
      (expandParts env depth d (opened { s with localProperties := false })) := by
  let tags := (elementsIn d.root.children).map Element.tag
  let reserved := reservedNames env d
  let anyhow : Pairing := ⟨fun _ _ => True, False, False⟩
  have hp : (Phase.initial s).Valid env reserved :=
    Phase.initial_valid List.mem_cons_self (List.mem_cons_of_mem _ List.mem_cons_self)
  have hsimulation : Simulation (deferral env tags reserved (.initial s)) env env :=
    deferral_simulation hp
  show Parallel anyhow _ _ _ _ _
  unfold expandParts expandElement
  refine (hsimulation.expandMisc (deferral_opened hs) fun _ h => hroom _ _ (.before h)).bind_lift
    (fun _ _ _ => trivial) id id fun before before' s₁ t₁ hbefore _ hsame hst₁ => ?_
  cases hsame
  simp only [bind_assoc, pure_bind]
  have hq₁ := (expandMisc_quiet env d.before).of_run hbefore
  have hroomAttrs : ∀ a ∈ evaluatedAttrs d.root.attrs, HasRoom (s₁.context env) a.value := by
    intro a ha
    rw [hq₁.context]
    exact hroom _ _ (.attr ha)
  refine (hsimulation.expandAttrs hst₁ hroomAttrs).bind_lift
    (fun _ _ _ => trivial) id id fun attrs attrs' s₂ t₂ hattrs _ hsame hst₂ => ?_
  cases hsame
  have hbelow : (belowRoot env tags reserved (propertyNames env d.root.children)).states s₂ t₂ := by
    have hq₂ := (expandAttrs_quiet env d.root.attrs).of_run hattrs
    have hscopes : s₂.scopes = Scopes.initial :=
      hq₂.samePlace.scopes.trans hq₁.samePlace.scopes
    refine ⟨by rw [hscopes]; rfl, _, hp, fun name hname => ?_, hst₂⟩
    refine Option.eq_none_iff_forall_ne_some.2 fun v hv => ?_
    obtain ⟨rfl | rfl, -⟩ := initialTable_get? hv
    · exact h.noTruths.1 hname
    · exact h.noTruths.2 hname
  have hduring : During env (Unhindered env tags) depth d.root.children s₂ := by
    intro k n u hvisits
    have hvisits : VisitsDocument env depth d _ k n u :=
      ⟨before, s₁, attrs, s₂, hbefore, hattrs, hvisits⟩
    refine ⟨?_, fun text ctx htext => hroom text ctx (.node hvisits htext)⟩
    rintro e rfl
    exact hincludes k e u hvisits
  refine (expandNodes_belowRoot (h.rootNodes hparams) hbelow hduring fun e u name text hturn =>
    hvalues e u name text ⟨before, s₁, attrs, s₂, hbefore, hattrs, hturn⟩).bind_lift
    (fun _ _ _ => trivial) id id fun out out' s₃ t₃ hnodes _ hsame hst₃ => ?_
  cases hsame
  obtain ⟨-, p, hp', -, hst₃⟩ := hst₃
  have hroot : expandElement env (expandNode env depth) d.root s₁ =
      (.ok ⟨d.root.tag, attrs, out⟩, s₃) := by
    unfold expandElement
    rw [bind_of_ok hattrs, bind_of_ok hnodes]
    rfl
  refine ((deferral_simulation hp').expandMisc hst₃ fun _ h =>
    hroom _ _ (.after hbefore hroot h)).bind_lift
    (fun _ _ _ => trivial) id id fun after after' s₄ t₄ _ _ hsame _ => ?_
  cases hsame
  exact Parallel.pure (p := anyhow) rfl trivial

/-- In a document that defines each property once, with a text that has a plain value where it is
defined, it does not matter whether properties are local and evaluated where they are used, or
global and evaluated where they are defined, if no macro has a parameter called `True` or `False`,
and there is room for the texts that are evaluated where properties are local. -/
theorem expandDocument_deferred (env : Environment) (depth : Nat) (d : Document) (s : State)
    (hs : Reportable s) (h : SingleAssignment env d) (hparams : NoTruthParams env d)
    (hincludes : IncludesNothing env depth d { s with localProperties := true })
    (hvalues : PlainValues env depth d { s with localProperties := true })
    (hroom : LeavesRoom env depth d { s with localProperties := true }) :
    (expandDocument env depth true d { s with localProperties := true }).1 =
      (expandDocument env depth true d { s with localProperties := false }).1 := by
  have hends := expandParts_deferral hs h hparams hincludes hvalues hroom
  have hfaultless := expandParts_faultless env depth d (opened { s with localProperties := true })
  rw [expandDocument_inOrder_fst, expandDocument_inOrder_fst]
  generalize expandParts env depth d (opened { s with localProperties := true }) = r at *
  generalize expandParts env depth d (opened { s with localProperties := false }) = r' at *
  cases hends with
  | ok hvalue _ => rw [hvalue]
  | fault _ => exact absurd rfl (hfaultless _)
  | abort _ => rfl
  | overflow₁ hfalse | overflow₂ hfalse => exact hfalse.elim

end

/-! ## Examples -/

/-- Where only tags with the prefix are directives, a document in which no element is an include
includes nothing. -/
theorem includesNothing_of_requirePrefix {env : Environment} (hrequired : env.requirePrefix = true)
    {d : Document} (h : ∀ e ∈ elementsIn d.root.children, meaning env e ≠ .includeFile)
    (depth : Nat) (s : State) : IncludesNothing env depth d s := by
  rintro k e t - htag hmeans
  obtain ⟨e', he', htag⟩ := List.mem_map.1 htag
  have hincludes := (classify_eq_iff (d := .includeFile) nofun nofun).1 hmeans
  refine h e' he' ?_
  unfold meaning Directive.classify at hincludes ⊢
  rw [hrequired] at hincludes ⊢
  rw [htag]
  exact hincludes

/-- A property that depends on another one, and an element that depends on it. -/
def chained : Document where
  before := []
  root := ⟨"r", [],
    [.element "xacro:property" [⟨"name", some "p"⟩, ⟨"value", some "2"⟩] [],
      .element "xacro:property" [⟨"name", some "q"⟩, ⟨"value", some "${p * 3}"⟩] [],
      .element "a" [⟨"v", some "${q + 1}"⟩] []]⟩
  after := []

/-- A property that mentions `True`, used by a macro that has a parameter of this name. -/
def truthParam : Document where
  before := []
  root := ⟨"r", [],
    [.element "xacro:property" [⟨"name", some "p"⟩, ⟨"value", some "${True}"⟩] [],
      .element "xacro:macro" [⟨"name", some "m"⟩, ⟨"params", some "True"⟩]
        [.element "a" [⟨"v", some "${p}"⟩] []],
      .element "xacro:m" [⟨"True", some "5"⟩] []]⟩
  after := []

/-- Properties that refer to one another. -/
def referring : Document where
  before := []
  root := ⟨"r", [],
    [.element "xacro:property" [⟨"name", some "p"⟩, ⟨"value", some "007"⟩] [],
      .element "xacro:property" [⟨"name", some "q"⟩, ⟨"value", some "${p}"⟩] [],
      .element "xacro:property" [⟨"name", some "r"⟩, ⟨"value", some "${q}"⟩] [],
      .element "a" [⟨"v", some "${r}"⟩] []]⟩
  after := []

/-- Nothing to read, and only tags with the prefix are directives. -/
def noFiles : Environment :=
  .ofFiles true []

/-- Nothing to read, and room for one name behind another. -/
def noRoom : Environment :=
  { noFiles with limits := ⟨2, 300⟩ }

theorem chained_singleAssignment : SingleAssignment noFiles chained := by
  constructor <;> decide

theorem truthParam_singleAssignment : SingleAssignment noFiles truthParam := by
  constructor <;> decide +kernel

theorem referring_singleAssignment : SingleAssignment noRoom referring := by
  constructor <;> decide

/-- A value that is given is the result of the evaluation. -/
theorem evalText_of_toOption {ctx : Context} {text : String} (value : String)
    (h : (Substitution.evalText ctx text .fresh).1.toOption = some value) :
    (Substitution.evalText ctx text .fresh).1 = .ok value := by
  generalize (Substitution.evalText ctx text .fresh).1 = r at h ⊢
  cases r with
  | error => cases h
  | ok => cases h; rfl

/-- A text has a plain value if the value that is given for it has no dollar sign. -/
theorem hasPlainValue_of_toOption {env : Environment} {s : State} {text : String} (value : String)
    (h : (Substitution.evalText (s.context env) text .fresh).1.toOption = some value)
    (hplain : '$' ∉ value.toList) : HasPlainValue env s text :=
  ⟨value, evalText_of_toOption value h, hplain⟩

/-- Its turn is in the state in which the expansion of the nodes in front of it ends. -/
theorem Turn.of_cons {env : Environment} {depth : Nat} {m n : Node} {rest : List Node} {s t : State}
    (h : Turn env depth (m :: rest) s n t) :
    (n = m ∧ t = s) ∨ Turn env depth rest (expandNode env depth m s).2 n t := by
  cases h with
  | here => exact .inl ⟨rfl, rfl⟩
  | later hrun h =>
    rw [hrun]
    exact .inr h

theorem chained_plainValues : PlainValues noFiles 8 chained (.fresh true) := by
  rintro e t name text ⟨before, s₁, attrs, s₂, hbefore, hattrs, hturn⟩ hmeans htext
  cases hbefore
  cases hattrs
  obtain ⟨tag, attrs, children⟩ := e
  rcases hturn.of_cons with ⟨hp, rfl⟩ | hturn
  · cases hp
    cases htext.text
    exact hasPlainValue_of_toOption "2" (by decide +kernel) (by decide)
  rcases hturn.of_cons with ⟨hq, rfl⟩ | hturn
  · cases hq
    cases htext.text
    exact hasPlainValue_of_toOption "6" (by decide +kernel) (by decide)
  rcases hturn.of_cons with ⟨ha, rfl⟩ | hturn
  · cases ha
    exact absurd hmeans (by decide)
  cases hturn

/-- Only the attribute is evaluated, in the state in which the properties are defined. -/
theorem chained_leavesRoom : LeavesRoom noFiles 8 chained (.fresh true) := by
  intro text ctx htext
  cases htext with
  | before h | attr h | after _ _ h => cases h
  | node hvisits htext =>
    obtain ⟨before, s₁, attrs, s₂, hbefore, hattrs, hvisits⟩ := hvisits
    cases hbefore
    cases hattrs
    have hproperty {t : State} {e : Element} (h : stripTag? e.tag = some "property") :
        classify noFiles t e = .property := classify_of_stripTag? h t
    rcases hvisits.of_cons with hp | hvisits
    · obtain ⟨rfl, rfl⟩ := Visits.of_property (e := ⟨_, _, _⟩) (hproperty (by decide)) hp
      exact absurd htext (TextOf.not_of_property (hproperty (by decide)) (by decide))
    rcases hvisits.of_cons with hq | hvisits
    · obtain ⟨rfl, rfl⟩ := Visits.of_property (e := ⟨_, _, _⟩) (hproperty (by decide)) hq
      exact absurd htext (TextOf.not_of_property (hproperty (by decide)) (by decide))
    rcases hvisits.of_cons with ha | hvisits
    · have hmeans (t : State) : classify noFiles t ⟨"a", [⟨"v", some "${q + 1}"⟩], []⟩ = .ordinary :=
        classify_of_requirePrefix rfl (by decide) t
      obtain ⟨rfl, rfl⟩ := Visits.of_childless (e := ⟨_, _, _⟩) (hmeans _) rfl ha
      obtain ⟨x, hx, rfl, rfl⟩ := htext.of_ordinary (hmeans _)
      cases List.mem_singleton.1 (show x ∈ [_] from hx)
      exact .of_gives ((evalText_ok_iff _).1 (evalText_of_toOption "7" (by decide +kernel)))
    cases hvisits

theorem truthParam_plainValues : PlainValues noFiles 8 truthParam (.fresh true) := by
  rintro e t name text ⟨before, s₁, attrs, s₂, hbefore, hattrs, hturn⟩ hmeans htext
  cases hbefore
  cases hattrs
  obtain ⟨tag, attrs, children⟩ := e
  rcases hturn.of_cons with ⟨hp, rfl⟩ | hturn
  · cases hp
    cases htext.text
    exact hasPlainValue_of_toOption "1" (by decide +kernel) (by decide)
  rcases hturn.of_cons with ⟨hdefined, rfl⟩ | hturn
  · cases hdefined
    exact absurd hmeans (by decide)
  rcases hturn.of_cons with ⟨hcall, rfl⟩ | hturn
  · cases hcall
    exact absurd hmeans (by decide)
  cases hturn

theorem referring_plainValues : PlainValues noRoom 8 referring (.fresh true) := by
  rintro e t name text ⟨before, s₁, attrs, s₂, hbefore, hattrs, hturn⟩ hmeans htext
  cases hbefore
  cases hattrs
  obtain ⟨tag, attrs, children⟩ := e
  rcases hturn.of_cons with ⟨hp, rfl⟩ | hturn
  · cases hp
    cases htext.text
    exact hasPlainValue_of_toOption "007" (by decide +kernel) (by decide)
  rcases hturn.of_cons with ⟨hq, rfl⟩ | hturn
  · cases hq
    cases htext.text
    exact hasPlainValue_of_toOption "007" (by decide +kernel) (by decide)
  rcases hturn.of_cons with ⟨hr, rfl⟩ | hturn
  · cases hr
    cases htext.text
    exact hasPlainValue_of_toOption "007" (by decide +kernel) (by decide)
  rcases hturn.of_cons with ⟨ha, rfl⟩ | hturn
  · cases ha
    exact absurd hmeans (by decide)
  cases hturn

/-- A property that refers to another one has the same value whether it is evaluated at once or
where it is used. -/
theorem expandDocument_deferred_chained :
    (expandDocument noFiles 8 true chained (.fresh true)).1.toOption.map childValues = some ["7"] ∧
      (expandDocument noFiles 8 true chained (.fresh true)).1 =
        (expandDocument noFiles 8 true chained (.fresh false)).1 :=
  ⟨by decide +kernel,
    expandDocument_deferred noFiles 8 chained (.fresh true) ⟨_, rfl⟩ chained_singleAssignment
      (by unfold NoTruthParams; decide)
      (includesNothing_of_requirePrefix rfl (by decide) 8 _) chained_plainValues
      chained_leavesRoom⟩

/-- Neither guard can be left out. Texts that are evaluated in a call see a parameter called `True`.
And a property that refers to others takes more room where it is used than each of them takes where
it is defined. -/
theorem not_expandDocument_deferred :
    (SingleAssignment noFiles truthParam ∧ IncludesNothing noFiles 8 truthParam (.fresh true) ∧
      PlainValues noFiles 8 truthParam (.fresh true) ∧
      (expandDocument noFiles 8 true truthParam (.fresh true)).1.toOption.map childValues =
        some ["5"] ∧
      (expandDocument noFiles 8 true truthParam (.fresh false)).1.toOption.map childValues =
        some ["1"]) ∧
    SingleAssignment noRoom referring ∧ NoTruthParams noRoom referring ∧
      IncludesNothing noRoom 8 referring (.fresh true) ∧
      PlainValues noRoom 8 referring (.fresh true) ∧
      (expandDocument noRoom 8 true referring (.fresh true)).1.toOption.map childValues =
        some ["${r}"] ∧
      (expandDocument noRoom 8 true referring (.fresh false)).1.toOption.map childValues =
        some ["007"] := by
  refine ⟨⟨truthParam_singleAssignment,
      includesNothing_of_requirePrefix rfl (by decide) 8 _, truthParam_plainValues, ?_, ?_⟩,
    referring_singleAssignment, by unfold NoTruthParams; decide,
    includesNothing_of_requirePrefix rfl (by decide) 8 _, referring_plainValues, ?_, ?_⟩
  all_goals decide +kernel

end XmlMacros.Expansion
