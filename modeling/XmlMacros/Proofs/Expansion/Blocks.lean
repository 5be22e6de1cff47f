import XmlMacros.Proofs.Expansion.Idempotent
import XmlMacros.Proofs.Expansion.Passing

/-!
# Blocks belong to the caller

The nodes of a block argument are expanded where the macro is called, and once more wherever the
block is inserted: in the scope of the macro, with its macros, at another depth. Where the prefix is
required and nothing in the nodes is left to evaluate, this second expansion gives the same nodes,
or the run ends because they are nested too deeply by then (`expandNode_insertBlock`).

A block in the body of a macro is taken from the children of the call, or it is one of the caller
(`Enters.takenFrom_or_kept`). So a block that is handed on from call to call (`Handed`) is inserted
as it was first bound (`expandNode_handed`).
-/

namespace XmlMacros.Expansion

open XmlMacros.Markup

/-! ## Nodes that are nested too deeply -/

section
variable {env : Environment}

/-- If nodes expand to themselves or overflow, and one of them overflows, so do they together. -/
theorem expandNodes_of_overflow {expand : Expand} {P : Node → Prop} {nodes : List Node}
    (hpure : ∀ n ∈ nodes, P n → expand n = pure [n])
    (hover : ∀ n ∈ nodes, ¬ P n → expand n = throw .overflow) (h : ¬ ∀ n ∈ nodes, P n) :
    expandNodes expand nodes = throw .overflow := by
  induction nodes with
  | nil => exact absurd nofun h
  | cons n rest ih =>
    rw [expandNodes]
    by_cases hn : P n
    · have hrest : ¬ ∀ m ∈ rest, P m := fun hrest => h (List.forall_mem_cons.2 ⟨hn, hrest⟩)
      rw [hpure n List.mem_cons_self hn, pure_bind,
        ih (fun m hm => hpure m (List.mem_cons_of_mem _ hm))
          (fun m hm => hover m (List.mem_cons_of_mem _ hm)) hrest]
      rfl
    · rw [hover n List.mem_cons_self hn]
      rfl

/-- Where the prefix is required, an expanded node without anything to evaluate overflows if it is
nested more deeply than the expansion may go. -/
theorem expandNode_of_deep (hrequired : env.requirePrefix = true) {depth k : Nat} {n : Node}
    (h : Expanded depth n) (hplain : Plain n) (hdeep : ¬ Expanded k n) :
    expandNode env k n = throw .overflow := by
  induction h generalizing k with
  | leaf hleaf =>
    cases k with
    | zero => rfl
    | succ k => exact absurd (.leaf hleaf) hdeep
  | @element depth e htag hattrs _ ih =>
    cases k with
    | zero => rfl
    | succ k =>
      have hchildren : expandNodes (expandNode env k) e.children = throw .overflow :=
        expandNodes_of_overflow (P := Expanded k)
          (fun n hn hexpanded => expandNode_of_expanded hrequired hexpanded (hplain.children n hn))
          (fun n hn hdeep => ih n hn (hplain.children n hn) hdeep)
          (fun hall => hdeep (.element htag hattrs hall))
      have he : expandElement env (expandNode env k) e = throw .overflow := by
        rw [expandElement_of_plain_attrs hattrs hplain.attrs, hchildren]
        rfl
      funext s
      show reportFault (perform env k (expandNode env k) e (classify env s e)) s = _
      rw [classify_of_requirePrefix hrequired htag s, perform, he]
      rfl

end

/-! ## Inserting a block -/

/-- An element inserts the block of a name. -/
structure Inserting (e : Element) (name : String) : Prop where
  tag : stripTag? e.tag = some "insert_block"
  name : e.attr? "name" = some name

/-- In a state, a name stands for a block of nodes that came out of an expansion, with nothing left
to evaluate. -/
structure Settled (s : State) (name : String) (nodes : List Node) : Prop where
  bound : s.scopes.lookup? name = some (.block nodes)
  expanded : ∀ n ∈ nodes, ∃ depth, Expanded depth n
  plain : ∀ n ∈ nodes, Plain n

/-- How a directive ends that inserts nodes: with just these nodes, or early, with the whole run,
where they are nested more deeply than the expansion may go or that they are used cannot be
reported. -/
inductive Inserts (k : Nat) (nodes : List Node) (s : State) : Except Abort (List Node) × State → Prop
  | inserted {s' : State} (hdepth : ∀ n ∈ nodes, Expanded k n) (hreported : Reported s s') :
    Inserts k nodes s (.ok nodes, s')
  | overflow {s' : State} (hdepth : ¬ ∀ n ∈ nodes, Expanded k n) (hreported : Reported s s') :
    Inserts k nodes s (.error .overflow, s')
  | unreportable {m : Mismatch} (hs : ¬ Reportable s) : Inserts k nodes s (.error (.mismatch m), s)

section
variable {env : Environment} {e : Element} {name : String} {nodes : List Node} {s : State}

/-- Where a name stands for a block, its nodes are got, and their use is logged. -/
theorem blockOf_apply (hbound : s.scopes.lookup? name = some (.block nodes)) :
    blockOf name s =
      (do logProperty "use" s.scopes.depth name (.block nodes); return nodes : M (List Node)) s := by
  have hcontains : s.scopes.contains name = true := by
    rw [Scopes.contains, hbound]
    rfl
  unfold blockOf resolve
  rw [get_bind_apply, if_pos hcontains, bind_apply, get_bind_apply, hbound]
  rw [← bind_apply, bind_assoc]
  rfl

theorem namedBlock_eq (hname : e.attr? "name" = some name) :
    namedBlock e = (do warnExtraAttrs e ["name"]; blockOf name) := by
  rw [namedBlock, requireAttr_of_attr? hname, pure_bind]

theorem namedBlock_reportsAt (hs : Reportable s) (hname : e.attr? "name" = some name)
    (hbound : s.scopes.lookup? name = some (.block nodes)) : ReportsAt s (namedBlock e) nodes := by
  rw [namedBlock_eq hname]
  refine (warnExtraAttrs_reporting e ["name"] s hs).bind fun s' hs' => ?_
  have hbound' : s'.scopes.lookup? name = some (.block nodes) := by
    rw [hs'.quiet.samePlace.scopes, hbound]
  unfold ReportsAt
  rw [blockOf_apply hbound']
  exact (logProperty_reporting _ _ _ _ s' (hs'.reportable hs)).bind fun _ _ => .pure _ _

theorem namedBlock_of_not_reportable (hs : ¬ Reportable s) (hname : e.attr? "name" = some name)
    (hbound : s.scopes.lookup? name = some (.block nodes)) :
    ∃ m, namedBlock e s = (.error (.mismatch m), s) := by
  rw [namedBlock_eq hname]
  obtain ⟨_, hextra⟩ | ⟨m, hextra⟩ := warnExtraAttrs_muteAt hs e ["name"]
  · rw [bind_of_ok hextra, blockOf_apply hbound]
    obtain ⟨m, hlog⟩ := logProperty_of_not_reportable hs "use" s.scopes.depth name (.block nodes)
    exact ⟨m, bind_of_error hlog⟩
  · exact ⟨m, bind_of_error hextra⟩

/-- What an element means that inserts a block does not depend on the macros there are. -/
theorem expandNode_inserting (he : Inserting e name) (k : Nat) (s : State) :
    expandNode env (k + 1) e.node s =
      reportFault (namedBlock e >>= expandNodes (expandNode env k)) s := by
  show reportFault (perform env k _ e (classify env s e)) s = _
  rw [classify_of_stripTag? he.tag]
  rfl

/-- A settled block is inserted as it is, whatever else is in scope and whichever macros
there are. -/
theorem expandNode_insertBlock (hrequired : env.requirePrefix = true) (he : Inserting e name)
    (hsettled : Settled s name nodes) (k : Nat) :
    Inserts k nodes s (expandNode env (k + 1) e.node s) := by
  rw [expandNode_inserting he]
  by_cases hs : Reportable s
  · obtain ⟨s', hblock, hreported⟩ := namedBlock_reportsAt hs he.name hsettled.bound
    unfold reportFault
    rw [tryCatch_apply, bind_of_ok hblock]
    by_cases hdepth : ∀ n ∈ nodes, Expanded k n
    · rw [expandNodes_of_pure fun n hn =>
        expandNode_of_expanded hrequired (hdepth n hn) (hsettled.plain n hn)]
      exact .inserted hdepth hreported
    · rw [expandNodes_of_overflow (fun n hn hexpanded =>
        expandNode_of_expanded hrequired hexpanded (hsettled.plain n hn)) (fun n hn hdeep =>
          (hsettled.expanded n hn).elim fun _ hexpanded =>
            expandNode_of_deep hrequired hexpanded (hsettled.plain n hn) hdeep) hdepth]
      exact .overflow hdepth hreported
  · obtain ⟨m, hblock⟩ := namedBlock_of_not_reportable hs he.name hsettled.bound
    unfold reportFault
    rw [tryCatch_apply, bind_of_error hblock]
    exact .unreportable hs

end

/-! ## Blocks of a call -/

/-- The nodes that a parameter takes from the expanded children of a call: one of the elements, or
the content of one. -/
def TakenFrom (children nodes : List Node) : Prop :=
  ∃ e : Element, e.node ∈ children ∧ (nodes = [e.node] ∨ nodes = e.children)

/-- The content of an expanded element is expanded. -/
theorem Expanded.children {depth : Nat} {e : Element} (h : Expanded depth e.node) :
    ∀ n ∈ e.children, Expanded depth n := by
  obtain ⟨tag, attrs, children⟩ := e
  cases h with
  | leaf h => cases h
  | @element _ e' _ _ hchildren => exact fun n hn => (hchildren n hn).succ

section
variable {env : Environment} {depth : Nat} {e : Element} {s s₁ t : State} {m : Macro}
  {arguments : Dict String} {children nodes : List Node} {name : String}

/-- What is taken from the children of a call has been expanded. -/
theorem Enters.expanded (h : Enters env depth e s s₁ m arguments children t)
    (htaken : TakenFrom children nodes) : ∀ n ∈ nodes, Expanded depth n := by
  obtain @⟨_, _, s₀, _, -, -, hchildren, -⟩ := h
  have hall : ∀ n ∈ children, Expanded depth n :=
    expandNodes_emits ((Expanded.emission env).expandNode depth) e.children s₀ children s₁ hchildren
  obtain ⟨e', he', rfl | rfl⟩ := htaken
  · exact List.forall_mem_singleton.2 (hall _ he')
  · exact (hall _ he').children

/-- A block in the body of a macro is taken from the children of the call, unless the name stands
for it where the macro is called. -/
theorem Enters.takenFrom_or_kept (h : Enters env depth e s s₁ m arguments children t)
    (hbound : t.scopes.lookup? name = some (.block nodes)) :
    TakenFrom children nodes ∨ t.scopes.lookup? name = s₁.scopes.lookup? name := by
  have helement {e' : Element} (he' : e' ∈ children.filterMap Node.element?) :
    e'.node ∈ children := by
    obtain ⟨n, hn, he'⟩ := List.mem_filterMap.1 he'
    cases n with
    | element =>
      cases he'
      exact hn
    | text | cdata | comment | instruction => cases he'
  cases hparam : m.params.get? name with
  | some param =>
    obtain ⟨claimed, left, value, hclaims, hvalue, hlookup⟩ := h.lookup? hparam
    obtain ⟨hclaimed, hleft⟩ := hclaims.subset
    cases hlookup.symm.trans hbound
    obtain ⟨e', he', rfl⟩ | ⟨p, hp, rfl⟩ | hkept := Call.value?_eq_block hvalue
    · exact .inl ⟨e', helement (hleft he'), .inl rfl⟩
    · exact .inl ⟨p.2, helement (hclaimed p hp), .inr rfl⟩
    · exact .inr (hbound.trans hkept.symm)
  | none => exact .inr (h.lookup?_other hparam)

end

/-! ## Blocks that are handed on -/

/-- In the course of a run, nodes are bound to a parameter and handed on from call to call. In the
state, the name stands for them, between those nodes that stood beside them in an argument. -/
inductive Handed (env : Environment) (nodes : List Node) :
    List Node → List Node → State → String → Prop
  /-- A call binds them to a parameter, from what its children expand to. -/
  | bound {depth : Nat} {e : Element} {s s₁ t : State} {m : Macro} {arguments : Dict String}
    {children : List Node} {name : String} (hcall : Enters env depth e s s₁ m arguments children t)
    (htaken : TakenFrom children nodes) (hbound : t.scopes.lookup? name = some (.block nodes)) :
    Handed env nodes [] [] t name
  /-- Whatever happens, the name is looked up as before. -/
  | kept {before after : List Node} {s t : State} {name : String}
    (h : Handed env nodes before after s name)
    (hsame : t.scopes.lookup? name = s.scopes.lookup? name) : Handed env nodes before after t name
  /-- The block is inserted, and another call binds what this gives, and what stands beside it. -/
  | handed {before after left right out : List Node} {depth k : Nat} {ins e : Element}
    {s s' s₀ s₁ t : State} {m : Macro} {arguments : Dict String} {children : List Node}
    {name other : String} (h : Handed env nodes before after s name) (hins : Inserting ins name)
    (hrun : expandNode env (k + 1) ins.node s = (.ok out, s'))
    (hcall : Enters env depth e s₀ s₁ m arguments children t)
    (htaken : TakenFrom children (left ++ out ++ right))
    (hbound : t.scopes.lookup? other = some (.block (left ++ out ++ right)))
    (hplain : ∀ text ∈ textsIn (left ++ right), '$' ∉ text.toList) :
    Handed env nodes (left ++ before) (after ++ right) t other

/-- One case for each way to hand a block on. -/
theorem Handed.settled {env : Environment} {nodes before after : List Node} {t : State}
    {name : String}
    (hrequired : env.requirePrefix = true) (hplain : ∀ text ∈ textsIn nodes, '$' ∉ text.toList)
    (h : Handed env nodes before after t name) : Settled t name (before ++ nodes ++ after) := by
  induction h with
  | bound hcall htaken hbound =>
    rw [List.nil_append, List.append_nil]
    exact ⟨hbound, fun n hn => ⟨_, hcall.expanded htaken n hn⟩, fun n => plain_of_textsIn hplain⟩
  | kept _ hsame ih => exact ⟨hsame.trans ih.bound, ih.expanded, ih.plain⟩
  | @handed before after left right out _ k _ _ _ _ _ _ _ _ _ _ _ _ _ hins hrun hcall htaken hbound
      hbeside ih =>
    -- what was inserted is the block itself
    have hout : out = before ++ nodes ++ after := by
      have hinserts := expandNode_insertBlock hrequired hins ih k
      rw [hrun] at hinserts
      cases hinserts
      rfl
    have hnodes : left ++ before ++ nodes ++ (after ++ right) = left ++ out ++ right := by
      simp only [hout, List.append_assoc]
    rw [hnodes]
    refine ⟨hbound, fun n hn => ⟨_, hcall.expanded htaken n hn⟩, fun n hn => ?_⟩
    have hbesides : ∀ n ∈ left ++ right, Plain n := fun n => plain_of_textsIn hbeside
    simp only [List.mem_append] at hn hbesides
    rcases hn with (hn | hn) | hn
    · exact hbesides n (.inl hn)
    · exact ih.plain n (hout ▸ hn)
    · exact hbesides n (.inr hn)

/-- Where the prefix is required, a block without anything left to evaluate that a call bound from
its children is inserted as it was bound, in the body of the macro or in that of any other one that
it was handed on to: whatever parameters, properties and macros there are, the nodes that take the
place of the directive are those that were bound, between those that were added on the way. Only the
whole run can end instead. -/
theorem expandNode_handed (env : Environment) (k : Nat) (nodes before after : List Node) (t : State)
    (name : String) (e : Element) (hrequired : env.requirePrefix = true)
    (hplain : ∀ text ∈ textsIn nodes, '$' ∉ text.toList)
    (hhanded : Handed env nodes before after t name) (he : Inserting e name) :
    Inserts k (before ++ nodes ++ after) t (expandNode env (k + 1) e.node t) :=
  expandNode_insertBlock hrequired he (hhanded.settled hrequired hplain) k

/-- The element that is passed as a block. -/
def handedElement : Element := ⟨"a", [⟨"x", "1"⟩], []⟩

/-- An element that inserts the block of a name. -/
def inserting (name : String) : Element := ⟨"xacro:insert_block", [⟨"name", name⟩], []⟩

/-- A macro with one parameter, for a single element. -/
def handingMacro (name param : String) : Macro where
  name := name
  params := Dict.ofList [(param, ⟨.block, none, false⟩)]
  body := []
  history := []

/-- A state with two such macros. -/
def handingState : State :=
  { State.fresh true with
    macros := Dict.ofList [("outer", handingMacro "outer" "b"), ("inner", handingMacro "inner" "c")] }

/-- The call of the first one with the element. -/
def outerCall : Element := ⟨"xacro:outer", [], [handedElement.node]⟩

/-- The state in its body. -/
def outerState : State :=
  enterCall (handingMacro "outer" "b")
    (Scopes.initialTable.insert "b" (.block [handedElement.node])) handingState

/-- A call of the second one there with what inserting the block gives. -/
def innerCall : Element := ⟨"xacro:inner", [], [(inserting "b").node]⟩

/-- The state in the body of the second one. -/
def innerState : State :=
  enterCall (handingMacro "inner" "c")
    (outerState.scopes.current.insert "c" (.block [handedElement.node])) outerState

/-- An element that is passed to a macro and handed on to another one is inserted as it is. -/
theorem expandNode_handed_once :
    Handed (.ofFiles true []) [handedElement.node] [] [] innerState "c" ∧
      Inserts 7 [handedElement.node] innerState
        (expandNode (.ofFiles true []) 8 (inserting "c").node innerState) := by
  let env : Environment := .ofFiles true []
  have hinserting (name : String) : Inserting (inserting name) name :=
    ⟨show stripTag? "xacro:insert_block" = _ by decide, rfl⟩
  have htaken : TakenFrom [handedElement.node] [handedElement.node] :=
    ⟨handedElement, List.mem_singleton_self _, .inl rfl⟩
  have hrun : expandNode env 8 (inserting "b").node outerState =
      (.ok [handedElement.node], outerState) := by
    rw [expandNode_inserting (hinserting "b")]
    rfl
  have houter : Enters env 8 outerCall handingState handingState (handingMacro "outer" "b")
    Dict.empty
      [handedElement.node] outerState := by
    have htag : stripTag? outerCall.tag = some "outer" := by decide
    refine .intro .byTag (classify_of_stripTag? htag _) ?_ rfl rfl
    rw [callee, show stripTag outerCall.tag = "outer" by decide]
    rfl
  have hinner : Enters env 8 innerCall outerState outerState (handingMacro "inner" "c") Dict.empty
      [handedElement.node] innerState := by
    have htag : stripTag? innerCall.tag = some "inner" := by decide
    refine .intro .byTag (classify_of_stripTag? htag _) ?_ (bind_of_ok hrun) rfl
    rw [callee, show stripTag innerCall.tag = "inner" by decide]
    rfl
  have hbound : Handed env [handedElement.node] [] [] outerState "b" := .bound houter htaken rfl
  have hhanded : Handed env [handedElement.node] ([] ++ []) ([] ++ []) innerState "c" :=
    .handed hbound (hinserting "b") hrun hinner htaken rfl nofun
  exact ⟨hhanded, expandNode_handed env 7 _ [] [] innerState "c" (inserting "c") rfl (by decide)
    hhanded (hinserting "c")⟩

end XmlMacros.Expansion
