import XmlMacros.Proofs.Expansion.Binding
import XmlMacros.Proofs.Expansion.Faultless
import XmlMacros.Proofs.Expansion.Hoisting
import XmlMacros.Proofs.Expansion.NoDirectives

/-!
# Expansions without recursion come to an end

If macros can be ranked such that the body of each invokes only macros of lower rank, a document
without includes, calls by attribute and properties that hold blocks expands in some depth, and no
greater one makes a difference (`expandDocument_settles`).

The induction is over the rank first, since the body of a macro that is called is no part of the
nodes at hand, and over the nodes then (`settling_of_invokesBelow`). How large the blocks are that
are inserted cannot be told beforehand; but blocks were expanded when they were bound, so there is
no directive in them, and they settle by an induction of their own (`settling_of_clean`). That it is
so with all blocks in scope, and that the registered macros are ranked, holds throughout
(`Grounded`).
-/

namespace XmlMacros.Expansion

open XmlMacros.Markup

/-! ## Ranked documents -/

/-- The macros that are invoked in the nodes, at any depth, rank below a bound. -/
def InvokesBelow (env : Environment) (rank : String → Nat) (bound : Nat) (nodes : List Node) :
    Prop :=
  ∀ e ∈ elementsIn nodes, meaning env e = .invoke → rank (stripTag e.tag) < bound

/-- The element is no include and no call by attribute, and defines no property that holds a block.
If it defines a macro, what its body invokes is of lower rank. -/
structure Ranked (env : Environment) (rank : String → Nat) (e : Element) : Prop where
  noInclude : meaning env e ≠ .includeFile
  noCall : meaning env e ≠ .call
  text : meaning env e = .property → ((e.attr? "value").or (e.attr? "default")).isSome
  body : meaning env e = .defineMacro → ∀ name, e.attr? "name" = some name →
    InvokesBelow env rank (rank (stripTag name)) e.children

/-! ## Computations that settle -/

/-- From some depth on the computation always runs in the same way, ends in no overflow, and leads
to a state that the property holds of. -/
def Settles {α : Type} (P : State → Prop) (x : Nat → M α) (s : State) : Prop :=
  ∃ limit r, (∀ depth, limit ≤ depth → x depth s = r) ∧ r.1 ≠ .error .overflow ∧ P r.2

namespace Settles

variable {α β : Type} {P Q : State → Prop} {s : State} {x y : Nat → M α}

/-- What does not depend on the depth settles if it ends in no overflow. -/
theorem of_step {x : M α} (hx : EndsIn (· ≠ .overflow) x) (hP : P (x s).2) :
    Settles P (fun _ => x) s :=
  ⟨0, x s, fun _ _ => rfl, fun h => hx s _ h rfl, hP⟩

/-- What does nothing settles at once. -/
theorem pure (a : α) (hP : P s) : Settles P (fun _ => Pure.pure a : Nat → M α) s :=
  of_step (.pure a) hP

/-- It is enough to know the computation from some depth on. -/
theorem congr (limit : Nat) (h : Settles P x s)
    (hxy : ∀ depth, limit ≤ depth → y depth s = x depth s) : Settles P y s := by
  obtain ⟨limit', r, hrun, hr⟩ := h
  refine ⟨max limit limit', r, fun depth hdepth => ?_, hr⟩
  rw [hxy depth (by omega), hrun depth (by omega)]

/-- A computation settles that does one level deeper what settles. -/
theorem deeper (h : Settles P x s) (hxy : ∀ depth, y (depth + 1) s = x depth s) :
    Settles P y s := by
  obtain ⟨limit, r, hrun, hr⟩ := h
  refine ⟨limit + 1, r, fun depth hdepth => ?_, hr⟩
  obtain ⟨depth, rfl⟩ : ∃ d, depth = d + 1 := ⟨depth - 1, by omega⟩
  rw [hxy, hrun depth (by omega)]

/-- Where the first step has settled, the second one has to settle in its outcome only. Beyond both
of their depths both run in the same way. -/
theorem bind {f : Nat → α → M β} (hx : Settles P x s)
    (hf : ∀ depth a s', x depth s = (.ok a, s') → P s' → Settles P (fun d => f d a) s') :
    Settles P (fun depth => x depth >>= f depth) s := by
  obtain ⟨limit, ⟨abort | a, s'⟩, hrun, hr, hP⟩ := hx
  · refine ⟨limit, (.error abort, s'), fun depth hdepth => bind_of_error (hrun depth hdepth), ?_, hP⟩
    exact fun h => hr (by cases h; rfl)
  · obtain ⟨limit', r, hrun', hr'⟩ := hf limit a s' (hrun limit le_rfl) hP
    refine ⟨max limit limit', r, fun depth hdepth => ?_, hr'⟩
    exact (bind_of_ok (hrun depth (by omega))).trans (hrun' depth (by omega))

/-- What is done around a computation does not depend on the depth. -/
theorem bracket {enter : State → State} {leave : State → State → State}
    (h : Settles P x (enter s)) (hleave : ∀ s', P s' → Q (leave s s')) :
    Settles Q (fun depth => bracket enter leave (x depth)) s := by
  obtain ⟨limit, r, hrun, hr, hP⟩ := h
  refine ⟨limit, (r.1, leave s r.2), fun depth hdepth => ?_, hr, hleave r.2 hP⟩
  exact (bracket_apply _ _ _ _).trans (by rw [hrun depth hdepth])

/-- Nor does the report of a fault. -/
theorem reportFault {x : Nat → M (List Node)} (h : Settles P x s)
    (hquiet : ∀ {s s'}, Quiet s s' → P s → P s') :
    Settles P (fun depth => reportFault (x depth)) s := by
  obtain ⟨limit, r, hrun, hr, hP⟩ := h
  have hsame {depth : Nat} (hdepth : limit ≤ depth) :
      Expansion.reportFault (x depth) s = Expansion.reportFault (x limit) s := by
    unfold Expansion.reportFault
    rw [tryCatch_apply, tryCatch_apply, hrun depth hdepth, hrun limit le_rfl]
  refine ⟨limit, Expansion.reportFault (x limit) s, fun depth => hsame, ?_, ?_⟩
  · unfold Expansion.reportFault
    rw [tryCatch_apply, hrun limit le_rfl]
    rcases r with ⟨(f | _ | _ | _) | out, s'⟩
    · have hwarn : EndsIn (· ≠ .overflow) (do warn f.message; return [] : M (List Node)) :=
        (warn_endsIn (fun _ => nofun) _).bind fun _ => .pure _
      exact fun h => hwarn s' _ h rfl
    · nofun
    · exact absurd rfl hr
    · nofun
    · nofun
  · refine hquiet (reportFault_quiet (x limit) s) ?_
    rw [hrun limit le_rfl]
    exact hP

end Settles

/-! ## Steps that end in no overflow -/

section
variable {A : Abort → Prop} (hfault : ∀ f, A (.fault f)) (hmismatch : ∀ m, A (.mismatch m))

include hfault

/-- An attribute that is missing is a fault. -/
theorem requireAttr_endsIn (e : Element) (name : String) : EndsIn A (requireAttr e name) := by
  unfold requireAttr
  cases e.requireAttr name with
  | ok value => exact .pure value
  | error f => exact .throw (hfault f)

/-- And so is a macro that is not there. -/
theorem findMacro_endsIn (name : String) : EndsIn A (findMacro name) := by
  refine .get_bind fun s => ?_
  split
  · exact .pure _
  · exact .throw (hfault _)

include hmismatch

/-- To give an argument its value takes no depth. -/
theorem defineArg_endsIn (env : Environment) (e : Element) : EndsIn A (defineArg env e) := by
  refine (requireAttr_endsIn hfault _ _).bind fun name => ?_
  refine (requireAttr_endsIn hfault _ _).bind fun fallback => ?_
  refine (warnExtraAttrs_endsIn hmismatch _ _).bind fun _ => EndsIn.bind ?_ fun _ => .pure _
  refine .get_bind fun s => ?_
  split
  · exact .pure _
  · exact (evalText_endsIn hmismatch env _).bind fun _ => modify_endsIn _

/-- A block that is not there, or that is a text, is a fault. -/
theorem namedBlock_endsIn (e : Element) : EndsIn A (namedBlock e) := by
  refine (requireAttr_endsIn hfault _ _).bind fun name => ?_
  refine (warnExtraAttrs_endsIn hmismatch _ _).bind fun _ => .get_bind fun s => ?_
  split
  · refine EndsIn.bind (.get_bind fun s => ?_) fun value => ?_
    · dsimp only
      split
      · exact .throw (hfault _)
      · exact (logProperty_endsIn hmismatch _ _ _ _).bind fun _ => .pure _
    · split
      · exact .throw (hfault _)
      · exact .pure _
  · exact .throw (hfault _)

/-- And so is a condition that is no truth value. -/
theorem keptChildren_endsIn (env : Environment) (wanted : Bool) (e : Element) :
    EndsIn A (keptChildren env wanted e) :=
  (requireAttr_endsIn hfault _ _).bind fun _ => (warnExtraAttrs_endsIn hmismatch _ _).bind fun _ =>
    (evalText_endsIn hmismatch env _).bind fun _ => .pure _

/-- Parameters without a value are faults, and binding them takes no depth. -/
theorem bindCall_endsIn (env : Environment) (m : Macro) (arguments : Dict String)
    (children : List Node) : EndsIn A (bindCall env m arguments children) := by
  intro s abort h
  obtain ⟨claimed, left, -, hbinds⟩ := bindCall_binds env m arguments children s
  generalize bindCall env m arguments children s = r at h hbinds
  cases hbinds with
  | bound => cases h
  | missing => cases h; exact hfault _
  | unreportable => cases h; exact hmismatch _

end

/-! ## What steps give -/

/-- Nodes are copied where they are nested no more deeply than is allowed for. -/
theorem capture_of_le {depth : Nat} {nodes : List Node} (h : heightOfNodes nodes ≤ depth) :
    capture depth nodes = pure nodes :=
  if_pos h

section
variable {s s' : State}

/-- A copy is the same nodes. -/
theorem capture_ok {depth : Nat} {nodes body : List Node}
    (h : capture depth nodes s = (.ok body, s')) : body = nodes := by
  unfold capture at h
  split at h
  · cases h; rfl
  · cases h

/-- What is resolved without fail is what is looked up. -/
theorem resolve_ok {name : String} {value : Property} (h : resolve name s = (.ok value, s')) :
    s.scopes.lookup? name = some value := by
  unfold resolve at h
  rw [get_bind_apply] at h
  cases hlookup : s.scopes.lookup? name with
  | none => rw [hlookup] at h; cases h
  | some found =>
    rw [hlookup] at h
    obtain ⟨_, _, _, h⟩ := bind_ok h
    cases h
    rfl

/-- A block that an element names is in scope. -/
theorem namedBlock_ok {e : Element} {nodes : List Node} (h : namedBlock e s = (.ok nodes, s')) :
    ∃ name, s.scopes.lookup? name = some (.block nodes) := by
  obtain ⟨name, s₁, hname, h⟩ := bind_ok h
  obtain ⟨_, s₂, hextra, h⟩ := bind_ok h
  obtain ⟨_, rfl⟩ := (requireAttr_quiet e "name").of_run hname
  obtain ⟨_, rfl⟩ := (warnExtraAttrs_quiet e ["name"]).of_run hextra
  unfold blockOf at h
  rw [get_bind_apply] at h
  split at h
  · obtain ⟨value, s₃, hvalue, h⟩ := bind_ok h
    cases value with
    | text => cases h
    | block nodes' =>
      cases h
      have hlookup := resolve_ok hvalue
      exact ⟨name, hlookup⟩
  · cases h

/-- A condition keeps all children or none. -/
theorem keptChildren_ok {env : Environment} {wanted : Bool} {e : Element} {nodes : List Node}
    (h : keptChildren env wanted e s = (.ok nodes, s')) : nodes = e.children ∨ nodes = [] := by
  obtain ⟨_, _, _, h⟩ := bind_ok h
  obtain ⟨_, _, _, h⟩ := bind_ok h
  obtain ⟨_, _, _, h⟩ := bind_ok h
  cases h
  split
  · exact .inl rfl
  · exact .inr rfl

end

/-! ## What holds throughout -/

/-- The blocks in a scope contain no directives. -/
def CleanTable (env : Environment) (t : Table) : Prop :=
  ∀ name nodes, t.get? name = some (.block nodes) → Clean env nodes

/-- The blocks in all scopes contain no directives, and macros invoke macros of lower rank. -/
structure Grounded (env : Environment) (rank : String → Nat) (s : State) : Prop where
  blocks : ∀ t ∈ s.scopes.tables, CleanTable env t
  macros : ∀ name m, s.macros.get? name = some m →
    (∀ e ∈ elementsIn m.body, Ranked env rank e) ∧ InvokesBelow env rank (rank name) m.body

/-- Where the property of states holds before, it holds afterwards. -/
def Preserves (P : State → Prop) (s s' : State) : Prop :=
  P s → P s'

instance (P : State → Prop) : Std.Refl (Preserves P) := ⟨fun _ => id⟩

instance (P : State → Prop) : IsTrans State (Preserves P) := ⟨fun _ _ _ h h' => h' ∘ h⟩

section
variable {env : Environment} {rank : String → Nat} {s s' : State}

/-- A text stays one when it is written. -/
theorem writtenProperty_text (text : String) (placement : Placement) :
    Returns (∃ text', · = .text text') (writtenProperty env (.text text) placement) := by
  cases placement with
  | current => exact .pure ⟨text, rfl⟩
  | parent | global => exact .map fun text' => ⟨text', rfl⟩

/-- A text has no directives in it. -/
theorem CleanTable.insert_text {t : Table} (h : CleanTable env t) (name text : String) :
    CleanTable env (t.insert name (.text text)) := by
  intro other nodes hget
  rw [Dict.get?_insert] at hget
  split at hget
  · cases hget
  · exact h other nodes hget

/-- A run starts with truth values only, which are texts. -/
theorem cleanTable_initial : CleanTable env Scopes.initialTable := by
  have hempty : CleanTable env (Dict.empty : Table) := fun _ _ => nofun
  exact (hempty.insert_text "True" "1").insert_text "False" "0"

namespace Grounded

variable (h : Grounded env rank s)

include h

/-- Reports change neither blocks nor macros. -/
theorem quiet (hquiet : Quiet s s') : Grounded env rank s' := by
  obtain ⟨_, rfl⟩ := hquiet
  exact ⟨h.blocks, h.macros⟩

/-- The blocks that a name may stand for contain no directives. -/
theorem lookup? {name : String} {nodes : List Node}
    (hlookup : s.scopes.lookup? name = some (.block nodes)) : Clean env nodes := by
  obtain ⟨t, ht, hget⟩ := Scopes.exists_of_lookup? hlookup
  exact h.blocks t ht name nodes hget

/-- A text may be written anywhere. -/
theorem define (name text : String) (placement : Placement) :
    Grounded env rank { s with scopes := s.scopes.define name (.text text) placement } where
  blocks := Scopes.forall_tables_define (fun _ ht => ht.insert_text name text) h.blocks placement
  macros := h.macros

/-- A call is entered with a table of blocks that have no directives. -/
theorem enterCall (m : Macro) {table : Table} (htable : CleanTable env table) :
    Grounded env rank (enterCall m table s) where
  blocks := List.forall_mem_cons.2 ⟨htable, h.blocks⟩
  macros := h.macros

/-- A macro is registered if what its body invokes has lower rank. -/
theorem register {name : String} {m : Macro} (hranked : ∀ e ∈ elementsIn m.body, Ranked env rank e)
    (hbelow : InvokesBelow env rank (rank name) m.body) :
    Grounded env rank { s with macros := s.macros.insert name m } where
  blocks := h.blocks
  macros other m' hget := by
    rw [Dict.get?_insert] at hget
    split at hget
    · next hother =>
      cases hget
      exact ⟨hranked, hother ▸ hbelow⟩
    · exact h.macros other m' hget

/-- When a call is left, the scopes are those around it, with macros that may have been defined
meanwhile. -/
theorem leaveCall (hbefore : Grounded env rank s') (calls : List Macro) :
    Grounded env rank
      { s with scopes := s.scopes.pop, calls := calls, macros := s'.macros } where
  blocks t ht := h.blocks t (Scopes.tables_pop_subset _ ht)
  macros := hbefore.macros

/-- A property is given by an attribute here, so it is a text. -/
theorem defineProperty {e : Element} {name text : String} (htext : TextProperty e name text)
    (depth : Nat) : Grounded env rank (defineProperty env depth e s).2 := by
  have hquiet : ∀ s', Quiet s s' → Grounded env rank s' := fun _ => h.quiet
  rw [defineProperty_eq htext]
  refine after_quiet hquiet (Std.Refl.refl s) (warnExtraAttrs_quiet _ _) fun _ _ h₁ _ => ?_
  refine after_quiet hquiet h₁ (warnUnreferable_quiet _) fun _ _ h₂ _ => ?_
  refine after_quiet hquiet h₂ (placementFor_quiet _ _) fun placement _ h₃ _ => ?_
  refine after_quiet hquiet h₃ (writtenProperty_quiet _ _ _) fun value s₄ h₄ hvalue => ?_
  obtain ⟨text', rfl⟩ := writtenProperty_text text placement _ _ _ hvalue
  rw [bind_pure_snd]
  exact (h.define name text' placement).quiet (define_quiet name _ placement h₄)

/-- Arguments are neither blocks nor macros. -/
theorem defineArg (e : Element) : Grounded env rank (defineArg env e s).2 := by
  have hquiet {α : Type} {x : M α} (hx : Keeps Quiet x) :
      Keeps (Preserves (Grounded env rank)) x := fun s hs => hs.quiet (hx s)
  refine Keeps.bind (hquiet (requireAttr_quiet _ _)) (fun name => ?_) s h
  refine (hquiet (requireAttr_quiet _ _)).bind fun fallback => ?_
  refine (hquiet (warnExtraAttrs_quiet _ _)).bind fun _ => Keeps.bind ?_ fun _ => .pure _
  refine .get_bind fun s => ?_
  split
  · exact .pure _
  · exact (hquiet (evalText_quiet _ _)).bind fun _ _ hs => ⟨hs.blocks, hs.macros⟩

end Grounded

end

/-! ## Nodes that settle -/

/-- From every state that is grounded the expansion of the node settles. -/
def Settling (env : Environment) (rank : String → Nat) (n : Node) : Prop :=
  ∀ s, Grounded env rank s → Settles (Grounded env rank) (fun depth => expandNode env depth n) s

section
variable {env : Environment} {rank : String → Nat} {s : State} {e : Element} {nodes : List Node}

theorem ne_overflow_of_fault (f : Fault) : Abort.fault f ≠ .overflow :=
  nofun

theorem ne_overflow_of_mismatch (m : Mismatch) : Abort.mismatch m ≠ .overflow :=
  nofun

/-- A step that only reports settles, if it does not overflow. -/
theorem Grounded.settles {α : Type} {x : M α} (hs : Grounded env rank s) (hquiet : Keeps Quiet x)
    (hend : EndsIn (· ≠ .overflow) x) : Settles (Grounded env rank) (fun _ => x) s :=
  .of_step hend (hs.quiet (hquiet s))

/-- Nodes settle one after the other, beyond the largest of their depths. -/
theorem settles_nodes (h : ∀ n ∈ nodes, Settling env rank n) (hs : Grounded env rank s) :
    Settles (Grounded env rank) (fun depth => expandNodes (expandNode env depth) nodes) s := by
  induction nodes generalizing s with
  | nil => exact .pure [] hs
  | cons n rest ih =>
    obtain ⟨hn, hrest⟩ := List.forall_mem_cons.1 h
    refine (hn s hs).bind fun _ out s₁ _ hs₁ => ?_
    exact (ih hrest hs₁).bind fun _ _ s₂ _ hs₂ => .pure _ hs₂

/-- An element that is no directive settles if its children do. -/
theorem settles_expandElement (h : ∀ n ∈ e.children, Settling env rank n)
    (hs : Grounded env rank s) :
    Settles (Grounded env rank) (fun depth => expandElement env (expandNode env depth) e) s := by
  have hattrs := hs.settles (expandAttrs_quiet env e.attrs)
    (expandAttrs_endsIn ne_overflow_of_mismatch env e.attrs)
  refine hattrs.bind fun _ attrs s₁ _ hs₁ => ?_
  exact (settles_nodes h hs₁).bind fun _ _ s₂ _ hs₂ => .pure _ hs₂

/-- An element settles if what it says does. -/
theorem settles_element (h : Settles (Grounded env rank)
    (fun depth => perform env depth (expandNode env depth) e (classify env s e)) s) :
    Settles (Grounded env rank) (fun depth => expandNode env depth e.node) s :=
  (h.reportFault fun hquiet hs => hs.quiet hquiet).deeper fun _ => rfl

/-- A node without children takes one level. -/
theorem settling_of_leaf {n : Node} (h : n.element? = none) : Settling env rank n := by
  intro s hs
  have hleaf : Settles (Grounded env rank)
      (fun _ => (do return [← expandLeaf env n] : M (List Node))) s :=
    hs.settles ((expandLeaf_quiet env n).bind fun _ => .pure _)
      ((expandLeaf_endsIn ne_overflow_of_mismatch env n).bind fun _ => .pure _)
  refine hleaf.deeper fun depth => ?_
  cases n with
  | element => cases h
  | text | cdata | comment | instruction => rfl

/-- Nodes settle if their elements have a property with which an element settles whose children
do. -/
theorem settling_of_elements {Q : Element → Prop}
    (hQ : ∀ e, Q e → (∀ n ∈ e.children, Settling env rank n) → Settling env rank e.node)
    (h : ∀ e ∈ elementsIn nodes, Q e) : ∀ n ∈ nodes, Settling env rank n := by
  induction nodes using nodes_induction with
  | nil => exact nofun
  | element e rest ihchildren ihrest =>
    obtain ⟨he, hchildren, hrest⟩ := forall_elementsIn_cons.1 h
    exact List.forall_mem_cons.2 ⟨hQ e he (ihchildren hchildren), ihrest hrest⟩
  | leaf n rest hleaf ih =>
    rw [elementsIn_leaf hleaf] at h
    exact List.forall_mem_cons.2 ⟨settling_of_leaf hleaf, ih h⟩

variable (hrequired : env.requirePrefix = true)

include hrequired

/-- Nodes without directives settle. -/
theorem settling_of_clean (h : Clean env nodes) : ∀ n ∈ nodes, Settling env rank n := by
  refine settling_of_elements (fun e htag hchildren s hs => settles_element ?_) h
  have hnone : stripTag? e.tag = none := by
    unfold stripTag?
    exact if_neg fun hprefix => htag (.inl (List.isPrefixOf_iff_prefix.1 hprefix))
  rw [classify_of_requirePrefix hrequired hnone s]
  exact (settles_expandElement hchildren hs).bind fun _ _ s₁ _ hs₁ => .pure _ hs₁

/-! ## Directives that settle -/

omit hrequired in
/-- A macro is kept as soon as its body fits into the depth. -/
theorem settles_defineMacro (hranked : Ranked env rank e) (hmeans : meaning env e = .defineMacro)
    (hinner : ∀ e' ∈ elementsIn e.children, Ranked env rank e') (hs : Grounded env rank s) :
    Settles (Grounded env rank) (fun depth => defineMacro depth e) s := by
  unfold defineMacro
  have hname : Settles (Grounded env rank) (fun _ => stripTag <$> requireAttr e "name") s :=
    hs.settles ((requireAttr_quiet _ _).map _) ((requireAttr_endsIn ne_overflow_of_fault _ _).map _)
  refine hname.bind fun _ name s₁ hrun hs₁ => ?_
  obtain ⟨written, hattr, rfl⟩ := map_ok hrun
  have hbelow := hranked.body hmeans written (attr?_of_requireAttr hattr)
  have hextra := hs₁.settles (warnExtraAttrs_quiet e ["name", "params"])
    (warnExtraAttrs_endsIn ne_overflow_of_mismatch e ["name", "params"])
  refine hextra.bind fun _ _ s₂ _ hs₂ => ?_
  have hkeyword := hs₂.settles (warnKeyword_quiet (stripTag written))
    (warnKeyword_endsIn ne_overflow_of_mismatch (stripTag written))
  refine hkeyword.bind fun _ _ s₃ _ hs₃ => ?_
  have hcapture : Settles (Grounded env rank) (fun depth => capture depth e.children) s₃ := by
    refine .congr (heightOfNodes e.children) (.pure e.children hs₃) fun depth hdepth => ?_
    rw [capture_of_le hdepth]
  refine hcapture.bind fun depth body s₄ hrun hs₄ => ?_
  obtain rfl := capture_ok hrun
  exact .of_step ((modify_endsIn _).bind fun _ => .pure _) (hs₄.register hinner hbelow)

omit hrequired in
/-- To define a property takes no depth: its value is a text. -/
theorem settles_property (hranked : Ranked env rank e) (hmeans : meaning env e = .property)
    (hs : Grounded env rank s) :
    Settles (Grounded env rank) (fun depth => defineProperty env depth e) s := by
  obtain ⟨text, htext⟩ := Option.isSome_iff_exists.1 (hranked.text hmeans)
  cases hname : e.attr? "name" with
  | some name =>
    have hgiven : TextProperty e name text := ⟨hname, htext⟩
    refine .congr 0 (.of_step (defineProperty_endsIn hgiven ne_overflow_of_mismatch env 0)
      (hs.defineProperty hgiven 0)) fun depth _ => ?_
    rw [defineProperty_eq hgiven, defineProperty_eq hgiven]
  | none =>
    unfold defineProperty
    have hrequire := hs.settles (requireAttr_quiet e "name")
      (requireAttr_endsIn ne_overflow_of_fault e "name")
    refine hrequire.bind fun _ name s₁ hrun _ => ?_
    cases hname.symm.trans (attr?_of_requireAttr hrun)

/-- A block has no directives, so it takes as much depth as it is high. -/
theorem settles_insertBlock (hs : Grounded env rank s) :
    Settles (Grounded env rank) (fun depth => insertBlock (expandNode env depth) e) s := by
  have hblock := hs.settles (namedBlock_quiet e)
    (namedBlock_endsIn ne_overflow_of_fault ne_overflow_of_mismatch e)
  refine hblock.bind fun _ nodes s₁ hrun hs₁ => ?_
  obtain ⟨name, hlookup⟩ := namedBlock_ok hrun
  exact settles_nodes (settling_of_clean hrequired (hs.lookup? hlookup)) hs₁

omit hrequired in
/-- A condition that holds takes what its children take. -/
theorem settles_expandIf (wanted : Bool) (hchildren : ∀ n ∈ e.children, Settling env rank n)
    (hs : Grounded env rank s) :
    Settles (Grounded env rank) (fun depth => expandIf env (expandNode env depth) wanted e) s := by
  have hkept := hs.settles (keptChildren_quiet env wanted e)
    (keptChildren_endsIn ne_overflow_of_fault ne_overflow_of_mismatch env wanted e)
  refine hkept.bind fun _ nodes s₁ hrun hs₁ => settles_nodes (fun n hn => ?_) hs₁
  rcases keptChildren_ok hrun with rfl | rfl
  · exact hchildren n hn
  · cases hn

omit hrequired in
/-- The elements among nodes without directives contain none. -/
theorem Clean.of_element? (h : Clean env nodes) (he : e ∈ nodes.filterMap Node.element?) :
    Clean env [e.node] := by
  have hmem := filterMap_element?_subset nodes he
  exact .element (h e hmem) fun e' he' => h e' (elementsIn_subset hmem he')

omit hrequired in
/-- Bound to blocks without directives, parameters make a scope without them. -/
theorem bindCall_clean {m : Macro} {arguments : Dict String} {children : List Node} {table : Table}
    {s' : State} (hs : Grounded env rank s) (hchildren : Clean env children)
    (hbind : bindCall env m arguments children s = (.ok table, s')) : CleanTable env table := by
  obtain ⟨claimed, left, hclaims, hbinds⟩ := bindCall_binds env m arguments children s
  rw [hbind] at hbinds
  cases hbinds with | bound hvalues hafter hreported =>
  have hpool : ∀ e ∈ children.filterMap Node.element?, Clean env [e.node] :=
    fun e => hchildren.of_element?
  obtain ⟨hclaimed, hleft⟩ := hclaims.subset
  intro name nodes hget
  rw [hafter name] at hget
  split at hget
  · rcases Call.value?_eq_block hget with ⟨e, he, rfl⟩ | ⟨p, hp, rfl⟩ | hlookup
    · exact hpool e (hleft he)
    · intro e he
      refine hpool p.2 (hclaimed p hp) e ?_
      rw [elementsIn_cons]
      exact List.mem_append_left _ (List.mem_cons_of_mem _ he)
    · exact hs.lookup? hlookup
  · exact hs.blocks _ List.mem_cons_self name nodes hget

omit hrequired in
/-- A call settles if the macros settle that rank like the one that is called. -/
theorem settles_invoke
    (hbody : ∀ nodes, (∀ e ∈ elementsIn nodes, Ranked env rank e) →
      InvokesBelow env rank (rank (stripTag e.tag)) nodes → ∀ n ∈ nodes, Settling env rank n)
    (hchildren : ∀ n ∈ e.children, Settling env rank n) (hs : Grounded env rank s) :
    Settles (Grounded env rank) (fun depth => callMacro env (expandNode env depth) .byTag e) s := by
  unfold callMacro
  have hcallee := hs.settles (callee_quiet env e .byTag)
    ((findMacro_endsIn ne_overflow_of_fault _).bind fun _ => .pure _)
  refine hcallee.bind fun _ ⟨m, arguments⟩ s₁ hrun hs₁ => ?_
  obtain ⟨hranked, hbelow⟩ := hs.macros _ m (callee_byTag_ok hrun)
  refine (settles_nodes hchildren hs₁).bind fun depth children s₂ hrun' hs₂ => ?_
  have hclean := expandNodes_clean (expandNode_clean env depth) e.children s₁ children s₂ hrun'
  unfold instantiate
  have hbind := hs₂.settles (bindCall_quiet env m arguments children)
    (bindCall_endsIn ne_overflow_of_fault ne_overflow_of_mismatch env m arguments children)
  refine hbind.bind fun _ table s₃ hrun'' hs₃ => ?_
  have htable := bindCall_clean hs₂ hclean hrun''
  exact (settles_nodes (hbody m.body hranked hbelow) (hs₃.enterCall m htable)).bracket
    fun s' hs' => hs'.leaveCall hs₃ _

/-- Where the prefix is required, registered macros make no difference to what an element means. -/
theorem classify_eq_meaning (s : State) (e : Element) : classify env s e = meaning env e := by
  unfold classify meaning Directive.classify
  rw [hrequired]
  rfl

/-- Ranked nodes settle, whatever they invoke. The induction is over what their macros rank below,
and then over the nodes. -/
theorem settling_of_invokesBelow (bound : Nat) (nodes : List Node)
    (hranked : ∀ e ∈ elementsIn nodes, Ranked env rank e)
    (hbelow : InvokesBelow env rank bound nodes) : ∀ n ∈ nodes, Settling env rank n := by
  induction bound using Nat.strong_induction_on generalizing nodes with | _ bound ih =>
  refine settling_of_elements (Q := fun e => e ∈ elementsIn nodes)
    (fun e he hchildren s hs => settles_element ?_) fun e he => he
  have hinner : ∀ e' ∈ elementsIn e.children, Ranked env rank e' :=
    fun e' he' => hranked e' (elementsIn_subset he he')
  rw [classify_eq_meaning hrequired s e]
  cases hmeans : meaning env e with
  | property => exact settles_property (hranked e he) hmeans hs
  | defineMacro => exact settles_defineMacro (hranked e he) hmeans hinner hs
  | insertBlock => exact settles_insertBlock hrequired hs
  | whenTrue | whenFalse => exact settles_expandIf _ hchildren hs
  | includeFile => exact absurd hmeans (hranked e he).noInclude
  | arg =>
    exact .of_step (defineArg_endsIn ne_overflow_of_fault ne_overflow_of_mismatch env e)
      (hs.defineArg e)
  | call => exact absurd hmeans (hranked e he).noCall
  | newElement | newAttribute => exact .of_step (.throw (ne_overflow_of_fault _)) hs
  | invoke => exact settles_invoke (ih _ (hbelow e he hmeans)) hchildren hs
  | ordinary =>
    exact (settles_expandElement hchildren hs).bind fun _ _ s₁ _ hs₁ => .pure _ hs₁

/-! ## Gathering -/

omit hrequired in
/-- Finitely many nodes invoke finitely many macros, so there is a rank above all of theirs. -/
theorem exists_invokesBelow (env : Environment) (rank : String → Nat) (nodes : List Node) :
    ∃ bound, InvokesBelow env rank bound nodes := by
  obtain ⟨bound, hbound⟩ : ∃ bound, ∀ e ∈ elementsIn nodes, rank (stripTag e.tag) < bound := by
    induction elementsIn nodes with
    | nil => exact ⟨0, nofun⟩
    | cons e rest ih =>
      obtain ⟨bound, hbound⟩ := ih
      refine ⟨max bound (rank (stripTag e.tag) + 1), List.forall_mem_cons.2 ⟨by omega, ?_⟩⟩
      exact fun e' he' => lt_of_lt_of_le (hbound e' he') (le_max_left _ _)
  exact ⟨bound, fun e he _ => hbound e he⟩

/-- What an element means depends on its tag and attributes, and not on its children. -/
theorem meaning_strip (e : Element) (isMatch : Element → Bool) :
    meaning env (e.strip isMatch) = meaning env e := by
  unfold meaning Directive.classify Element.strip
  rw [hrequired]
  rfl

/-- Where nodes are taken out no more macros are invoked. -/
theorem InvokesBelow.strip {bound : Nat} (h : InvokesBelow env rank bound nodes)
    (isMatch : Element → Bool) : InvokesBelow env rank bound (stripNodes isMatch nodes) := by
  intro e he hmeans
  obtain ⟨e', he', -, rfl⟩ := mem_elementsIn_stripNodes he
  rw [meaning_strip hrequired] at hmeans
  exact h e' he' hmeans

/-- And an element is ranked as before. -/
theorem Ranked.strip (h : Ranked env rank e) (isMatch : Element → Bool) :
    Ranked env rank (e.strip isMatch) where
  noInclude := by rw [meaning_strip hrequired]; exact h.noInclude
  noCall := by rw [meaning_strip hrequired]; exact h.noCall
  text := by rw [meaning_strip hrequired]; exact h.text
  body := by
    rw [meaning_strip hrequired]
    exact fun hmeans name hname => (h.body hmeans name hname).strip hrequired isMatch

omit hrequired in
/-- Definitions that are gathered settle in turn. -/
theorem settles_performAll {es : List Element} (h : ∀ e ∈ es, Settling env rank e.node)
    (hs : Grounded env rank s) :
    Settles (Grounded env rank) (fun depth => performAll env depth es) s := by
  induction es generalizing s with
  | nil => exact .pure () hs
  | cons e rest ih =>
    obtain ⟨he, hrest⟩ := List.forall_mem_cons.1 h
    exact (he s hs).bind fun _ _ s₁ _ hs₁ => ih hrest hs₁

omit hrequired in
/-- Turning off local properties is at most warned of. -/
theorem settles_disableLocalProperties (hs : Grounded env rank s) :
    Settles (Grounded env rank) (fun _ => disableLocalProperties) s := by
  unfold disableLocalProperties
  refine .of_step (.get_bind fun s => ?_) ?_
  · split
    · exact (warn_endsIn ne_overflow_of_mismatch _).bind fun _ => modify_endsIn _
    · exact .pure _
  · rw [get_bind_apply]
    split
    · refine after_quiet (fun _ => hs.quiet) (Std.Refl.refl s) (warn_quiet _) fun _ s₁ h₁ _ => ?_
      exact ⟨(hs.quiet h₁).blocks, (hs.quiet h₁).macros⟩
    · exact hs

variable {root : Element} (hranked : ∀ e ∈ elementsIn root.children, Ranked env rank e)

include hranked

/-- Where definitions and includes are taken out nothing is left to be included. -/
theorem includesOf_strip : includesOf env (root.strip (isDefining env)) = [] := by
  refine List.eq_nil_iff_forall_not_mem.2 fun e he => ?_
  have hmeans := Element.isMatch_of_mem_findElements he
  obtain ⟨e', he', -, rfl⟩ := mem_elementsIn_stripNodes (findIn_subset_elementsIn _ _ _ he)
  rw [meaning_strip hrequired] at hmeans
  exact (hranked e' he').noInclude (eq_of_beq hmeans)

/-- In both orders of processing, the root is prepared and what is in it settles. -/
theorem settles_preparedRoot (inOrder : Bool) (hs : Grounded env rank s) :
    Settles (Grounded env rank) (fun depth => preparedRoot env depth inOrder root) s := by
  cases inOrder with
  | true => exact .pure root hs
  | false =>
    obtain ⟨bound, hbelow⟩ := exists_invokesBelow env rank root.children
    have hsettling : ∀ e ∈ outermostDefinitions env root, Settling env rank e.node := by
      intro e he
      have hmem : e ∈ elementsIn root.children := by
        rcases List.mem_append.1 he with he | he <;> exact findIn_subset_elementsIn _ _ _ he
      have hsubset : elementsIn [e.node] ⊆ elementsIn root.children := by
        rw [elementsIn_cons]
        exact List.append_subset.2
          ⟨List.cons_subset.2 ⟨hmem, elementsIn_subset hmem⟩, List.nil_subset _⟩
      refine settling_of_invokesBelow hrequired bound [e.node] (fun e' he' => ?_) (fun e' he' => ?_)
        e.node List.mem_cons_self
      · exact hranked e' (hsubset he')
      · exact hbelow e' (hsubset he')
    have hgathered : Settles (Grounded env rank) (fun depth => do
        disableLocalProperties
        performAll env depth (outermostDefinitions env root)
        return root.strip (isDefining env)) s := by
      refine (settles_disableLocalProperties hs).bind fun _ _ s₁ _ hs₁ => ?_
      exact (settles_performAll hsettling hs₁).bind fun _ _ s₂ _ hs₂ => .pure _ hs₂
    refine hgathered.congr 1 fun depth hdepth => ?_
    obtain ⟨depth, rfl⟩ : ∃ d, depth = d + 1 := ⟨depth - 1, by omega⟩
    show gather env (depth + 1) root s = _
    rw [gather_eq (includesOf_strip hrequired hranked)]

omit hrequired hranked in
/-- The root that is left is the one without its definitions. -/
theorem gather_ok {depth : Nat} {root' : Element} {s' : State}
    (h : gather env depth root s = (.ok root', s')) : root' = root.strip (isDefining env) := by
  obtain ⟨_, _, _, h⟩ := bind_ok h
  obtain ⟨_, s₂, _, h⟩ := bind_ok h
  rw [bind_of_ok (stripDefinitions_apply root s₂), get_bind_apply] at h
  obtain ⟨_, _, _, h⟩ := bind_ok h
  cases h
  rfl

/-- What is in the root that is expanded settles. -/
theorem settling_of_preparedRoot {inOrder : Bool} {depth : Nat} {root' : Element} {s' : State}
    (h : preparedRoot env depth inOrder root s = (.ok root', s')) :
    ∀ n ∈ root'.children, Settling env rank n := by
  obtain ⟨bound, hbelow⟩ := exists_invokesBelow env rank root'.children
  refine settling_of_invokesBelow hrequired bound root'.children (fun e he => ?_) hbelow
  cases inOrder with
  | true =>
    cases h
    exact hranked e he
  | false =>
    obtain rfl := gather_ok h
    obtain ⟨e', he', -, rfl⟩ := mem_elementsIn_stripNodes he
    exact (hranked e' he').strip hrequired _

end

/-! ## Documents -/

/-- If macros can be ranked such that the body of each invokes, at any depth, only macros of lower
rank, a document without includes, calls by attribute and properties that hold blocks is expanded
without an overflow, in both orders of processing: from some depth on, with one and the same
result. -/
theorem expandDocument_settles (env : Environment) (hrequired : env.requirePrefix = true)
    (rank : String → Nat) (inOrder : Bool) (d : Document)
    (hranked : ∀ e ∈ elementsIn d.root.children, Ranked env rank e) (s : State) :
    ∃ limit r, r.1 ≠ .error .overflow ∧
      ∀ depth, limit ≤ depth → expandDocument env depth inOrder d s = r := by
  have hstart : Grounded env rank (opened s) :=
    ⟨List.forall_mem_cons.2 ⟨cleanTable_initial, nofun⟩, fun _ _ => nofun⟩
  have hmisc (ms : List Misc) {s : State} (hs : Grounded env rank s) :=
    hs.settles (expandMisc_quiet env ms) (expandMisc_endsIn ne_overflow_of_mismatch env ms)
  have hdocument : Settles (Grounded env rank) (fun depth => do
      let root ← preparedRoot env depth inOrder d.root
      expandParts env depth { d with root := root }) (opened s) := by
    refine (settles_preparedRoot hrequired hranked inOrder hstart).bind
      fun depth root s₁ hroot hs₁ => ?_
    have hchildren := settling_of_preparedRoot hrequired hranked hroot
    refine (hmisc d.before hs₁).bind fun _ before s₂ _ hs₂ => ?_
    refine (settles_expandElement hchildren hs₂).bind fun _ root' s₃ _ hs₃ => ?_
    exact (hmisc d.after hs₃).bind fun _ after s₄ _ hs₄ => .pure _ hs₄
  have hsettles : Settles (fun _ => True) (fun depth => expandDocument env depth inOrder d) s := by
    unfold expandDocument isolated
    exact hdocument.bracket fun _ _ => trivial
  obtain ⟨limit, r, hrun, hr, -⟩ := hsettles
  exact ⟨limit, r, hr, hrun⟩

instance (env : Environment) (rank : String → Nat) (bound : Nat) (nodes : List Node) :
    Decidable (InvokesBelow env rank bound nodes) :=
  inferInstanceAs (Decidable (∀ e ∈ elementsIn nodes, meaning env e = .invoke → _ < _))

instance (env : Environment) (rank : String → Nat) (e : Element) : Decidable (Ranked env rank e) :=
  decidable_of_iff
    (meaning env e ≠ .includeFile ∧ meaning env e ≠ .call ∧
      (meaning env e = .property → ((e.attr? "value").or (e.attr? "default")).isSome) ∧
      (meaning env e = .defineMacro → ∀ name ∈ e.attr? "name",
        InvokesBelow env rank (rank (stripTag name)) e.children))
    ⟨fun h => ⟨h.1, h.2.1, h.2.2.1, h.2.2.2⟩, fun h => ⟨h.noInclude, h.noCall, h.text, h.body⟩⟩

/-- A macro that hands the block that it is given on to another one, which is defined below. -/
def handedOn : Document where
  before := []
  root := ⟨"r", [],
    [.element "xacro:macro" [⟨"name", "outer"⟩, ⟨"params", "*b"⟩]
        [.element "xacro:inner" [] [.element "xacro:insert_block" [⟨"name", "b"⟩] []]],
      .element "xacro:macro" [⟨"name", "inner"⟩, ⟨"params", "*b"⟩]
        [.element "a" [] [.element "xacro:insert_block" [⟨"name", "b"⟩] []]],
      .element "xacro:outer" [] [.element "b" [] []]]⟩
  after := []

/-- A macro hands its block on to one of lower rank, and the document settles. -/
theorem expandDocument_settles_handedOn :
    ∃ limit r, r.1 ≠ .error .overflow ∧ ∀ depth, limit ≤ depth →
      expandDocument (.ofFiles true []) depth true handedOn (.fresh true) = r :=
  expandDocument_settles (.ofFiles true []) rfl (fun name => if name = "outer" then 1 else 0) true
    handedOn (by decide) (.fresh true)

end XmlMacros.Expansion
