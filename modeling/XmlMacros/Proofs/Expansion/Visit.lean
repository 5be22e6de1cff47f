import XmlMacros.Proofs.Expansion.Isolation
import XmlMacros.Proofs.Expansion.Reporting

/-!
# What an expansion visits and evaluates

The nodes that are expanded in the course of the expansion of others, each with the state in which
it is its turn (`Visits`), and the texts that are evaluated for a node, each with what their
evaluation can see (`TextOf`). A node may be visited many times, in different states: nodes of
blocks and of the bodies of macros are, and those of included files.

A property of visits that holds during an expansion (`During`) holds during its parts.
-/

namespace XmlMacros.Expansion

open XmlMacros.Markup

/-! ## Nodes -/

/-- The expansion of nodes in a state comes to a node in another state, with directives nested so
deeply below it. The rules follow the recursion of the expansion. -/
inductive Visits (env : Environment) : Nat → List Node → State → Nat → Node → State → Prop
  | here {depth : Nat} {n : Node} {rest : List Node} {s : State} :
    Visits env (depth + 1) (n :: rest) s depth n s
  /-- Below an element, in its own scope. -/
  | inside {depth k : Nat} {e : Element} {nodes rest : List Node} {n : Node} {s s' t : State}
    (hgoes : GoesOn env s e nodes s') (h : Visits env depth nodes s' k n t) :
    Visits env (depth + 1) (e.node :: rest) s k n t
  /-- In the body of a macro that is called. -/
  | body {depth k : Nat} {e : Element} {naming : Naming} {m : Macro} {arguments : Dict String}
    {rest children : List Node} {n : Node} {table : Table} {s s₀ s₁ s₂ t : State}
    (hmeans : classify env s e = naming.directive)
    (hcallee : callee env e naming s = (.ok (m, arguments), s₀))
    (hchildren : expandNodes (expandNode env depth) e.children s₀ = (.ok children, s₁))
    (hbind : bindCall env m arguments children s₁ = (.ok table, s₂))
    (h : Visits env depth m.body (enterCall m table s₂) k n t) :
    Visits env (depth + 1) (e.node :: rest) s k n t
  /-- Behind a node. -/
  | later {depth k : Nat} {m n : Node} {out rest : List Node} {s s' t : State}
    (hrun : expandNode env depth m s = (.ok out, s')) (h : Visits env depth rest s' k n t) :
    Visits env depth (m :: rest) s k n t

/-- What holds of all visits during the expansion of nodes. -/
def During (env : Environment) (P : Nat → Node → State → Prop) (depth : Nat) (nodes : List Node)
    (s : State) : Prop :=
  ∀ k n t, Visits env depth nodes s k n t → P k n t

namespace During

variable {env : Environment} {P : Nat → Node → State → Prop} {depth : Nat} {n : Node}
  {e : Element} {rest : List Node} {s : State}

theorem here (h : During env P (depth + 1) (n :: rest) s) : P depth n s :=
  h _ _ _ .here

/-- What holds during the expansion of nodes holds during that of the first one. -/
theorem head (h : During env P depth (n :: rest) s) : During env P depth [n] s := by
  intro k m t ht
  cases ht with
  | here => exact h _ _ _ .here
  | inside hgoes ht => exact h _ _ _ (.inside hgoes ht)
  | body hmeans hcallee hchildren hbind ht =>
    exact h _ _ _ (.body hmeans hcallee hchildren hbind ht)
  | later _ ht => cases ht

/-- It holds during the expansion of the nodes that an element goes on with. -/
theorem inside {nodes : List Node} {s' : State} (h : During env P (depth + 1) (e.node :: rest) s)
    (hgoes : GoesOn env s e nodes s') : During env P depth nodes s' :=
  fun k n t ht => h k n t (.inside hgoes ht)

/-- It holds during the expansion of a macro's body, in the state in which the call begins. -/
theorem body {naming : Naming} {m : Macro} {arguments : Dict String} {children : List Node}
    {table : Table} {s₀ s₁ s₂ : State} (h : During env P (depth + 1) (e.node :: rest) s)
    (hmeans : classify env s e = naming.directive)
    (hcallee : callee env e naming s = (.ok (m, arguments), s₀))
    (hchildren : expandNodes (expandNode env depth) e.children s₀ = (.ok children, s₁))
    (hbind : bindCall env m arguments children s₁ = (.ok table, s₂)) :
    During env P depth m.body (enterCall m table s₂) :=
  fun k n t ht => h k n t (.body hmeans hcallee hchildren hbind ht)

/-- It holds during the expansion of the other nodes, from where the first one ends. -/
theorem later {out : List Node} {s' : State} (h : During env P depth (n :: rest) s)
    (hrun : expandNode env depth n s = (.ok out, s')) : During env P depth rest s' :=
  fun k n t ht => h k n t (.later hrun ht)

end During

/-! ## Texts -/

/-- The attributes that are evaluated in an ordinary element: those in front of one that takes back
a declaration. -/
def evaluatedAttrs (attrs : List Attr) : List Attr :=
  attrs.takeWhile fun a => !a.resetsNamespace

/-- The texts that are evaluated when parameters are bound, in order, as long as each of them can be
bound to something. -/
def boundTexts (scopes : Scopes) (claimed : Dict (List Node)) :
    List (String × Param) → Dict String → List Element → List String
  | [], _, _ => []
  | (name, param) :: rest, attrs, pool =>
    match attrs.get? name, param.kind, pool, claimed.get? name with
    | some text, _, _, _ => text :: boundTexts scopes claimed rest (attrs.erase name) pool
    | none, .block, _ :: pool, _ => boundTexts scopes claimed rest attrs pool
    | none, .multiBlock, _, some _ => boundTexts scopes claimed rest attrs pool
    | _, _, _, _ =>
      match if param.forward then scopes.lookup? name else none, param.fallback with
      | some (.text text), _ => text :: boundTexts scopes claimed rest attrs pool
      | some (.block _), _ => boundTexts scopes claimed rest attrs pool
      | none, some text => text :: boundTexts scopes claimed rest attrs pool
      | none, none => []

/-- The texts that are evaluated when the parameters of a call are bound. -/
def argumentTexts (scopes : Scopes) (m : Macro) (arguments : Dict String)
    (children : List Node) : List String :=
  let (claimed, pool) :=
    claimBlocks arguments.contains m.params.entries (children.filterMap Node.element?)
  boundTexts scopes claimed m.params.entries arguments pool

/-- The text is evaluated when the node is expanded in a state, apart from what is evaluated for
other nodes that are expanded on the way. The last argument is what its evaluation can see. -/
inductive TextOf (env : Environment) (depth : Nat) (s : State) :
    Node → String → Substitution.Context → Prop
  | text {data : String} : TextOf env depth s (.text data) data (s.context env)
  | cdata {data : String} : TextOf env depth s (.cdata data) data (s.context env)
  | comment {data : String} : TextOf env depth s (.comment data) data (s.context env)
  | attr {e : Element} {a : Attr} (hmeans : classify env s e = .ordinary)
    (ha : a ∈ evaluatedAttrs e.attrs) : TextOf env depth s e.node a.value (s.context env)
  /-- A property that is not evaluated where it is used. -/
  | property {e : Element} {name text : String} (hmeans : classify env s e = .property)
    (hname : e.attr? "name" = some name)
    (htext : (e.attr? "value").or (e.attr? "default") = some text)
    (hplacement : placementIn s (e.attr? "scope") ≠ .current) :
    TextOf env depth s e.node text (s.context env)
  /-- A substitution argument that has no value yet. -/
  | fallback {e : Element} {name text : String} (hmeans : classify env s e = .arg)
    (hname : e.attr? "name" = some name) (htext : e.attr? "default" = some text)
    (hnew : s.args.contains name = false) : TextOf env depth s e.node text (s.context env)
  | condition {e : Element} {text : String}
    (hmeans : classify env s e = .whenTrue ∨ classify env s e = .whenFalse)
    (htext : e.attr? "value" = some text) : TextOf env depth s e.node text (s.context env)
  | filename {e : Element} {text : String} (hmeans : classify env s e = .includeFile)
    (htext : e.attr? "filename" = some text) : TextOf env depth s e.node text (s.context env)
  /-- The name of the macro that is called. -/
  | macroName {e : Element} {text : String} (hmeans : classify env s e = .call)
    (htext : e.attr? "macro" = some text) : TextOf env depth s e.node text (s.context env)
  | argument {e : Element} {naming : Naming} {m : Macro} {arguments : Dict String}
    {children : List Node} {text : String} {s₀ s₁ : State}
    (hmeans : classify env s e = naming.directive)
    (hcallee : callee env e naming s = (.ok (m, arguments), s₀))
    (hchildren : expandNodes (expandNode env depth) e.children s₀ = (.ok children, s₁))
    (htext : text ∈ argumentTexts s₁.scopes m arguments children) :
    TextOf env depth s e.node text (s₁.context env)

section
variable {env : Environment} {depth k : Nat} {s t : State} {e : Element} {n : Node}
  {text : String} {ctx : Substitution.Context}

/-- There is as much room for each text as the environment says. -/
theorem TextOf.limits (h : TextOf env depth s n text ctx) : ctx.limits = env.limits := by
  cases h <;> rfl

/-- Where an element includes a file, the name of the file is evaluated. -/
theorem TextOf.of_includeFile (hmeans : classify env s e = .includeFile)
    (h : TextOf env depth s e.node text ctx) :
    e.attr? "filename" = some text := by
  obtain ⟨tag, attrs, children⟩ := e
  cases h with
  | filename _ htext => exact htext
  | attr h | property h | fallback h | macroName h => cases hmeans.symm.trans h
  | condition h => rcases h with h | h <;> cases hmeans.symm.trans h
  | @argument _ naming _ _ _ _ _ _ h => cases naming <;> cases hmeans.symm.trans h

/-- In an ordinary element the values of attributes are evaluated. -/
theorem TextOf.of_ordinary (hmeans : classify env s e = .ordinary)
    (h : TextOf env depth s e.node text ctx) :
    ∃ a ∈ evaluatedAttrs e.attrs, a.value = text ∧ ctx = s.context env := by
  obtain ⟨tag, attrs, children⟩ := e
  cases h with
  | attr _ ha => exact ⟨_, ha, rfl, rfl⟩
  | filename h | property h | fallback h | macroName h => cases hmeans.symm.trans h
  | condition h => rcases h with h | h <;> cases hmeans.symm.trans h
  | @argument _ naming _ _ _ _ _ _ h => cases naming <;> cases hmeans.symm.trans h

/-- Where a property is defined that belongs to the current scope, nothing is evaluated. -/
theorem TextOf.not_of_property (hmeans : classify env s e = .property)
    (hplacement : placementIn s (e.attr? "scope") = .current) :
    ¬ TextOf env depth s e.node text ctx := by
  obtain ⟨tag, attrs, children⟩ := e
  intro h
  cases h with
  | property _ _ _ hother => exact hother hplacement
  | attr h | filename h | fallback h | macroName h => cases hmeans.symm.trans h
  | condition h => rcases h with h | h <;> cases hmeans.symm.trans h
  | @argument _ naming _ _ _ _ _ _ h => cases naming <;> cases hmeans.symm.trans h

/-- The directive of a property is all that is visited. -/
theorem Visits.of_property (hmeans : classify env s e = .property)
    (h : Visits env depth [e.node] s k n t) : n = e.node ∧ t = s := by
  obtain ⟨tag, attrs, children⟩ := e
  cases h with
  | here => exact ⟨rfl, rfl⟩
  | inside hgoes h =>
    cases hgoes with
    | block h' | whenTrue h' | whenFalse h' | file h' | children h' => cases hmeans.symm.trans h'
    | @arguments naming _ _ _ h' => cases naming <;> cases hmeans.symm.trans h'
  | @body _ _ _ naming _ _ _ _ _ _ _ _ _ _ _ h' => cases naming <;> cases hmeans.symm.trans h'
  | later _ h => cases h

/-- What is visited is visited at the first node, or in the state that its expansion ends in. -/
theorem Visits.of_cons {m : Node} {rest : List Node} (h : Visits env depth (m :: rest) s k n t) :
    Visits env depth [m] s k n t ∨ Visits env depth rest (expandNode env depth m s).2 k n t := by
  cases h with
  | here => exact .inl .here
  | inside hgoes h => exact .inl (.inside hgoes h)
  | body hmeans hcallee hchildren hbind h => exact .inl (.body hmeans hcallee hchildren hbind h)
  | later hrun h =>
    rw [hrun]
    exact .inr h

/-- An ordinary element without children is all that is visited. -/
theorem Visits.of_childless (hmeans : classify env s e = .ordinary) (hchildren : e.children = [])
    (h : Visits env depth [e.node] s k n t) : n = e.node ∧ t = s := by
  obtain ⟨tag, attrs, children⟩ := e
  cases h with
  | here => exact ⟨rfl, rfl⟩
  | inside hgoes h =>
    cases hgoes with
    | children => cases (hchildren ▸ h : Visits env _ [] _ k n t)
    | block h' | whenTrue h' | whenFalse h' | file h' => cases hmeans.symm.trans h'
    | @arguments naming _ _ _ h' => cases naming <;> cases hmeans.symm.trans h'
  | @body _ _ _ naming _ _ _ _ _ _ _ _ _ _ _ h' => cases naming <;> cases hmeans.symm.trans h'
  | later _ h => cases h

end

/-! ## Documents -/

/-- The expansion of a document in reading order comes to a node in a state. -/
def VisitsDocument (env : Environment) (depth : Nat) (d : Document) (s : State) (k : Nat)
    (n : Node) (t : State) : Prop :=
  ∃ before s₁ attrs s₂, expandMisc env d.before (opened s) = (.ok before, s₁) ∧
    expandAttrs env d.root.attrs s₁ = (.ok attrs, s₂) ∧
    Visits env depth d.root.children s₂ k n t

/-- The text is evaluated in the course of the expansion of a document in reading order. -/
inductive TextOfDocument (env : Environment) (depth : Nat) (d : Document) (s : State) :
    String → Substitution.Context → Prop
  /-- In front of the root. -/
  | before {text : String} (h : .comment text ∈ d.before) :
    TextOfDocument env depth d s text ((opened s).context env)
  | attr {a : Attr} (ha : a ∈ evaluatedAttrs d.root.attrs) :
    TextOfDocument env depth d s a.value ((opened s).context env)
  /-- Below the root. -/
  | node {k : Nat} {n : Node} {text : String} {t : State} {ctx : Substitution.Context}
    (hvisits : VisitsDocument env depth d s k n t) (h : TextOf env k t n text ctx) :
    TextOfDocument env depth d s text ctx
  /-- Behind the root. -/
  | after {before : List Misc} {root : Element} {text : String} {s₁ s₂ : State}
    (hbefore : expandMisc env d.before (opened s) = (.ok before, s₁))
    (hroot : expandElement env (expandNode env depth) d.root s₁ = (.ok root, s₂))
    (h : .comment text ∈ d.after) : TextOfDocument env depth d s text (s₂.context env)

end XmlMacros.Expansion
