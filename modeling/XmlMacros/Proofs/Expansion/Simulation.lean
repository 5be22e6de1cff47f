import XmlMacros.Proofs.Expansion.Comparison

/-!
# Simulation of one expansion by another

If two expansions compare in what they begin with, and a `Simulation` shows for the few steps that
look at what differs that these do the same, the expansions run in parallel
(`Simulation.expandNodes`). What is needed to know of texts and of the names of files is only asked
of those that the first expansion comes to (`Fine`).

The first expansion may include a file where the second one has the nodes of the file in place of
the directive (`FileAt`).
-/

namespace XmlMacros.Expansion

open XmlMacros.Markup

/-- The element includes a file by a name in which nothing is to be evaluated, and these are the
nodes in the root of the file. -/
structure FileAt (env : Environment) (e : Element) (path : String) (content : List Node) : Prop where
  means : meaning env e = .includeFile
  named : e.attr? "filename" = some path
  literal : '$' ∉ path.toList
  absolute : IncludePath.isAbsolute path
  served : ∃ text d, env.fetch path = .ok text ∧ Markup.read text = .ok d ∧
    d.root.children = content

/-- The steps of two expansions that look at what differs do the same. -/
structure Simulation (c : Comparison) (env₁ env₂ : Environment) : Prop where
  flat_of_deep : ∀ {a b}, c.deep a b → c.flat a b
  deep_of_flat : ∀ {a b}, c.flat (a + 1) (b + 1) → c.deep a b
  flat_of_splice : ∀ {a b e content}, c.splice e content → c.deep (a + 1) b → c.flat a b
  overflow_left : ∀ {b}, c.flat 0 (b + 1) → c.overflows₁
  overflow_right : ∀ {a}, c.flat (a + 1) 0 → c.overflows₂
  overflow_splice : ∀ {b e content}, c.splice e content → c.deep 0 b → c.overflows₁
  heights : ∀ {a b ns ns'}, c.deep a b → c.Nodes ns ns' →
    (heightOfNodes ns ≤ a ↔ heightOfNodes ns' ≤ b) ∨
      (c.overflows₁ ∧ a < heightOfNodes ns) ∨ (c.overflows₂ ∧ b < heightOfNodes ns')
  attrs : ∀ {e e'}, c.pair e e' → e'.attrs = e.attrs
  stripTag : ∀ {e e'}, c.pair e e' → stripTag e'.tag = stripTag e.tag
  classify : ∀ {e e'}, c.pair e e' → ∀ isMacro,
    Directive.classify env₂.requirePrefix isMacro e' =
      Directive.classify env₁.requirePrefix isMacro e
  tag : ∀ {e e' s}, c.pair e e' → Expansion.classify env₁ s e = .ordinary → e'.tag = e.tag
  output : ∀ {e e' s}, c.pair e e' → Expansion.classify env₁ s e = .ordinary →
    ∀ attrs children, c.pair ⟨e.tag, attrs, children⟩ ⟨e.tag, attrs, children⟩
  params : ∀ {e e' s}, c.pair e e' → Expansion.classify env₁ s e = .defineMacro →
    ∀ name ∈ (readParams ((e.attr? "params").getD "")).keys, c.param name
  lookup : ∀ {table table'}, c.tables table table' → ∀ name,
    Option.Rel (Property.Alike (fun _ _ => True) c.Nodes) (table.get? name) (table'.get? name)
  bind : ∀ {table table' name value value'}, c.tables table table' → c.param name →
    Property.Alike Eq c.Nodes value value' →
    c.tables (table.insert name value) (table'.insert name value')
  define : ∀ {e e' s name}, c.pair e e' → Expansion.classify env₁ s e = .property →
    e.attr? "name" = some name → ∀ {table table' value value'}, c.tables table table' →
    Property.Alike Eq c.Nodes value value' →
    c.tables (table.insert name value) (table'.insert name value')
  define_footing : ∀ {e e' s name}, c.pair e e' → Expansion.classify env₁ s e = .property →
    e.attr? "name" = some name → ∀ {a b value value'}, c.footing a b →
    Property.Alike Eq c.Nodes value value' → c.footing (a.define name value) (b.define name value')
  insertArg : ∀ {a b name}, c.footing a b → a.args.contains name = false → ∀ value,
    c.footing (a.insertArg name value) (b.insertArg name value)
  value : ∀ {s t text}, c.States s t → c.text (s.context env₁) text →
    valueIn (t.context env₂) text = valueIn (s.context env₁) text
  forwarded : ∀ {s t name text text'}, c.States s t → s.scopes.lookup? name = some (.text text) →
    t.scopes.lookup? name = some (.text text') → c.text (s.context env₁) text →
    valueIn (t.context env₂) text' = valueIn (s.context env₁) text
  localProperties : ∀ {e e' s a b}, c.pair e e' → Expansion.classify env₁ s e = .property →
    c.footing a b → b.localProperties = a.localProperties
  path : ∀ {name a b}, c.file name → c.footing a b →
    IncludePath.isAbsolute name ∨ b.workingPath = a.workingPath
  known : ∀ {name a b}, c.file name → c.footing a b →
    b.failed = a.failed ∧ b.preloaded = a.preloaded
  fetch : ∀ {name}, c.file name → env₂.fetch = env₁.fetch
  content : ∀ {name}, c.file name → ∀ ns, c.Plain ns
  enterFile : ∀ {name a b}, c.file name → c.footing a b → ∀ path,
    c.footing (a.enterFile path) (b.enterFile path)
  leaveFile : ∀ {name a b a' b'}, c.file name → c.footing a b → c.footing a' b' →
    c.footing (a.leaveFile a') (b.leaveFile b')
  spliced : ∀ {e content}, c.splice e content → ∃ path, FileAt env₁ e path content
  splice_content : ∀ {e content}, c.splice e content → c.Plain content
  splice_known : ∀ {e content a b}, c.splice e content → c.footing a b → ∀ path,
    a.failed.get? path = none ∧ a.preloaded.get? path = none
  splice_enter : ∀ {e content a b}, c.splice e content → c.footing a b → ∀ path,
    c.footing (a.enterFile path) b
  splice_leave : ∀ {e content a b a' b'}, c.splice e content → c.footing a b → c.footing a' b' →
    c.footing (a.leaveFile a') b'

/-- What the first expansion evaluates for a node, and the files it includes there, are known to be
fine. -/
structure Comparison.Fine (c : Comparison) (env : Environment) (depth : Nat) (n : Node)
    (s : State) : Prop where
  texts : ∀ text ctx, TextOf env depth s n text ctx → c.text ctx text
  files : ∀ e e' name, n = e.node → c.pair e e' → classify env s e = .includeFile →
    e.attr? "filename" = some name → c.file (valueIn (s.context env) name)

namespace Simulation

open Comparison

variable {c : Comparison} {env₁ env₂ : Environment} {s t : State} (h : Simulation c env₁ env₂)

include h

/-! ## States -/

/-- Elements that correspond mean the same directive in states that do. -/
theorem classify_eq {e e' : Element} (hst : c.States s t) (hpair : c.pair e e') :
    Expansion.classify env₂ t e' = Expansion.classify env₁ s e := by
  unfold Expansion.classify
  rw [funext hst.contains]
  exact h.classify hpair _

/-- What a name is bound to in one state corresponds to what it is bound to in the other. -/
theorem lookup? (hst : c.States s t) (name : String) :
    Option.Rel (Property.Alike (fun _ _ => True) c.Nodes) (s.scopes.lookup? name)
      (t.scopes.lookup? name) :=
  hst.lookup? fun htables => h.lookup htables name

/-- So a name is bound in both states or in none. -/
theorem contains (hst : c.States s t) (name : String) :
    t.scopes.contains name = s.scopes.contains name := by
  have hlookup := h.lookup? hst name
  unfold Scopes.contains
  generalize s.scopes.lookup? name = v at hlookup ⊢
  generalize t.scopes.lookup? name = v' at hlookup ⊢
  cases hlookup <;> rfl

/-! ## Texts -/

/-- A text is evaluated first, and both go on with the same value. -/
theorem bind_evalText (hst : c.States s t) {γ δ : Type} {W : γ → δ → Prop} {text : String}
    {f : String → M γ} {g : String → M δ} (htext : c.text (s.context env₁) text)
    (hfg : ∀ s' t', evalText env₁ text s = (.ok (valueIn (s.context env₁) text), s') →
      Reported s s' → c.States s' t' →
      Parallel c.pairing W s' t' (f (valueIn (s.context env₁) text))
        (g (valueIn (s.context env₁) text))) :
    Parallel c.pairing W s t (evalText env₁ text >>= f) (evalText env₂ text >>= g) :=
  hst.bind_value (h.value hst htext) hfg

/-- A text that may be evaluated has the same value in both states, and so corresponds what is made
of it. -/
theorem map_evalText (hst : c.States s t) {γ δ : Type} {W : γ → δ → Prop} {text : String}
    {f : String → γ} {g : String → δ} (htext : c.text (s.context env₁) text)
    (hfg : ∀ value, W (f value) (g value)) :
    Parallel c.pairing W s t (f <$> evalText env₁ text) (g <$> evalText env₂ text) :=
  hst.map_value (h.value hst htext) hfg

/-! ## Nodes that stand for themselves -/

/-- A node without children expands to the same in both. -/
theorem expandLeaf (hst : c.States s t) {depth : Nat} {n : Node} (hleaf : n.element? = none)
    (htexts : ∀ text ctx, TextOf env₁ depth s n text ctx → c.text ctx text) :
    Parallel c.pairing (fun m m' => m' = m ∧ m.element? = none) s t (expandLeaf env₁ n)
      (Expansion.expandLeaf env₂ n) := by
  cases n with
  | element => cases hleaf
  | text data => exact h.map_evalText hst (htexts _ _ .text) fun _ => ⟨rfl, rfl⟩
  | cdata data => exact h.map_evalText hst (htexts _ _ .cdata) fun _ => ⟨rfl, rfl⟩
  | comment data => exact h.map_evalText hst (htexts _ _ .comment) fun _ => ⟨rfl, rfl⟩
  | instruction target data => exact Parallel.pure (p := c.pairing) ⟨rfl, rfl⟩ hst

/-- And so do attributes whose values may be evaluated, by induction on their list. -/
theorem expandAttrs {attrs : List Attr} (hst : c.States s t)
    (htexts : ∀ a ∈ evaluatedAttrs attrs, c.text (s.context env₁) a.value) :
    Parallel c.pairing (fun as as' => as' = as) s t (expandAttrs env₁ attrs)
      (Expansion.expandAttrs env₂ attrs) := by
  induction attrs generalizing s t with
  | nil => exact Parallel.pure (p := c.pairing) rfl hst
  | cons a rest ih =>
    unfold evaluatedAttrs at htexts
    unfold Expansion.expandAttrs Expansion.expandAttr
    cases hreset : a.resetsNamespace with
    | true => exact Parallel.abort (p := c.pairing) nofun
    | false =>
      rw [List.takeWhile_cons, hreset] at htexts
      simp only [Bool.false_eq_true, if_false, bind_assoc, pure_bind]
      refine h.bind_evalText hst (htexts a List.mem_cons_self) fun s' t' _ hs hst' => ?_
      refine (ih hst' fun a' ha' => ?_).bind fun as as' _ _ _ _ has hst'' => ?_
      · rw [hs.quiet.context]
        exact htexts a' (List.mem_cons_of_mem _ ha')
      · rw [has]
        exact Parallel.pure (p := c.pairing) rfl hst''

/-! ## Definitions -/

/-- Nodes that correspond are copied alike, or both are nested too deeply to be. -/
theorem capture (hst : c.States s t) {a b : Nat} (hdeep : c.deep a b) {ns ns' : List Node}
    (hnodes : c.Nodes ns ns') :
    Parallel c.pairing c.Nodes s t (capture a ns) (Expansion.capture b ns') := by
  have hpure : Parallel c.pairing c.Nodes s t (pure ns) (pure ns') := .pure hnodes hst
  unfold Expansion.capture
  rcases h.heights hdeep hnodes with hiff | ⟨hover, hlt⟩ | ⟨hover, hlt⟩
  · by_cases hle : heightOfNodes ns ≤ a
    · rw [if_pos hle, if_pos (hiff.1 hle)]
      exact hpure
    · rw [if_neg hle, if_neg (mt hiff.2 hle)]
      exact Parallel.abort (p := c.pairing) nofun
  · rw [if_neg (Nat.not_le.2 hlt)]
    exact Pairing.Ends.overflow₁ hover
  · rw [if_neg (Nat.not_le.2 hlt)]
    exact Pairing.Ends.overflow₂ hover

omit h in
/-- Writing a property. -/
theorem define_parallel (hst : c.States s t) {name : String} {v v' : Property}
    (placement : Placement)
    (hinsert : ∀ {table table'}, c.tables table table' →
      c.tables (table.insert name v) (table'.insert name v'))
    (hfooting : c.footing (s.footing.define name v) (t.footing.define name v')) :
    Parallel c.pairing Eq s t (Expansion.define name v placement)
      (Expansion.define name v' placement) := by
  have hst' : c.States { s with scopes := s.scopes.define name v placement }
      { t with scopes := t.scopes.define name v' placement } := by
    refine ⟨forall₂_define hst.scopes hinsert placement, hst.macros, hst.args, hst.reportable₁,
      hst.reportable₂, ?_⟩
    unfold State.footing
    rcases Scopes.global_define hst.depth name v v' placement with ⟨hs, ht⟩ | ⟨hs, ht⟩
    · rw [hs, ht]
      exact hst.footing
    · rw [hs, ht]
      exact hfooting
  refine .get_bind (.modify_bind ?_)
  exact hst'.reports (logProperty_reporting _ _ _ _ _ hst'.reportable₁)
    (logProperty_reporting _ _ _ _ _ hst'.reportable₂) rfl

/-- A property is given by the same attribute, or by children that correspond. -/
theorem givenProperty (hst : c.States s t) {a b : Nat} (hdeep : c.deep a b) {e e' : Element}
    (hpair : c.pair e e') (hchildren : c.Nodes e.children e'.children) :
    Parallel c.pairing (fun v v' => Property.Alike Eq c.Nodes v v' ∧
      ∀ text, v = .text text → (e.attr? "value").or (e.attr? "default") = some text) s t
      (givenProperty a e) (Expansion.givenProperty b e') := by
  have hattr (name : String) : e'.attr? name = e.attr? name := by
    unfold Element.attr?
    rw [h.attrs hpair]
  unfold Expansion.givenProperty
  rw [hattr, hattr]
  cases (e.attr? "value").or (e.attr? "default") with
  | some text =>
    refine Parallel.pure (p := c.pairing) ⟨.text rfl, fun text' htext => ?_⟩ hst
    cases htext
    rfl
  | none => exact (h.capture hst hdeep hchildren).map fun ns ns' hns => ⟨.block hns, nofun⟩

/-- The value of a property is evaluated in both or in none. -/
theorem writtenProperty (hst : c.States s t) {v v' : Property}
    (hv : Property.Alike Eq c.Nodes v v') (placement : Placement)
    (htext : ∀ text, v = .text text → placement ≠ .current → c.text (s.context env₁) text) :
    Parallel c.pairing (Property.Alike Eq c.Nodes) s t (writtenProperty env₁ v placement)
      (Expansion.writtenProperty env₂ v' placement) := by
  cases hv with
  | block hns => cases placement <;> exact Parallel.pure (p := c.pairing) (.block hns) hst
  | text hx =>
    cases hx
    cases placement with
    | current => exact Parallel.pure (p := c.pairing) (.text rfl) hst
    | parent | global =>
      exact h.map_evalText hst (htext _ rfl nofun) fun value => .text rfl

/-- A definition writes values that correspond under the same name. -/
theorem defineProperty (hst : c.States s t) {a b depth : Nat} (hdeep : c.deep a b)
    {e e' : Element} (hpair : c.pair e e') (hchildren : c.Nodes e.children e'.children)
    (hmeans : Expansion.classify env₁ s e = .property)
    (htexts : ∀ text ctx, TextOf env₁ depth s e.node text ctx → c.text ctx text) :
    Parallel c.pairing c.Output s t (defineProperty env₁ a e)
      (Expansion.defineProperty env₂ b e') := by
  have hscope : e'.attr? "scope" = e.attr? "scope" := by
    unfold Element.attr?
    rw [h.attrs hpair]
  refine hst.requireAttr (h.attrs hpair) "name" fun name hname => ?_
  refine hst.bind_reports (warnExtraAttrs_reporting _ _ s hst.reportable₁)
    (warnExtraAttrs_reporting _ _ t hst.reportable₂) fun s₁ t₁ _ hs₁ hst₁ => ?_
  refine hst₁.bind_reports (warnUnreferable_reporting _ s₁ hst₁.reportable₁)
    (warnUnreferable_reporting _ t₁ hst₁.reportable₂) fun s₂ t₂ _ hs₂ hst₂ => ?_
  refine (h.givenProperty hst₂ hdeep hpair hchildren).bind
    fun v v' s₃ t₃ hgiven _ ⟨hv, htext⟩ hst₃ => ?_
  have hs₃ : Quiet s s₃ := IsTrans.trans _ _ _ hs₁.quiet
    (IsTrans.trans _ _ _ hs₂.quiet ((givenProperty_quiet a e).of_run hgiven))
  have hsame : s₃.localProperties = s.localProperties := hs₃.samePlace.localProperties
  have hplacement : placementIn t₃ (e'.attr? "scope") = placementIn s₃ (e.attr? "scope") := by
    unfold placementIn
    rw [hscope, show t₃.localProperties = s₃.localProperties from
      h.localProperties hpair hmeans hst₃.footing]
  refine hst₃.bind_reports (placementFor_reportsAt hst₃.reportable₁ name _)
    (placementFor_reportsAt hst₃.reportable₂ name _) fun s₄ t₄ _ hs₄ hst₄ => ?_
  rw [hplacement]
  refine (h.writtenProperty hst₄ hv _ fun text hv hne => ?_).bind
    fun w w' s₅ t₅ _ _ hw hst₅ => ?_
  · rw [hs₄.quiet.context, hs₃.context]
    refine htexts text _ (.property hmeans hname (htext text hv) ?_)
    unfold placementIn at hne ⊢
    rwa [← hsame]
  · refine (define_parallel hst₅ _ (fun htables => ?_)
      (h.define_footing hpair hmeans hname hst₅.footing hw)).bind fun _ _ _ _ _ _ _ hst₆ => ?_
    · exact h.define hpair hmeans hname htables hw
    · exact Parallel.pure (p := c.pairing) ⟨rfl, .nil⟩ hst₆

/-- A macro is defined with bodies that correspond. -/
theorem defineMacro (hst : c.States s t) {a b : Nat} (hdeep : c.deep a b)
    {e e' : Element} (hpair : c.pair e e') (hchildren : c.Nodes e.children e'.children)
    (hmeans : Expansion.classify env₁ s e = .defineMacro) :
    Parallel c.pairing c.Output s t (defineMacro a e) (Expansion.defineMacro b e') := by
  have hparams : e'.attr? "params" = e.attr? "params" := by
    unfold Element.attr?
    rw [h.attrs hpair]
  unfold Expansion.defineMacro
  rw [map_eq_pure_bind, map_eq_pure_bind, bind_assoc, bind_assoc]
  refine hst.requireAttr (h.attrs hpair) "name" fun name hname => ?_
  rw [pure_bind, pure_bind]
  refine hst.bind_reports (warnExtraAttrs_reporting _ _ s hst.reportable₁)
    (warnExtraAttrs_reporting _ _ t hst.reportable₂) fun s₁ t₁ _ hs₁ hst₁ => ?_
  refine hst₁.bind_reports (warnKeyword_reporting _ s₁ hst₁.reportable₁)
    (warnKeyword_reporting _ t₁ hst₁.reportable₂) fun s₂ t₂ _ hs₂ hst₂ => ?_
  refine (h.capture hst₂ hdeep hchildren).bind fun body body' s₃ t₃ _ _ hbody hst₃ => ?_
  refine .modify_bind (.pure (p := c.pairing) ⟨rfl, .nil⟩ ?_)
  refine ⟨hst₃.scopes, fun other => ?_, hst₃.args, hst₃.reportable₁, hst₃.reportable₂,
    hst₃.footing⟩
  show Option.Rel c.Macros ((s₃.macros.insert _ _).get? other) ((t₃.macros.insert _ _).get? other)
  rw [Dict.get?_insert, Dict.get?_insert]
  split
  · refine .some ⟨rfl, ?_, hbody, h.params hpair hmeans⟩
    unfold definedMacro
    rw [hparams]
  · exact hst₃.macros other

/-- The default of an argument is the same text in both. -/
theorem defineArg (hst : c.States s t) {depth : Nat} {e e' : Element}
    (hpair : c.pair e e') (hmeans : Expansion.classify env₁ s e = .arg)
    (htexts : ∀ text ctx, TextOf env₁ depth s e.node text ctx → c.text ctx text) :
    Parallel c.pairing c.Output s t (defineArg env₁ e) (Expansion.defineArg env₂ e') := by
  refine hst.requireAttr (h.attrs hpair) "name" fun name hname => ?_
  refine hst.requireAttr (h.attrs hpair) "default" fun fallback hfallback => ?_
  refine hst.bind_reports (warnExtraAttrs_reporting _ _ s hst.reportable₁)
    (warnExtraAttrs_reporting _ _ t hst.reportable₂) fun s₁ t₁ _ hs₁ hst₁ => ?_
  have hset : Parallel c.pairing Eq s₁ t₁ (setArg env₁ name fallback)
      (setArg env₂ name fallback) := by
    refine .get_bind ?_
    rw [hst₁.args]
    by_cases hcontains : s₁.args.contains name
    · rw [if_pos hcontains, if_pos hcontains]
      exact Parallel.pure (p := c.pairing) rfl hst₁
    · rw [if_neg hcontains, if_neg hcontains]
      have hnew : s.args.contains name = false := by
        obtain ⟨_, rfl⟩ := hs₁
        exact Bool.eq_false_iff.2 hcontains
      have htext : c.text (s₁.context env₁) fallback := by
        rw [hs₁.quiet.context]
        exact htexts _ _ (.fallback hmeans hname hfallback hnew)
      refine h.bind_evalText hst₁ htext fun s₂ t₂ _ hs₂ hst₂ => ?_
      have hnew : s₂.args.contains name = false := by
        obtain ⟨_, rfl⟩ := hs₂
        exact Bool.eq_false_iff.2 hcontains
      exact Pairing.Ends.ok rfl (hst₂.insertArg (h.insertArg hst₂.footing hnew _))
  exact hset.bind fun _ _ _ _ _ _ _ hst₂ => Parallel.pure (p := c.pairing) ⟨rfl, .nil⟩ hst₂

/-! ## Blocks and conditions -/

/-- Properties that are looked up correspond, or both are missing. -/
theorem resolve (hst : c.States s t) (name : String) :
    Parallel c.pairing (Property.Alike (fun _ _ => True) c.Nodes) s t (resolve name)
      (Expansion.resolve name) := by
  have hlookup := h.lookup? hst name
  refine .get_bind ?_
  dsimp only
  generalize s.scopes.lookup? name = v at hlookup ⊢
  generalize t.scopes.lookup? name = v' at hlookup ⊢
  cases hlookup with
  | none => exact Parallel.fault (p := c.pairing) hst
  | some hv =>
    refine hst.bind_reports (logProperty_reporting _ _ _ _ s hst.reportable₁)
      (logProperty_reporting _ _ _ _ t hst.reportable₂) fun s' t' _ _ hst' => ?_
    exact Parallel.pure (p := c.pairing) hv hst'

/-- Blocks of one name hold nodes that correspond. -/
theorem namedBlock (hst : c.States s t) {e e' : Element} (hpair : c.pair e e') :
    Parallel c.pairing c.Nodes s t (namedBlock e) (Expansion.namedBlock e') := by
  refine hst.requireAttr (h.attrs hpair) "name" fun name hname => ?_
  refine hst.bind_reports (warnExtraAttrs_reporting _ _ s hst.reportable₁)
    (warnExtraAttrs_reporting _ _ t hst.reportable₂) fun s₁ t₁ _ _ hst₁ => ?_
  refine .get_bind ?_
  rw [h.contains hst₁]
  by_cases hcontains : s₁.scopes.contains name
  · rw [if_pos hcontains]
    refine (h.resolve hst₁ name).bind fun v v' s₂ t₂ _ _ hv hst₂ => ?_
    cases hv with
    | text => exact Parallel.fault (p := c.pairing) hst₂
    | block hns => exact Parallel.pure (p := c.pairing) hns hst₂
  · rw [if_neg hcontains]
    exact Parallel.fault (p := c.pairing) hst₁

/-- A condition is the same text in both, so that both keep their children or none does. -/
theorem keptChildren (hst : c.States s t) {depth : Nat} {e e' : Element} (wanted : Bool)
    (hpair : c.pair e e') (hchildren : c.Nodes e.children e'.children)
    (hmeans : Expansion.classify env₁ s e = .whenTrue ∨ Expansion.classify env₁ s e = .whenFalse)
    (htexts : ∀ text ctx, TextOf env₁ depth s e.node text ctx → c.text ctx text) :
    Parallel c.pairing c.Nodes s t (keptChildren env₁ wanted e)
      (Expansion.keptChildren env₂ wanted e') := by
  refine hst.requireAttr (h.attrs hpair) "value" fun condition hvalue => ?_
  refine hst.bind_reports (warnExtraAttrs_reporting _ _ s hst.reportable₁)
    (warnExtraAttrs_reporting _ _ t hst.reportable₂) fun s₁ t₁ _ hs₁ hst₁ => ?_
  have htext : c.text (s₁.context env₁) condition := by
    rw [hs₁.quiet.context]
    exact htexts _ _ (.condition hmeans hvalue)
  refine h.bind_evalText hst₁ htext fun s₂ t₂ _ _ hst₂ => .pure (p := c.pairing) ?_ hst₂
  split
  · exact hchildren
  · exact .nil

/-! ## Included files -/

/-- A file that may be included is looked for under the same path. -/
theorem includePath (hst : c.States s t) {name : String} (hfile : c.file name) :
    Parallel c.pairing Eq s t (includePath name s.workingPath)
      (Expansion.includePath name t.workingPath) := by
  unfold Expansion.includePath
  by_cases habsolute : IncludePath.isAbsolute name
  · rw [if_pos habsolute, if_pos habsolute]
    exact Parallel.pure (p := c.pairing) rfl hst
  · have hpath : t.workingPath = s.workingPath :=
      (h.path hfile hst.footing).resolve_left habsolute
    rw [if_neg habsolute, if_neg habsolute, hpath]
    cases s.workingPath with
    | ok directory => exact Parallel.pure (p := c.pairing) rfl hst
    | error m => exact Parallel.abort (p := c.pairing) nofun

/-- And it is fetched and read with the same outcome. -/
theorem loadInclude (hst : c.States s t) {name : String} (hfile : c.file name) (path : String) :
    Parallel c.pairing Eq s t (loadInclude env₁ path) (Expansion.loadInclude env₂ path) := by
  have hfetch : Parallel c.pairing Eq s t (Expansion.fetch env₁ path)
      (Expansion.fetch env₂ path) :=
    .of_ok rfl rfl (by rw [h.fetch hfile])
      ⟨hst.scopes, hst.macros, hst.args, hst.reportable₁, hst.reportable₂, hst.footing⟩
  refine hfetch.bind fun text text' s₁ t₁ _ _ htext hst₁ => ?_
  cases htext
  cases text with
  | error failure => exact Parallel.fault (p := c.pairing) hst₁
  | ok text =>
    have hst₂ : c.States { s₁ with includes := s₁.includes ++ [path] }
        { t₁ with includes := t₁.includes ++ [path] } :=
      ⟨hst₁.scopes, hst₁.macros, hst₁.args, hst₁.reportable₁, hst₁.reportable₂, hst₁.footing⟩
    refine .modify_bind ?_
    unfold parseRoot
    cases Markup.read text with
    | ok d => exact Parallel.pure (p := c.pairing) rfl hst₂
    | error e => exact Parallel.abort (p := c.pairing) nofun

/-- Also where it was taken in before. -/
theorem fileRoot (hst : c.States s t) {name : String} (hfile : c.file name) (path : String) :
    Parallel c.pairing Eq s t (fileRoot env₁ path) (Expansion.fileRoot env₂ path) := by
  obtain ⟨hfailed, hpreloaded⟩ := h.known hfile hst.footing
  have hfailed : t.failed = s.failed := hfailed
  have hpreloaded : t.preloaded = s.preloaded := hpreloaded
  refine .get_bind ?_
  rw [hfailed, hpreloaded]
  cases s.failed.get? path with
  | some failure => exact Parallel.fault (p := c.pairing) hst
  | none =>
    cases s.preloaded.get? path with
    | some record => exact Parallel.pure (p := c.pairing) rfl hst
    | none => exact h.loadInclude hst hfile path

/-- The file of a directive is the same in both, and plain, so that it corresponds to itself. -/
theorem namedFile (hst : c.States s t) {depth : Nat} {e e' : Element} (hpair : c.pair e e')
    (hmeans : Expansion.classify env₁ s e = .includeFile) (hfine : c.Fine env₁ depth e.node s) :
    Parallel c.pairing (fun f f' => f' = f ∧ c.Plain f.2.children ∧
      ∃ name, c.file name) s t (namedFile env₁ e) (Expansion.namedFile env₂ e') := by
  have hattr : e'.attr? "ns" = e.attr? "ns" := by
    unfold Element.attr?
    rw [h.attrs hpair]
  refine hst.requireAttr (h.attrs hpair) "filename" fun name hname => ?_
  refine hst.bind_reports (warnExtraAttrs_reporting _ _ s hst.reportable₁)
    (warnExtraAttrs_reporting _ _ t hst.reportable₂) fun s₁ t₁ _ hs₁ hst₁ => ?_
  rw [hattr]
  refine hst₁.bind_reports (warnNameSpace_reporting _ s₁ hst₁.reportable₁)
    (warnNameSpace_reporting _ t₁ hst₁.reportable₂) fun s₂ t₂ _ hs₂ hst₂ => ?_
  have hs₂ : Quiet s s₂ := IsTrans.trans _ _ _ hs₁.quiet hs₂.quiet
  have hfile := hfine.files e e' name rfl hpair hmeans hname
  have htext := hfine.texts _ _ (.filename hmeans hname)
  rw [← hs₂.context] at hfile htext
  refine h.bind_evalText hst₂ htext fun s₃ t₃ _ _ hst₃ => .get_bind ?_
  generalize valueIn (s₂.context env₁) name = filename at hfile
  refine (h.includePath hst₃ hfile).bind fun path path' s₄ t₄ _ _ hpath hst₄ => ?_
  cases hpath
  refine (h.fileRoot hst₄ hfile path).bind fun root root' s₅ t₅ _ _ hroot hst₅ => ?_
  cases hroot
  exact Parallel.pure (p := c.pairing) ⟨rfl, h.content hfile _, _, hfile⟩ hst₅

/-! ## Calls -/

omit h in
/-- Macros of one name correspond, or both are missing. -/
theorem findMacro (hst : c.States s t) (name : String) :
    Parallel c.pairing c.Macros s t (findMacro name) (Expansion.findMacro name) := by
  have hmacros := hst.macros name
  refine .get_bind ?_
  generalize s.macros.get? name = m at hmacros ⊢
  generalize t.macros.get? name = m' at hmacros ⊢
  cases hmacros with
  | none => exact Parallel.fault (p := c.pairing) hst
  | some hm => exact Parallel.pure (p := c.pairing) hm hst

/-- A call finds macros that correspond, and has the same arguments. -/
theorem callee (hst : c.States s t) {depth : Nat} {e e' : Element} (hpair : c.pair e e')
    (naming : Naming) (hmeans : Expansion.classify env₁ s e = naming.directive)
    (htexts : ∀ text ctx, TextOf env₁ depth s e.node text ctx → c.text ctx text) :
    Parallel c.pairing (fun a a' => c.Macros a.1 a'.1 ∧ a'.2 = a.2) s t (callee env₁ e naming)
      (Expansion.callee env₂ e' naming) := by
  cases naming with
  | byTag =>
    unfold Expansion.callee
    rw [h.stripTag hpair, h.attrs hpair]
    exact (findMacro hst _).bind fun m m' _ _ _ _ hm hst₁ => .pure (p := c.pairing) ⟨hm, rfl⟩ hst₁
  | byAttr =>
    refine hst.requireAttr (h.attrs hpair) "macro" fun name hname => ?_
    refine h.bind_evalText hst (htexts _ _ (.macroName hmeans hname)) fun s₁ t₁ _ _ hst₁ => ?_
    rw [h.attrs hpair]
    exact (findMacro hst₁ _).bind fun m m' _ _ _ _ hm hst₂ =>
      .pure (p := c.pairing) ⟨hm, rfl⟩ hst₂

/-- What a parameter falls back to corresponds, be it forwarded or a default. -/
theorem fallbackValue (hst : c.States s t) {m m' : Macro} {name : String} {param : Param}
    (hforwarded : ∀ text, param.forward = true → s.scopes.lookup? name = some (.text text) →
      c.text (s.context env₁) text)
    (hfallback : ∀ text, (if param.forward then s.scopes.lookup? name else none) = none →
      param.fallback = some text → c.text (s.context env₁) text) :
    Parallel c.pairing (Property.Alike Eq c.Nodes) s t (fallbackValue env₁ m name param)
      (Expansion.fallbackValue env₂ m' name param) := by
  have hdefault (hnone : (if param.forward then s.scopes.lookup? name else none) = none) :
      ∀ text, param.fallback = some text →
        Parallel c.pairing (Property.Alike Eq c.Nodes) s t (.text <$> evalText env₁ text)
          (.text <$> evalText env₂ text) :=
    fun text htext => h.map_evalText hst (hfallback text hnone htext) fun _ => .text rfl
  have hlookup := h.lookup? hst name
  have hvalue := @h.forwarded s t name
  refine .get_bind ?_
  dsimp only
  cases hforward : param.forward with
  | false =>
    rw [hforward] at hdefault
    cases hparam : param.fallback with
    | some text => exact hdefault rfl text hparam
    | none => exact Parallel.fault (p := c.pairing) hst
  | true =>
    rw [hforward] at hdefault
    rw [if_pos rfl, if_pos rfl]
    rw [if_pos rfl] at hdefault
    generalize s.scopes.lookup? name = v at *
    generalize t.scopes.lookup? name = v' at *
    cases hlookup with
    | none =>
      cases hparam : param.fallback with
      | some text => exact hdefault rfl text hparam
      | none => exact Parallel.fault (p := c.pairing) hst
    | some hv =>
      cases hv with
      | block hns => exact Parallel.pure (p := c.pairing) (.block hns) hst
      | text =>
        have hsame := hvalue hst rfl rfl (hforwarded _ hforward rfl)
        exact hst.map_value hsame fun _ => .text rfl

/-- A parameter is written, and both go on with the tables it is written into. -/
theorem bind_bindParam (hst : c.States s t) {γ δ : Type} {W : γ → δ → Prop} {name : String}
    {v v' : Property} {table table' : Table} {f : Table → M γ} {g : Table → M δ}
    (htables : c.tables table table') (hparam : c.param name)
    (hv : Property.Alike Eq c.Nodes v v')
    (hfg : ∀ s' t', Reported s s' → c.States s' t' →
      c.tables (table.insert name v) (table'.insert name v') →
      Parallel c.pairing W s' t' (f (table.insert name v)) (g (table'.insert name v'))) :
    Parallel c.pairing W s t (bindParam name v table >>= f) (bindParam name v' table' >>= g) :=
  hst.bind_reports (bindParam_reporting _ _ _ s hst.reportable₁)
    (bindParam_reporting _ _ _ t hst.reportable₂) fun s' t' _ hs hst' =>
      hfg s' t' hs hst' (h.bind htables hparam hv)

/-- A parameter that a call gives nothing for is looked for among the caller's properties and the
defaults, and both go on with what is found. -/
theorem bind_fallbackValue (hst : c.States s t) {γ δ : Type} {W : γ → δ → Prop} {m m' : Macro}
    {name : String} {param : Param} {f : Property → M γ} {g : Property → M δ} {fault fault' : Fault}
    (hforwarded : ∀ text, param.forward = true → s.scopes.lookup? name = some (.text text) →
      c.text (s.context env₁) text)
    (hfallback : ∀ text, (if param.forward then s.scopes.lookup? name else none) = none →
      param.fallback = some text → c.text (s.context env₁) text)
    (hfg : ∀ v v' s' t', Expansion.fallbackValue env₁ m name param s = (.ok v, s') →
      Property.Alike Eq c.Nodes v v' → c.States s' t' → Parallel c.pairing W s' t' (f v) (g v')) :
    Parallel c.pairing W s t
      (if param.forward || param.fallback.isSome then
        Expansion.fallbackValue env₁ m name param >>= f
      else throw (.fault fault))
      (if param.forward || param.fallback.isSome then
        Expansion.fallbackValue env₂ m' name param >>= g
      else throw (.fault fault')) := by
  by_cases hsource : param.forward || param.fallback.isSome
  · rw [if_pos hsource, if_pos hsource]
    exact (h.fallbackValue hst hforwarded hfallback).bind fun v v' s' t' hrun _ hv hst' =>
      hfg v v' s' t' hrun hv hst'
  · rw [if_neg hsource, if_neg hsource]
    exact Parallel.fault (p := c.pairing) hst

omit h in
/-- If a value is found for the first parameter among the caller's properties and the defaults, the
texts of the others are among those of the call that takes no block for it. -/
theorem boundTexts_subset_of_fallbackValue {env : Environment} {m : Macro} {name : String}
    {param : Param} {v : Property} {s s' : State}
    (hrun : Expansion.fallbackValue env m name param s = (.ok v, s')) {attrs : Dict String}
    (hattr : attrs.get? name = none) (claimed : Dict (List Node)) (rest : List (String × Param))
    (pool : List Element) :
    boundTexts s.scopes claimed rest attrs pool ⊆
      boundTexts s.scopes claimed ((name, { param with kind := .scalar }) :: rest) attrs pool := by
  conv_rhs => unfold boundTexts
  unfold Expansion.fallbackValue at hrun
  rw [get_bind_apply] at hrun
  simp only [hattr]
  generalize (if param.forward then s.scopes.lookup? name else none) = forwarded at *
  generalize param.fallback = fallback at *
  rcases forwarded with _ | (text | ns)
  · cases fallback with
    | none => cases hrun
    | some text => exact List.subset_cons_self _ _
  · exact List.subset_cons_self _ _
  · exact List.Subset.refl _

/-- What the parameters of a call are bound to. -/
theorem bindParams (hst : c.States s t) {m m' : Macro} {claimed : Dict (List Node)}
    {params : List (String × Param)} {attrs : Dict String} {pool : List Element}
    {table table' : Table} (htables : c.tables table table')
    (hclaimed : ∀ name nodes, claimed.get? name = some nodes → c.Plain nodes)
    (hpool : ∀ e ∈ pool, c.Plain [e.node])
    (hallowed : ∀ entry ∈ params, c.param entry.1)
    (htexts : ∀ text ∈ boundTexts s.scopes claimed params attrs pool,
      c.text (s.context env₁) text) :
    Parallel c.pairing (fun r r' => r'.1 = r.1 ∧ c.tables r.2 r'.2) s t
      (bindParams env₁ m claimed params attrs pool table)
      (Expansion.bindParams env₂ m' claimed params attrs pool table') := by
  induction params generalizing attrs pool table table' s t with
  | nil => exact Parallel.pure (p := c.pairing) ⟨rfl, htables⟩ hst
  | cons entry rest ih =>
    obtain ⟨name, param⟩ := entry
    have hparam : c.param name := hallowed _ List.mem_cons_self
    have hrest : ∀ entry ∈ rest, c.param entry.1 :=
      fun entry he => hallowed entry (List.mem_cons_of_mem _ he)
    -- Once the value of the first parameter is known, it is written and the others follow.
    have hbind {attrs : Dict String} {pool : List Element} {v v' : Property} {s' t' : State}
        (hst' : c.States s' t') (hs' : Quiet s s') (hv : Property.Alike Eq c.Nodes v v')
        (hpool : ∀ e ∈ pool, c.Plain [e.node])
        (htexts : ∀ text ∈ boundTexts s.scopes claimed rest attrs pool,
          c.text (s.context env₁) text) :
        Parallel c.pairing (fun r r' => r'.1 = r.1 ∧ c.tables r.2 r'.2) s' t'
          (bindParam name v table >>= fun table =>
            Expansion.bindParams env₁ m claimed rest attrs pool table)
          (bindParam name v' table' >>= fun table =>
            Expansion.bindParams env₂ m' claimed rest attrs pool table) := by
      refine h.bind_bindParam hst' htables hparam hv fun s₁ t₁ hs₁ hst₁ htables₁ => ?_
      have hs₁ : Quiet s s₁ := IsTrans.trans _ _ _ hs' hs₁.quiet
      refine ih hst₁ htables₁ hpool hrest ?_
      rw [hs₁.samePlace.scopes, hs₁.context]
      exact htexts
    unfold Expansion.bindParams
    unfold boundTexts at htexts
    cases hattr : attrs.get? name with
    | some text =>
      simp only [hattr] at htexts ⊢
      refine h.bind_evalText hst (htexts _ List.mem_cons_self) fun s₁ t₁ _ hs₁ hst₁ => ?_
      exact hbind hst₁ hs₁.quiet (.text rfl) hpool fun text ht => htexts _
        (List.mem_cons_of_mem _ ht)
    | none =>
      -- A parameter that takes no block here is like a scalar one: its texts are those of its
      -- default.
      have hdefault (htexts : ∀ text ∈
          boundTexts s.scopes claimed ((name, { param with kind := .scalar }) :: rest) attrs pool,
          c.text (s.context env₁) text) {fault fault' : Fault} :
          Parallel c.pairing (fun r r' => r'.1 = r.1 ∧ c.tables r.2 r'.2) s t
            (if param.forward || param.fallback.isSome then
              Expansion.fallbackValue env₁ m name param >>= fun value =>
                bindParam name value table >>=
                  Expansion.bindParams env₁ m claimed rest attrs pool
            else throw (.fault fault))
            (if param.forward || param.fallback.isSome then
              Expansion.fallbackValue env₂ m' name param >>= fun value =>
                bindParam name value table' >>=
                  Expansion.bindParams env₂ m' claimed rest attrs pool
            else throw (.fault fault')) := by
        refine h.bind_fallbackValue hst (fun text hforward hlookup => htexts text ?_)
          (fun text hnone hfallback => htexts text ?_) fun v v' s₁ t₁ hrun hv hst₁ => ?_
        · simp only [boundTexts, hattr, if_pos hforward, hlookup, List.mem_cons_self]
        · simp only [boundTexts, hattr, hnone, hfallback, List.mem_cons_self]
        · have hquiet := (fallbackValue_quiet env₁ m name param).of_run hrun
          exact hbind hst₁ hquiet hv hpool fun text ht => htexts text
            (boundTexts_subset_of_fallbackValue hrun hattr claimed rest pool ht)
      cases hkind : param.kind with
      | scalar =>
        simp only [hattr, hkind] at htexts ⊢
        exact hdefault (by simpa only [boundTexts, hattr] using htexts)
      | block =>
        cases pool with
        | nil =>
          simp only [hattr, hkind] at htexts ⊢
          exact hdefault (by simpa only [boundTexts, hattr] using htexts)
        | cons e pool =>
          simp only [hattr, hkind] at htexts ⊢
          have hblock := hpool e List.mem_cons_self
          exact hbind hst (Std.Refl.refl s) (.block hblock.nodes)
            (fun e he => hpool e (List.mem_cons_of_mem _ he)) htexts
      | multiBlock =>
        cases hnodes : claimed.get? name with
        | none =>
          simp only [hattr, hkind, hnodes] at htexts ⊢
          exact hdefault (by simpa only [boundTexts, hattr] using htexts)
        | some nodes =>
          simp only [hattr, hkind, hnodes] at htexts ⊢
          have hblock := hclaimed name nodes hnodes
          exact hbind hst (Std.Refl.refl s) (.block hblock.nodes) hpool htexts

omit h in
/-- A block that is taken by its tag comes out of the pool, and so does what is left. -/
theorem takeTagged?_subset {tag : String} {pool rest : List Element} {e : Element}
    (hrun : takeTagged? tag pool = some (e, rest)) : e ∈ pool ∧ rest ⊆ pool := by
  induction pool generalizing rest with
  | nil => cases hrun
  | cons e' pool ih =>
    unfold takeTagged? at hrun
    split at hrun
    · cases hrun
      exact ⟨List.mem_cons_self, List.subset_cons_self _ _⟩
    · obtain ⟨⟨found, left⟩, hfound, heq⟩ := Option.map_eq_some_iff.1 hrun
      cases heq
      obtain ⟨he, hleft⟩ := ih hfound
      exact ⟨List.mem_cons_of_mem _ he, List.cons_subset_cons _ hleft⟩

omit h in
/-- Blocks are claimed from the elements of the pool, and the others are left in it. -/
theorem claimBlocks_subset (given : String → Bool) (params : List (String × Param))
    (pool : List Element) :
    (∀ name nodes, (claimBlocks given params pool).1.get? name = some nodes →
      ∃ e ∈ pool, e.children = nodes) ∧ (claimBlocks given params pool).2 ⊆ pool := by
  induction params generalizing pool with
  | nil => exact ⟨nofun, List.Subset.refl pool⟩
  | cons entry rest ih =>
    obtain ⟨name, param⟩ := entry
    unfold claimBlocks
    split
    · cases htake : takeTagged? name pool with
      | none => exact ih pool
      | some found =>
        obtain ⟨e, left⟩ := found
        obtain ⟨he, hleft⟩ := takeTagged?_subset htake
        obtain ⟨hclaimed, hpool⟩ := ih left
        refine ⟨fun other nodes hget => ?_, fun e' he' => hleft (hpool he')⟩
        dsimp only at hget
        rw [Dict.get?_insert] at hget
        split at hget
        · cases hget
          exact ⟨e, he, rfl⟩
        · obtain ⟨e', he', hnodes⟩ := hclaimed other nodes hget
          exact ⟨e', hleft he', hnodes⟩
    · exact ih pool

/-- The parameters of corresponding macros are bound to values that correspond. -/
theorem bindCall (hst : c.States s t) {m m' : Macro} (hdefined : c.Macros m m')
    {arguments : Dict String} {children : List Node} (hplain : c.Plain children)
    (htexts : ∀ text ∈ argumentTexts s.scopes m arguments children,
      c.text (s.context env₁) text) :
    Parallel c.pairing c.tables s t (bindCall env₁ m arguments children)
      (Expansion.bindCall env₂ m' arguments children) := by
  obtain ⟨hclaimed, hpool⟩ := claimBlocks_subset arguments.contains m.params.entries
    (children.filterMap Node.element?)
  unfold argumentTexts at htexts
  unfold Expansion.bindCall
  rw [hdefined.params]
  generalize claimBlocks arguments.contains m.params.entries (children.filterMap Node.element?) =
    blocks at *
  obtain ⟨claimed, pool⟩ := blocks
  refine .get_bind ((h.bindParams hst hst.current (fun name nodes hnodes => ?_)
    (fun e he => hplain.of_mem (hpool he)) (fun entry he => ?_) htexts).bind
      fun ⟨unknown, table⟩ ⟨unknown', table'⟩ s₁ t₁ _ _ ⟨hsame, htables⟩ hst₁ => ?_)
  · obtain ⟨e, he, rfl⟩ := hclaimed name nodes hnodes
    exact (hplain.of_mem he).children
  · exact hdefined.allowed _ (List.mem_map_of_mem he)
  · refine hst₁.bind_reports (warnUnknownParams_reporting m _ s₁ hst₁.reportable₁)
      (warnUnknownParams_reporting m' _ t₁ hst₁.reportable₂) fun s₂ t₂ _ _ hst₂ => ?_
    exact Parallel.pure (p := c.pairing) htables hst₂

omit h in
/-- The body of a macro in the scopes of both calls. -/
theorem insideCall (hst : c.States s t) {m m' : Macro} {table table' : Table}
    {x y : M (List Node)}
    (hxy : Parallel c.pairing c.Output (enterCall m table s) (enterCall m' table' t) x y) :
    Parallel c.pairing c.Output s t (insideCall m table x) (Expansion.insideCall m' table' y) := by
  refine .bracket hxy fun s' t' hst' => ?_
  refine ⟨forall₂_pop hst'.scopes, hst.macros, hst'.args, hst'.reportable₁, hst'.reportable₂, ?_⟩
  unfold State.footing
  rw [Scopes.global_pop, Scopes.global_pop]
  exact hst'.footing

/-! ## Expanding nodes -/

section
variable {a b : Nat} (hdeep : c.deep a b)
  (hnodes : ∀ {ns ns' s t}, c.Nodes ns ns' → c.States s t → During env₁ (c.Fine env₁) a ns s →
    Parallel c.pairing c.Output s t (expandNodes (expandNode env₁ a) ns)
      (expandNodes (expandNode env₂ b) ns'))

include hnodes

/-- A call corresponds to one if its children do, and what is bound, and its body. -/
theorem callMacro (hst : c.States s t) {e e' : Element} (hpair : c.pair e e')
    (hchildren : c.Nodes e.children e'.children)
    (hduring : During env₁ (c.Fine env₁) (a + 1) [e.node] s) {naming : Naming}
    (hmeans : Expansion.classify env₁ s e = naming.directive) :
    Parallel c.pairing c.Output s t (callMacro env₁ (expandNode env₁ a) naming e)
      (Expansion.callMacro env₂ (expandNode env₂ b) naming e') := by
  have hfine : c.Fine env₁ a e.node s := hduring.here
  refine (h.callee hst hpair naming hmeans hfine.texts).bind
    fun ⟨m, arguments⟩ ⟨m', arguments'⟩ s₁ t₁ hcallee _ ⟨hdefined, hsame⟩ hst₁ => ?_
  cases hsame
  refine (hnodes hchildren hst₁ (hduring.inside (.arguments hmeans hcallee))).bind
    fun children children' s₂ t₂ hexpanded _ ⟨hsame, hplain⟩ hst₂ => ?_
  cases hsame
  refine (h.bindCall hst₂ hdefined hplain fun text ht => ?_).bind
    fun table table' s₃ t₃ hbind _ htables hst₃ => ?_
  · exact hfine.texts _ _ (.argument hmeans hcallee hexpanded ht)
  · have hbody := hduring.body hmeans hcallee hexpanded hbind
    exact insideCall hst₃ (hnodes hdefined.body (hst₃.enterCall htables) hbody)

include hdeep in
/-- One case for each directive, with what is expanded inside of it given by the induction. -/
theorem perform (hst : c.States s t) {e e' : Element} (hpair : c.pair e e')
    (hchildren : c.Nodes e.children e'.children)
    (hduring : During env₁ (c.Fine env₁) (a + 1) [e.node] s) :
    Parallel c.pairing c.Output s t
      (perform env₁ a (expandNode env₁ a) e (Expansion.classify env₁ s e))
      (Expansion.perform env₂ b (expandNode env₂ b) e' (Expansion.classify env₁ s e)) := by
  have hfine : c.Fine env₁ a e.node s := hduring.here
  have htexts := hfine.texts
  cases hmeans : Expansion.classify env₁ s e with
  | property => exact h.defineProperty hst hdeep hpair hchildren hmeans htexts
  | defineMacro => exact h.defineMacro hst hdeep hpair hchildren hmeans
  | arg => exact h.defineArg hst hpair hmeans htexts
  | insertBlock =>
    exact (h.namedBlock hst hpair).bind fun ns ns' s₁ t₁ hrun _ hns hst₁ =>
      hnodes hns hst₁ (hduring.inside (.block hmeans hrun))
  | whenTrue =>
    exact (h.keptChildren hst true hpair hchildren (.inl hmeans) htexts).bind
      fun ns ns' s₁ t₁ hrun _ hns hst₁ => hnodes hns hst₁ (hduring.inside (.whenTrue hmeans hrun))
  | whenFalse =>
    exact (h.keptChildren hst false hpair hchildren (.inr hmeans) htexts).bind
      fun ns ns' s₁ t₁ hrun _ hns hst₁ => hnodes hns hst₁ (hduring.inside (.whenFalse hmeans hrun))
  | includeFile =>
    refine (h.namedFile hst hpair hmeans hfine).bind
      fun ⟨path, root⟩ ⟨path', root'⟩ s₁ t₁ hrun _ ⟨hsame, hplain, name, hfile⟩ hst₁ => ?_
    cases hsame
    refine .bracket (hnodes hplain.nodes ?_ (hduring.inside (.file hmeans hrun)))
      fun s' t' hst' => ?_
    · exact ⟨hst₁.scopes, hst₁.macros, hst₁.args, hst₁.reportable₁, hst₁.reportable₂,
        h.enterFile hfile hst₁.footing path⟩
    · exact ⟨hst'.scopes, hst'.macros, hst'.args, hst'.reportable₁, hst'.reportable₂,
        h.leaveFile hfile hst₁.footing hst'.footing⟩
  | call => exact h.callMacro hnodes hst hpair hchildren hduring hmeans
  | invoke => exact h.callMacro hnodes hst hpair hchildren hduring hmeans
  | newElement | newAttribute => exact Parallel.fault (p := c.pairing) hst
  | ordinary =>
    have hattrs : ∀ a ∈ evaluatedAttrs e.attrs, c.text (s.context env₁) a.value :=
      fun a ha => htexts _ _ (.attr hmeans ha)
    show Parallel c.pairing c.Output s t (expandElement env₁ _ e >>= _)
      (expandElement env₂ _ e' >>= _)
    unfold expandElement
    rw [h.attrs hpair, bind_assoc, bind_assoc]
    refine (h.expandAttrs hst hattrs).bind fun attrs attrs' s₁ t₁ hrun _ hsame hst₁ => ?_
    cases hsame
    rw [bind_assoc, bind_assoc]
    refine (hnodes hchildren hst₁ (hduring.inside (.children hmeans hrun))).bind
      fun children children' s₂ t₂ _ _ ⟨hsame, hplain⟩ hst₂ => ?_
    cases hsame
    rw [h.tag hpair hmeans]
    refine Parallel.pure (p := c.pairing) ⟨rfl, ?_⟩ hst₂
    exact .element (h.output hpair hmeans attrs children) hplain .nil

end

end Simulation

end XmlMacros.Expansion
