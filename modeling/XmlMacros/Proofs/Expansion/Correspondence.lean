import XmlMacros.Proofs.Expansion.Faultless
import XmlMacros.Proofs.Expansion.Simulation

/-!
# Corresponding nodes and documents

Under a simulation, corresponding nodes are expanded in parallel (`Simulation.expandNodes`). The
proof is by induction on how deeply directives may be nested in the first expansion: elements go on
with nodes one level deeper (`Simulation.expandNode`), and where an element includes a file whose
nodes stand in its place, the nodes of the file are one level deeper in the first expansion only
(`Simulation.expandNode_splice`). Documents with corresponding roots and equal surroundings then
expand to the same document (`Simulation.expandDocument`).
-/

namespace XmlMacros.Expansion

open XmlMacros.Markup

/-- Nodes one after the other are expanded one after the other. -/
theorem expandNodes_append (expand : Expand) (ns ms : List Node) :
    expandNodes expand (ns ++ ms) = do
      let out ← expandNodes expand ns
      return out ++ (← expandNodes expand ms) := by
  induction ns with
  | nil =>
    unfold expandNodes
    simp only [List.nil_append, pure_bind, bind_pure]
  | cons n rest ih =>
    rw [List.cons_append, expandNodes, expandNodes, ih]
    simp only [bind_assoc, pure_bind, List.append_assoc]

/-! ## Files in the place of which their nodes may stand -/

/-- A file was loaded, and nothing else happened but reports. -/
def Loaded (path : String) (s s' : State) : Prop :=
  ∃ text, s' =
    { s with
      console := ⟨s.console.verbosity, text⟩
      includes := s.includes ++ [path]
      requested := s.requested ++ [path] }

section
variable {env : Environment} {e : Element} {path : String} {content : List Node} {s : State}

/-- A file that can be fetched and read is loaded, and is recorded and asked for once more. -/
theorem loadInclude_of_served {text : String} {d : Document} (hfetch : env.fetch path = .ok text)
    (hread : Markup.read text = .ok d) (s : State) :
    loadInclude env path s = (.ok d.root,
      { s with includes := s.includes ++ [path], requested := s.requested ++ [path] }) := by
  have hfetched : fetch env path s =
      (.ok (.ok text), { s with requested := s.requested ++ [path] }) := by
    unfold fetch
    rw [hfetch]
    rfl
  have hparsed : parseRoot text = pure d.root := by
    unfold parseRoot
    rw [hread]
  unfold loadInclude
  rw [bind_of_ok hfetched]
  dsimp only
  rw [hparsed]
  rfl

/-- A file of which nothing is known is loaded. -/
theorem fileRoot_of_unknown (hfailed : s.failed.get? path = none)
    (hpreloaded : s.preloaded.get? path = none) :
    fileRoot env path s = loadInclude env path s := by
  unfold fileRoot
  rw [get_bind_apply, hfailed, hpreloaded]

variable (h : FileAt env e path content)

include h

theorem FileAt.namedFile (hs : Reportable s) (hfailed : s.failed.get? path = none)
    (hpreloaded : s.preloaded.get? path = none) :
    ∃ root s', root.children = content ∧ Loaded path s s' ∧
      namedFile env e s = (.ok (path, root), s') := by
  obtain ⟨text, d, hfetch, hread, hcontent⟩ := h.served
  obtain ⟨s₁, hextra, hs₁⟩ := warnExtraAttrs_reporting e ["filename", "ns"] s hs
  obtain ⟨s₂, hns, hs₂⟩ := warnNameSpace_reporting (e.attr? "ns") s₁ (hs₁.reportable hs)
  obtain ⟨console, hreported⟩ : Reported s s₂ := IsTrans.trans _ _ _ hs₁ hs₂
  have hname : Expansion.requireAttr e "filename" = pure path := by
    unfold Expansion.requireAttr Element.requireAttr
    rw [h.named]
    rfl
  have hload : fileRoot env path s₂ = _ :=
    (fileRoot_of_unknown (by rwa [hreported]) (by rwa [hreported])).trans
      (loadInclude_of_served hfetch hread s₂)
  unfold Expansion.namedFile
  rw [hname, pure_bind, bind_of_ok hextra, bind_of_ok hns, evalText_of_not_mem h.literal, pure_bind,
    get_bind_apply, includePath, if_pos h.absolute, pure_bind, bind_of_ok hload]
  exact ⟨d.root, _, hcontent, ⟨console, by rw [hreported]⟩, rfl⟩

/-- Expanding the element is expanding the nodes of the file, where the file is not known yet. -/
theorem FileAt.expandNode (hs : Reportable s) (hfailed : s.failed.get? path = none)
    (hpreloaded : s.preloaded.get? path = none) :
    ∃ s', Loaded path s s' ∧ GoesOn env s e content (enterFile path s') ∧
      ∀ depth, Expansion.expandNode env (depth + 1) e.node s =
        insideFile path (expandNodes (Expansion.expandNode env depth) content) s' := by
  obtain ⟨root, s', rfl, hloaded, hrun⟩ := h.namedFile hs hfailed hpreloaded
  have hincludes : classify env s e = .includeFile ↔ meaning env e = .includeFile :=
    classify_eq_iff nofun nofun
  have hmeans := hincludes.2 h.means
  refine ⟨s', hloaded, .file hmeans hrun, fun depth => ?_⟩
  have hinside : Faultless (insideFile path
      (expandNodes (Expansion.expandNode env depth) root.children)) :=
    (expandNodes_faultless env depth _).bracket _ _
  have hperform : perform env depth (Expansion.expandNode env depth) e .includeFile s =
      insideFile path (expandNodes (Expansion.expandNode env depth) root.children) s' :=
    bind_of_ok hrun
  show reportFault (perform env depth _ e (classify env s e)) s = _
  rw [hmeans]
  conv => rhs; rw [← hinside.reportFault_eq]
  unfold reportFault
  rw [tryCatch_apply, tryCatch_apply, hperform]

end

/-! ## Expanding corresponding nodes -/

namespace Simulation

open Comparison

variable {c : Comparison} {env₁ env₂ : Environment}

/-- Corresponding elements are expanded in parallel, with directives nested to these depths. -/
def Elements (c : Comparison) (env₁ env₂ : Environment) (a b : Nat) : Prop :=
  ∀ {e e' : Element} {s t : State}, c.pair e e' → c.Nodes e.children e'.children → c.States s t →
    During env₁ (c.Fine env₁) a [e.node] s →
    Parallel c.pairing c.Output s t (Expansion.expandNode env₁ a e.node)
      (Expansion.expandNode env₂ b e'.node)

variable {s t : State} {a b : Nat} (h : Simulation c env₁ env₂)

include h

/-- A leaf is expanded alike in both runs. -/
theorem expandNode_leaf (hflat : c.flat a b) (hst : c.States s t) {n : Node}
    (hleaf : n.element? = none) (hduring : During env₁ (c.Fine env₁) a [n] s) :
    Parallel c.pairing c.Output s t (Expansion.expandNode env₁ a n)
      (Expansion.expandNode env₂ b n) := by
  cases a with
  | zero =>
    cases b with
    | zero => exact Parallel.abort (p := c.pairing) nofun
    | succ b => exact Pairing.Ends.overflow₁ (h.overflow_left hflat)
  | succ a =>
    cases b with
    | zero => exact Pairing.Ends.overflow₂ (h.overflow_right hflat)
    | succ b =>
      have hexpand : ∀ env depth, Expansion.expandNode env (depth + 1) n =
          (do return [← Expansion.expandLeaf env n]) := by
        intro env depth
        cases n with
        | element => cases hleaf
        | text | cdata | comment | instruction => rfl
      rw [hexpand, hexpand]
      refine (h.expandLeaf hst hleaf hduring.here.texts).bind fun m m' _ _ _ _ ⟨hm, hleaf'⟩ hst' => ?_
      rw [hm]
      exact Parallel.pure (p := c.pairing) ⟨rfl, .leaf hleaf' .nil⟩ hst'

/-- Nodes are expanded in parallel if their elements are, and if every splice is expanded in
parallel with the nodes for which it stands. -/
theorem expandNodes_of {splice : Element → List Node → Prop}
    (hsplice : ∀ {e content}, splice e content → c.splice e content) (hflat : c.flat a b)
    (helements : Elements c env₁ env₂ a b)
    (hspliced : ∀ {e content s t}, splice e content → c.States s t →
      During env₁ (c.Fine env₁) a [e.node] s →
      Parallel c.pairing c.Output s t (Expansion.expandNode env₁ a e.node)
        (Expansion.expandNodes (Expansion.expandNode env₂ b) content))
    {ns ns' : List Node} (hnodes : Corresponding c.pair splice ns ns') (hst : c.States s t)
    (hduring : During env₁ (c.Fine env₁) a ns s) :
    Parallel c.pairing c.Output s t (Expansion.expandNodes (Expansion.expandNode env₁ a) ns)
      (Expansion.expandNodes (Expansion.expandNode env₂ b) ns') := by
  induction hnodes generalizing s t with
  | nil => exact Parallel.pure (p := c.pairing) ⟨rfl, .nil⟩ hst
  | leaf hleaf _ ih =>
    refine (h.expandNode_leaf hflat hst hleaf hduring.head).bind
      fun out out' s₁ t₁ hrun _ hout hst₁ => ?_
    refine (ih hst₁ (hduring.later hrun)).bind fun more more' s₂ t₂ _ _ hmore hst₂ => ?_
    exact Parallel.pure (p := c.pairing) (hout.append hmore) hst₂
  | element hpair hchildren _ _ ih =>
    refine (helements hpair (hchildren.mono id hsplice) hst hduring.head).bind
      fun out out' s₁ t₁ hrun _ hout hst₁ => ?_
    refine (ih hst₁ (hduring.later hrun)).bind fun more more' s₂ t₂ _ _ hmore hst₂ => ?_
    exact Parallel.pure (p := c.pairing) (hout.append hmore) hst₂
  | splice hstands _ ih =>
    rw [expandNodes_append]
    refine (hspliced hstands hst hduring.head).bind fun out out' s₁ t₁ hrun _ hout hst₁ => ?_
    refine (ih hst₁ (hduring.later hrun)).bind fun more more' s₂ t₂ _ _ hmore hst₂ => ?_
    exact Parallel.pure (p := c.pairing) (hout.append hmore) hst₂

/-- An element that includes a file is expanded in parallel with the nodes of the file, which are
one level deeper in the first expansion. -/
theorem expandNode_splice {e : Element} {content : List Node} (hsplice : c.splice e content)
    (hdeep : c.deep a b) (hst : c.States s t)
    (hduring : During env₁ (c.Fine env₁) a [e.node] s)
    (hcontent : ∀ {k s t}, a = k + 1 → c.States s t → During env₁ (c.Fine env₁) k content s →
      Parallel c.pairing c.Output s t (Expansion.expandNodes (Expansion.expandNode env₁ k) content)
        (Expansion.expandNodes (Expansion.expandNode env₂ b) content)) :
    Parallel c.pairing c.Output s t (Expansion.expandNode env₁ a e.node)
      (Expansion.expandNodes (Expansion.expandNode env₂ b) content) := by
  cases a with
  | zero => exact Pairing.Ends.overflow₁ (h.overflow_splice hsplice hdeep)
  | succ k =>
    obtain ⟨path, hfile⟩ := h.spliced hsplice
    obtain ⟨hfailed, hpreloaded⟩ := h.splice_known hsplice hst.footing path
    obtain ⟨s', ⟨console, rfl⟩, hgoes, hexpand⟩ :=
      hfile.expandNode hst.reportable₁ hfailed hpreloaded
    unfold Parallel
    rw [hexpand]
    refine Parallel.bracket_left (hcontent rfl ?_ (hduring.inside hgoes)) fun s' t' hst' => ?_
    · exact ⟨hst.scopes, hst.macros, hst.args, hst.reportable₁, hst.reportable₂,
        h.splice_enter hsplice hst.footing path⟩
    · exact ⟨hst'.scopes, hst'.macros, hst'.args, hst'.reportable₁, hst'.reportable₂,
        h.splice_leave hsplice hst.footing hst'.footing⟩

/-- Elements that correspond are expanded alike if nodes are, one level deeper. -/
theorem expandNode_element (hflat : c.flat a b) (hst : c.States s t) {e e' : Element}
    (hpair : c.pair e e') (hchildren : c.Nodes e.children e'.children)
    (hduring : During env₁ (c.Fine env₁) a [e.node] s)
    (hnodes : ∀ {k l ns ns' s t}, a = k + 1 → c.deep k l → c.Nodes ns ns' → c.States s t →
      During env₁ (c.Fine env₁) k ns s →
      Parallel c.pairing c.Output s t (Expansion.expandNodes (Expansion.expandNode env₁ k) ns)
        (Expansion.expandNodes (Expansion.expandNode env₂ l) ns')) :
    Parallel c.pairing c.Output s t (Expansion.expandNode env₁ a e.node)
      (Expansion.expandNode env₂ b e'.node) := by
  cases a with
  | zero =>
    cases b with
    | zero => exact Parallel.abort (p := c.pairing) nofun
    | succ b => exact Pairing.Ends.overflow₁ (h.overflow_left hflat)
  | succ k =>
    cases b with
    | zero => exact Pairing.Ends.overflow₂ (h.overflow_right hflat)
    | succ l =>
      have hdeep := h.deep_of_flat hflat
      refine .get_bind ?_
      dsimp only
      show Parallel c.pairing c.Output s t
        (Expansion.reportFault (Expansion.perform env₁ k _ e (Expansion.classify env₁ s e)))
        (Expansion.reportFault (Expansion.perform env₂ l _ e' (Expansion.classify env₂ t e')))
      rw [h.classify_eq hst hpair]
      exact States.reportFault (h.perform hdeep (hnodes rfl hdeep) hst hpair hchildren hduring)

/-- Corresponding nodes are expanded in parallel if elements are at their depth and one level
below. -/
theorem expandNodes_of_elements (hdeep : c.deep a b)
    (helements : ∀ {b}, c.flat a b → Elements c env₁ env₂ a b)
    (hbelow : ∀ {k b}, a = k + 1 → c.flat k b → Elements c env₁ env₂ k b) {ns ns' : List Node}
    (hnodes : c.Nodes ns ns') (hst : c.States s t) (hduring : During env₁ (c.Fine env₁) a ns s) :
    Parallel c.pairing c.Output s t (Expansion.expandNodes (Expansion.expandNode env₁ a) ns)
      (Expansion.expandNodes (Expansion.expandNode env₂ b) ns') := by
  have hflat := h.flat_of_deep hdeep
  refine h.expandNodes_of id hflat (helements hflat) (fun hsplice hst hduring => ?_) hnodes hst
    hduring
  refine h.expandNode_splice hsplice hdeep hst hduring fun ha hst' hduring' => ?_
  have hflat' := h.flat_of_splice hsplice (ha ▸ hdeep)
  have hplain : Corresponding c.pair (fun _ _ => False) _ _ := h.splice_content hsplice
  exact h.expandNodes_of False.elim hflat' (hbelow ha hflat') (fun hfalse => hfalse.elim) hplain
    hst' hduring'

/-- Corresponding elements are expanded in parallel. -/
theorem expandNode (hflat : c.flat a b) : Elements c env₁ env₂ a b := by
  -- Nodes below an element are one level deeper, and those of a file in the place of which they
  -- stand are one more level deeper, but only in the first expansion.
  induction a using Nat.strongRecOn generalizing b with
  | _ a ih =>
    intro e e' s t hpair hchildren hst hduring
    refine h.expandNode_element hflat hst hpair hchildren hduring
      fun ha hdeep hnodes hst' hduring' => ?_
    exact h.expandNodes_of_elements hdeep (ih _ (by omega)) (fun hk => ih _ (by omega)) hnodes hst'
      hduring'

/-- Corresponding nodes are expanded in parallel. -/
theorem expandNodes (hdeep : c.deep a b) {ns ns' : List Node} (hnodes : c.Nodes ns ns')
    (hst : c.States s t) (hduring : During env₁ (c.Fine env₁) a ns s) :
    Parallel c.pairing c.Output s t (Expansion.expandNodes (Expansion.expandNode env₁ a) ns)
      (Expansion.expandNodes (Expansion.expandNode env₂ b) ns') :=
  h.expandNodes_of_elements hdeep h.expandNode (fun _ => h.expandNode) hnodes hst hduring

/-! ## Expanding corresponding documents -/

/-- What stands beside the root is expanded alike, for its comments are texts that both runs
evaluate alike. -/
theorem expandMisc (hst : c.States s t) {ms : List Misc}
    (htexts : ∀ text, .comment text ∈ ms → c.text (s.context env₁) text) :
    Parallel c.pairing (fun ms ms' => ms' = ms) s t (Expansion.expandMisc env₁ ms)
      (Expansion.expandMisc env₂ ms) := by
  induction ms generalizing s t with
  | nil => exact Parallel.pure (p := c.pairing) rfl hst
  | cons m rest ih =>
    have hrest {s' t' : State} (hs : Quiet s s') (hst' : c.States s' t') :=
      ih hst' fun text ht => hs.context env₁ ▸ htexts text (List.mem_cons_of_mem _ ht)
    have hgo (m : Misc) {s' t' : State} (hs : Quiet s s') (hst' : c.States s' t') :
        Parallel c.pairing (fun ms ms' => ms' = ms) s' t'
          (Expansion.expandMisc env₁ rest >>= fun rest => pure (m :: rest))
          (Expansion.expandMisc env₂ rest >>= fun rest => pure (m :: rest)) :=
      (hrest hs hst').bind fun out out' _ _ _ _ hout hst'' =>
        Parallel.pure (p := c.pairing) (congrArg (m :: ·) hout) hst''
    cases m with
    | instruction target data => exact hgo _ (Std.Refl.refl s) hst
    | comment data =>
      show Parallel c.pairing _ s t ((Misc.comment <$> evalText env₁ data) >>= _)
        ((Misc.comment <$> evalText env₂ data) >>= _)
      rw [← bind_pure_comp, ← bind_pure_comp, bind_assoc, bind_assoc]
      refine h.bind_evalText hst (htexts data List.mem_cons_self) fun s' t' _ hs hst' => ?_
      exact hgo _ hs.quiet hst'

/-- The parts of documents that are the same up to corresponding nodes in the root expand to the
same. -/
theorem expandParts (hdeep : c.deep a b) {d d' : Document} (hst : c.States s t)
    (hbefore : d'.before = d.before) (htag : d'.root.tag = d.root.tag)
    (hattrs : d'.root.attrs = d.root.attrs)
    (hnodes : c.Nodes d.root.children d'.root.children) (hafter : d'.after = d.after)
    (hfine : ∀ text, .comment text ∈ d.before → c.text (s.context env₁) text)
    (hfineRoot : ∀ before s₁, Expansion.expandMisc env₁ d.before s = (.ok before, s₁) →
      (∀ x ∈ evaluatedAttrs d.root.attrs, c.text (s₁.context env₁) x.value) ∧
        ∀ attrs s₂, Expansion.expandAttrs env₁ d.root.attrs s₁ = (.ok attrs, s₂) →
          During env₁ (c.Fine env₁) a d.root.children s₂)
    (hfineAfter : ∀ before s₁ root s₂, Expansion.expandMisc env₁ d.before s = (.ok before, s₁) →
      expandElement env₁ (Expansion.expandNode env₁ a) d.root s₁ = (.ok root, s₂) →
      ∀ text, .comment text ∈ d.after → c.text (s₂.context env₁) text) :
    Parallel c.pairing (fun out out' => out' = out) s t (Expansion.expandParts env₁ a d)
      (Expansion.expandParts env₂ b d') := by
  unfold Expansion.expandParts
  rw [hbefore, hafter]
  refine (h.expandMisc hst hfine).bind fun before before' s₁ t₁ hrun₁ _ hsame hst₁ => ?_
  cases hsame
  obtain ⟨hfineAttrs, hfineNodes⟩ := hfineRoot before s₁ hrun₁
  have hroot : Parallel c.pairing (fun e e' => e' = e) s₁ t₁
      (expandElement env₁ (Expansion.expandNode env₁ a) d.root)
      (expandElement env₂ (Expansion.expandNode env₂ b) d'.root) := by
    unfold expandElement
    rw [hattrs, htag]
    refine (h.expandAttrs hst₁ hfineAttrs).bind fun attrs attrs' s₂ t₂ hrun₂ _ hsame hst₂ => ?_
    cases hsame
    refine (h.expandNodes hdeep hnodes hst₂ (hfineNodes attrs s₂ hrun₂)).bind
      fun out out' s₃ t₃ _ _ hout hst₃ => ?_
    exact Parallel.pure (p := c.pairing) (by rw [hout.1]) hst₃
  refine hroot.bind fun root root' s₂ t₂ hrun₂ _ hsame hst₂ => ?_
  cases hsame
  refine (h.expandMisc hst₂ (hfineAfter before s₁ root s₂ hrun₁ hrun₂)).bind
    fun after after' s₃ t₃ _ _ hsame hst₃ => ?_
  cases hsame
  exact Parallel.pure (p := c.pairing) rfl hst₃

/-- Documents that are the same up to corresponding nodes in the root expand to the
same document. -/
theorem expandDocument (hdeep : c.deep a b) {d d' : Document}
    (hst : c.States (opened s) (opened t)) (hbefore : d'.before = d.before)
    (htag : d'.root.tag = d.root.tag) (hattrs : d'.root.attrs = d.root.attrs)
    (hnodes : c.Nodes d.root.children d'.root.children) (hafter : d'.after = d.after)
    (htexts : ∀ text ctx, TextOfDocument env₁ a d s text ctx → c.text ctx text)
    (hfiles : ∀ k e e' u name, VisitsDocument env₁ a d s k e.node u → c.pair e e' →
      Expansion.classify env₁ u e = .includeFile → e.attr? "filename" = some name →
      c.file (valueIn (u.context env₁) name)) :
    c.pairing.Ends (fun out out' => out' = out) (Expansion.expandParts env₁ a d (opened s))
      (Expansion.expandParts env₂ b d' (opened t)) := by
  refine h.expandParts hdeep hst hbefore htag hattrs hnodes hafter
    (fun text ht => htexts _ _ (.before ht)) (fun before s₁ hrun₁ => ⟨fun x hx => ?_, ?_⟩)
    fun before s₁ root s₂ hrun₁ hrun₂ text ht => htexts _ _ (.after hrun₁ hrun₂ ht)
  · rw [((expandMisc_quiet env₁ _).of_run hrun₁).context]
    exact htexts _ _ (.attr hx)
  · refine fun attrs s₂ hrun₂ k n u hvisits => ⟨fun text ctx ht => ?_, ?_⟩
    · exact htexts _ _ (.node ⟨before, s₁, attrs, s₂, hrun₁, hrun₂, hvisits⟩ ht)
    · rintro e e' name rfl
      exact hfiles k e e' u name ⟨before, s₁, attrs, s₂, hrun₁, hrun₂, hvisits⟩

end Simulation

end XmlMacros.Expansion
