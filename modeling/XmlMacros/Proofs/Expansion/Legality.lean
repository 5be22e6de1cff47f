import XmlMacros.Proofs.Expansion.Termination
import XmlMacros.Proofs.Markup.Legality
import XmlMacros.Proofs.Substitution.Characters

/-!
# Expansion keeps documents legal

A legal document expands to a legal one: tags and the names of attributes are those of elements that
were read, no element gets an attribute twice, and what texts evaluate to is made of characters that
documents may hold (`expandDocument_legal`).

What is written into the output need not come from the document at hand. It may stand in a property,
in the body of a macro or in a file, or be what a command gives; so the invariant is about the whole
state (`State.LegalOver`), and it is kept together with the legality of the nodes that a step gives
(`Maintains`). What comes from outside is assumed to be legal (`Environment.Legal`); files are not,
since what is read is legal whatever the text is.

Which characters texts are made of only matters where texts are evaluated. So all that is told of
expansion here holds of any characters that evaluation keeps to (`Environment.KeepsTexts`): of those
of documents, if what comes from outside is legal, and of all characters anyway.
-/

namespace XmlMacros

open XmlMacros.Markup

/-! ## Tables -/

/-- All values of a table have the property. -/
def Dict.All {α : Type} (P : α → Prop) (d : Dict α) : Prop :=
  ∀ name value, d.get? name = some value → P value

namespace Dict.All

variable {α : Type} {P : α → Prop} {d : Dict α}

theorem empty : (Dict.empty : Dict α).All P :=
  fun _ _ => nofun

/-- A value that is written keeps a table in order if it is in order itself. -/
theorem insert (h : d.All P) {name : String} {value : α} (hvalue : P value) :
    (d.insert name value).All P := by
  intro other found hget
  rw [Dict.get?_insert] at hget
  split at hget
  · cases hget
    exact hvalue
  · exact h other found hget

/-- And so do several of them in turn. -/
theorem foldl_insert (h : d.All P) {entries : List (String × α)}
    (hentries : ∀ entry ∈ entries, P entry.2) :
    (entries.foldl (fun d (key, value) => d.insert key value) d).All P := by
  induction entries generalizing d with
  | nil => exact h
  | cons entry rest ih =>
    obtain ⟨hentry, hrest⟩ := List.forall_mem_cons.1 hentries
    exact ih (h.insert hentry) hrest

/-- A table of such values is one. -/
theorem ofList {entries : List (String × α)} (h : ∀ entry ∈ entries, P entry.2) :
    (Dict.ofList entries).All P :=
  empty.foldl_insert h

/-- Every entry of a table is what its name stands for. -/
theorem of_mem (h : d.All P) : ∀ entry ∈ d.entries, P entry.2 := by
  rintro ⟨name, value⟩ hmem
  obtain ⟨l₁, l₂, hl⟩ := List.append_of_mem hmem
  refine h name value (List.lookup_eq_some_iff.2 ⟨l₁, l₂, hl, fun other hother => ?_⟩)
  have hnodup := d.nodup
  rw [hl, List.map_append, List.nodup_append] at hnodup
  exact bne_iff_ne.2 (hnodup.2.2 _ (List.mem_map_of_mem hother) _ List.mem_cons_self).symm

/-- Two such tables make one. -/
theorem update (h : d.All P) {other : Dict α} (hother : other.All P) : (d.update other).All P :=
  h.foldl_insert hother.of_mem

end Dict.All

/-! ## Legal states -/

/-- What a property holds may stand in a tree that is legal. -/
inductive Property.LegalOver (p : Char → Prop) : Property → Prop
  | text {s : String} (h : TextOver p s) : LegalOver p (.text s)
  | block {nodes : List Node} (h : ∀ n ∈ nodes, n.LegalOver p) : LegalOver p (.block nodes)

/-- What a macro puts into a document is legal: its body, and the defaults of its parameters. -/
structure Macro.LegalOver (p : Char → Prop) (m : Macro) : Prop where
  body : ∀ n ∈ m.body, n.LegalOver p
  params : m.params.All fun param => ∀ text, param.fallback = some text → TextOver p text

/-- What a command that a run brings along gives may stand in documents where its arguments may. -/
def Command.Legal (command : Command) : Prop :=
  ∀ call, command = .custom call → ∀ arguments result, (∀ a ∈ arguments, IsDocumentText a) →
    call arguments = .ok result → IsDocumentText result

/-- What the surroundings of a run hold may stand in documents. -/
structure Surroundings.Legal (surroundings : Surroundings) : Prop where
  envVars : surroundings.envVars.All IsDocumentText
  packages : surroundings.packages.All IsDocumentText
  directory : IsDocumentText surroundings.directory

namespace Expansion

/-- What comes from outside may stand in documents. -/
structure Environment.Legal (env : Environment) : Prop where
  commands : env.commands.All Command.Legal
  surroundings : env.surroundings.Legal

/-- Whatever a state holds that texts and directives can refer to may stand in a legal tree. -/
structure State.LegalOver (p : Char → Prop) (s : State) : Prop where
  scopes : ∀ t ∈ s.scopes.tables, t.All (Property.LegalOver p)
  macros : s.macros.All (Macro.LegalOver p)
  args : s.args.All (TextOver p)
  files : ∀ path, some path ∈ s.files → TextOver p path
  filename : ∀ path, s.filename = some path → TextOver p path
  workingPath : ∀ path, s.workingPath = .ok path → TextOver p path
  preloaded : s.preloaded.All fun file => file.root.node.LegalOver p

/-- In legal states texts over some characters evaluate to texts over them. All that documents may
hold are among them. -/
structure Environment.KeepsTexts (env : Environment) (p : Char → Prop) : Prop where
  document : ∀ c, isDocumentChar c → p c
  evaluates : ∀ {s : State}, s.LegalOver p → ∀ {text : String}, TextOver p text →
    Returns (TextOver p) (Substitution.evalText (s.context env) text)

/-- Texts evaluate to texts. -/
theorem Environment.keepsTexts_any (env : Environment) : env.KeepsTexts fun _ => True :=
  ⟨fun _ _ => trivial, fun _ _ _ _ _ _ _ _ _ => trivial⟩

section
variable {p : Char → Prop} (hp : ∀ c, isDocumentChar c → p c)

include hp

/-- Truth values are written in letters. -/
theorem initialTable_legal : Scopes.initialTable.All (Property.LegalOver p) := by
  have htext (s : String) (hs : IsDocumentText s) : TextOver p s := TextOver.mono hp hs
  refine Dict.All.ofList fun entry hentry => ?_
  obtain rfl | hentry := List.mem_cons.1 hentry
  · exact .text (htext _ (by decide))
  · obtain rfl := List.mem_singleton.1 hentry
    exact .text (htext _ (by decide))

/-- The place that relative names start from is a directory of the path, made of its characters and
those of directories. -/
theorem textOver_base {path : String} (h : TextOver p path) :
    TextOver p (IncludePath.base path) := by
  intro c hc
  obtain rfl | rfl | hc := IncludePath.mem_base hc
  · exact hp _ rfl
  · exact hp _ rfl
  · exact h c hc

end

end Expansion

/-! ## Legal elements -/

namespace Markup

variable {p : Char → Prop}

/-- The children of a legal element are legal. -/
theorem Element.legal_children {e : Element} (h : e.node.LegalOver p) :
    ∀ n ∈ e.children, n.LegalOver p := by
  cases h with | element _ _ _ hchildren => exact hchildren

/-- So are its attributes. -/
theorem Element.legal_attrs {e : Element} (h : e.node.LegalOver p) :
    ∀ a ∈ e.attrs, a.LegalOver p := by
  cases h with | element _ hattrs _ _ => exact hattrs

/-- And their values are made of the characters of the element. -/
theorem Element.textOver_attr? {e : Element} (h : e.node.LegalOver p) {name value : String}
    (hvalue : e.attr? name = some value) : TextOver p value := by
  obtain ⟨a, ha, rfl⟩ := Option.map_eq_some_iff.1 hvalue
  exact (e.legal_attrs h a (List.mem_of_find?_eq_some ha)).value

/-- An element is as legal as the node that it is. -/
theorem Node.LegalOver.of_element? {n : Node} {e : Element} (h : n.LegalOver p)
    (he : n.element? = some e) :
    e.node.LegalOver p := by
  cases n with
  | element =>
    cases he
    exact h
  | text | cdata | comment | instruction => cases he

open Expansion in
/-- Elements inside of legal nodes are legal, however deep, by recursion on the nodes. -/
theorem legal_of_mem_elementsIn {nodes : List Node} (h : ∀ n ∈ nodes, n.LegalOver p) :
    ∀ e ∈ elementsIn nodes, e.node.LegalOver p := by
  induction nodes using nodes_induction with
  | nil => nofun
  | element e rest ihchildren ihrest =>
    obtain ⟨he, hrest⟩ := List.forall_mem_cons.1 h
    exact forall_elementsIn_cons.2 ⟨he, ihchildren (e.legal_children he), ihrest hrest⟩
  | leaf n rest hleaf ih =>
    rw [elementsIn_leaf hleaf]
    exact ih (List.forall_mem_cons.1 h).2

open Expansion in
/-- What is left of legal nodes where some are taken out is legal. -/
theorem legal_stripNodes {isMatch : Element → Bool} {nodes : List Node}
    (h : ∀ n ∈ nodes, n.LegalOver p) :
    ∀ n ∈ stripNodes isMatch nodes, n.LegalOver p := by
  induction nodes using nodes_induction with
  | nil => exact List.forall_mem_nil _
  | element e rest ihchildren ihrest =>
    obtain ⟨he, hrest⟩ := List.forall_mem_cons.1 h
    refine List.forall_mem_append.2 ⟨?_, ihrest hrest⟩
    unfold Element.node stripNode
    split
    · exact List.forall_mem_nil _
    · cases he with | element htag hattrs hdistinct hchildren =>
      exact List.forall_mem_singleton.2 (.element htag hattrs hdistinct (ihchildren hchildren))
  | leaf n rest hleaf ih =>
    obtain ⟨hn, hrest⟩ := List.forall_mem_cons.1 h
    refine List.forall_mem_append.2 ⟨?_, ih hrest⟩
    cases n with
    | element => cases hleaf
    | text | cdata | comment | instruction => exact List.forall_mem_singleton.2 hn

/-- An element without some of its attributes is legal. -/
theorem Element.legal_filter {e : Element} (h : e.node.LegalOver p) (keeps : Attr → Bool) :
    ({ e with attrs := e.attrs.filter keeps } : Element).node.LegalOver p := by
  cases h with | element htag hattrs hnames hchildren =>
  exact .element htag (fun a ha => hattrs a (List.mem_of_mem_filter ha))
    (hnames.sublist (List.filter_sublist.map _)) hchildren

end Markup

namespace Expansion

variable {p : Char → Prop}

/-! ## What texts can see -/

section
variable {s s' : State}

/-- Reports change nothing that comes to stand in a document. -/
theorem State.LegalOver.quiet (hquiet : Quiet s s') (hs : s.LegalOver p) : s'.LegalOver p := by
  obtain ⟨_, rfl⟩ := hquiet
  exact ⟨hs.scopes, hs.macros, hs.args, hs.files, hs.filename, hs.workingPath, hs.preloaded⟩

/-- What is looked up in a legal state is legal. -/
theorem State.LegalOver.lookup? (hs : s.LegalOver p) {name : String} {value : Property}
    (h : s.scopes.lookup? name = some value) : value.LegalOver p := by
  obtain ⟨t, ht, hget⟩ := Scopes.exists_of_lookup? h
  exact hs.scopes t ht name value hget

end

section
variable {env : Environment} (henv : env.Legal) {s : State} (hs : s.LegalOver (isDocumentChar ·))

/-- Words with blanks between them may stand in a document if each of the words may. -/
theorem isDocumentText_spaced {words : List String} (h : ∀ word ∈ words, IsDocumentText word) :
    IsDocumentText (" ".intercalate words) := by
  intro c hc
  rw [String.toList_intercalate] at hc
  obtain hc | ⟨_, hmem, hc⟩ := Text.mem_intercalate hc
  · cases List.mem_singleton.1 hc
    rfl
  · obtain ⟨word, hword, rfl⟩ := List.mem_map.1 hmem
    exact h word hword c hc

include henv hs

/-- What commands give is legal where what they can see is. -/
theorem isDocumentText_of_call {command : Command} {arguments : List String} {name result : String}
    (hfound : env.commands.get? name = some command)
    (harguments : ∀ a ∈ arguments, IsDocumentText a)
    (h : command.call (s.context env).view arguments = .ok result) : IsDocumentText result := by
  unfold Command.call at h
  split at h
  case h_1 =>
    split at h
    · next hget =>
      cases h
      exact henv.surroundings.envVars _ _ hget
    · cases h
  case h_4 key rest =>
    cases h
    cases hget : env.surroundings.envVars.get? key with
    | none =>
      show IsDocumentText ((env.surroundings.envVars.get? key).getD _)
      rw [hget]
      exact isDocumentText_spaced (List.forall_mem_cons.1 harguments).2
    | some value =>
      show IsDocumentText ((env.surroundings.envVars.get? key).getD _)
      rw [hget]
      exact henv.surroundings.envVars key value hget
  case h_5 =>
    split at h
    · next filename hfilename =>
      split at h
      · cases h
      · cases h
        intro c hc
        obtain rfl | rfl | hc | hc := Text.mem_absolutePath hc
        · rfl
        · rfl
        · exact henv.surroundings.directory c hc
        · exact hs.filename filename hfilename c (Text.mem_directoryOf hc)
    · cases h
  case h_7 =>
    split at h
    · next hget =>
      cases h
      exact hs.args _ _ hget
    · cases h
  case h_9 =>
    split at h
    · next hget =>
      cases h
      exact henv.surroundings.packages _ _ hget
    · cases h
  case h_11 =>
    cases h
    exact henv.surroundings.directory
  case h_12 call => exact henv.commands name _ hfound call rfl arguments result harguments h
  all_goals cases h

/-- A text that is evaluated in a legal state sees legal properties and results of commands. -/
theorem State.LegalOver.context : (s.context env).Legal where
  text hlookup := by
    cases hs.lookup? hlookup with | text h => exact h
  command hfound harguments hcall := isDocumentText_of_call henv hs hfound harguments hcall

end

/-- Where what comes from outside is legal, characters of documents are kept to. -/
theorem Environment.Legal.keepsTexts {env : Environment} (henv : env.Legal) :
    env.KeepsTexts (isDocumentChar ·) :=
  ⟨fun _ h => h, fun hs _ htext =>
    Substitution.evalText_isDocumentText (hs.context henv) htext⟩

/-- What a text evaluates to is made of the characters that texts are made of. -/
theorem textOver_valueIn {env : Environment} {p : Char → Prop} (henv : env.KeepsTexts p) {s : State}
    (hs : s.LegalOver p) {text : String} (htext : TextOver p text) :
    TextOver p (valueIn (s.context env) text) := by
  unfold valueIn
  split
  · exact htext
  · split
    · next value hrun => exact henv.evaluates hs htext _ value _ (Prod.ext hrun rfl)
    · exact htext

/-! ## Single steps -/

section
variable {α : Type} {P : α → Prop} {x : M α}

/-- What only reports keeps states legal. -/
theorem legal_of_quiet (hx : Keeps Quiet x)
    (hP : ∀ s a s', s.LegalOver p → x s = (.ok a, s') → P a) : Maintains (State.LegalOver p) P x :=
  .of_keeps hx State.LegalOver.quiet hP

/-- So a step that only reports keeps a state legal. -/
theorem quiet_legal (hx : Keeps Quiet x) : Maintains (State.LegalOver p) (fun _ => True) x :=
  legal_of_quiet hx fun _ _ _ _ _ => trivial

/-- What goes on elsewhere keeps states legal if the ways there and back do. -/
theorem bracket_legal {enter : State → State} {leave : State → State → State}
    (hx : Maintains (State.LegalOver p) P x) (henter : ∀ s, s.LegalOver p → (enter s).LegalOver p)
    (hleave : ∀ s s', s.LegalOver p → s'.LegalOver p → (leave s s').LegalOver p) :
    Maintains (State.LegalOver p) P (bracket enter leave x) := by
  intro s r s' hs hrun
  rw [bracket_apply] at hrun
  obtain ⟨hafter, hr⟩ := hx (enter s) _ _ (henter s hs) rfl
  cases hrun
  exact ⟨hleave s _ hs hafter, hr⟩

end

/-- Where a fault is reported nothing comes to stand in the document. -/
theorem reportFault_legal {P : List Node → Prop} {x : M (List Node)} (hnil : P [])
    (hx : Maintains (State.LegalOver p) P x) : Maintains (State.LegalOver p) P (reportFault x) := by
  refine hx.tryCatch fun abort => ?_
  cases abort with
  | fault f => exact (quiet_legal (warn_quiet _)).bind fun _ _ => .pure hnil
  | unreadable | overflow | mismatch => exact .throw _

section
variable {e : Element} (he : e.node.LegalOver p)

include he

/-- An attribute that is required has a value over the characters of its element. -/
theorem requireAttr_legal (name : String) :
    Maintains (State.LegalOver p) (TextOver p) (requireAttr e name) :=
  legal_of_quiet (requireAttr_quiet e name) fun _ _ _ _ hrun =>
    e.textOver_attr? he (attr?_of_requireAttr hrun)

/-- A property is given by an attribute or by children, which are copied. -/
theorem givenProperty_legal (depth : Nat) :
    Maintains (State.LegalOver p) (Property.LegalOver p) (givenProperty depth e) := by
  unfold givenProperty
  split
  · next text hgiven =>
    refine .pure (.text ?_)
    obtain h | ⟨-, h⟩ := Option.or_eq_some_iff.1 hgiven
    · exact e.textOver_attr? he h
    · exact e.textOver_attr? he h
  · refine (legal_of_quiet (P := (· = e.children)) (capture_keeps _ _) ?_).map fun body hbody => ?_
    · exact fun _ _ _ _ hrun => capture_ok hrun
    · exact .block (hbody ▸ e.legal_children he)

end

section
variable {env : Environment} (henv : env.KeepsTexts p)

include henv

/-- A text over characters that the run keeps to evaluates to such a text. -/
theorem evalText_legal {text : String} (htext : TextOver p text) :
    Maintains (State.LegalOver p) (TextOver p) (evalText env text) := by
  unfold evalText
  split
  · exact .pure htext
  · refine .get_bind fun s hs => (quiet_legal (logUses_quiet _ _)).bind fun _ _ => ?_
    split
    · next value hrun =>
      refine .pure ?_
      exact henv.evaluates hs htext _ value _ (Prod.ext hrun rfl)
    · exact (quiet_legal (warn_quiet _)).bind fun _ _ => .pure htext

/-! ## Nodes that stand for themselves -/

/-- So does that of a node without children. -/
theorem expandLeaf_legal {n : Node} (hn : n.LegalOver p) :
    Maintains (State.LegalOver p) (Node.LegalOver p) (expandLeaf env n) := by
  cases hn with
  | text h => exact (evalText_legal henv h).map fun _ => .text
  | cdata h => exact (evalText_legal henv h).map fun _ => .cdata
  | comment h => exact (evalText_legal henv h).map fun _ => .comment
  | element htag hattrs hnames hchildren =>
    exact .pure (.element htag hattrs hnames hchildren)
  | instruction h => exact .pure (.instruction h)

/-- And that of a comment outside of the root. -/
theorem evalMisc_legal {m : Misc} (hm : m.node.LegalOver p) :
    Maintains (State.LegalOver p) (fun m => m.node.LegalOver p) (evalMisc env m) := by
  cases m with
  | comment data =>
    cases hm with | comment h => exact (evalText_legal henv h).map fun _ => .comment
  | instruction target data => exact .pure hm

/-- Comments and instructions outside of the root are evaluated in turn. -/
theorem expandMisc_legal {ms : List Misc} (hms : ∀ m ∈ ms, m.node.LegalOver p) :
    Maintains (State.LegalOver p) (fun ms => ∀ m ∈ ms, m.node.LegalOver p) (expandMisc env ms) := by
  induction ms with
  | nil => exact .pure nofun
  | cons m rest ih =>
    obtain ⟨hm, hrest⟩ := List.forall_mem_cons.1 hms
    exact (evalMisc_legal henv hm).bind fun first hfirst => (ih hrest).bind fun tail htail =>
      .pure (List.forall_mem_cons.2 ⟨hfirst, htail⟩)

/-- Attributes keep their names. -/
theorem expandAttrs_legal {attrs : List Attr} (hattrs : ∀ a ∈ attrs, a.LegalOver p) :
    Maintains (State.LegalOver p)
      (fun attrs' => (∀ a ∈ attrs', a.LegalOver p) ∧ attrs'.map Attr.name = attrs.map Attr.name)
      (expandAttrs env attrs) := by
  induction attrs with
  | nil => exact .pure ⟨nofun, rfl⟩
  | cons a rest ih =>
    obtain ⟨ha, hrest⟩ := List.forall_mem_cons.1 hattrs
    have hfirst : Maintains (State.LegalOver p) (fun a' => a'.LegalOver p ∧ a'.name = a.name)
        (expandAttr env a) := by
      unfold expandAttr
      split
      · exact .throw _
      · exact (evalText_legal henv ha.value).bind fun value hvalue =>
          .pure ⟨⟨ha.name, hvalue, nofun⟩, rfl⟩
    refine hfirst.bind fun a' ⟨ha', hname⟩ => (ih hrest).bind fun rest' ⟨hrest', hnames⟩ => ?_
    refine .pure ⟨List.forall_mem_cons.2 ⟨ha', hrest'⟩, ?_⟩
    rw [List.map_cons, List.map_cons, hname, hnames]

end

/-- Nodes in a row expand to legal ones if each of them does. -/
theorem expandNodes_legal {expand : Expand} {nodes : List Node}
    (h : ∀ n ∈ nodes,
      Maintains (State.LegalOver p) (fun out => ∀ n ∈ out, n.LegalOver p) (expand n)) :
    Maintains (State.LegalOver p) (fun out => ∀ n ∈ out, n.LegalOver p)
      (expandNodes expand nodes) := by
  induction nodes with
  | nil => exact .pure nofun
  | cons n rest ih =>
    obtain ⟨hn, hrest⟩ := List.forall_mem_cons.1 h
    exact hn.bind fun first hfirst => (ih hrest).bind fun tail htail =>
      .pure (List.forall_mem_append.2 ⟨hfirst, htail⟩)

/-! ## Definitions -/

/-- Whatever legal value is written in whichever scope, the state stays legal. -/
theorem define_legal (name : String) {value : Property} (hvalue : value.LegalOver p)
    (placement : Placement) :
    Maintains (State.LegalOver p) (fun _ => True) (define name value placement) := by
  refine .get_bind fun s hs => Maintains.bind (.modify fun s hs => ?_) fun _ _ =>
    quiet_legal (logProperty_quiet _ _ _ _)
  exact { hs with
    scopes := Scopes.forall_tables_define (fun t ht => ht.insert hvalue) hs.scopes placement }

/-- A macro holds nodes of the document, the defaults that are written in its parameters, and files
that were legal before. -/
theorem definedMacro_legal {e : Element} (he : e.node.LegalOver p) (name : String)
    {body : List Node}
    (hbody : ∀ n ∈ body, n.LegalOver p) (files : FileStack) (old : Option Macro) :
    (definedMacro name e body files old).LegalOver p where
  body := hbody
  params := by
    have htext : TextOver p ((e.attr? "params").getD "") := by
      cases hparams : e.attr? "params" with
      | none => nofun
      | some text => exact e.textOver_attr? he hparams
    refine Dict.All.ofList fun entry hentry fallback hfallback c hc => ?_
    obtain ⟨spec, hspec, rfl⟩ := List.mem_map.1 hentry
    exact htext c (Param.mem_of_mem_fallback hspec hfallback hc)

/-- To define a macro is to put it into the registry. -/
theorem defineMacro_legal {e : Element} (he : e.node.LegalOver p) (depth : Nat) :
    Maintains (State.LegalOver p) (fun out => ∀ n ∈ out, n.LegalOver p) (defineMacro depth e) := by
  refine (quiet_legal ((requireAttr_quiet e "name").map stripTag)).bind fun name _ => ?_
  refine (quiet_legal (warnExtraAttrs_quiet _ _)).bind fun _ _ => ?_
  refine (quiet_legal (warnKeyword_quiet name)).bind fun _ _ => ?_
  refine (legal_of_quiet (P := (· = e.children)) (capture_keeps _ _) ?_).bind fun body hbody => ?_
  · exact fun _ _ _ _ hrun => capture_ok hrun
  · refine Maintains.bind (.modify fun s hs => ?_) fun _ _ => .pure nofun
    have hm := definedMacro_legal he name (hbody ▸ e.legal_children he) s.files (s.macros.get? name)
    exact { hs with macros := hs.macros.insert hm }

section
variable {env : Environment} (henv : env.KeepsTexts p) {e : Element} (he : e.node.LegalOver p)

include henv

/-- A property is written as it is given or evaluated. -/
theorem writtenProperty_legal {value : Property} (hvalue : value.LegalOver p)
    (placement : Placement) :
    Maintains (State.LegalOver p) (Property.LegalOver p) (writtenProperty env value placement) := by
  cases hvalue with
  | block h => cases placement <;> exact .pure (.block h)
  | text h =>
    cases placement with
    | current => exact .pure (.text h)
    | parent | global => exact (evalText_legal henv h).map fun _ => .text

include he

/-- To define a property is to write a value that is legal. -/
theorem defineProperty_legal (depth : Nat) :
    Maintains (State.LegalOver p) (fun out => ∀ n ∈ out, n.LegalOver p)
      (defineProperty env depth e) := by
  refine (quiet_legal (requireAttr_quiet _ _)).bind fun name _ => ?_
  refine (quiet_legal (warnExtraAttrs_quiet _ _)).bind fun _ _ => ?_
  refine (quiet_legal (warnUnreferable_quiet name)).bind fun _ _ => ?_
  refine (givenProperty_legal he depth).bind fun given hgiven => ?_
  refine (quiet_legal (placementFor_quiet name _)).bind fun placement _ => ?_
  refine (writtenProperty_legal henv hgiven placement).bind fun value hvalue => ?_
  exact (define_legal name hvalue placement).bind fun _ _ => .pure nofun

/-- The value of an argument is its evaluated default, if it has none yet. -/
theorem defineArg_legal :
    Maintains (State.LegalOver p) (fun out => ∀ n ∈ out, n.LegalOver p) (defineArg env e) := by
  refine (quiet_legal (requireAttr_quiet _ _)).bind fun name _ => ?_
  refine (requireAttr_legal he "default").bind fun fallback hfallback => ?_
  refine (quiet_legal (warnExtraAttrs_quiet _ _)).bind fun _ _ => ?_
  refine Maintains.bind (Q := fun _ => True) (.get_bind fun s hs => ?_) fun _ _ => .pure nofun
  split
  · exact .pure trivial
  · refine (evalText_legal henv hfallback).bind fun value hvalue => .modify fun s hs => ?_
    exact { hs with args := hs.args.insert hvalue }

/-! ## Blocks and conditions -/

omit henv he in
/-- A block that is inserted was legal when it was bound. -/
theorem namedBlock_legal (e : Element) :
    Maintains (State.LegalOver p) (fun nodes => ∀ n ∈ nodes, n.LegalOver p) (namedBlock e) := by
  refine legal_of_quiet (namedBlock_quiet e) fun s nodes s' hs hrun => ?_
  obtain ⟨name, hlookup⟩ := namedBlock_ok hrun
  cases hs.lookup? hlookup with | block h => exact h

omit henv in
/-- Children that are kept by a condition are those of its directive. -/
theorem keptChildren_legal (wanted : Bool) :
    Maintains (State.LegalOver p) (fun nodes => ∀ n ∈ nodes, n.LegalOver p)
      (keptChildren env wanted e) := by
  refine legal_of_quiet (keptChildren_quiet env wanted e) fun s nodes s' hs hrun => ?_
  obtain rfl | rfl := keptChildren_ok hrun
  · exact e.legal_children he
  · nofun

end

/-! ## Files -/

/-- A path is joined from the name of a file and the directory that includes start from. -/
theorem includePath_legal {filename : String} (hfilename : TextOver p filename)
    {workingPath : Except Mismatch String}
    (hpath : ∀ path, workingPath = .ok path → TextOver p path) :
    Maintains (State.LegalOver p) (TextOver p) (includePath filename workingPath) := by
  unfold includePath
  split
  · exact .pure hfilename
  · cases workingPath with
    | error m => exact .throw _
    | ok path =>
      refine .pure ?_
      unfold IncludePath.resolve
      split
      · exact hfilename
      · exact TextOver.append (hpath path rfl) hfilename

theorem fetch_legal (env : Environment) (path : String) :
    Maintains (State.LegalOver p) (fun _ => True) (fetch env path) :=
  Maintains.bind (.modify fun _ hs => { hs with }) fun _ _ => .pure trivial

theorem recordInclude_legal (path : String) :
    Maintains (State.LegalOver p) (fun _ => True) (recordInclude path) :=
  .modify fun _ hs => { hs with }

/-- The root of a document that is read is legal, whatever the text is. -/
theorem parseRoot_legal (hp : ∀ c, isDocumentChar c → p c) (text : String) :
    Maintains (State.LegalOver p) (fun root => root.node.LegalOver p) (parseRoot text) := by
  unfold parseRoot
  split
  · next d hread =>
    refine .pure (Node.LegalOver.mono hp (legal_of_read hread _ ?_))
    exact List.mem_append_right _ List.mem_cons_self
  · exact .throw _

/-- The root of a file is legal, be it read now or taken in before. -/
theorem fileRoot_legal (hp : ∀ c, isDocumentChar c → p c) (env : Environment) (path : String) :
    Maintains (State.LegalOver p) (fun root => root.node.LegalOver p) (fileRoot env path) := by
  refine .get_bind fun s hs => ?_
  split
  · exact .throw _
  · next record _ hrecord => exact .pure (hs.preloaded path record hrecord)
  · refine (fetch_legal env path).bind fun text _ => ?_
    split
    · exact .throw _
    · exact (recordInclude_legal path).bind fun _ _ => parseRoot_legal hp _

/-- A file that is entered adds its path, and the directory that it lies in. -/
theorem State.LegalOver.pushFile {path : String} (hpath : TextOver p path) {s : State}
    (hs : s.LegalOver p) : (pushFile path s).LegalOver p :=
  { hs with
    files := fun path' h => by
      obtain h | h := List.mem_cons.1 h
      · cases h
        exact hpath
      · exact hs.files path' h
    filename := by
      rintro _ ⟨⟩
      exact hpath }

/-- The file on top of the stack is the current one again. -/
theorem State.LegalOver.restoreFiles {s s' : State} (hs : s.LegalOver p) (hs' : s'.LegalOver p) :
    (restoreFiles s.files s').LegalOver p :=
  { hs' with
    files := hs.files
    filename := fun path h =>
      hs.files path (List.mem_of_mem_head? (Option.join_eq_some_iff.1 h)) }

/-- What is expanded inside of a file is legal as it is outside of it. -/
theorem insideFile_legal (hp : ∀ c, isDocumentChar c → p c) {P : List Node → Prop} {path : String}
    (hpath : TextOver p path)
    {x : M (List Node)} (hx : Maintains (State.LegalOver p) P x) :
    Maintains (State.LegalOver p) P (insideFile path x) := by
  refine bracket_legal hx (fun s hs => ?_) fun s s' hs hs' => ?_
  · refine { hs.pushFile hpath with workingPath := ?_ }
    rintro _ ⟨⟩
    exact textOver_base hp hpath
  · exact { hs.restoreFiles hs' with workingPath := hs.workingPath }

/-- The same goes for definitions that are gathered from a file. -/
theorem withFile_legal {path : String} (hpath : TextOver p path) {P : Unit → Prop} {x : M Unit}
    (hx : Maintains (State.LegalOver p) P x) : Maintains (State.LegalOver p) P (withFile path x) :=
  bracket_legal hx (fun _ hs => hs.pushFile hpath) fun _ _ hs hs' => hs.restoreFiles hs'

section
variable {env : Environment} (henv : env.KeepsTexts p) {e : Element} (he : e.node.LegalOver p)

include henv he

/-- A directive that names a file leads to a legal path and a legal root. -/
theorem namedFile_legal :
    Maintains (State.LegalOver p) (fun file => TextOver p file.1 ∧ file.2.node.LegalOver p)
      (namedFile env e) := by
  refine (requireAttr_legal he "filename").bind fun filename hfilename => ?_
  refine (quiet_legal (warnExtraAttrs_quiet _ _)).bind fun _ _ => ?_
  refine (quiet_legal (warnNameSpace_quiet _)).bind fun _ _ => ?_
  refine (evalText_legal henv hfilename).bind fun filename hfilename => ?_
  refine .get_bind fun s hs => ?_
  refine (includePath_legal hfilename hs.workingPath).bind fun path hpath => ?_
  exact (fileRoot_legal henv.document env path).bind fun root hroot => .pure ⟨hpath, hroot⟩

end

/-! ## Calls -/

/-- The arguments of a call are values of attributes. -/
theorem argumentsOf_legal {attrs : List Attr} (h : ∀ a ∈ attrs, a.LegalOver p) :
    (argumentsOf attrs).All (TextOver p) := by
  refine Dict.All.ofList fun entry hentry => ?_
  obtain ⟨a, ha, rfl⟩ := List.mem_map.1 hentry
  exact (h a (List.mem_of_mem_filter ha)).value

/-- A call finds a macro that was legal when it was defined, and legal arguments. -/
theorem callee_legal (env : Environment) {e : Element} (he : e.node.LegalOver p) (naming : Naming) :
    Maintains (State.LegalOver p) (fun call => call.1.LegalOver p ∧ call.2.All (TextOver p))
      (callee env e naming) := by
  refine legal_of_quiet (callee_quiet env e naming) fun s ⟨m, arguments⟩ s' hs hrun => ?_
  obtain ⟨name, hfound⟩ := callee_registered hrun
  refine ⟨hs.macros name m hfound, ?_⟩
  have hattrs := e.legal_attrs he
  cases naming with
  | byTag =>
    obtain ⟨_, _, -, hrun⟩ := bind_ok hrun
    cases hrun
    exact argumentsOf_legal hattrs
  | byAttr =>
    obtain ⟨_, _, -, hrun⟩ := bind_ok hrun
    obtain ⟨_, _, -, hrun⟩ := bind_ok hrun
    obtain ⟨_, _, -, hrun⟩ := bind_ok hrun
    cases hrun
    exact argumentsOf_legal fun a ha => hattrs a (List.mem_of_mem_filter ha)

/-- The body of a call is expanded with a table of its own, which has to be legal. -/
theorem insideCall_legal {P : List Node → Prop} (m : Macro) {table : Table}
    (htable : table.All (Property.LegalOver p)) {x : M (List Node)}
    (hx : Maintains (State.LegalOver p) P x) :
    Maintains (State.LegalOver p) P (insideCall m table x) := by
  refine bracket_legal hx (fun s hs => ?_) fun s s' hs hs' => ?_
  · exact { hs with scopes := List.forall_mem_cons.2 ⟨htable, hs.scopes⟩ }
  · exact { hs' with
      scopes := fun t ht => hs'.scopes t (Scopes.tables_pop_subset _ ht)
      macros := hs.macros }

section
variable {env : Environment} (henv : env.KeepsTexts p)

include henv

/-- The scope of a macro's body holds what the scope of the caller does, and what the parameters are
bound to: arguments, expanded children of the call, properties and defaults. -/
theorem bindCall_legal {m : Macro} (hm : m.LegalOver p) {arguments : Dict String}
    (harguments : arguments.All (TextOver p)) {children : List Node}
    (hchildren : ∀ n ∈ children, n.LegalOver p) :
    Maintains (State.LegalOver p) (fun table => table.All (Property.LegalOver p))
      (bindCall env m arguments children) := by
  refine legal_of_quiet (bindCall_quiet env m arguments children) fun s table s' hs hrun => ?_
  obtain ⟨claimed, left, hclaims, hbinds⟩ := bindCall_binds env m arguments children s
  rw [hrun] at hbinds
  cases hbinds with | bound hvalues hafter hreported =>
  have hpool : ∀ e ∈ children.filterMap Node.element?, e.node.LegalOver p := by
    intro e he
    obtain ⟨n, hn, he⟩ := List.mem_filterMap.1 he
    exact (hchildren n hn).of_element? he
  obtain ⟨hclaimed, hleft⟩ := hclaims.subset
  intro name value hget
  rw [hafter name] at hget
  split at hget
  · next param hparam =>
    cases value with
    | block nodes =>
      obtain ⟨e, he, rfl⟩ | ⟨p, hp, rfl⟩ | hlookup := Call.value?_eq_block hget
      · exact .block (List.forall_mem_singleton.2 (hpool e (hleft he)))
      · exact .block (p.2.legal_children (hpool p.2 (hclaimed p hp)))
      · exact hs.lookup? hlookup
    | text text =>
      obtain ⟨source, rfl, hsource⟩ := Call.value?_eq_text hget
      refine .text (textOver_valueIn henv hs ?_)
      obtain hargument | hlookup | hfallback := hsource
      · exact harguments name source hargument
      · cases hs.lookup? hlookup with | text h => exact h
      · exact hm.params name param hparam source hfallback
  · exact hs.scopes _ List.mem_cons_self name value hget

/-! ## Nodes -/

variable {expand : Expand}
  (hexpand : ∀ n, n.LegalOver p →
    Maintains (State.LegalOver p) (fun out => ∀ n ∈ out, n.LegalOver p) (expand n))

include hexpand

/-- A call is legal all along: its children, the parameters that are bound and its body. -/
theorem callMacro_legal {e : Element} (he : e.node.LegalOver p) (naming : Naming) :
    Maintains (State.LegalOver p) (fun out => ∀ n ∈ out, n.LegalOver p)
      (callMacro env expand naming e) := by
  refine (callee_legal env he naming).bind fun ⟨m, arguments⟩ ⟨hm, harguments⟩ => ?_
  refine (expandNodes_legal fun n hn => hexpand n (e.legal_children he n hn)).bind ?_
  intro children hchildren
  refine (bindCall_legal henv hm harguments hchildren).bind fun table htable => ?_
  exact insideCall_legal m htable (expandNodes_legal fun n hn => hexpand n (hm.body n hn))

/-- An element keeps its tag and the names of its attributes. -/
theorem expandElement_legal {e : Element} (he : e.node.LegalOver p) :
    Maintains (State.LegalOver p) (fun e' => e'.node.LegalOver p) (expandElement env expand e) := by
  cases he with | element htag hattrs hnames hchildren =>
  refine (expandAttrs_legal henv hattrs).bind fun attrs ⟨hattrs, hkept⟩ => ?_
  refine (expandNodes_legal fun n hn => hexpand n (hchildren n hn)).bind fun children hchildren => ?_
  exact .pure (.element htag hattrs (hkept ▸ hnames) hchildren)

/-- One case for each directive. -/
theorem perform_legal (depth : Nat) {e : Element} (he : e.node.LegalOver p) (d : Directive) :
    Maintains (State.LegalOver p) (fun out => ∀ n ∈ out, n.LegalOver p)
      (perform env depth expand e d) := by
  have hnodes (nodes : List Node) (h : ∀ n ∈ nodes, n.LegalOver p) :
      Maintains (State.LegalOver p) (fun out => ∀ n ∈ out, n.LegalOver p)
        (expandNodes expand nodes) :=
    expandNodes_legal fun n hn => hexpand n (h n hn)
  cases d with
  | property => exact defineProperty_legal henv he depth
  | defineMacro => exact defineMacro_legal he depth
  | arg => exact defineArg_legal henv he
  | insertBlock => exact (namedBlock_legal e).bind hnodes
  | whenTrue | whenFalse => exact (keptChildren_legal he _).bind hnodes
  | includeFile =>
    exact (namedFile_legal henv he).bind fun ⟨path, root⟩ ⟨hpath, hroot⟩ =>
      insideFile_legal henv.document hpath (hnodes root.children (root.legal_children hroot))
  | call | invoke => exact callMacro_legal henv hexpand he _
  | newElement | newAttribute => exact .throw _
  | ordinary =>
    exact (expandElement_legal henv hexpand he).bind fun e' he' =>
      .pure (List.forall_mem_singleton.2 he')

omit hexpand

/-- Legal nodes expand to legal nodes, in whatever legal state. -/
theorem expandNode_legal (depth : Nat) {n : Node} (hn : n.LegalOver p) :
    Maintains (State.LegalOver p) (fun out => ∀ n ∈ out, n.LegalOver p)
      (expandNode env depth n) := by
  induction depth generalizing n with
  | zero => exact .throw _
  | succ depth ih =>
    cases n with
    | element tag attrs children =>
      let e : Element := ⟨tag, attrs, children⟩
      have he : e.node.LegalOver p := hn
      refine .get_bind fun s hs => reportFault_legal nofun ?_
      exact perform_legal henv (fun n hn => ih hn) depth he _
    | text | cdata | comment | instruction =>
      exact (expandLeaf_legal henv hn).bind fun n' hn' => .pure (List.forall_mem_singleton.2 hn')

/-! ## Gathering definitions -/

/-- Directives that are performed one after the other keep a state legal. -/
theorem performAll_legal (depth : Nat) {es : List Element} (hes : ∀ e ∈ es, e.node.LegalOver p) :
    Maintains (State.LegalOver p) (fun _ => True) (performAll env depth es) := by
  induction es with
  | nil => exact .pure trivial
  | cons e rest ih =>
    obtain ⟨he, hrest⟩ := List.forall_mem_cons.1 hes
    exact (expandNode_legal henv depth he).bind fun _ _ => ih hrest

omit henv in
/-- What is found in a legal root is legal. -/
theorem legal_of_mem_findElements {root e : Element} (hroot : root.node.LegalOver p)
    {isMatch prune : Element → Bool} (he : e ∈ root.findElements isMatch prune) :
    e.node.LegalOver p :=
  legal_of_mem_elementsIn (root.legal_children hroot) e
    (findIn_subset_elementsIn isMatch prune root.children he)

/-- To gather definitions is to perform directives of a legal root. -/
theorem grabDefinitions_legal (depth : Nat) {root : Element} (hroot : root.node.LegalOver p) :
    Maintains (State.LegalOver p) (fun _ => True) (grabDefinitions env depth root) := by
  refine .get_bind fun s _ => (performAll_legal henv depth fun e he => ?_).bind fun _ _ => ?_
  · exact legal_of_mem_findElements hroot he
  · exact .get_bind fun s _ => performAll_legal henv depth fun e he =>
      legal_of_mem_findElements hroot he

omit henv in
/-- What is left of the root is legal. -/
theorem stripDefinitions_legal {root : Element} (hroot : root.node.LegalOver p) :
    Maintains (State.LegalOver p) (fun root => root.node.LegalOver p)
      (stripDefinitions env root) := by
  refine .get_bind fun s _ => .pure ?_
  cases hroot with | element htag hattrs hnames hchildren =>
  exact .element htag hattrs hnames (legal_stripNodes hchildren)

/-- Each path is joined from an evaluated name, in turn. -/
theorem includePaths_legal {workingPath : Except Mismatch String}
    (hpath : ∀ path, workingPath = .ok path → TextOver p path) {es : List Element}
    (hes : ∀ e ∈ es, e.node.LegalOver p) {paths : List String}
    (hpaths : ∀ path ∈ paths, TextOver p path) :
    Maintains (State.LegalOver p) (fun paths => ∀ path ∈ paths, TextOver p path)
      (includePaths env workingPath es paths) := by
  induction es generalizing paths with
  | nil => exact .pure hpaths
  | cons e rest ih =>
    obtain ⟨he, hrest⟩ := List.forall_mem_cons.1 hes
    unfold includePaths
    split
    · exact ih hrest hpaths
    · next filename hfilename =>
      refine (evalText_legal henv (e.textOver_attr? he hfilename)).bind ?_
      intro filename hfilename
      refine (includePath_legal hfilename hpath).bind fun path hpath => .get_bind fun s _ => ?_
      split
      · exact ih hrest hpaths
      · refine ih hrest (List.forall_mem_append.2 ⟨hpaths, List.forall_mem_singleton.2 hpath⟩)

omit henv in
/-- The files that are fetched are those that were asked for. -/
theorem fetchAll_legal {paths : List String} (hpaths : ∀ path ∈ paths, TextOver p path) :
    Maintains (State.LegalOver p) (fun files => ∀ file ∈ files, TextOver p file.1)
      (fetchAll env paths) := by
  induction paths with
  | nil => exact .pure nofun
  | cons path rest ih =>
    obtain ⟨hpath, hrest⟩ := List.forall_mem_cons.1 hpaths
    exact (fetch_legal env path).bind fun _ _ => (ih hrest).bind fun _ hfiles =>
      .pure (List.forall_mem_cons.2 ⟨hpath, hfiles⟩)

/-- Files are taken in one after the other, each with the files that it includes. -/
theorem takeFiles_legal (depth : Nat) (workingPath : Except Mismatch String)
    {nested : Element → Except Mismatch String → M Unit}
    (hnested : ∀ root, root.node.LegalOver p → ∀ path, TextOver p path →
      Maintains (State.LegalOver p) (fun _ => True) (nested root (.ok path)))
    {files : List (String × Except FetchFailure String)}
    (hfiles : ∀ file ∈ files, TextOver p file.1) :
    Maintains (State.LegalOver p) (fun _ => True)
      (takeFiles env depth workingPath nested files) := by
  induction files with
  | nil => exact .pure trivial
  | cons file rest ih =>
    obtain ⟨hpath, hrest⟩ := List.forall_mem_cons.1 hfiles
    obtain ⟨path, failure | text⟩ := file
    · exact Maintains.bind (.modify fun _ hs => { hs with }) fun _ _ => ih hrest
    · refine (recordInclude_legal path).bind fun _ _ => ?_
      refine (withFile_legal hpath (P := fun _ => True) ?_).bind fun _ _ => ih hrest
      refine (parseRoot_legal henv.document text).bind fun root hroot => ?_
      refine (grabDefinitions_legal henv depth hroot).bind fun _ _ => ?_
      refine (stripDefinitions_legal hroot).bind fun root hroot => ?_
      refine Maintains.bind (.modify fun s hs => ?_) fun _ _ =>
        hnested root hroot _ (textOver_base henv.document hpath)
      exact { hs with preloaded := hs.preloaded.insert hroot }

/-- By induction on how deep files may include each other. -/
theorem collectIncludes_legal (depth levels : Nat) {root : Element} (hroot : root.node.LegalOver p)
    {workingPath : Except Mismatch String}
    (hpath : ∀ path, workingPath = .ok path → TextOver p path) :
    Maintains (State.LegalOver p) (fun _ => True)
      (collectIncludes env depth levels root workingPath) := by
  induction levels generalizing root workingPath with
  | zero => exact .throw _
  | succ levels ih =>
    refine .get_bind fun s _ => ?_
    refine (includePaths_legal henv hpath (fun e he => legal_of_mem_findElements hroot he)
      (List.forall_mem_nil _)).bind fun paths hpaths => ?_
    refine (fetchAll_legal hpaths).bind fun files hfiles => ?_
    refine takeFiles_legal henv depth workingPath (fun root hroot path hpath => ?_) hfiles
    refine ih hroot ?_
    rintro _ ⟨⟩
    exact hpath

/-- So what is gathered from is a legal root, and what is gathered is legal. -/
theorem gather_legal (depth : Nat) {root : Element} (hroot : root.node.LegalOver p) :
    Maintains (State.LegalOver p) (fun root => root.node.LegalOver p) (gather env depth root) := by
  have hdisable : Maintains (State.LegalOver p) (fun _ => True) disableLocalProperties := by
    refine .get_bind fun s _ => ?_
    split
    · exact (quiet_legal (warn_quiet _)).bind fun _ _ => .modify fun _ hs => { hs with }
    · exact .pure trivial
  refine hdisable.bind fun _ _ => (grabDefinitions_legal henv depth hroot).bind fun _ _ => ?_
  refine (stripDefinitions_legal hroot).bind fun root hroot => .get_bind fun s hs => ?_
  exact (collectIncludes_legal henv depth depth hroot hs.workingPath).bind fun _ _ => .pure hroot

/-! ## Documents -/

/-- The parts of a document expand to legal parts. -/
theorem expandParts_legal (depth : Nat) {d : Document} (hd : d.LegalOver p) :
    Maintains (State.LegalOver p) (Document.LegalOver p) (expandParts env depth d) := by
  obtain ⟨hbefore, hroot, hafter⟩ := Document.forall_nodes_iff.1 hd
  refine (expandMisc_legal henv hbefore).bind fun before hbefore => ?_
  refine (expandElement_legal henv (fun n hn => expandNode_legal henv depth hn) hroot).bind ?_
  intro root hroot
  refine (expandMisc_legal henv hafter).bind fun after hafter => .pure ?_
  exact Document.forall_nodes_iff.2 ⟨hbefore, root.legal_filter hroot _, hafter⟩

/-- A legal document expands to a legal one. -/
theorem expandDocument_legal (depth : Nat) (inOrder : Bool) {d : Document} (hd : d.LegalOver p) :
    Maintains (State.LegalOver p) (Document.LegalOver p) (expandDocument env depth inOrder d) := by
  obtain ⟨hbefore, hroot, hafter⟩ := Document.forall_nodes_iff.1 hd
  have hprepared : Maintains (State.LegalOver p) (fun root => root.node.LegalOver p)
      (preparedRoot env depth inOrder d.root) := by
    cases inOrder with
    | true => exact .pure hroot
    | false => exact gather_legal henv depth hroot
  have hparts : Maintains (State.LegalOver p) (Document.LegalOver p) (do
      let root ← preparedRoot env depth inOrder d.root
      expandParts env depth { d with root := root }) :=
    hprepared.bind fun root hroot =>
      expandParts_legal henv depth (Document.forall_nodes_iff.2 ⟨hbefore, hroot, hafter⟩)
  unfold expandDocument isolated
  refine bracket_legal hparts (fun s hs => ?_) fun s s' hs hs' => ?_
  · exact { hs with
      scopes := List.forall_mem_singleton.2 (initialTable_legal henv.document)
      macros := .empty }
  · exact { hs' with scopes := hs.scopes, macros := hs.macros }

end

end Expansion

end XmlMacros
