import XmlMacros.Proofs.Expansion.Isolation
import XmlMacros.Proofs.Expansion.Reporting

/-!
# What the parameters of a call are bound to

Said here without the passes of the binding: which elements of a call's content are claimed by name
(`Claims`), which text, block or property each parameter takes its value from (`Call.value?`), and
how the binding ends (`Call.Binds`): with the caller's scope in which exactly the parameters are
bound anew, or because some parameter has no value. A call does just that (`callMacro_binds`).

The binding looks at the parameters one after the other, and takes attributes and elements off what
is left of them. `bindParams_binds` follows it: what a parameter takes is told by the parameters,
arguments and elements that are left (`Call.at`), and stays the same when the first parameter is
done with (`Call.value?_erase`, `Call.value?_tail`, `Call.value?_same`).
-/

namespace XmlMacros

open XmlMacros.Markup

namespace Dict

variable {α : Type}

/-- Of the entries of a list that are written one after the other the last one counts. -/
theorem get?_ofList (entries : List (String × α)) (key : String) :
    (ofList entries).get? key = entries.reverse.lookup key := by
  have hfold : ∀ (entries : List (String × α)) (d : Dict α),
      (entries.foldl (fun d entry => d.insert entry.1 entry.2) d).get? key
        = (entries.reverse.lookup key).or (d.get? key) := by
    intro entries
    induction entries with
    | nil => exact fun d => rfl
    | cons entry rest ih =>
      intro d
      rw [List.foldl_cons, ih, get?_insert, List.reverse_cons, List.lookup_append, Option.or_assoc,
        lookup_cons_eq]
      split <;> rfl
  exact (hfold entries empty).trans (Option.or_none)

/-- An entry that is erased takes no other one with it. -/
theorem get?_erase {d : Dict α} {key other : String} (h : other ≠ key) :
    (d.erase key).get? other = d.get? other := by
  show (d.entries.filter (·.1 != key)).lookup other = d.entries.lookup other
  induction d.entries with
  | nil => rfl
  | cons entry rest ih =>
    obtain ⟨k, v⟩ := entry
    rw [List.filter_cons, lookup_cons_eq]
    by_cases hk : k = key
    · subst hk
      simp [h, ih]
    · simp [hk, lookup_cons_eq, ih]

end Dict

namespace Expansion

/-! ## Where values come from -/

/-- Each of the names claims the first element with its tag that no name before it claimed. What is
left are the other elements in their order. -/
inductive Claims : List String → List Element → List (String × Element) → List Element → Prop
  | nil {pool : List Element} : Claims [] pool [] pool
  | claim {name : String} {names : List String} {before after left : List Element} {e : Element}
    {claimed : List (String × Element)} (htag : e.tag = name)
    (hfirst : ∀ e' ∈ before, e'.tag ≠ name) (hrest : Claims names (before ++ after) claimed left) :
    Claims (name :: names) (before ++ e :: after) ((name, e) :: claimed) left
  | skip {name : String} {names : List String} {pool left : List Element}
    {claimed : List (String × Element)} (hnone : ∀ e ∈ pool, e.tag ≠ name)
    (hrest : Claims names pool claimed left) : Claims (name :: names) pool claimed left

/-- The names of the parameters of a kind that have no argument, in order of declaration. -/
def openNames (given : String → Bool) (kind : ParamKind) (params : List (String × Param)) :
    List String :=
  (params.filter fun p => p.2.kind == kind && !given p.1).map Prod.fst

/-- The text that an attribute of a call gives a parameter. Declarations of namespaces give none,
and neither does the attribute that names the macro. -/
def argument? (naming : Naming) (e : Element) (name : String) : Option String :=
  if "xmlns".toList.isPrefixOf name.toList || naming == .byAttr && name == "macro" then none
  else (e.attrs.reverse.find? (·.name == name)).map Attr.value

/-- What a parameter without an argument or a block is bound to, if there is something: the caller's
property of the same name if the parameter forwards it, or else its default. Texts are evaluated in
the scope of the caller. -/
def fallback? (ctx : Substitution.Context) (name : String) (param : Param) : Option Property :=
  match if param.forward then ctx.scopes.lookup? name else none with
  | some (.text text) => some (.text (valueIn ctx text))
  | some (.block nodes) => some (.block nodes)
  | none => param.fallback.map fun text => .text (valueIn ctx text)

/-- What the parameters of a call take their values from. -/
structure Call where
  /-- What the evaluation of texts in the scope of the caller can see. -/
  context : Substitution.Context
  /-- The texts that the attributes of the call give. -/
  argument? : String → Option String
  /-- The elements that are claimed by name. -/
  claimed : List (String × Element)
  /-- The names of the parameters for single elements that have no argument, in order. -/
  singles : List String
  /-- The elements that are not claimed, in order. -/
  left : List Element

/-- What a parameter is bound to, if there is something. The first parameter for a single element
takes the first element that is not claimed, the second one the second, and so on. -/
def Call.value? (c : Call) (name : String) (param : Param) : Option Property :=
  match c.argument? name, param.kind with
  | some text, _ => some (.text (valueIn c.context text))
  | none, .scalar => fallback? c.context name param
  | none, .block =>
    (c.left[c.singles.idxOf name]?.map fun e => .block [e.node]).or (fallback? c.context name param)
  | none, .multiBlock =>
    ((c.claimed.lookup name).map fun e => .block e.children).or (fallback? c.context name param)

/-- A block that a parameter falls back on is one that stands for its name in the caller's scope, as
it is for forwarded parameters. -/
theorem fallback?_eq_block {ctx : Substitution.Context} {name : String} {param : Param}
    {nodes : List Node} (h : fallback? ctx name param = some (.block nodes)) :
    ctx.scopes.lookup? name = some (.block nodes) := by
  unfold fallback? at h
  split at h
  · cases h
  · next forwarded hforwarded =>
    split at hforwarded
    · cases h
      exact hforwarded
    · cases hforwarded
  · obtain ⟨text, -, htext⟩ := Option.map_eq_some_iff.1 h
    cases htext

/-- The blocks that parameters are bound to are elements that were not claimed, the content of those
that were, and blocks in scope. -/
theorem Call.value?_eq_block {c : Call} {name : String} {param : Param} {nodes : List Node}
    (h : c.value? name param = some (.block nodes)) :
    (∃ e ∈ c.left, nodes = [e.node]) ∨ (∃ p ∈ c.claimed, nodes = p.2.children) ∨
      c.context.scopes.lookup? name = some (.block nodes) := by
  unfold value? at h
  split at h
  · cases h
  · exact .inr (.inr (fallback?_eq_block h))
  · rcases Option.or_eq_some_iff.1 h with h | ⟨-, h⟩
    · obtain ⟨e, he, heq⟩ := Option.map_eq_some_iff.1 h
      cases heq
      exact .inl ⟨e, List.mem_of_getElem? he, rfl⟩
    · exact .inr (.inr (fallback?_eq_block h))
  · rcases Option.or_eq_some_iff.1 h with h | ⟨-, h⟩
    · obtain ⟨e, he, heq⟩ := Option.map_eq_some_iff.1 h
      cases heq
      obtain ⟨l₁, l₂, hl, -⟩ := List.lookup_eq_some_iff.1 he
      exact .inr (.inl ⟨(name, e), hl ▸ List.mem_append_right _ List.mem_cons_self, rfl⟩)
    · exact .inr (.inr (fallback?_eq_block h))

/-- A text that a parameter falls back on is the value of the forwarded property or else of the
parameter's default. -/
theorem fallback?_eq_text {ctx : Substitution.Context} {name : String} {param : Param}
    {text : String} (h : fallback? ctx name param = some (.text text)) :
    ∃ source, valueIn ctx source = text ∧
      (ctx.scopes.lookup? name = some (.text source) ∨ param.fallback = some source) := by
  unfold fallback? at h
  split at h
  · next source hforwarded =>
    cases h
    split at hforwarded
    · exact ⟨source, rfl, .inl hforwarded⟩
    · cases hforwarded
  · cases h
  · obtain ⟨source, hsource, htext⟩ := Option.map_eq_some_iff.1 h
    cases htext
    exact ⟨source, rfl, .inr hsource⟩

/-- The texts that parameters are bound to are the values of arguments, of texts in scope and of
defaults. -/
theorem Call.value?_eq_text {c : Call} {name : String} {param : Param} {text : String}
    (h : c.value? name param = some (.text text)) :
    ∃ source, valueIn c.context source = text ∧
      (c.argument? name = some source ∨ c.context.scopes.lookup? name = some (.text source) ∨
        param.fallback = some source) := by
  have hfallback (h : fallback? c.context name param = some (.text text)) :
      ∃ source, valueIn c.context source = text ∧ (c.argument? name = some source ∨
        c.context.scopes.lookup? name = some (.text source) ∨ param.fallback = some source) := by
    obtain ⟨source, hsource, h⟩ := fallback?_eq_text h
    exact ⟨source, hsource, .inr h⟩
  unfold value? at h
  split at h
  · next source hargument =>
    cases h
    exact ⟨source, rfl, .inl hargument⟩
  · exact hfallback h
  · rcases Option.or_eq_some_iff.1 h with h | ⟨-, h⟩
    · obtain ⟨e, -, heq⟩ := Option.map_eq_some_iff.1 h
      cases heq
    · exact hfallback h
  · rcases Option.or_eq_some_iff.1 h with h | ⟨-, h⟩
    · obtain ⟨e, -, heq⟩ := Option.map_eq_some_iff.1 h
      cases heq
    · exact hfallback h

/-- The scope of a caller with parameters bound. -/
def Call.Rebinds (c : Call) (params : List (String × Param)) (before after : Table) : Prop :=
  ∀ name, after.get? name = match params.lookup name with
    | some param => c.value? name param
    | none => before.get? name

/-- How the binding of parameters ends: with the scope of the body, or early. -/
inductive Call.Binds (c : Call) (params : List (String × Param)) (before : Table) (s : State) :
    Except Abort Table × State → Prop
  /-- Every parameter is bound to its value. -/
  | bound {after : Table} {s' : State} (hvalues : ∀ p ∈ params, c.value? p.1 p.2 ≠ none)
    (hafter : c.Rebinds params before after) (hreported : Reported s s') :
    c.Binds params before s (.ok after, s')
  /-- Some parameter has no value. -/
  | missing {p : String × Param} {fault : Fault} {s' : State} (hp : p ∈ params)
    (hvalue : c.value? p.1 p.2 = none)
    (hfault : fault.cause = if p.2.forward then .undefinedForward p.1 else .missingParameter p.1)
    (hreported : Reported s s') : c.Binds params before s (.error (.fault fault), s')
  /-- Where the verbosity is not a number, nothing can be reported. -/
  | unreportable {mismatch : Mismatch} {s' : State} (hs : ¬ Reportable s)
    (hreported : Reported s s') :
    c.Binds params before s (.error (.mismatch mismatch), s')

/-! ## Claimed elements -/

/-- A child that is taken by its tag is the first one that has it, and the others stay in
their order. -/
theorem takeTagged?_eq_some {tag : String} {pool rest : List Element} {e : Element}
    (h : takeTagged? tag pool = some (e, rest)) : ∃ before after, pool = before ++ e :: after ∧
      rest = before ++ after ∧ e.tag = tag ∧ ∀ e' ∈ before, e'.tag ≠ tag := by
  induction pool generalizing rest with
  | nil => cases h
  | cons first pool ih =>
    unfold takeTagged? at h
    split at h
    · next htag =>
      cases h
      exact ⟨[], pool, rfl, rfl, eq_of_beq htag, nofun⟩
    · next htag =>
      obtain ⟨⟨found, left⟩, hfound, heq⟩ := Option.map_eq_some_iff.1 h
      cases heq
      obtain ⟨before, after, rfl, rfl, he, hbefore⟩ := ih hfound
      refine ⟨first :: before, after, rfl, rfl, he, List.forall_mem_cons.2 ⟨?_, hbefore⟩⟩
      exact fun hfirst => htag (beq_iff_eq.2 hfirst)

/-- No child is taken if none of them has the tag. -/
theorem takeTagged?_eq_none {tag : String} {pool : List Element}
    (h : takeTagged? tag pool = none) : ∀ e ∈ pool, e.tag ≠ tag := by
  induction pool with
  | nil => nofun
  | cons first pool ih =>
    unfold takeTagged? at h
    split at h
    · cases h
    · next htag =>
      refine List.forall_mem_cons.2 ⟨fun hfirst => htag (beq_iff_eq.2 hfirst), ih ?_⟩
      exact Option.map_eq_none_iff.1 h

/-- What is claimed and what is left was there. -/
theorem Claims.subset {names : List String} {pool left : List Element}
    {claimed : List (String × Element)} (h : Claims names pool claimed left) :
    (∀ p ∈ claimed, p.2 ∈ pool) ∧ left ⊆ pool := by
  induction h with
  | nil => exact ⟨nofun, List.Subset.refl _⟩
  | @claim name names before after left e claimed _ _ _ ih =>
    have hsubset : before ++ after ⊆ before ++ e :: after :=
      List.append_subset.2 ⟨List.subset_append_left _ _,
        List.subset_append_of_subset_right _ (List.subset_cons_self _ _)⟩
    refine ⟨List.forall_mem_cons.2 ⟨?_, fun p hp => hsubset (ih.1 p hp)⟩, List.Subset.trans ih.2
      hsubset⟩
    exact List.mem_append_right _ List.mem_cons_self
  | skip _ _ ih => exact ih

/-- A parameter's name is open if it is of the kind that is asked for and nothing is given
for it. -/
theorem openNames_cons (given : String → Bool) (kind : ParamKind) (name : String) (param : Param)
    (rest : List (String × Param)) : openNames given kind ((name, param) :: rest) =
      if param.kind == kind && !given name then name :: openNames given kind rest
      else openNames given kind rest := by
  unfold openNames
  rw [List.filter_cons]
  split <;> rfl

/-- The elements that parameters claim by name, and those that are left. -/
theorem claimBlocks_claims (given : String → Bool) (params : List (String × Param))
    (pool : List Element) : ∃ claimed,
      Claims (openNames given .multiBlock params) pool claimed (claimBlocks given params pool).2 ∧
      ∀ name, (claimBlocks given params pool).1.get? name
        = (claimed.lookup name).map Element.children := by
  induction params generalizing pool with
  | nil => exact ⟨[], .nil, fun _ => rfl⟩
  | cons entry rest ih =>
    obtain ⟨name, param⟩ := entry
    rw [openNames_cons]
    unfold claimBlocks
    split
    · cases htake : takeTagged? name pool with
      | none =>
        obtain ⟨claimed, hclaims, hget⟩ := ih pool
        exact ⟨claimed, .skip (takeTagged?_eq_none htake) hclaims, hget⟩
      | some found =>
        obtain ⟨e, left⟩ := found
        obtain ⟨before, after, rfl, rfl, htag, hbefore⟩ := takeTagged?_eq_some htake
        obtain ⟨claimed, hclaims, hget⟩ := ih (before ++ after)
        refine ⟨(name, e) :: claimed, .claim htag hbefore hclaims, fun other => ?_⟩
        rw [Dict.lookup_cons_eq]
        dsimp only
        rw [Dict.get?_insert, hget]
        split <;> rfl
    · exact ih pool

/-! ## Steps that cannot report -/

/-- In this state the computation changes nothing, and ends early at most because something cannot
be reported. -/
def MuteAt {α : Type} (s : State) (x : M α) : Prop :=
  (∃ a, x s = (.ok a, s)) ∨ ∃ m, x s = (.error (.mismatch m), s)

section
variable {s : State}

/-- A result that is there already leaves nothing to report. -/
theorem MuteAt.pure {α : Type} (a : α) : MuteAt s (Pure.pure a : M α) :=
  .inl ⟨a, rfl⟩

/-- A sequence of mute steps is mute: it goes on in the same state, or has ended. -/
theorem MuteAt.bind {α β : Type} {x : M α} {f : α → M β} (hx : MuteAt s x)
    (hf : ∀ a, MuteAt s (f a)) : MuteAt s (x >>= f) := by
  obtain ⟨a, hrun⟩ | ⟨m, hrun⟩ := hx
  · unfold MuteAt
    rw [bind_of_ok hrun]
    exact hf a
  · exact .inr ⟨m, bind_of_error hrun⟩

/-- Reading the state leaves what is done in it. -/
theorem MuteAt.get_bind {α : Type} {f : State → M α} (hf : MuteAt s (f s)) :
    MuteAt s (get >>= f) := by
  unfold MuteAt
  rw [get_bind_apply]
  exact hf

variable (hs : ¬ Reportable s)

include hs

/-- Where the verbosity is no number, even asking whether to report ends the expansion; only errors
are reported without asking. -/
theorem say_of_not_reportable {channel : Channel} (hchannel : channel ≠ .error)
    (message : String) : ∃ m, say channel message s = (.error (.mismatch m), s) := by
  unfold say Console.say
  rw [get_bind_apply]
  cases hverbosity : s.console.verbosity with
  | level x => exact absurd ⟨x, hverbosity⟩ hs
  | incomparable value =>
    cases channel with
    | error => exact absurd rfl hchannel
    | warning | debug => exact ⟨_, rfl⟩

/-- A warning cannot be given where the verbosity is no number, and nothing else can go wrong. -/
theorem warn_muteAt (message : String) : MuteAt s (warn message) := by
  obtain ⟨m, hrun⟩ := say_of_not_reportable hs (by decide : Channel.warning ≠ .error) message
  unfold warn
  exact .inr ⟨m, bind_of_error hrun⟩

theorem logProperty_of_not_reportable (action : String) (depth : Nat) (name : String)
    (value : Property) :
    ∃ m, logProperty action depth name value s = (.error (.mismatch m), s) :=
  say_of_not_reportable hs (by decide : Channel.debug ≠ .error) _

theorem logUses_muteAt (depth : Nat) (uses : List (String × Property)) :
    MuteAt s (logUses depth uses) := by
  cases uses with
  | nil => exact .pure ()
  | cons use rest =>
    obtain ⟨m, hrun⟩ := logProperty_of_not_reportable hs "use" depth use.1 use.2
    rw [logUses]
    exact .inr ⟨m, bind_of_error hrun⟩

theorem evalText_muteAt (env : Environment) (text : String) : MuteAt s (evalText env text) := by
  unfold evalText
  split
  · exact .pure text
  · refine .get_bind ((logUses_muteAt hs _ _).bind fun _ => ?_)
    split
    · exact .pure _
    · exact (warn_muteAt hs _).bind fun _ => .pure _

/-- A parameter that is bound is reported, so nothing is bound where nothing can be. -/
theorem bindParam_of_not_reportable (name : String) (value : Property) (table : Table) :
    ∃ m, bindParam name value table s = (.error (.mismatch m), s) := by
  obtain ⟨m, hrun⟩ := logProperty_of_not_reportable hs "set" (s.scopes.depth + 1) name value
  unfold bindParam
  rw [get_bind_apply]
  exact ⟨m, bind_of_error hrun⟩

theorem warnUnknownParams_muteAt (m : Macro) (names : List String) :
    MuteAt s (warnUnknownParams m names) := by
  induction names with
  | nil => exact .pure ()
  | cons name rest ih => exact (warn_muteAt hs _).bind fun _ => ih

end

/-! ## Defaults and forwarded properties -/

section
variable {s : State} {name : String} {param : Param}

/-- Where the verbosity is a number, the value that a parameter falls back on is found with a report
at most. -/
theorem fallbackValue_reportsAt (hs : Reportable s) (env : Environment) (m : Macro)
    {value : Property} (h : fallback? (s.context env) name param = some value) :
    ReportsAt s (fallbackValue env m name param) value := by
  have htext (text : String) : ReportsAt s (.text <$> evalText env text)
      (Property.text (valueIn (s.context env) text)) :=
    (evalText_reportsAt hs env text).bind fun s' _ => .pure s' _
  unfold fallbackValue
  refine .get_bind ?_
  unfold fallback? at h
  dsimp only [State.context] at h ⊢
  split at h
  · next text hforwarded =>
    cases h
    rw [hforwarded]
    exact htext text
  · next nodes hforwarded =>
    cases h
    rw [hforwarded]
    exact .pure s _
  · next hforwarded =>
    obtain ⟨text, hdefault, rfl⟩ := Option.map_eq_some_iff.1 h
    rw [hforwarded, hdefault]
    exact htext text

/-- Where the verbosity is no number, finding the value that a parameter falls back on changes
nothing. -/
theorem fallbackValue_muteAt (hs : ¬ Reportable s) (env : Environment) (m : Macro)
    {value : Property} (h : fallback? (s.context env) name param = some value) :
    MuteAt s (fallbackValue env m name param) := by
  have htext (text : String) : MuteAt s (Property.text <$> evalText env text) :=
    (evalText_muteAt hs env text).bind fun _ => .pure _
  unfold fallbackValue
  refine .get_bind ?_
  unfold fallback? at h
  dsimp only [State.context] at h ⊢
  split at h
  · next text hforwarded =>
    rw [hforwarded]
    exact htext text
  · next nodes hforwarded =>
    rw [hforwarded]
    exact .pure _
  · next hforwarded =>
    obtain ⟨text, hdefault, -⟩ := Option.map_eq_some_iff.1 h
    rw [hforwarded, hdefault]
    exact htext text

/-- A parameter that has neither a default nor a property to forward. -/
theorem fallback?_eq_none {ctx : Substitution.Context} (h : fallback? ctx name param = none) :
    (if param.forward then ctx.scopes.lookup? name else none) = none ∧ param.fallback = none := by
  unfold fallback? at h
  split at h
  · cases h
  · cases h
  · next hforwarded => exact ⟨hforwarded, Option.map_eq_none_iff.1 h⟩

/-- A parameter that has nothing to fall back on is a fault, which names the parameter and
the macro. -/
theorem fallbackValue_of_none (env : Environment) (m : Macro)
    (h : fallback? (s.context env) name param = none) :
    fallbackValue env m name param s =
      (.error (.fault { cause := .undefinedForward name, macros := [m.name] }), s) := by
  obtain ⟨hforwarded, hdefault⟩ := fallback?_eq_none h
  unfold fallbackValue
  rw [get_bind_apply]
  dsimp only [State.context] at hforwarded ⊢
  rw [hforwarded, hdefault]
  rfl

end

/-! ## One parameter after the other -/

/-- Which names are open depends only on what is given for the parameters that are listed. -/
theorem openNames_congr {given given' : String → Bool} {kind : ParamKind}
    {params : List (String × Param)} (h : ∀ p ∈ params, given' p.1 = given p.1) :
    openNames given' kind params = openNames given kind params := by
  unfold openNames
  rw [List.filter_congr fun p hp => by rw [h p hp]]

/-- What a call gives its parameters when these parameters, arguments and elements are left. -/
def Call.at (ctx : Substitution.Context) (claimed : List (String × Element))
    (params : List (String × Param)) (attrs : Dict String) (pool : List Element) : Call where
  context := ctx
  argument? := attrs.get?
  claimed := claimed
  singles := openNames attrs.contains .block params
  left := pool

section
variable {c c' : Call} {name : String} {param : Param}

/-- The value of a parameter depends only on what the call says of this parameter. -/
theorem Call.value?_congr (hcontext : c'.context = c.context)
    (hargument : c'.argument? name = c.argument? name) (hclaimed : c'.claimed = c.claimed)
    (hleft : c'.left[c'.singles.idxOf name]? = c.left[c.singles.idxOf name]?) :
    c'.value? name param = c.value? name param := by
  unfold Call.value?
  rw [hcontext, hargument, hclaimed, hleft]

variable {rest : List (String × Param)} {before : Table} {s s₁ : State} {value : Property}

/-- When the first parameter is bound, and the others have the values that they had, the binding of
them is the rest of the binding. -/
theorem Call.Binds.cons {result : Except Abort Table × State}
    (hfresh : name ∉ rest.map Prod.fst) (hvalue : c.value? name param = some value)
    (hsame : ∀ p ∈ rest, c'.value? p.1 p.2 = c.value? p.1 p.2) (hreported : Reported s s₁)
    (h : c'.Binds rest (before.insert name value) s₁ result) :
    c.Binds ((name, param) :: rest) before s result := by
  cases h with
  | bound hvalues hafter hreported' =>
    refine .bound ?_ (fun other => ?_) (IsTrans.trans _ _ _ hreported hreported')
    · refine List.forall_mem_cons.2 ⟨by simp [hvalue], fun p hp => ?_⟩
      rw [← hsame p hp]
      exact hvalues p hp
    · rw [hafter other, Dict.lookup_cons_eq]
      by_cases hother : other = name
      · subst hother
        have hnone : rest.lookup other = none :=
          Option.not_isSome_iff_eq_none.1 (mt (Dict.lookup_isSome_iff other rest).1 hfresh)
        rw [hnone, if_pos rfl]
        simp [Dict.get?_insert, hvalue]
      · rw [if_neg hother, Dict.get?_insert, if_neg hother]
        cases hlookup : rest.lookup other with
        | none => rfl
        | some param' =>
          obtain ⟨l₁, l₂, hl, -⟩ := List.lookup_eq_some_iff.1 hlookup
          exact hsame (other, param') (hl ▸ List.mem_append_right _ List.mem_cons_self)
  | missing hp hnone hfault hreported' =>
    refine .missing (List.mem_cons_of_mem _ hp) ?_ hfault (IsTrans.trans _ _ _ hreported hreported')
    rw [← hsame _ hp]
    exact hnone
  | unreportable hs hreported' =>
    exact .unreportable (mt hreported.reportable hs) (IsTrans.trans _ _ _ hreported hreported')

/-- What is bound at the end of a run. -/
def boundTable {α : Type} (r : Except Abort (α × Table) × State) : Except Abort Table × State :=
  (r.1.map Prod.snd, r.2)

/-- A parameter with a value is bound first, and then the others. -/
theorem Call.Binds.step {α β : Type} {x : M α} {a : α} (f : α → Property)
    {next : Table → M (β × Table)} (hfresh : name ∉ rest.map Prod.fst)
    (hvalue : c.value? name param = some (f a))
    (hsame : ∀ p ∈ rest, c'.value? p.1 p.2 = c.value? p.1 p.2)
    (hreports : Reportable s → ReportsAt s x a) (hmute : ¬ Reportable s → MuteAt s x)
    (hnext : ∀ s₁, Reported s s₁ →
      c'.Binds rest (before.insert name (f a)) s₁ (boundTable
        (next (before.insert name (f a)) s₁))) :
    c.Binds ((name, param) :: rest) before s
      (boundTable ((do next (← bindParam name (f (← x)) before)) s)) := by
  by_cases hs : Reportable s
  · obtain ⟨s₁, hrun, hs₁⟩ := hreports hs
    obtain ⟨s₂, hbind, hs₂⟩ := bindParam_reporting name (f a) before s₁ (hs₁.reportable hs)
    have hreported : Reported s s₂ := IsTrans.trans _ _ _ hs₁ hs₂
    rw [bind_of_ok hrun, bind_of_ok hbind]
    exact .cons hfresh hvalue hsame hreported (hnext s₂ hreported)
  · obtain ⟨a', hrun⟩ | ⟨m, hrun⟩ := hmute hs
    · obtain ⟨m, hbind⟩ := bindParam_of_not_reportable hs name (f a') before
      rw [bind_of_ok hrun, bind_of_error hbind]
      exact .unreportable hs (Std.Refl.refl s)
    · rw [bind_of_error hrun]
      exact .unreportable hs (Std.Refl.refl s)

/-- A block is bound as it is. -/
theorem Call.Binds.step_block {β : Type} {nodes : List Node} {next : Table → M (β × Table)}
    (hfresh : name ∉ rest.map Prod.fst) (hvalue : c.value? name param = some (.block nodes))
    (hsame : ∀ p ∈ rest, c'.value? p.1 p.2 = c.value? p.1 p.2)
    (hnext : ∀ s₁, Reported s s₁ → c'.Binds rest (before.insert name (.block nodes)) s₁
      (boundTable (next (before.insert name (.block nodes)) s₁))) :
    c.Binds ((name, param) :: rest) before s
      (boundTable ((do next (← bindParam name (.block nodes) before)) s)) :=
  .step (x := pure nodes) Property.block hfresh hvalue hsame (fun _ => .pure s nodes)
    (fun _ => .pure nodes) hnext

/-- A parameter that the call gives nothing is bound to what it falls back on, if there is
something. -/
theorem Call.Binds.fallback {β : Type} {env : Environment} {m : Macro}
    {next : Table → M (β × Table)} (hfresh : name ∉ rest.map Prod.fst)
    (hvalue : c.value? name param = fallback? (s.context env) name param)
    (hsame : ∀ p ∈ rest, c'.value? p.1 p.2 = c.value? p.1 p.2)
    (hnext : ∀ value s₁, Reported s s₁ →
      c'.Binds rest (before.insert name value) s₁ (boundTable
        (next (before.insert name value) s₁))) :
    c.Binds ((name, param) :: rest) before s (boundTable ((
      if param.forward || param.fallback.isSome then do
        let value ← fallbackValue env m name param
        next (← bindParam name value before)
      else
        throw (.fault
          { cause := .missingParameter name
            suffix := some ("when instantiating macro " ++ inDoubleQuotes m.name)
            macros := [m.name] }) : M (β × Table)) s)) := by
  cases hfallback : fallback? (s.context env) name param with
  | some value =>
    have hsome : param.forward || param.fallback.isSome := by
      unfold fallback? at hfallback
      cases hforward : param.forward with
      | true => rfl
      | false =>
        rw [hforward] at hfallback
        obtain ⟨text, htext, -⟩ := Option.map_eq_some_iff.1 hfallback
        rw [htext]
        rfl
    rw [if_pos hsome]
    exact .step id hfresh (hvalue.trans hfallback) hsame
      (fun hs => fallbackValue_reportsAt hs env m hfallback)
      (fun hs => fallbackValue_muteAt hs env m hfallback) (hnext value)
  | none =>
    have hnone := (fallback?_eq_none hfallback).2
    have hmissing {fault : Fault} (hfault : fault.cause =
        if param.forward then .undefinedForward name else .missingParameter name) :
        c.Binds ((name, param) :: rest) before s (.error (.fault fault), s) :=
      .missing List.mem_cons_self (hvalue.trans hfallback) hfault (Std.Refl.refl s)
    cases hforward : param.forward with
    | true =>
      rw [Bool.true_or, if_pos rfl, bind_of_error (fallbackValue_of_none env m hfallback)]
      exact hmissing (by rw [hforward]; rfl)
    | false =>
      rw [hnone, if_neg (by decide)]
      exact hmissing (by rw [hforward, if_neg (by decide)])

end

section
variable {s : State} {ctx : Substitution.Context} {claimed : List (String × Element)}
  {name : String} {param : Param} {rest : List (String × Param)} {attrs : Dict String}
  {pool : List Element}

/-- Taking the argument of the first parameter away changes nothing for the others. -/
theorem Call.value?_erase (hfresh : name ∉ rest.map Prod.fst)
    (hgiven : attrs.contains name = true) :
    ∀ p ∈ rest, (Call.at ctx claimed rest (attrs.erase name) pool).value? p.1 p.2 =
      (Call.at ctx claimed ((name, param) :: rest) attrs pool).value? p.1 p.2 := by
  intro p hp
  have hother : ∀ q ∈ rest, (attrs.erase name).get? q.1 = attrs.get? q.1 := fun q hq =>
    Dict.get?_erase fun h => hfresh (h ▸ List.mem_map_of_mem hq)
  have hsingles : openNames (attrs.erase name).contains .block rest =
      openNames attrs.contains .block ((name, param) :: rest) := by
    rw [openNames_cons, hgiven, Bool.not_true, Bool.and_false]
    exact openNames_congr fun q hq => congrArg Option.isSome (hother q hq)
  refine value?_congr rfl (hother p hp) rfl ?_
  simp only [Call.at]
  rw [hsingles]

/-- Taking an element for the first parameter, the others find theirs one place further on. -/
theorem Call.value?_tail {e : Element} (hfresh : name ∉ rest.map Prod.fst)
    (hgiven : attrs.contains name = false) (hkind : param.kind = .block) :
    ∀ p ∈ rest, (Call.at ctx claimed rest attrs pool).value? p.1 p.2 =
      (Call.at ctx claimed ((name, param) :: rest) attrs (e :: pool)).value? p.1 p.2 := by
  intro p hp
  have hne : name ≠ p.1 := fun h => hfresh (h ▸ List.mem_map_of_mem hp)
  refine value?_congr rfl rfl rfl ?_
  simp only [Call.at]
  rw [openNames_cons, if_pos (by simp [hgiven, hkind]), List.idxOf_cons_ne _ hne,
    List.getElem?_cons_succ]

/-- Where the first parameter takes no element, the others find theirs where they did. -/
theorem Call.value?_same (h : param.kind ≠ .block ∨ pool = []) :
    ∀ p ∈ rest, (Call.at ctx claimed rest attrs pool).value? p.1 p.2 =
      (Call.at ctx claimed ((name, param) :: rest) attrs pool).value? p.1 p.2 := by
  intro p hp
  refine value?_congr rfl rfl rfl ?_
  simp only [Call.at]
  rcases h with hkind | rfl
  · rw [openNames_cons, if_neg (by simp [hkind])]
  · rfl

end

/-- The parameters are bound to their values, however the elements that are claimed by name were
found. -/
theorem bindParams_binds (env : Environment) (m : Macro) {blocks : Dict (List Node)}
    {claimed : List (String × Element)}
    (hblocks : ∀ name, blocks.get? name = (claimed.lookup name).map Element.children)
    (params : List (String × Param)) (hnodup : (params.map Prod.fst).Nodup) (attrs : Dict String)
    (pool : List Element) (table : Table) (s : State) :
    (Call.at (s.context env) claimed params attrs pool).Binds params table s
      (boundTable (bindParams env m blocks params attrs pool table s)) := by
  induction params generalizing attrs pool table s with
  | nil => exact .bound nofun (fun _ => rfl) (Std.Refl.refl s)
  | cons entry rest ih =>
    obtain ⟨name, param⟩ := entry
    obtain ⟨hfresh, hnodup⟩ := List.nodup_cons.1 hnodup
    have hnext (attrs : Dict String) (pool : List Element) (table : Table) (s₁ : State)
        (hreported : Reported s s₁) := hreported.quiet.context env ▸ ih hnodup attrs pool table s₁
    unfold bindParams
    cases hgiven : attrs.get? name with
    | some text =>
      have hcontains : attrs.contains name = true := congrArg Option.isSome hgiven
      refine .step Property.text hfresh ?_ (Call.value?_erase hfresh hcontains)
        (fun hs => evalText_reportsAt hs env text) (fun hs => evalText_muteAt hs env text)
        fun s₁ hs₁ => hnext _ _ _ s₁ hs₁
      simp only [Call.value?, Call.at, hgiven]
    | none =>
      have hcontains : attrs.contains name = false := congrArg Option.isSome hgiven
      cases hkind : param.kind with
      | scalar =>
        refine .fallback hfresh ?_ (Call.value?_same (.inl (by simp [hkind])))
          fun value s₁ hs₁ => hnext _ _ _ s₁ hs₁
        simp only [Call.value?, Call.at, hgiven, hkind]
      | block =>
        cases pool with
        | nil =>
          refine .fallback hfresh ?_ (Call.value?_same (.inr rfl))
            fun value s₁ hs₁ => hnext _ _ _ s₁ hs₁
          simp only [Call.value?, Call.at, hgiven, hkind, List.getElem?_nil, Option.map_none,
            Option.none_or]
        | cons e pool =>
          refine .step_block hfresh ?_ (Call.value?_tail hfresh hcontains hkind)
            fun s₁ hs₁ => hnext _ _ _ s₁ hs₁
          simp [Call.value?, Call.at, hgiven, hkind, openNames_cons, hcontains]
      | multiBlock =>
        cases hclaimed : claimed.lookup name with
        | none =>
          rw [hblocks, hclaimed]
          refine .fallback hfresh ?_ (Call.value?_same (.inl (by simp [hkind])))
            fun value s₁ hs₁ => hnext _ _ _ s₁ hs₁
          simp only [Call.value?, Call.at, hgiven, hkind, hclaimed, Option.map_none,
            Option.none_or]
        | some e =>
          rw [hblocks, hclaimed]
          refine .step_block hfresh ?_ (Call.value?_same (.inl (by simp [hkind])))
            fun s₁ hs₁ => hnext _ _ _ s₁ hs₁
          simp only [Call.value?, Call.at, hgiven, hkind, hclaimed, Option.map_some,
            Option.some_or]

/-! ## The arguments of a call -/

/-- Looking a name up among the attributes that are allowed gives the first attribute of that name,
or nothing if the name is not allowed. -/
theorem lookup_attrs (allowed : String → Bool) (attrs : List Attr) (name : String) :
    ((attrs.filter fun a => allowed a.name).map fun a => (a.name, a.value)).lookup name =
      if allowed name then (attrs.find? (·.name == name)).map Attr.value else none := by
  induction attrs with
  | nil => split <;> rfl
  | cons a rest ih =>
    rw [List.filter_cons, List.find?_cons]
    by_cases hname : a.name = name
    · subst hname
      rw [beq_self_eq_true]
      cases hallowed : allowed a.name with
      | true => rw [if_pos rfl, List.map_cons, Dict.lookup_cons_eq, if_pos rfl, if_pos rfl]; rfl
      | false => rw [if_neg Bool.false_ne_true, ih, hallowed]; rfl
    · rw [beq_false_of_ne hname, ← ih]
      split
      · rw [List.map_cons, Dict.lookup_cons_eq, if_neg (Ne.symm hname)]
      · rfl

/-- The argument for a name is the last attribute of that name; declarations of namespaces
are none. -/
theorem get?_argumentsOf (attrs : List Attr) (name : String) :
    (argumentsOf attrs).get? name = if "xmlns".toList.isPrefixOf name.toList then none
      else (attrs.reverse.find? (·.name == name)).map Attr.value := by
  unfold argumentsOf
  rw [Dict.get?_ofList, ← List.map_reverse, ← List.filter_reverse,
    lookup_attrs (fun name => !"xmlns".toList.isPrefixOf name.toList)]
  cases "xmlns".toList.isPrefixOf name.toList <;> rfl

/-- The attributes that are arguments, for both ways of naming a macro. -/
theorem callee_arguments {env : Environment} {naming : Naming} {e : Element} {m : Macro}
    {arguments : Dict String} {s s' : State}
    (h : callee env e naming s = (.ok (m, arguments), s')) :
    arguments.get? = argument? naming e := by
  funext name
  unfold argument?
  cases naming with
  | byTag =>
    obtain ⟨_, _, -, h⟩ := bind_ok h
    cases h
    rw [get?_argumentsOf]
    simp
  | byAttr =>
    obtain ⟨_, _, -, h⟩ := bind_ok h
    obtain ⟨_, _, -, h⟩ := bind_ok h
    obtain ⟨_, _, -, h⟩ := bind_ok h
    cases h
    unfold argumentsOf
    rw [List.filter_filter, Dict.get?_ofList, ← List.map_reverse, ← List.filter_reverse,
      lookup_attrs fun name => !"xmlns".toList.isPrefixOf name.toList && name != "macro"]
    cases "xmlns".toList.isPrefixOf name.toList <;> by_cases hname : name = "macro" <;>
      simp [hname]

/-! ## Calls -/

/-- The binding of a call ends as its parameters say: attributes that are no parameters are reported
and change nothing. -/
theorem bindCall_binds (env : Environment) (m : Macro) (arguments : Dict String)
    (children : List Node) (s : State) : ∃ claimed left,
      Claims (openNames arguments.contains .multiBlock m.params.entries)
        (children.filterMap Node.element?) claimed left ∧
      (Call.at (s.context env) claimed m.params.entries arguments left).Binds m.params.entries
        s.scopes.current s (bindCall env m arguments children s) := by
  obtain ⟨claimed, hclaims, hblocks⟩ := claimBlocks_claims arguments.contains m.params.entries
    (children.filterMap Node.element?)
  unfold bindCall
  generalize claimBlocks arguments.contains m.params.entries (children.filterMap Node.element?) = p
    at hclaims hblocks ⊢
  obtain ⟨blocks, left⟩ := p
  refine ⟨claimed, left, hclaims, ?_⟩
  have hbinds := bindParams_binds env m hblocks m.params.entries m.params.nodup arguments left
    s.scopes.current s
  dsimp only
  rw [get_bind_apply]
  rcases hrun : bindParams env m blocks m.params.entries arguments left s.scopes.current s
    with ⟨abort | ⟨unknown, table⟩, s₁⟩
  · rw [hrun] at hbinds
    rw [bind_of_error hrun]
    exact hbinds
  · rw [hrun] at hbinds
    rw [bind_of_ok hrun]
    cases hbinds with
    | bound hvalues hafter hreported =>
      by_cases hs₁ : Reportable s₁
      · obtain ⟨s₂, hwarn, hs₂⟩ := warnUnknownParams_reporting m unknown.keys s₁ hs₁
        rw [bind_of_ok hwarn]
        exact .bound hvalues hafter (IsTrans.trans _ _ _ hreported hs₂)
      · obtain ⟨_, hwarn⟩ | ⟨_, hwarn⟩ := warnUnknownParams_muteAt hs₁ m unknown.keys
        · rw [bind_of_ok hwarn]
          exact .bound hvalues hafter hreported
        · rw [bind_of_error hwarn]
          exact .unreportable (mt hreported.reportable hs₁) hreported

/-- What a call does once its macro is known and its children are expanded, in the caller's scope:
it binds the parameters, and expands the body of the macro in the scope that this gives. The
elements among the expanded children are claimed by name first; then every parameter is bound to its
value, or one of them has none and the call fails. -/
theorem callMacro_binds (env : Environment) (depth : Nat) (naming : Naming) (e : Element)
    (m : Macro)
    (arguments : Dict String) (children : List Node) (s s₀ s₁ : State)
    (hcallee : callee env e naming s = (.ok (m, arguments), s₀))
    (hchildren : expandNodes (expandNode env depth) e.children s₀ = (.ok children, s₁)) :
    let given name := (argument? naming e name).isSome
    let params := m.params.entries
    ∃ claimed left, Claims (openNames given .multiBlock params) (children.filterMap Node.element?)
        claimed left ∧
      let call : Call := {
        context := s₁.context env
        argument? := argument? naming e
        claimed := claimed
        singles := openNames given .block params
        left := left }
      call.Binds params s₁.scopes.current s₁ (bindCall env m arguments children s₁) ∧
        callMacro env (expandNode env depth) naming e s =
          (bindCall env m arguments children >>= fun table =>
            insideCall m table (expandNodes (expandNode env depth) m.body)) s₁ := by
  have harguments := callee_arguments hcallee
  have hgiven : (fun name => (argument? naming e name).isSome) = arguments.contains := by
    rw [← harguments]
    rfl
  obtain ⟨claimed, left, hclaims, hbinds⟩ := bindCall_binds env m arguments children s₁
  intro given params
  refine ⟨claimed, left, ?_, ?_, ?_⟩
  · rw [show given = arguments.contains from hgiven]
    exact hclaims
  · rw [show given = arguments.contains from hgiven, ← harguments]
    exact hbinds
  · unfold callMacro
    rw [bind_of_ok hcallee]
    exact bind_of_ok hchildren

/-- A macro with parameters of every kind. -/
def mixedMacro : Macro where
  name := "m"
  params := readParams "*b s **c d:=7 f:=^"
  body := []
  history := []

/-- A state in which a call can forward a property. -/
def mixedState : State :=
  { State.fresh true with
    scopes := Scopes.initial.define "f" (.text "9") .current
    macros := Dict.ofList [("m", mixedMacro)] }

/-- A call with an argument and two elements, the second of them for a parameter that claims it. -/
def mixedCall : Element :=
  ⟨"xacro:m", [⟨"s", "1"⟩], [.element "x" [] [], .element "c" [] [.element "y" [] []]]⟩

/-- A call with an argument, a block taken by its tag, one taken in order, a default and a forwarded
property binds each of the five to its value. -/
theorem callMacro_binds_mixed :
    (∃ claimed left,
      Claims ["c"] [⟨"x", [], []⟩, ⟨"c", [], [.element "y" [] []]⟩] claimed left ∧
      Call.Binds ⟨mixedState.context (.ofFiles true []), argument? .byTag mixedCall, claimed, ["b"],
          left⟩ mixedMacro.params.entries mixedState.scopes.current mixedState
        (bindCall (.ofFiles true []) mixedMacro (argumentsOf mixedCall.attrs) mixedCall.children
          mixedState)) ∧
      ((bindCall (.ofFiles true []) mixedMacro (argumentsOf mixedCall.attrs) mixedCall.children
          mixedState).1.toOption.map fun table => ["b", "s", "c", "d", "f"].map fun name =>
            (table.get? name).map Property.describe) =
        some [some "[<DOM Element: x at 0x0>]", some "1", some "[<DOM Element: y at 0x0>]", some "7",
          some "9"] := by
  have hcallee : callee (.ofFiles true []) mixedCall .byTag mixedState =
      (.ok (mixedMacro, argumentsOf mixedCall.attrs), mixedState) := by
    have hname : stripTag mixedCall.tag = "m" := by decide
    unfold callee
    rw [hname]
    rfl
  have hchildren : expandNodes (expandNode (.ofFiles true []) 8) mixedCall.children mixedState =
      (.ok mixedCall.children, mixedState) := rfl
  obtain ⟨claimed, left, hclaims, hbinds, -⟩ := callMacro_binds (.ofFiles true []) 8 .byTag
    mixedCall
    mixedMacro (argumentsOf mixedCall.attrs) mixedCall.children mixedState mixedState mixedState
    hcallee hchildren
  have hnamed : openNames (fun name => (argument? .byTag mixedCall name).isSome) .multiBlock
      mixedMacro.params.entries = ["c"] := by
    decide +kernel
  have hsingle : openNames (fun name => (argument? .byTag mixedCall name).isSome) .block
      mixedMacro.params.entries = ["b"] := by
    decide +kernel
  rw [hnamed] at hclaims
  rw [hsingle] at hbinds
  exact ⟨⟨claimed, left, hclaims, hbinds⟩, by decide +kernel⟩

end Expansion

end XmlMacros
