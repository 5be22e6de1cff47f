import XmlMacros.Proofs.Expansion.Basic

/-!
# How steps end early

What ends a step early tells what can become of a whole run: a step that is `Faultless` ends in no
fault, so there is nothing to report (`reportFault_eq`), and all it can do early is to end the run.
Steps that evaluate texts and report end early at most because of a setting of the wrong sort, since
a text that cannot be evaluated stays as it is (`evalText_endsIn`). Among others the expansion of a
node is faultless (`expandNode_faultless`), and so is the directive of a property that has a name
and a text (`defineProperty_faultless`).
-/

namespace XmlMacros.Expansion

open XmlMacros.Markup

/-- If a run ends early, then in this way. -/
def EndsIn {α : Type} (A : Abort → Prop) (x : M α) : Prop :=
  ∀ s abort, (x s).1 = .error abort → A abort

/-- No run ends in a fault. -/
def Faultless {α : Type} (x : M α) : Prop :=
  ∀ s f, (x s).1 ≠ .error (.fault f)

namespace EndsIn

variable {α β : Type} {A : Abort → Prop}

/-- What does nothing does not end early. -/
theorem pure (a : α) : EndsIn A (Pure.pure a : M α) :=
  fun _ _ => nofun

/-- What ends early at once ends in just the way that is given. -/
theorem throw {abort : Abort} (h : A abort) : EndsIn A (MonadExcept.throw abort : M α) := by
  intro s abort' h'
  cases h'
  exact h

/-- A step after another ends early where one of the two does. -/
theorem bind {x : M α} {f : α → M β} (hx : EndsIn A x) (hf : ∀ a, EndsIn A (f a)) :
    EndsIn A (x >>= f) := by
  intro s abort
  have h := hx s abort
  rw [bind_apply]
  generalize x s = p at h ⊢
  rcases p with ⟨_ | a, s'⟩
  · exact fun he => h (by cases he; rfl)
  · exact hf a s' abort

/-- What begins with a look at the state ends early only if it does for some state. -/
theorem get_bind {f : State → M α} (hf : ∀ s, EndsIn A (f s)) : EndsIn A (get >>= f : M α) :=
  fun s => hf s s

/-- What is made of a result has no bearing on how a step ends early. -/
theorem map {x : M α} (g : α → β) (hx : EndsIn A x) : EndsIn A (g <$> x) := by
  rw [← bind_pure_comp]
  exact hx.bind fun a => .pure (g a)

/-- A step is faultless if what ends it is told to be anything but a fault. -/
theorem faultless {x : M α} (hx : EndsIn (fun abort => ∀ f, abort ≠ .fault f) x) : Faultless x :=
  fun s f h => hx s _ h f rfl

end EndsIn

namespace Faultless

variable {α β : Type}

/-- Conversely, being faultless says in which ways a step may end. -/
theorem endsIn {x : M α} (hx : Faultless x) : EndsIn (fun abort => ∀ f, abort ≠ .fault f) x := by
  rintro s _ h f rfl
  exact hx s f h

/-- What does nothing reports no fault. -/
theorem pure (a : α) : Faultless (Pure.pure a : M α) :=
  fun _ _ => nofun

/-- Steps in a row are faultless if each of them is. -/
theorem bind {x : M α} {f : α → M β} (hx : Faultless x) (hf : ∀ a, Faultless (f a)) :
    Faultless (x >>= f) :=
  (hx.endsIn.bind fun a => (hf a).endsIn).faultless

/-- Looking at the state is faultless, so that all depends on what is done with it. -/
theorem get_bind {f : State → M α} (hf : ∀ s, Faultless (f s)) :
    Faultless (get >>= f : M α) :=
  fun s => hf s s

/-- What is done around a step changes the state only and adds no fault of its own. -/
theorem bracket {x : M α} (hx : Faultless x) (enter : State → State)
    (leave : State → State → State) : Faultless (bracket enter leave x) :=
  fun s => hx (enter s)

/-- Nothing is reported, so a result is that of the step itself. -/
theorem reportFault_eq {x : M (List Node)} (h : Faultless x) : reportFault x = x := by
  funext s
  have hs := h s
  unfold reportFault
  rw [tryCatch_apply]
  generalize x s = p at hs ⊢
  rcases p with ⟨(f | _ | _ | _) | out, s'⟩
  · exact absurd rfl (hs f)
  · rfl
  · rfl
  · rfl
  · rfl

end Faultless

/-! ## Steps that evaluate and report -/

section
variable {A : Abort → Prop} (hA : ∀ m, A (.mismatch m)) (env : Environment)

theorem modify_endsIn (f : State → State) : EndsIn A (modify f : M Unit) :=
  fun _ _ => nofun

include hA

/-- A value of the wrong sort ends the run in a way of its own, which is no fault. -/
theorem liftMismatch_endsIn {α : Type} (x : Except Mismatch α) : EndsIn A (liftMismatch x) := by
  cases x with
  | ok a => exact .pure a
  | error m => exact .throw (hA m)

/-- Messages end a run only where the verbosity cannot be compared, and this is a mismatch. -/
theorem say_endsIn (channel : Channel) (message : String) : EndsIn A (say channel message) :=
  .get_bind fun _ => (liftMismatch_endsIn hA _).bind fun _ => modify_endsIn _

theorem warn_endsIn (message : String) : EndsIn A (warn message) := by
  refine (say_endsIn hA _ _).bind fun _ => .get_bind fun s => ?_
  refine (liftMismatch_endsIn hA _).bind fun b => ?_
  cases b with
  | true => exact modify_endsIn _
  | false => exact .pure _

theorem logProperty_endsIn (action : String) (depth : Nat) (name : String) (value : Property) :
    EndsIn A (logProperty action depth name value) :=
  say_endsIn hA _ _

/-- Each use of a property is a message of its own. -/
theorem logUses_endsIn (depth : Nat) (uses : List (String × Property)) :
    EndsIn A (logUses depth uses) := by
  induction uses with
  | nil => exact .pure _
  | cons use rest ih => exact (logProperty_endsIn hA _ _ _ _).bind fun _ => ih

/-- A text that cannot be evaluated is reported, and the expansion goes on with it. -/
theorem evalText_endsIn (text : String) : EndsIn A (evalText env text) := by
  unfold evalText
  split
  · exact .pure _
  · refine .get_bind fun s => (logUses_endsIn hA _ _).bind fun _ => ?_
    split
    · exact .pure _
    · exact (warn_endsIn hA _).bind fun _ => .pure _

/-- Attributes that a directive does not have lead to a warning only. -/
theorem warnExtraAttrs_endsIn (e : Element) (allowed : List String) :
    EndsIn A (warnExtraAttrs e allowed) := by
  unfold warnExtraAttrs
  split
  · exact say_endsIn hA _ _
  · exact .pure _

/-- So does a name that expressions cannot refer to. -/
theorem warnUnreferable_endsIn (name : String) : EndsIn A (warnUnreferable name) := by
  unfold warnUnreferable
  split
  · exact .pure _
  · exact warn_endsIn hA _

/-- And one that means something else in them. -/
theorem warnKeyword_endsIn (name : String) : EndsIn A (warnKeyword name) := by
  unfold warnKeyword
  split
  · exact warn_endsIn hA _
  · exact .pure _

/-- A scope that there is none of is warned of, too, and does not end anything. -/
theorem placementFor_endsIn (name : String) (word : Option String) :
    EndsIn A (placementFor name word) := by
  refine .bind ?_ fun _ => .get_bind fun _ => .pure _
  cases word with
  | none => exact .pure _
  | some word =>
    rw [placementOf]
    split
    · exact .pure _
    · exact (warn_endsIn hA _).bind fun _ => .pure _

/-- A value that cannot be evaluated is kept as it is written, so this does not end early for it. -/
theorem writtenProperty_endsIn (value : Property) (placement : Placement) :
    EndsIn A (writtenProperty env value placement) := by
  unfold writtenProperty
  split
  · exact (evalText_endsIn hA env _).map _
  · exact (evalText_endsIn hA env _).map _
  · exact .pure _

theorem define_endsIn (name : String) (value : Property) (placement : Placement) :
    EndsIn A (define name value placement) :=
  .get_bind fun _ => (modify_endsIn _).bind fun _ => logProperty_endsIn hA _ _ _ _

/-- Of a node without children only the text is evaluated. -/
theorem expandLeaf_endsIn (n : Node) : EndsIn A (expandLeaf env n) := by
  cases n with
  | text data | cdata data | comment data => exact (evalText_endsIn hA env data).map _
  | element | instruction => exact .pure _

/-- Attributes are evaluated in turn, and one without a value is a mismatch. -/
theorem expandAttrs_endsIn (attrs : List Attr) : EndsIn A (expandAttrs env attrs) := by
  induction attrs with
  | nil => exact .pure []
  | cons a rest ih =>
    have hattr : EndsIn A (expandAttr env a) := by
      unfold expandAttr
      split
      · exact .throw (hA _)
      · exact (evalText_endsIn hA env a.value).bind fun _ => .pure _
    exact hattr.bind fun _ => ih.bind fun _ => .pure _

/-- What stands outside of the root is evaluated like what stands in it. -/
theorem expandMisc_endsIn (ms : List Misc) : EndsIn A (expandMisc env ms) := by
  induction ms with
  | nil => exact .pure []
  | cons m rest ih =>
    have hmisc : EndsIn A (evalMisc env m) := by
      cases m with
      | comment data => exact (evalText_endsIn hA env data).map _
      | instruction target data => exact .pure _
    exact hmisc.bind fun _ => ih.bind fun _ => .pure _

end

/-! ## Steps that do not fail -/

section
variable (env : Environment)

/-- A setting of the wrong sort is no fault. -/
theorem ne_fault_of_mismatch (m : Mismatch) : ∀ f, Abort.mismatch m ≠ .fault f :=
  nofun

/-- A fault that is reported is none any more. -/
theorem reportFault_faultless (x : M (List Node)) : Faultless (reportFault x) := by
  intro s fault
  unfold reportFault
  rw [tryCatch_apply]
  generalize x s = p
  rcases p with ⟨(f | _ | _ | _) | out, s'⟩
  · exact ((warn_endsIn ne_fault_of_mismatch f.message).bind fun _ => .pure []).faultless s' fault
  all_goals nofun

/-- Every fault of a directive is caught and reported where the directive stands, so none gets out
of a node. -/
theorem expandNode_faultless (depth : Nat) (n : Node) : Faultless (expandNode env depth n) := by
  cases depth with
  | zero => exact fun _ _ => nofun
  | succ depth =>
    cases n with
    | element => exact .get_bind fun _ => reportFault_faultless _
    | text | cdata | comment | instruction =>
      exact ((expandLeaf_endsIn ne_fault_of_mismatch env _).bind fun _ => .pure _).faultless

/-- And so none gets out of nodes one after the other. -/
theorem expandNodes_faultless (depth : Nat) (nodes : List Node) :
    Faultless (expandNodes (expandNode env depth) nodes) := by
  induction nodes with
  | nil => exact .pure []
  | cons n rest ih => exact (expandNode_faultless env depth n).bind fun _ => ih.bind fun _ => .pure _

/-- Nor out of a document, where comments outside of the root are evaluated in the same way. -/
theorem expandParts_faultless (depth : Nat) (d : Document) :
    Faultless (expandParts env depth d) := by
  have hmisc (ms : List Misc) : Faultless (expandMisc env ms) :=
    (expandMisc_endsIn ne_fault_of_mismatch env ms).faultless
  have hroot : Faultless (expandElement env (expandNode env depth) d.root) :=
    (expandAttrs_endsIn ne_fault_of_mismatch env _).faultless.bind fun _ =>
      (expandNodes_faultless env depth _).bind fun _ => .pure _
  exact (hmisc _).bind fun _ => hroot.bind fun _ => (hmisc _).bind fun _ => .pure _

theorem modify_faultless (f : State → State) : Faultless (modify f : M Unit) :=
  (modify_endsIn f).faultless

/-- A file that cannot be read is no fault but ends the run in its own way. -/
theorem parseRoot_faultless (text : String) : Faultless (parseRoot text) := by
  unfold parseRoot
  split
  · exact .pure _
  · exact (EndsIn.throw nofun).faultless

/-- Gathering performs directives one by one, and the faults of each are reported. -/
theorem performAll_faultless (depth : Nat) (es : List Element) :
    Faultless (performAll env depth es) := by
  induction es with
  | nil => exact .pure _
  | cons e rest ih => exact (expandNode_faultless env depth e.node).bind fun _ => ih

/-- Definitions are gathered from outermost directives only. -/
theorem grabDefinitions_faultless (depth : Nat) (root : Element) :
    Faultless (grabDefinitions env depth root) :=
  .get_bind fun _ => (performAll_faultless env depth _).bind fun _ =>
    .get_bind fun _ => performAll_faultless env depth _

/-- A path that is no text is a mismatch. -/
theorem includePath_faultless (filename : String) (workingPath : Except Mismatch String) :
    Faultless (includePath filename workingPath) := by
  unfold includePath
  split
  · exact .pure _
  · exact (liftMismatch_endsIn ne_fault_of_mismatch _).faultless.bind fun _ => .pure _

theorem includePaths_faultless (workingPath : Except Mismatch String) (es : List Element)
    (paths : List String) : Faultless (includePaths env workingPath es paths) := by
  induction es generalizing paths with
  | nil => exact .pure _
  | cons e rest ih =>
    unfold includePaths
    split
    · exact ih paths
    · refine (evalText_endsIn ne_fault_of_mismatch env _).faultless.bind fun name => ?_
      refine (includePath_faultless name workingPath).bind fun path => .get_bind fun s => ?_
      split <;> exact ih _

/-- That a file cannot be fetched is remembered, and is not yet a fault. -/
theorem fetchAll_faultless (paths : List String) : Faultless (fetchAll env paths) := by
  induction paths with
  | nil => exact .pure _
  | cons path rest ih =>
    exact ((modify_faultless _).bind fun _ => .pure _).bind fun _ => ih.bind fun _ => .pure _

/-- Files are taken in one by one, by what takes in those that they include themselves. -/
theorem takeFiles_faultless (depth : Nat) (workingPath : Except Mismatch String)
    {nested : Element → Except Mismatch String → M Unit}
    (hnested : ∀ root workingPath, Faultless (nested root workingPath))
    (files : List (String × Except FetchFailure String)) :
    Faultless (takeFiles env depth workingPath nested files) := by
  induction files with
  | nil => exact .pure _
  | cons file rest ih =>
    obtain ⟨path, failure | text⟩ := file
    · exact (modify_faultless _).bind fun _ => ih
    · refine (modify_faultless _).bind fun _ => Faultless.bind (.bracket ?_ _ _) fun _ => ih
      refine (parseRoot_faultless text).bind fun root => ?_
      refine (grabDefinitions_faultless env depth root).bind fun _ => .get_bind fun _ => ?_
      exact (modify_faultless _).bind fun _ => hnested _ _

/-- By induction on how deep files may include each other. -/
theorem collectIncludes_faultless (depth levels : Nat) (root : Element)
    (workingPath : Except Mismatch String) :
    Faultless (collectIncludes env depth levels root workingPath) := by
  induction levels generalizing root workingPath with
  | zero => exact (EndsIn.throw nofun).faultless
  | succ levels ih =>
    refine .get_bind fun _ => (includePaths_faultless env workingPath _ _).bind fun paths => ?_
    exact (fetchAll_faultless env paths).bind fun _ =>
      takeFiles_faultless env depth workingPath (fun root workingPath => ih root workingPath) _

/-- To gather is to take in the files and then the definitions. -/
theorem gather_faultless (depth : Nat) (root : Element) : Faultless (gather env depth root) := by
  have hdisable : Faultless disableLocalProperties := by
    refine .get_bind fun s => ?_
    split
    · exact (warn_endsIn ne_fault_of_mismatch _).faultless.bind fun _ => modify_faultless _
    · exact .pure _
  refine hdisable.bind fun _ => (grabDefinitions_faultless env depth root).bind fun _ => ?_
  exact .get_bind fun _ => .get_bind fun _ =>
    (collectIncludes_faultless env depth depth _ _).bind fun _ => .pure _

/-- Whether the root is expanded as it is or gathered first, no fault gets out. -/
theorem preparedRoot_faultless (depth : Nat) (inOrder : Bool) (root : Element) :
    Faultless (preparedRoot env depth inOrder root) := by
  cases inOrder with
  | true => exact .pure _
  | false => exact gather_faultless env depth root

/-- The expansion of a document only ends early for good. -/
theorem expandDocument_faultless (depth : Nat) (inOrder : Bool) (d : Document) :
    Faultless (expandDocument env depth inOrder d) :=
  .bracket ((preparedRoot_faultless env depth inOrder d.root).bind fun _ =>
    expandParts_faultless env depth _) _ _

end

/-! ## Properties with a text -/

/-- An attribute that is there is got. -/
theorem requireAttr_of_attr? {e : Element} {name value : String} (h : e.attr? name = some value) :
    requireAttr e name = pure value := by
  unfold requireAttr Element.requireAttr
  rw [h]
  rfl

/-- A directive of a property with a name and a text. -/
structure TextProperty (e : Element) (name text : String) : Prop where
  name : e.attr? "name" = some name
  text : (e.attr? "value").or (e.attr? "default") = some text

section
variable {e : Element} {name text : String} (h : TextProperty e name text)

include h

/-- The value of such a property is what is written, before anything is evaluated. -/
theorem TextProperty.givenProperty (depth : Nat) :
    givenProperty depth e = pure (.text text) := by
  unfold Expansion.givenProperty
  rw [h.text]

/-- The directive for such a property is a definition with warnings before it: none of the other
sources of a value is looked at. -/
theorem defineProperty_eq (env : Environment) (depth : Nat) :
    defineProperty env depth e = do
      warnExtraAttrs e ["name", "value", "default", "scope"]
      warnUnreferable name
      let placement ← placementFor name (e.attr? "scope")
      let value ← writtenProperty env (.text text) placement
      define name value placement
      return [] := by
  unfold defineProperty
  rw [requireAttr_of_attr? h.name, h.givenProperty]
  simp only [pure_bind]

/-- So it can end early only by way of a value of the wrong sort. -/
theorem defineProperty_endsIn {A : Abort → Prop} (hA : ∀ m, A (.mismatch m)) (env : Environment)
    (depth : Nat) : EndsIn A (defineProperty env depth e) := by
  rw [defineProperty_eq h]
  refine (warnExtraAttrs_endsIn hA _ _).bind fun _ => ?_
  refine (warnUnreferable_endsIn hA _).bind fun _ => ?_
  refine (placementFor_endsIn hA _ _).bind fun placement => ?_
  refine (writtenProperty_endsIn hA env _ _).bind fun value => ?_
  exact (define_endsIn hA _ _ _).bind fun _ => .pure _

theorem defineProperty_faultless (env : Environment) (depth : Nat) :
    Faultless (defineProperty env depth e) :=
  (defineProperty_endsIn h ne_fault_of_mismatch env depth).faultless

end

end XmlMacros.Expansion
