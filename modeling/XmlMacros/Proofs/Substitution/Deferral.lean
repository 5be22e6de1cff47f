import XmlMacros.Proofs.Substitution.Outcome

/-!
# Properties as texts and as values

A name that stands for a text is worth the value of the text. So it does not matter whether a
context holds the texts of properties, to be evaluated wherever a name is met, or their values, as
long as nothing is to be evaluated in these and there is room for it (`Gives.iff_of_holdsValues`):
with texts a text may take more room than with values. What a text is worth stays the same where
more properties and more answers of commands are known (`GivesWithin.extend`).
-/

namespace XmlMacros.Substitution

/-- Commands answer the same once more substitution arguments have values. -/
theorem AnswersAs.of_args {ctx ctx' : Context} (hcommands : ctx'.commands = ctx.commands)
    (hsurroundings : ctx'.view.surroundings = ctx.view.surroundings)
    (hfilename : ctx'.view.filename = ctx.view.filename)
    (hargs : ∀ name value, ctx.view.args.get? name = some value →
      ctx'.view.args.get? name = some value) : AnswersAs ctx ctx' := by
  rintro name arguments text ⟨command, hcommand, hcall⟩
  refine ⟨command, hcommands ▸ hcommand, ?_⟩
  obtain ⟨_, _, ⟨surroundings, args, filename⟩, _⟩ := ctx
  obtain ⟨_, _, ⟨_, args', _⟩, _⟩ := ctx'
  cases hsurroundings
  cases hfilename
  cases command with
  | arg =>
    rcases arguments with _ | ⟨argument, _ | ⟨other, rest⟩⟩
    · exact hcall
    · cases hvalue : args.get? argument with
      | none => simp [Command.call, hvalue] at hcall
      | some value =>
        simp only [Command.call, hvalue] at hcall
        simp only [Command.call, hargs argument value hvalue]
        exact hcall
    · exact hcall
  | env | optenv | dirname | find | cwd | custom =>
    rcases arguments with _ | ⟨argument, _ | ⟨other, rest⟩⟩ <;> exact hcall

/-- What is known in the first context is known in the second one. -/
structure Extends (ctx ctx' : Context) : Prop where
  texts : ∀ name text, ctx.scopes.lookup? name = some (.text text) →
    ctx'.scopes.lookup? name = some (.text text)
  answers : AnswersAs ctx ctx'

/-- What a text is worth it is worth where more is known, in the same room. -/
theorem GivesWithin.extend {ctx ctx' : Context} {room : Nat} {text value : String}
    (h : GivesWithin ctx room text value) (hextends : Extends ctx ctx') :
    GivesWithin ctx' room text value :=
  h.of_mirrors 0 hextends.answers fun name text hname =>
    ⟨text, hextends.texts name text hname, .inl rfl⟩

/-- In the context the text is worth the value, in which nothing is to be evaluated, if there is
room enough. -/
def WorthPlain (ctx : Context) (text value : String) : Prop :=
  (∃ room, GivesWithin ctx room text value) ∧ '$' ∉ value.toList

/-- A value without dollar signs that a text has in the given room is plain. -/
theorem WorthPlain.of_gives {ctx : Context} {text value : String} (h : Gives ctx text value)
    (hplain : '$' ∉ value.toList) : WorthPlain ctx text value :=
  ⟨⟨_, h⟩, hplain⟩

theorem WorthPlain.of_not_mem {ctx : Context} {text : String} (h : '$' ∉ text.toList) :
    WorthPlain ctx text text :=
  .of_gives (.of_not_mem h) h

/-- A text is worth the same where more is known. -/
theorem WorthPlain.extend {ctx ctx' : Context} {text value : String} (h : WorthPlain ctx text value)
    (hextends : Extends ctx ctx') : WorthPlain ctx' text value := by
  obtain ⟨⟨room, hgives⟩, hplain⟩ := h
  exact ⟨⟨room, hgives.extend hextends⟩, hplain⟩

/-- In the context there is room for the text: a value that it has in some room it has in the room
that there is. -/
def HasRoom (ctx : Context) (text : String) : Prop :=
  ∀ room value, GivesWithin ctx room text value → Gives ctx text value

/-- The second context holds texts of the first one, or in their place what they are worth. -/
structure HoldsValues (ctx ctx' : Context) : Prop where
  texts : ∀ name text, ctx.scopes.lookup? name = some (.text text) →
    ∃ text', ctx'.scopes.lookup? name = some (.text text') ∧
      (text' = text ∨ WorthPlain ctx text text')
  values : ∀ name text', ctx'.scopes.lookup? name = some (.text text') →
    ∃ text, ctx.scopes.lookup? name = some (.text text) ∧
      (text' = text ∨ WorthPlain ctx text text')
  answers : AnswersAs ctx ctx'
  answers' : AnswersAs ctx' ctx
  limits : ctx'.limits = ctx.limits

section
variable {ctx ctx' : Context} {text value : String}

/-- There is room for a text that has a value. -/
theorem HasRoom.of_gives (h : Gives ctx text value) : HasRoom ctx text := by
  intro room value' hvalue'
  rwa [hvalue'.unique h] at h

/-- Of finitely many texts, those that have a value in some room have it in one and the
same room. -/
theorem exists_room (ctx : Context) (texts : List String) :
    ∃ room, ∀ text ∈ texts, ∀ k value, GivesWithin ctx k text value →
      GivesWithin ctx room text value := by
  induction texts with
  | nil => exact ⟨0, nofun⟩
  | cons text rest ih =>
    obtain ⟨room, hroom⟩ := ih
    by_cases hgives : ∃ k value, GivesWithin ctx k text value
    · obtain ⟨k, value, hvalue⟩ := hgives
      refine ⟨max room k, fun other hother k' value' hvalue' => ?_⟩
      rcases List.mem_cons.1 hother with rfl | hother
      · rw [hvalue.unique hvalue']
        exact hvalue.mono (Nat.le_max_right room k)
      · exact (hroom other hother k' value' hvalue').mono (Nat.le_max_left room k)
    · refine ⟨room, fun other hother k value hvalue => ?_⟩
      rcases List.mem_cons.1 hother with rfl | hother
      · exact absurd ⟨k, value, hvalue⟩ hgives
      · exact hroom other hother k value hvalue

/-- The texts that names may stand for. -/
def textsOf (scopes : Scopes) : List String :=
  (scopes.current.entries ++ scopes.global.entries).filterMap fun
    | (_, .text text) => some text
    | (_, .block _) => none

theorem mem_textsOf {scopes : Scopes} {name text : String}
    (h : scopes.lookup? name = some (.text text)) : text ∈ textsOf scopes := by
  refine List.mem_filterMap.2 ⟨(name, .text text), ?_, rfl⟩
  unfold Scopes.lookup? at h
  split at h
  · rename_i value hvalue
    cases h
    exact List.mem_append_left _ (Dict.mem_of_get? hvalue)
  · exact List.mem_append_right _ (Dict.mem_of_get? h)

/-- A value without dollars, put in the place of a text that is worth it, evaluates to the same. -/
theorem WorthPlain.mirrors_value (h : WorthPlain ctx text value) (n m : Nat) :
    Mirrors (fun _ _ => True) (evalTextFreely ctx n text) (evalTextFreely ctx' m value) := by
  intro e e' a e₁ _ hrun
  obtain ⟨⟨room, hgives⟩, hplain⟩ := h
  have ha : a = value := hgives.unique (GivesWithin.of_run (congrArg Prod.fst hrun))
  refine ⟨e', ?_, trivial⟩
  rw [ha, evalTextFreely, evalTextWith_of_not_mem hplain]
  rfl

/-- A text evaluates to the value in its place, in room that is large enough. -/
theorem GivesWithin.value_mirrors {m : Nat} (h : GivesWithin ctx m text value)
    (hplain : '$' ∉ value.toList) (n : Nat) {k : Nat} (hk : m ≤ k) :
    Mirrors (fun _ _ => True) (evalTextFreely ctx' n value) (evalTextFreely ctx k text) := by
  intro e e' a e₁ _ hrun
  rw [evalTextFreely, evalTextWith_of_not_mem hplain] at hrun
  cases hrun
  exact ⟨_, Prod.ext (h.run hk e') rfl, trivial⟩

/-- A text that has a value has it in the same room where values stand for texts. -/
theorem GivesWithin.of_texts {room : Nat} (h : HoldsValues ctx ctx')
    (hgives : GivesWithin ctx room text value) : GivesWithin ctx' room text value := by
  refine hgives.of_mirrors 0 h.answers fun name x hx => ?_
  obtain ⟨y, hy, rfl | hworth⟩ := h.texts name x hx
  · exact ⟨y, hy, .inl rfl⟩
  · exact ⟨y, hy, .inr fun n _ => hworth.mirrors_value n _⟩

/-- A text that has a value where values stand for texts has it with these texts too, in
more room. -/
theorem GivesWithin.of_values {room : Nat} (h : HoldsValues ctx ctx')
    (hgives : GivesWithin ctx' room text value) : ∃ room', GivesWithin ctx room' text value := by
  obtain ⟨extra, hextra⟩ := exists_room ctx (textsOf ctx.scopes)
  refine ⟨_, hgives.of_mirrors extra h.answers' fun name y hy => ?_⟩
  obtain ⟨x, hx, rfl | ⟨⟨k, hk⟩, hplain⟩⟩ := h.values name y hy
  · exact ⟨y, hx, .inl rfl⟩
  · exact ⟨x, hx, .inr fun n _ => (hextra x (mem_textsOf hx) k y hk).value_mirrors hplain n
      (Nat.le_add_left extra n)⟩

/-- A text that there is room for is worth the same where values stand for texts that are worth
them. -/
theorem Gives.iff_of_holdsValues (h : HoldsValues ctx ctx') (hroom : HasRoom ctx text) :
    Gives ctx text value ↔ Gives ctx' text value := by
  constructor
  · intro hgives
    rw [Gives, h.limits]
    exact GivesWithin.of_texts h hgives
  · intro hgives
    obtain ⟨room, hroom'⟩ := GivesWithin.of_values h hgives
    exact hroom room value hroom'

end

end XmlMacros.Substitution
