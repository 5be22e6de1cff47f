import XmlMacros.Proofs.Expr.Grammar

/-!
# How expressions fail

Whatever is wrong with the tokens of an expression, the failure is one of evaluation
(`evalToText_evaluationOnly`). The other families of faults come from the names and commands that
are met before there are tokens.

That tokens are nested too deeply is a failure of the reader alone; numbers and operators fail in
other ways (`InValues`). It depends on the room for parentheses and signs: where the reader has got
enough of it, more changes nothing (`evalToText_agrees`), and as much as there are tokens is always
enough (`evalToText_ne_nestingTooDeep`).
-/

namespace XmlMacros.Expr

open XmlMacros.Decimal

/-- If the computation fails, then with such a cause. -/
def FailsWith (P : Cause → Prop) (x : Except Cause α) : Prop :=
  ∀ c, x = .error c → P c

/-- If the computation fails, then with a cause of the family of evaluation. -/
def EvaluationOnly (x : Except Cause α) : Prop :=
  FailsWith (fun c => c.kind = .evaluation) x

/-- A cause that lies in values: it is one of evaluation, but not that something is nested too
deeply. -/
def InValues (c : Cause) : Prop :=
  c.kind = .evaluation ∧ c ≠ .arithmetic .nestingTooDeep

namespace FailsWith

variable {α β : Type} {P Q : Cause → Prop} {x : Except Cause α}

theorem ok (a : α) : FailsWith P (.ok a) := nofun

theorem error {c : Cause} (h : P c) : FailsWith P (.error c : Except Cause α) := by
  intro c' h'
  cases h'
  exact h

/-- The second step only has to be looked at for values that the first one gives. -/
theorem bind_of {f : α → Except Cause β} (hx : FailsWith P x)
    (hf : ∀ a, x = .ok a → FailsWith P (f a)) : FailsWith P (x >>= f) := by
  intro c h
  cases x with
  | ok a => exact hf a rfl c h
  | error => cases h; exact hx _ rfl

/-- Two steps in a row fail as one of them does. -/
theorem bind {f : α → Except Cause β} (hx : FailsWith P x) (hf : ∀ a, FailsWith P (f a)) :
    FailsWith P (x >>= f) :=
  hx.bind_of fun a _ => hf a

/-- What is made of a value has no bearing on failures. -/
theorem map {f : α → β} (hx : FailsWith P x) : FailsWith P (x.map f) := by
  intro c h
  cases x with
  | ok a => cases h
  | error => cases h; exact hx _ rfl

/-- Failures that have one property have every property that follows from it. -/
theorem mono (hx : FailsWith P x) (h : ∀ c, P c → Q c) : FailsWith Q x :=
  fun c hc => h c (hx c hc)

end FailsWith

/-! ## Numbers and values -/

/-- A numeral fails to be a number if it has too many digits. -/
theorem numberOfNumeral_inValues (negative : Bool) (n : Numeral) :
    FailsWith InValues (numberOfNumeral negative n) := by
  unfold numberOfNumeral
  split
  · split
    · exact .error ⟨rfl, nofun⟩
    · exact .ok _
  · exact .ok _

/-- A text may be no number. -/
theorem Value.toNumber_inValues (a : Value) : FailsWith InValues a.toNumber := by
  cases a with
  | bool b => exact .ok _
  | number x => exact .ok _
  | text s =>
    show FailsWith InValues ((number? s).getD (.error (.notANumber s)))
    unfold number?
    cases signedNumeral? s with
    | none => exact .error ⟨rfl, nofun⟩
    | some p => exact numberOfNumeral_inValues p.1 p.2

/-- An integer may be too long to be written. -/
theorem Value.write_inValues (a : Value) : FailsWith InValues a.write := by
  cases a with
  | bool b => exact .ok _
  | text s => exact .ok _
  | number x =>
    cases x with
    | float x => exact .ok _
    | int n =>
      unfold Value.write writeInt
      dsimp only
      split
      · exact .error ⟨rfl, nofun⟩
      · exact .ok _

/-- An integer may be too large for a number with a point. -/
theorem Number.toFloat_inValues (x : Number) : FailsWith InValues x.toFloat := by
  unfold Number.toFloat
  split
  · exact .ok _
  · split
    · exact .ok _
    · exact .error ⟨rfl, nofun⟩

/-- A number that is infinite or none has no integer part. -/
theorem Number.toInt_inValues (x : Number) : FailsWith InValues x.toInt := by
  unfold Number.toInt
  split
  · exact .ok _
  · split
    · exact .ok _
    · exact .error ⟨rfl, nofun⟩
    · exact .error ⟨rfl, nofun⟩

/-- Where one of two numbers has a point, the other one is turned into such a number. -/
theorem Number.combine_inValues (exact' : Int → Int → Int)
    (rounded : Float → Float → Float) (a b : Number) :
    FailsWith InValues (Number.combine exact' rounded a b) := by
  unfold Number.combine
  split
  · exact .ok _
  · exact .bind a.toFloat_inValues fun _ => .bind b.toFloat_inValues fun _ => .ok _

/-- A quotient fails for a divisor of zero or numbers that are too large. -/
theorem Number.divide_inValues (a b : Number) : FailsWith InValues (a.divide b) := by
  unfold Number.divide
  split
  · exact .error ⟨rfl, nofun⟩
  · split
    · split
      · exact .ok _
      · exact .error ⟨rfl, nofun⟩
    · exact .bind a.toFloat_inValues fun _ => .bind b.toFloat_inValues fun _ => .ok _

theorem floatRemainder_inValues (x y : Float) : FailsWith InValues (floatRemainder x y) := by
  unfold floatRemainder
  split
  · exact .ok _
  · exact .ok _
  · exact .error ⟨rfl, nofun⟩
  · exact .ok _
  · exact .ok _

/-- And so does a remainder. -/
theorem Number.remainder_inValues (a b : Number) : FailsWith InValues (a.remainder b) := by
  unfold Number.remainder
  split
  · exact .error ⟨rfl, nofun⟩
  · split
    · exact .ok _
    · exact .bind a.toFloat_inValues fun _ => .bind b.toFloat_inValues fun _ =>
        .bind (floatRemainder_inValues _ _) fun _ => .ok _

/-- To be compared, a number may have to be turned into one with a point. -/
theorem Value.equals_inValues (a b : Value) : FailsWith InValues (a.equals b) := by
  unfold Value.equals
  split
  · exact .bind a.toNumber_inValues fun _ => .bind b.toNumber_inValues fun _ => .ok _
  · exact .bind a.write_inValues fun _ => .bind b.write_inValues fun _ => .ok _

/-- A text and a number may not be addable. -/
theorem Value.add_inValues (a b : Value) : FailsWith InValues (a.add b) := by
  unfold Value.add
  split
  · exact .bind a.write_inValues fun _ => .bind b.write_inValues fun _ => .ok _
  · exact .bind a.toNumber_inValues fun _ => .bind b.toNumber_inValues fun _ =>
      .bind (Number.combine_inValues _ _ _ _) fun _ => .ok _

/-! ## Operators -/

/-- Products and operators on bits want a number on their left before they look to their right. -/
theorem Operator.leftOperand_inValues (op : Operator) (a : Value) :
    FailsWith InValues (op.leftOperand a) := by
  cases op with
  | times | divide | remainder => exact .map a.toNumber_inValues
  | bitAnd | bitOr =>
    exact .bind a.toNumber_inValues fun x => .bind x.toInt_inValues fun _ => .ok _
  | plus | minus | equal => exact .ok _

/-- Whatever the operator and its operands, the cause of a failure lies in them. -/
theorem Operator.apply_inValues (op : Operator) (a b : Value) :
    FailsWith InValues (op.apply a b) := by
  cases op with
  | plus => exact a.add_inValues b
  | minus | times =>
    exact .bind a.toNumber_inValues fun _ => .bind b.toNumber_inValues fun _ =>
      .bind (Number.combine_inValues _ _ _ _) fun _ => .ok _
  | divide =>
    exact .bind a.toNumber_inValues fun x => .bind b.toNumber_inValues fun y =>
      .bind (x.divide_inValues y) fun _ => .ok _
  | remainder =>
    exact .bind a.toNumber_inValues fun x => .bind b.toNumber_inValues fun y =>
      .bind (x.remainder_inValues y) fun _ => .ok _
  | bitAnd | bitOr =>
    exact .bind a.toNumber_inValues fun x => .bind x.toInt_inValues fun _ =>
      .bind b.toNumber_inValues fun y => .bind y.toInt_inValues fun _ => .ok _
  | equal => exact .bind (a.equals_inValues b) fun _ => .ok _

/-- A sign stands before numbers only. -/
theorem Sign.apply_inValues (sign : Sign) (a : Value) : FailsWith InValues (sign.apply a) := by
  refine .bind a.toNumber_inValues fun x => ?_
  cases sign <;> exact .ok _

/-! ## Token lists -/

/-- Whether the reader, given fewer tokens than `n`, fails with such causes only, and gives back no
more tokens than it was given. -/
def ReadsWithin (P : Cause → Prop) (n : Nat) (next : Reader) : Prop :=
  ∀ tokens, tokens.length < n → FailsWith P (next tokens) ∧
    ∀ a rest, next tokens = .ok (a, rest) → rest.length ≤ tokens.length

section
variable {P : Cause → Prop} (hP : ∀ c, InValues c → P c) {n : Nat}

/-- What reads no token gives back all of them. -/
theorem ReadsWithin.stop (a : Value) : ReadsWithin P n fun tokens => .ok (a, tokens) := by
  refine fun tokens _ => ⟨.ok _, ?_⟩
  rintro _ _ ⟨⟩
  exact Nat.le_refl _

include hP

/-- A chain goes on with fewer tokens behind every operator, so the induction is on the number of
operators that there can be. -/
theorem chainRest_readsWithin {ops : List Operator} {next : Reader} (hnext : ReadsWithin P n next)
    (fuel : Nat) (a : Value) : ReadsWithin P n (chainRest ops next fuel a) := by
  induction fuel generalizing a with
  | zero => exact .stop a
  | succ fuel ih =>
    intro tokens hlength
    unfold chainRest
    split
    · next op rest =>
      split
      · rw [List.length_cons] at hlength
        obtain ⟨hfails, hshorter⟩ := hnext rest (by omega)
        refine ⟨?_, fun v tail h => ?_⟩
        · refine .bind ((op.leftOperand_inValues a).mono hP) fun left => .bind_of hfails fun p hp => ?_
          have := hshorter p.1 p.2 hp
          exact .bind ((op.apply_inValues left p.1).mono hP) fun c => (ih c p.2 (by omega)).1
        · obtain ⟨left, -, h⟩ := bind_eq_ok h
          obtain ⟨p, hp, h⟩ := bind_eq_ok h
          obtain ⟨c, -, h⟩ := bind_eq_ok h
          have := hshorter p.1 p.2 hp
          have := (ih c p.2 (by omega)).2 v tail h
          rw [List.length_cons]
          omega
      · exact ReadsWithin.stop a _ hlength
    · exact ReadsWithin.stop a _ hlength

/-- The levels of an expression are chains in chains, down to the operands. -/
theorem expression_readsWithin {factor : Reader} (hfactor : ReadsWithin P n factor) :
    ReadsWithin P n (expression factor) := by
  suffices h : ∀ opss : List (List Operator), ReadsWithin P n (opss.foldr chain factor) from h levels
  intro opss
  induction opss with
  | nil => exact hfactor
  | cons ops opss ih =>
    intro tokens hlength
    obtain ⟨hfails, hshorter⟩ := ih tokens hlength
    refine ⟨.bind_of hfails fun p hp => ?_, fun v tail h => ?_⟩
    · have := hshorter p.1 p.2 hp
      exact (chainRest_readsWithin hP ih _ _ p.2 (by omega)).1
    · obtain ⟨p, hp, h⟩ := bind_eq_ok h
      have := hshorter p.1 p.2 hp
      have := (chainRest_readsWithin hP ih _ _ p.2 (by omega)).2 v tail h
      omega

/-- A sign fails where the operand behind it fails or is no number, and reads as far. -/
theorem ReadsWithin.signed {next : Reader} (hnext : ReadsWithin P n next) (sign : Sign) :
    ReadsWithin P n fun tokens => next tokens >>= fun p => return (← sign.apply p.1, p.2) := by
  intro tokens hlength
  obtain ⟨hfails, hshorter⟩ := hnext tokens hlength
  refine ⟨.bind hfails fun p => .bind ((sign.apply_inValues p.1).mono hP) fun _ => .ok _, ?_⟩
  intro a tail h
  obtain ⟨p, hp, h⟩ := bind_eq_ok h
  obtain ⟨b, -, h⟩ := bind_eq_ok h
  cases h
  exact hshorter p.1 p.2 hp

omit hP in
/-- What reads behind a token is given one token less. -/
theorem ReadsWithin.behind {next : Reader} (hnext : ReadsWithin P (n - 1) next) {token : Token}
    {rest : List Token} (hlength : (token :: rest).length < n) :
    FailsWith P (next rest) ∧
      ∀ a tail, next rest = .ok (a, tail) → tail.length ≤ (token :: rest).length := by
  rw [List.length_cons] at hlength ⊢
  obtain ⟨hfails, hshorter⟩ := hnext rest (by omega)
  exact ⟨hfails, fun a tail h => Nat.le_succ_of_le (hshorter a tail h)⟩

/-- What fails for values reads nothing. -/
theorem ReadsWithin.error {c : Cause} (hc : InValues c) : ReadsWithin P n fun _ => .error c := by
  refine fun _ _ => ⟨.error (hP c hc), ?_⟩
  rintro _ _ ⟨⟩

/-- The reader of operands fails with other causes only if it may be nested as deeply as there are
tokens, or if being nested too deeply is such a cause. -/
theorem factor_readsWithin (depth : Nat) (h : n ≤ depth ∨ P (.arithmetic .nestingTooDeep)) :
    ReadsWithin P n (factor depth) := by
  induction depth generalizing n with
  | zero =>
    refine fun tokens hlength => ⟨.error (h.resolve_left fun hn => ?_), ?_⟩
    · omega
    · rintro _ _ ⟨⟩
  | succ depth ih =>
    have hinner : ReadsWithin P (n - 1) (factor depth) := ih (h.imp_left fun hn => by omega)
    have hends : InValues .endOfExpression := ⟨rfl, by rintro ⟨⟩⟩
    have hunmatched : InValues .unmatchedParenthesis := ⟨rfl, by rintro ⟨⟩⟩
    have hmisplaced (text : String) : InValues (.misplaced text) := ⟨rfl, by rintro ⟨⟩⟩
    intro tokens hlength
    unfold factor
    split
    · exact ReadsWithin.error hP hends _ hlength
    · refine ⟨.ok _, ?_⟩
      rintro _ _ ⟨⟩
      exact Nat.le_succ _
    · exact (hinner.signed hP .minus).behind hlength
    · exact (hinner.signed hP .plus).behind hlength
    · obtain ⟨hfails, hshorter⟩ := (expression_readsWithin hP hinner).behind hlength
      refine ⟨.bind hfails fun p => ?_, fun v tail h => ?_⟩
      · dsimp only
        split
        · exact .error (hP _ hends)
        · exact .ok _
        · exact .error (hP _ hunmatched)
      · obtain ⟨⟨b, more⟩, hp, h⟩ := bind_eq_ok h
        have := hshorter b more hp
        dsimp only at h
        split at h <;> cases h
        exact Nat.le_of_succ_le this
    · exact ReadsWithin.error hP (hmisplaced _) _ hlength

/-- A list of tokens fails for values, or because something is nested too deeply, where that
can be. -/
theorem evalToText_failsWith {depth : Nat} {tokens : List Token}
    (h : tokens.length < depth ∨ P (.arithmetic .nestingTooDeep)) :
    FailsWith P (evalToText depth tokens) := by
  unfold evalToText
  split
  · exact .ok _
  · have hreads : ReadsWithin P (tokens.length + 1) (factor depth) := factor_readsWithin hP depth h
    have hfails := (expression_readsWithin hP hreads tokens (Nat.lt_succ_self _)).1
    refine .bind (.bind hfails fun p => ?_) fun a => a.write_inValues.mono hP
    dsimp only
    split
    · exact .ok _
    · exact .error (hP _ ⟨rfl, nofun⟩)

end

/-- An expression that cannot be computed is a failure of evaluation. -/
theorem evalToText_evaluationOnly (depth : Nat) (tokens : List Token) :
    EvaluationOnly (evalToText depth tokens) :=
  evalToText_failsWith (fun _ h => h.1) (.inr rfl)

/-- Nothing is nested more deeply than there are tokens. -/
theorem evalToText_ne_nestingTooDeep {depth : Nat} {tokens : List Token}
    (h : tokens.length < depth) : evalToText depth tokens ≠ .error (.arithmetic .nestingTooDeep) :=
  fun hdeep => (evalToText_failsWith (fun _ => id) (.inl h) _ hdeep).2 rfl

/-- The tokens of a tree that there is room for are not nested too deeply. -/
theorem evalToText_tokens_ne_nestingTooDeep {depth : Nat} {t : Tree (Value × String)}
    (hfits : t.Fits 0) (hnesting : t.nesting < depth) :
    evalToText depth t.tokens ≠ .error (.arithmetic .nestingTooDeep) := by
  have hdeeper : t.nesting < depth + t.tokens.length := Nat.lt_add_right _ hnesting
  rw [evalToText_tokens hfits hnesting, ← evalToText_tokens hfits hdeeper]
  exact evalToText_ne_nestingTooDeep (by omega)

/-! ## More room -/

/-- Where the first computation does not fail because something is nested too deeply, the second one
does the same. -/
def Agrees {α : Type} (x y : Except Cause α) : Prop :=
  x ≠ .error (.arithmetic .nestingTooDeep) → y = x

theorem Agrees.refl {α : Type} (x : Except Cause α) : Agrees x x :=
  fun _ => rfl

/-- Two steps in a row agree if each of them does, for the first one to fail is for both of them to
fail. -/
theorem Agrees.bind {α β : Type} {x y : Except Cause α} {f g : α → Except Cause β}
    (hx : Agrees x y) (hf : ∀ a, Agrees (f a) (g a)) : Agrees (x >>= f) (y >>= g) := by
  intro h
  cases x with
  | ok a =>
    rw [hx nofun]
    exact hf a h
  | error c => rw [hx fun hc => h (hc ▸ rfl), error_bind, error_bind]

/-- A chain agrees with one whose operands agree. -/
theorem chainRest_agrees {ops : List Operator} {f g : Reader}
    (h : ∀ tokens, Agrees (f tokens) (g tokens)) (fuel : Nat) (a : Value) (tokens : List Token) :
    Agrees (chainRest ops f fuel a tokens) (chainRest ops g fuel a tokens) := by
  induction fuel generalizing a tokens with
  | zero => exact .refl _
  | succ fuel ih =>
    unfold chainRest
    split
    · split
      · exact .bind (.refl _) fun left => .bind (h _) fun p => .bind (.refl _) fun c => ih c p.2
      · exact .refl _
    · exact .refl _

/-- And so does an expression, level by level. -/
theorem expression_agrees {f g : Reader} (h : ∀ tokens, Agrees (f tokens) (g tokens))
    (tokens : List Token) : Agrees (expression f tokens) (expression g tokens) := by
  suffices h : ∀ (opss : List (List Operator)) (tokens : List Token),
      Agrees (opss.foldr chain f tokens) (opss.foldr chain g tokens) from h levels tokens
  intro opss
  induction opss with
  | nil => exact h
  | cons ops opss ih => exact fun tokens => .bind (ih tokens) fun p => chainRest_agrees ih _ _ _

/-- What is in parentheses is read with one less level on both sides, so the induction is on the
levels of the first one. -/
theorem factor_agrees {n m : Nat} (h : n ≤ m) (tokens : List Token) :
    Agrees (factor n tokens) (factor m tokens) := by
  induction n generalizing m tokens with
  | zero => exact fun hdeep => absurd rfl hdeep
  | succ n ih =>
    obtain ⟨m, rfl⟩ := Nat.exists_eq_add_of_le' (Nat.le_trans (Nat.le_add_left 1 n) h)
    have hinner := fun tokens => ih (Nat.le_of_succ_le_succ h) tokens
    unfold factor
    split
    · exact .refl _
    · exact .refl _
    · exact .bind (hinner _) fun _ => .refl _
    · exact .bind (hinner _) fun _ => .refl _
    · exact .bind (expression_agrees hinner _) fun _ => .refl _
    · exact .refl _

/-- With more room, tokens that are not nested too deeply evaluate to the same or fail alike. -/
theorem evalToText_agrees {n m : Nat} (h : n ≤ m) (tokens : List Token) :
    Agrees (evalToText n tokens) (evalToText m tokens) := by
  unfold evalToText
  split
  · exact .refl _
  · exact .bind (.bind (expression_agrees (factor_agrees h) tokens) fun _ => .refl _) fun _ => .refl _

/-! ## Names -/

theorem Token.ofNumeral_evaluationOnly (negative : Bool) (n : Numeral) (text : String) :
    EvaluationOnly (Token.ofNumeral negative n text) :=
  .map ((numberOfNumeral_inValues negative n).mono fun _ h => h.1)

/-- A name whose text cannot be read as a number is a failure of evaluation. -/
theorem Token.ofText_evaluationOnly (s : String) : EvaluationOnly (Token.ofText s) := by
  unfold Token.ofText
  split
  · exact Token.ofNumeral_evaluationOnly _ _ _
  · exact .ok _

end XmlMacros.Expr
