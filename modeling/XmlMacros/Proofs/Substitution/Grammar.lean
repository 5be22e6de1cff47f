import XmlMacros.Proofs.Expr.Failure
import XmlMacros.Proofs.Expr.Literal
import XmlMacros.Proofs.Substitution.Cycle

/-!
# Expressions without names

An expression without names is evaluated without a look at the properties, and its record stays as
it was: the tokens are what the lexemes denote, or some lexeme denotes none (`tokensOf_nameFree`).
With the reader of `XmlMacros.Proofs.Expr.Grammar` this gives the value of every text that writes a
tree of the grammar, and shows that no other text has one (`evalExpr_grammar`).
-/

namespace XmlMacros.Substitution

open XmlMacros.Expr XmlMacros.Decimal

/-- Whether no name is met where a text is cut into lexemes. -/
def NameFree (expr : String) : Prop :=
  ∀ name, .name name ∉ (visibleLexemes expr.toList).1

/-! ## Tokens -/

section
variable (ctx : Context) (evalText : String → EvalM String) (e : Evaluation)

/-- The token of a lexeme that is neither white space nor a name is the one that the lexeme denotes.
If it denotes none, evaluation fails. -/
theorem tokenOf_visible {l : Lexeme} (hblank : l.isBlank = false) (hname : ∀ name, l ≠ .name name) :
    (∃ token, tokenOf ctx evalText l e = (.ok (some token), e) ∧ Denotes l token) ∨
      ∃ f, tokenOf ctx evalText l e = (.error (.fault f), e) ∧ f.kind = .evaluation ∧
        ∀ token, ¬Denotes l token := by
  cases l with
  | blank => cases hblank
  | name name => exact absurd rfl (hname name)
  | number n =>
    cases hx : numberOfNumeral false n with
    | ok x =>
      refine .inl ⟨_, ?_, .number hx⟩
      rw [tokenOf, Token.ofNumeral, hx]
      rfl
    | error c =>
      refine .inr ⟨{ cause := c }, ?_, (numberOfNumeral_inValues false n c hx).1, ?_⟩
      · rw [tokenOf, Token.ofNumeral, hx]
        rfl
      · rintro token ⟨hx'⟩
        rw [hx] at hx'
        cases hx'
  | quoted quote body => exact .inl ⟨_, rfl, .quoted quote body⟩
  | operator op => exact .inl ⟨_, rfl, .operator op⟩
  | leftParen => exact .inl ⟨_, rfl, .leftParen⟩
  | rightParen => exact .inl ⟨_, rfl, .rightParen⟩

/-- The tokens of lexemes without names are those that the lexemes denote, white space aside. If one
of them denotes none, evaluation fails. -/
theorem tokensOf_nameFree {ls : List Lexeme} (hnames : ∀ name, .name name ∉ ls) :
    (∃ tokens, tokensOf ctx evalText ls e = (.ok tokens, e) ∧
        List.Forall₂ Denotes (ls.filter (!·.isBlank)) tokens) ∨
      ∃ f, tokensOf ctx evalText ls e = (.error (.fault f), e) ∧ f.kind = .evaluation ∧
        ∃ l ∈ ls.filter (!·.isBlank), ∀ token, ¬Denotes l token := by
  induction ls with
  | nil => exact .inl ⟨[], rfl, .nil⟩
  | cons l ls ih =>
    have hl : ∀ name, l ≠ .name name := fun name hl => hnames name (hl ▸ List.mem_cons_self)
    have ih := ih fun name h => hnames name (List.mem_cons_of_mem _ h)
    have hrest : ∀ {head : Option Token}, tokenOf ctx evalText l e = (.ok head, e) →
        tokensOf ctx evalText (l :: ls) e
          = (do return head.toList ++ (← tokensOf ctx evalText ls)) e := fun h => bind_of_ok h
    cases hblank : l.isBlank with
    | true =>
      have hnone : tokenOf ctx evalText l e = (.ok none, e) := by
        cases l <;> first | rfl | cases hblank
      rw [List.filter_cons_of_neg (by simp [hblank]), hrest hnone]
      rcases ih with ⟨tokens, htokens, hdenotes⟩ | ⟨f, hf, hkind, hbad⟩
      · exact .inl ⟨tokens, bind_of_ok htokens, hdenotes⟩
      · exact .inr ⟨f, bind_of_error hf, hkind, hbad⟩
    | false =>
      rw [List.filter_cons_of_pos (by simp [hblank])]
      rcases tokenOf_visible ctx evalText e hblank hl with
        ⟨token, htoken, hdenotes⟩ | ⟨f, hf, hkind, hnone⟩
      · rw [hrest htoken]
        rcases ih with ⟨tokens, htokens, hall⟩ | ⟨f, hf, hkind, l', hl', hnone⟩
        · exact .inl ⟨token :: tokens, bind_of_ok htokens, .cons hdenotes hall⟩
        · exact .inr ⟨f, bind_of_error hf, hkind, l', List.mem_cons_of_mem _ hl', hnone⟩
      · exact .inr ⟨f, bind_of_error hf, hkind, l, List.mem_cons_self, hnone⟩

/-- The tokens of an expression without names are those that its lexemes denote, if the whole text
is cut into lexemes that denote any. If not, evaluation fails. -/
theorem tokenize_nameFree {expr : String} (h : NameFree expr) :
    (∃ tokens, tokenize ctx evalText expr e = (.ok tokens, e) ∧
        (visibleLexemes expr.toList).2 = [] ∧
        List.Forall₂ Denotes (visibleLexemes expr.toList).1 tokens) ∨
      ∃ f, tokenize ctx evalText expr e = (.error (.fault f), e) ∧ f.kind = .evaluation ∧
        ((visibleLexemes expr.toList).2 ≠ [] ∨
          ∃ l ∈ (visibleLexemes expr.toList).1, ∀ token, ¬Denotes l token) := by
  have hnames : ∀ name, .name name ∉ (lexemes expr.toList).1 := fun name hname =>
    h name (List.mem_filter.2 ⟨hname, rfl⟩)
  rcases tokensOf_nameFree ctx evalText e hnames with
    ⟨tokens, htokens, hdenotes⟩ | ⟨f, hf, hkind, hbad⟩
  · have hrun : tokenize ctx evalText expr e
        = (if (lexemes expr.toList).2.isEmpty then return tokens
          else fail (.invalidSyntax (String.ofList (lexemes expr.toList).2)) : EvalM _) e :=
      bind_of_ok htokens
    rw [hrun]
    cases hleft : (lexemes expr.toList).2 with
    | nil => exact .inl ⟨tokens, rfl, hleft, hdenotes⟩
    | cons c left => exact .inr ⟨_, rfl, rfl, .inl (by simp [visibleLexemes, hleft])⟩
  · exact .inr ⟨f, bind_of_error hf, hkind, .inr hbad⟩

end

/-! ## Expressions -/

section
variable {ctx : Context} {room : Nat} {expr : String} {e : Evaluation}

/-- What computing an expression gives is what evaluating it gives, up to the place of a fault. -/
theorem evalExpr_of_computeExpr (hactive : expr ∉ e.active) {r : Except Stop String}
    {uses : Array (String × Property)}
    (h : computeExpr ctx (room + 1) (evalTextWith ctx (evalExpr ctx room)) expr
        ⟨e.active ++ [expr], e.uses⟩ = (r, ⟨e.active ++ [expr], uses⟩)) :
    evalExpr ctx (room + 1) expr e
      = (r.mapError (·.orSuffix ("when evaluating expression '" ++ expr ++ "'")),
        ⟨e.active, uses⟩) := by
  rw [evalExpr_of_not_mem hactive]
  unfold whileActive
  rw [located_apply, h]
  simp

theorem evalExpr_of_fault (hactive : expr ∉ e.active) {f : Fault}
    (h : computeExpr ctx (room + 1) (evalTextWith ctx (evalExpr ctx room)) expr
        { e with active := e.active ++ [expr] }
      = (.error (.fault f), { e with active := e.active ++ [expr] })) :
    ∃ f', evalExpr ctx (room + 1) expr e = (.error (.fault f'), e) ∧ f'.kind = f.kind :=
  ⟨_, evalExpr_of_computeExpr hactive h, f.kind_orSuffix _⟩

/-- A text that writes a tree of the grammar is cut into the lexemes of the tree. -/
theorem visibleLexemes_of_tree {t : Expr.Tree Literal} {cs : List Char}
    (h : Spaced t.lexemes cs) :
    visibleLexemes cs = (t.lexemes, []) :=
  visibleLexemes_of_spaced h (fun _ => Expr.Tree.proper_of_mem_lexemes) t.lexemes_apart

/-- A text that writes a tree of the grammar evaluates to the text that the tree stands for. If the
tree has no value, evaluation fails. -/
theorem evalExpr_of_tree (hactive : expr ∉ e.active) {t : Expr.Tree Literal} (hfits : t.Fits 0)
    (hnesting : t.nesting < room + 1) (hspaced : Spaced t.lexemes expr.toList) :
    (∀ text, t.text = .ok text → evalExpr ctx (room + 1) expr e = (.ok text, e)) ∧
      ∀ c, t.text = .error c →
        ∃ f, evalExpr ctx (room + 1) expr e = (.error (.fault f), e) ∧ f.kind = .evaluation := by
  have hcut := visibleLexemes_of_tree hspaced
  have hnames : NameFree expr := by
    intro name hname
    rw [hcut] at hname
    exact Expr.Tree.proper_of_mem_lexemes hname
  rcases tokenize_nameFree ctx (evalTextWith ctx (evalExpr ctx room))
      { e with active := e.active ++ [expr] } hnames with
    ⟨tokens, htokens, -, hdenotes⟩ | ⟨f, hf, hkind, hbad⟩
  · rw [hcut] at hdenotes
    obtain ⟨t', halike, rfl⟩ := exists_tree_of_lexemes hdenotes
    have hfits' := (halike.fits_iff 0).1 hfits
    have hnesting' : t'.nesting < room + 1 := halike.nesting_eq ▸ hnesting
    have htext : evalToText (room + 1) t'.tokens = t.text := by
      rw [evalToText_tokens hfits' hnesting', halike.text_eq]
    have hrun := bind_of_ok htokens (f := valueWithin (room + 1))
    rw [valueWithin_of_ne (evalToText_tokens_ne_nestingTooDeep hfits' hnesting'), htext] at hrun
    constructor
    · intro text ht
      rw [ht] at hrun
      exact evalExpr_of_computeExpr hactive hrun
    · intro c ht
      rw [ht] at hrun htext
      obtain ⟨f, hf, hkind⟩ := evalExpr_of_fault hactive hrun
      exact ⟨f, hf, hkind.trans (evalToText_evaluationOnly _ _ c htext)⟩
  · -- Some lexeme denotes no token, so the tree has no value.
    obtain ⟨f', hf', hkind'⟩ := evalExpr_of_fault hactive (bind_of_error hf)
    refine ⟨fun text ht => ?_, fun c _ => ⟨f', hf', hkind'.trans hkind⟩⟩
    rw [hcut] at hbad
    rcases hbad with hleft | ⟨l, hl, hnone⟩
    · exact absurd rfl hleft
    · obtain ⟨v, hv, -⟩ := bind_eq_ok ht
      obtain ⟨token, htoken⟩ := Expr.Tree.denotes_of_mem_lexemes hv hl
      exact absurd htoken (hnone token)

/-- A text without names that evaluates to anything writes a tree of the grammar. -/
theorem exists_tree_of_evalExpr (hactive : expr ∉ e.active) (hnames : NameFree expr) {text : String}
    {e' : Evaluation} (h : evalExpr ctx (room + 1) expr e = (.ok text, e')) :
    ∃ t : Expr.Tree Literal,
      t.Fits 0 ∧ t.nesting < room + 1 ∧ Spaced t.lexemes expr.toList := by
  rcases tokenize_nameFree ctx (evalTextWith ctx (evalExpr ctx room))
      { e with active := e.active ++ [expr] } hnames with
    ⟨tokens, htokens, hleft, hdenotes⟩ | ⟨f, hf, -, -⟩
  · have hrun := bind_of_ok htokens (f := valueWithin (room + 1))
    cases hvalue : evalToText (room + 1) tokens with
    | error c =>
      obtain ⟨stop, hstop⟩ := exists_stop_of_evalToText hvalue
        { e with active := e.active ++ [expr] }
      rw [evalExpr_of_computeExpr hactive (hrun.trans hstop)] at h
      cases h
    | ok text' =>
      obtain ⟨t', hfits, hnesting, rfl⟩ := exists_tree_of_evalToText hvalue
      obtain ⟨hspaced, hlexemes⟩ := spaced_of_visibleLexemes (Prod.ext rfl hleft)
      have hproper : ∀ l ∈ (visibleLexemes expr.toList).1, l.Proper := by
        intro l hl
        rcases hlexemes l hl with ⟨name, rfl⟩ | hl
        · exact absurd hl (hnames name)
        · exact hl
      obtain ⟨t, halike, hls⟩ := exists_tree_of_tokens hproper hdenotes
      refine ⟨t, (halike.fits_iff 0).2 hfits, halike.nesting_eq ▸ hnesting, ?_⟩
      rwa [← hls]
  · obtain ⟨f', hf', -⟩ := evalExpr_of_fault hactive (bind_of_error hf)
    rw [hf'] at h
    cases h

end

/-- The evaluation of expressions implements the grammar. A text that writes a tree, with any white
space between its lexemes, evaluates to the text that the tree stands for, and if the tree has no
value, evaluation fails; and a text without names that evaluates to anything writes a tree. -/
theorem evalExpr_grammar (ctx : Context) (room : Nat) (expr : String) (e : Evaluation)
    (hactive : expr ∉ e.active) :
    (∀ t : Expr.Tree Literal, t.Fits 0 → t.nesting < room + 1 → Spaced t.lexemes expr.toList →
      (∀ text, t.text = .ok text → evalExpr ctx (room + 1) expr e = (.ok text, e)) ∧
        ∀ c, t.text = .error c →
          ∃ f, evalExpr ctx (room + 1) expr e = (.error (.fault f), e) ∧ f.kind = .evaluation) ∧
    (NameFree expr → ∀ text e', evalExpr ctx (room + 1) expr e = (.ok text, e') →
      ∃ t : Expr.Tree Literal,
        t.Fits 0 ∧ t.nesting < room + 1 ∧ Spaced t.lexemes expr.toList) :=
  ⟨fun _ hfits hnesting hspaced => evalExpr_of_tree hactive hfits hnesting hspaced,
    fun hnames _ _ h => exists_tree_of_evalExpr hactive hnames h⟩

/-- What expressions see where nothing is defined. -/
def bareContext : Context where
  scopes := Scopes.initial
  commands := standardCommands
  view := ⟨⟨∅, ∅, "/"⟩, ∅, none⟩
  limits := .usual

/-- The literal of one digit. -/
def digitLiteral (c : Char) (h : Text.isDigit c = true) : Literal :=
  .number ⟨[c], none, none⟩
    ⟨fun _ hd => List.mem_singleton.1 hd ▸ h, List.cons_ne_nil _ _, nofun⟩

/-- The tree of `1 + 2 * (3)`. -/
def sumTree : Expr.Tree Literal :=
  .binary .plus (.operand (digitLiteral '1' (by decide)))
    (.binary .times (.operand (digitLiteral '2' (by decide)))
      (.paren (.operand (digitLiteral '3' (by decide)))))

/-- The expression `1 +2* (3)` is the tree of a sum written with white space, and evaluates
to `7`. -/
theorem evalExpr_grammar_sum :
    Spaced sumTree.lexemes "1 +2* (3)".toList ∧
      evalExpr bareContext 2 "1 +2* (3)" .fresh = (.ok "7", .fresh) := by
  have hnone : ∀ c ∈ [], Text.isBlank c = true := List.forall_mem_nil _
  have hblank : ∀ c ∈ [' '], Text.isBlank c = true := List.forall_mem_singleton.2 rfl
  have hspaced : Spaced sumTree.lexemes "1 +2* (3)".toList :=
    .cons [] hnone _ <| .cons [' '] hblank _ <| .cons [] hnone _ <| .cons [] hnone _ <|
      .cons [' '] hblank _ <| .cons [] hnone _ <| .cons [] hnone _ <| .nil [] hnone
  have hfits : sumTree.Fits 0 := by simp [sumTree, Expr.Tree.Fits, Operator.level]
  have htext : sumTree.text = .ok "7" := by rfl
  have hgrammar := evalExpr_grammar bareContext 1 "1 +2* (3)" .fresh List.not_mem_nil
  exact ⟨hspaced, (hgrammar.1 sumTree hfits (by decide) hspaced).1 "7" htext⟩

end XmlMacros.Substitution
