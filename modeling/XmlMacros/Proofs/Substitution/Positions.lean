import XmlMacros.Proofs.Substitution.Escaping

/-!
# Where live spans stand

Cutting a text goes on to its end, loses nothing and gives no empty span. Where a live span starts
is told from the text alone, but for the live spans before it (`standsAt_opened_iff`): at a dollar
that no other dollar stands in front of, with an opening bracket behind it that is closed later, and
not at once.

The induction is along the spans. What a span is read from holds no other start of a live span
(`Span.Starts.opensSpan_iff`), and behind it the text can be looked at alone
(`Span.Starts.opensSpan_add`): no span ends in a dollar where the next one starts with one, so the
dollars of a run are never parted.

It is not enough that the bracket is closed somewhere later (`not_spans_recognise`): the first
closing bracket ends a span, and a span that it would leave empty is none.
-/

namespace XmlMacros.Substitution

variable {cs rest : List Char} {s : Span} {bracket : Char}

/-! ## Positions -/

/-- Whether the span is live and its bracket is this one. -/
def Span.OpenedBy (bracket : Char) : Span → Prop
  | .expression _ => bracket = '{'
  | .command _ => bracket = '('
  | .escape _ _ | .plain _ | .dollar => False

/-- The span stands at a position of the text that the spans make up. -/
def StandsAt (ss : List Span) (p : Nat) (s : Span) : Prop :=
  ∃ before after, ss = before ++ s :: after ∧ (before.map Span.chars).flatten.length = p

/-- The position is inside of a live span that starts before it. -/
def InsideLive (ss : List Span) (p : Nat) : Prop :=
  ∃ q s, StandsAt ss q s ∧ s.IsLive ∧ q < p ∧ p < q + s.chars.length

/-- At the position stands a dollar, not behind another one, and then an opening bracket, which is
closed by a later character other than the very next one. -/
def OpensAt (cs : List Char) (p : Nat) (bracket : Char) : Prop :=
  (cs.take p).getLast? ≠ some '$' ∧
    ∃ rest, cs.drop p = '$' :: bracket :: rest ∧ closing bracket ∈ rest.tail

/-- The bracket is not closed by the very next character either. -/
def OpensSpan (cs : List Char) (p : Nat) (bracket : Char) : Prop :=
  OpensAt cs p bracket ∧ cs[p + 2]? ≠ some (closing bracket)

/-- What comes of reading one span after the other, and what is left where none is read. -/
inductive ReadsSpans : List Char → List Span → List Char → Prop
  | done {cs : List Char} (h : Span.scan? cs = none) : ReadsSpans cs [] cs
  | next {cs rest left : List Char} {s : Span} {ss : List Span}
    (h : Span.scan? cs = some (s, rest)) (hrest : ReadsSpans rest ss left) :
    ReadsSpans cs (s :: ss) left

theorem not_standsAt_nil {p : Nat} : ¬ StandsAt [] p s := by
  rintro ⟨before, after, h, -⟩
  simp at h

/-- A span stands at the start, or at a position among the later spans, which begin where the first
one ends. -/
theorem standsAt_cons_iff {ss : List Span} {p : Nat} {t : Span} :
    StandsAt (s :: ss) p t ↔
      (p = 0 ∧ t = s) ∨ ∃ q, p = s.chars.length + q ∧ StandsAt ss q t := by
  constructor
  · rintro ⟨_ | ⟨_, before⟩, after, h, rfl⟩
    · cases h
      exact .inl ⟨rfl, rfl⟩
    · cases h
      exact .inr ⟨_, by simp, before, after, rfl, rfl⟩
  · rintro (⟨rfl, rfl⟩ | ⟨q, rfl, before, after, rfl, rfl⟩)
    · exact ⟨[], ss, rfl, rfl⟩
    · exact ⟨s :: before, after, rfl, by simp⟩

/-- A position is inside of the first span if that is live, or inside of a later one. -/
theorem insideLive_cons_iff {ss : List Span} {p : Nat} :
    InsideLive (s :: ss) p ↔
      (s.IsLive ∧ 0 < p ∧ p < s.chars.length) ∨
        ∃ q, p = s.chars.length + q ∧ InsideLive ss q := by
  constructor
  · rintro ⟨q, t, hstands, hlive, hstart, hend⟩
    rcases standsAt_cons_iff.1 hstands with ⟨rfl, rfl⟩ | ⟨q, rfl, hrest⟩
    · exact .inl ⟨hlive, hstart, by omega⟩
    · exact .inr ⟨p - s.chars.length, by omega, q, t, hrest, hlive, by omega, by omega⟩
  · rintro (⟨hlive, hstart, hend⟩ | ⟨p, rfl, q, t, hstands, hlive, hstart, hend⟩)
    · exact ⟨0, s, standsAt_cons_iff.2 (.inl ⟨rfl, rfl⟩), hlive, hstart, by omega⟩
    · exact ⟨_, t, standsAt_cons_iff.2 (.inr ⟨q, rfl, hstands⟩), hlive, by omega, by omega⟩

/-! ## Plain text -/

/-- No dollar in plain text has an opening bracket behind it. -/
theorem opensBracket_of_drop_spanPlain {p : Nat} {tail : List Char}
    (hp : p < (spanPlain cs).1.length) (h : cs.drop p = '$' :: tail) :
    opensBracket tail = false := by
  induction cs generalizing p with
  | nil => simp at h
  | cons c cs ih =>
    by_cases hplain : c ≠ '$' ∨ opensBracket cs = false
    · rw [spanPlain_cons hplain] at hp
      cases p with
      | zero =>
        cases h
        exact hplain.resolve_left fun h => h rfl
      | succ p => exact ih (by simpa using hp) h
    · rw [not_or, not_not, Bool.not_eq_false] at hplain
      obtain ⟨rfl, hopens⟩ := hplain
      rw [spanPlain_of_opens hopens] at hp
      cases hp

/-- Plain text that more text follows does not end in a dollar. -/
theorem getLast?_spanPlain {c : Char} (h : c ≠ '$' ∨ opensBracket cs = false)
    (hrest : (spanPlain cs).2 ≠ []) : (c :: (spanPlain cs).1).getLast? ≠ some '$' := by
  induction cs generalizing c with
  | nil => exact absurd rfl hrest
  | cons d cs ih =>
    by_cases hplain : d ≠ '$' ∨ opensBracket cs = false
    · rw [spanPlain_cons hplain] at hrest ⊢
      rw [List.getLast?_cons_cons]
      exact ih hplain hrest
    · rw [not_or, not_not, Bool.not_eq_false] at hplain
      obtain ⟨rfl, hopens⟩ := hplain
      rw [opensBracket_dollar, hopens] at h
      rw [spanPlain_of_opens hopens]
      simpa using h

/-! ## One span -/

/-- A closing bracket somewhere behind the first character, which is none itself, ends a body. -/
theorem exists_scanBody?_of_mem_tail {close : Char} {tail : List Char} (hmem : close ∈ tail.tail)
    (hhead : tail.head? ≠ some close) : ∃ found, scanBody? close tail = some found := by
  obtain ⟨body, rest, rfl, hbody⟩ := List.eq_append_cons_of_mem (List.mem_of_mem_tail hmem)
  have hne : body ≠ [] := by
    rintro rfl
    exact hhead rfl
  exact ⟨_, scanBody?_eq_some_iff.2 ⟨hne, hbody, rfl⟩⟩

/-- The text from the first character of a body on opens a span. -/
theorem opensSpan_zero {body : List Char} (hne : body ≠ []) (hbody : closing bracket ∉ body) :
    OpensSpan ('$' :: bracket :: (body ++ closing bracket :: rest)) 0 bracket := by
  obtain ⟨c, body, rfl⟩ := List.exists_cons_of_ne_nil hne
  refine ⟨⟨by simp, _, rfl, by simp⟩, ?_⟩
  have hc : c ≠ closing bracket := by
    rintro rfl
    exact hbody List.mem_cons_self
  simpa using hc

/-- What opens at a dollar sign in front is told by the character behind it. -/
theorem OpensSpan.bracket_eq {c : Char} {tail : List Char} (h : OpensSpan ('$' :: c :: tail) 0 bracket) :
    bracket = c ∧ closing bracket ∈ tail.tail ∧ tail.head? ≠ some (closing bracket) := by
  obtain ⟨⟨-, rest, hdrop, hclosed⟩, hfilled⟩ := h
  cases hdrop
  exact ⟨rfl, hclosed, by simpa [List.head?_eq_getElem?] using hfilled⟩

/-- In what a span is read from, a live span opens at its start if the span is one, and nowhere else
but inside of a live span. -/
theorem Span.Starts.opensSpan_iff (h : Span.Starts cs s rest) (hbracket : IsOpening bracket)
    {p : Nat}
    (hp : p < s.chars.length) (hlive : s.IsLive → p = 0) :
    OpensSpan cs p bracket ↔ p = 0 ∧ s.OpenedBy bracket := by
  cases h with
  | @escape extra c hc rest =>
    refine iff_of_false ?_ fun h => h.2
    rintro ⟨⟨hlast, tail, hdrop, -⟩, -⟩
    cases p with
    | zero =>
      obtain ⟨-, h⟩ := List.cons.inj hdrop
      exact hbracket.ne_dollar (List.cons.inj h).1.symm
    | succ p =>
      have hdollars : p + 1 ≤ extra + 2 := by
        simp [Span.chars] at hp
        omega
      rw [List.take_append_of_le_length (by simpa using hdollars), List.take_replicate,
        Nat.min_eq_left hdollars, List.getLast?_replicate] at hlast
      exact hlast rfl
  | expression hne hbody =>
    cases hlive trivial
    refine ⟨fun h => ⟨rfl, h.bracket_eq.1⟩, ?_⟩
    rintro ⟨-, rfl⟩
    exact opensSpan_zero hne hbody
  | command hne hbody =>
    cases hlive trivial
    refine ⟨fun h => ⟨rfl, h.bracket_eq.1⟩, ?_⟩
    rintro ⟨-, rfl⟩
    exact opensSpan_zero hne hbody
  | @plain c cs hplain =>
    refine iff_of_false ?_ fun h => h.2
    rintro ⟨⟨-, tail, hdrop, -⟩, -⟩
    have hcloses : opensBracket (bracket :: tail) = false := by
      cases p with
      | zero =>
        cases hdrop
        exact hplain.resolve_left fun h => h rfl
      | succ p => exact opensBracket_of_drop_spanPlain (Nat.lt_of_succ_lt_succ hp) hdrop
    rw [opensBracket_opening hbracket] at hcloses
    cases hcloses
  | @dollar c hc rest hbody =>
    refine iff_of_false (fun h => ?_) fun h => h.2
    cases Nat.lt_one_iff.1 hp
    obtain ⟨rfl, hclosed, hfilled⟩ := h.bracket_eq
    obtain ⟨found, hfound⟩ := exists_scanBody?_of_mem_tail hclosed hfilled
    rw [hbody] at hfound
    cases hfound

/-- No run of dollars is parted. -/
theorem Span.Starts.getLast?_ne_dollar (h : Span.Starts cs s rest) (hrest : rest.head? = some '$') :
    s.chars.getLast? ≠ some '$' := by
  cases h with
  | escape extra hc => simpa [Span.chars] using hc.ne_dollar
  | expression => simp [Span.chars, List.getLast?_cons, List.getLast?_append]
  | command => simp [Span.chars, List.getLast?_cons, List.getLast?_append]
  | plain hplain =>
    refine getLast?_spanPlain hplain ?_
    intro h
    rw [h] at hrest
    cases hrest
  | dollar hc => exact absurd (Option.some.inj hrest) hc.ne_dollar

/-- Behind a span, live spans open where they do in the rest of the text. -/
theorem Span.Starts.opensSpan_add (h : Span.Starts cs s rest) (q : Nat) :
    OpensSpan cs (s.chars.length + q) bracket ↔ OpensSpan rest q bracket := by
  obtain ⟨hcs, -⟩ := Span.scan?_eq_some h.scan?_eq
  have hlast (hhead : (rest.drop q).head? = some '$') :
      (cs.take (s.chars.length + q)).getLast? ≠ some '$' ↔ (rest.take q).getLast? ≠ some '$' := by
    rw [hcs, List.take_length_add_append, List.getLast?_append]
    cases q with
    | zero => simpa using h.getLast?_ne_dollar hhead
    | succ q =>
      cases rest with
      | nil => simp at hhead
      | cons c rest => simp [List.take_succ_cons, List.getLast?_cons]
  have hdrop : cs.drop (s.chars.length + q) = rest.drop q := by
    rw [hcs, List.drop_length_add_append]
  have hget : cs[s.chars.length + q + 2]? = rest[q + 2]? := by
    rw [hcs, Nat.add_assoc, List.getElem?_append_right (Nat.le_add_right _ _),
      Nat.add_sub_cancel_left]
  unfold OpensSpan OpensAt
  rw [hdrop, hget]
  refine and_congr_left fun _ => ?_
  constructor
  · rintro ⟨hne, tail, htail, hclosed⟩
    exact ⟨(hlast (by rw [htail]; rfl)).1 hne, tail, htail, hclosed⟩
  · rintro ⟨hne, tail, htail, hclosed⟩
    exact ⟨(hlast (by rw [htail]; rfl)).2 hne, tail, htail, hclosed⟩

/-! ## All spans -/

/-- A live span starts at a position exactly if one opens there and the position is not inside of a
live span before it. -/
theorem standsAt_opened_iff (hbracket : IsOpening bracket) (cs : List Char) (p : Nat) :
    (∃ s, StandsAt (spans cs) p s ∧ s.OpenedBy bracket) ↔
      ¬ InsideLive (spans cs) p ∧ OpensSpan cs p bracket := by
  by_cases hne : cs = []
  · subst hne
    rw [spans_nil]
    refine iff_of_false ?_ ?_
    · rintro ⟨s, hstands, -⟩
      exact not_standsAt_nil hstands
    · rintro ⟨-, ⟨-, tail, hdrop, -⟩, -⟩
      simp at hdrop
  obtain ⟨s, rest, hstarts⟩ := Span.exists_starts hne
  have hscan := hstarts.scan?_eq
  have hshorter := Span.length_lt_of_scan? hscan
  rw [spans_of_scan? hscan]
  simp only [standsAt_cons_iff, insideLive_cons_iff]
  by_cases hp : p < s.chars.length
  · -- The position belongs to the first span.
    have hlater (q : Nat) : p ≠ s.chars.length + q := by omega
    by_cases hinside : s.IsLive ∧ 0 < p
    · have hstart : p ≠ 0 := by omega
      simp [hlater, hinside, hp, hstart]
    · have hzero : s.IsLive → p = 0 := fun h => by
        by_contra hstart
        exact hinside ⟨h, by omega⟩
      rw [hstarts.opensSpan_iff hbracket hp hzero]
      simp [hlater, ← and_assoc, hinside]
  · -- The position belongs to the spans behind it.
    obtain ⟨q, rfl⟩ := Nat.exists_eq_add_of_le (Nat.le_of_not_lt hp)
    have ih := standsAt_opened_iff hbracket rest q
    have hne := (Span.scan?_eq_some hscan).2
    rw [hstarts.opensSpan_add]
    simpa [hne] using ih
termination_by cs.length

/-! ## Reading to the end -/

/-- A text is read span by span until nothing is left. -/
theorem readsSpans_spans (cs : List Char) : ReadsSpans cs (spans cs) [] := by
  cases hscan : Span.scan? cs with
  | none =>
    cases Span.scan?_eq_none_iff.1 hscan
    rw [spans_nil]
    exact .done hscan
  | some found =>
    have hshorter := Span.length_lt_of_scan? hscan
    rw [spans_of_scan? hscan]
    exact .next hscan (readsSpans_spans found.2)
termination_by cs.length

/-- Whichever way spans are read one after the other, these are read and nothing is left. -/
theorem readsSpans_iff {ss : List Span} {left : List Char} :
    ReadsSpans cs ss left ↔ ss = spans cs ∧ left = [] := by
  constructor
  · intro h
    induction h with
    | done hscan =>
      cases Span.scan?_eq_none_iff.1 hscan
      exact ⟨spans_nil.symm, rfl⟩
    | next hscan _ ih => exact ⟨by rw [ih.1, spans_of_scan? hscan], ih.2⟩
  · rintro ⟨rfl, rfl⟩
    exact readsSpans_spans cs

/-- Every span that is read has characters. -/
theorem ReadsSpans.chars_ne_nil {ss : List Span} {left : List Char} (h : ReadsSpans cs ss left) :
    ∀ s ∈ ss, s.chars ≠ [] := by
  induction h with
  | done => exact List.forall_mem_nil _
  | next hscan _ ih => exact List.forall_mem_cons.2 ⟨(Span.scan?_eq_some hscan).2, ih⟩

theorem exists_openedBy_brace {ss : List Span} {p : Nat} :
    (∃ s, StandsAt ss p s ∧ s.OpenedBy '{') ↔ ∃ body, StandsAt ss p (.expression body) := by
  constructor
  · rintro ⟨s, hstands, hopened⟩
    cases s with
    | expression body => exact ⟨body, hstands⟩
    | command => exact absurd hopened (by decide : '{' ≠ '(')
    | escape | plain | dollar => exact hopened.elim
  · rintro ⟨body, hstands⟩
    exact ⟨_, hstands, rfl⟩

theorem exists_openedBy_paren {ss : List Span} {p : Nat} :
    (∃ s, StandsAt ss p s ∧ s.OpenedBy '(') ↔ ∃ body, StandsAt ss p (.command body) := by
  constructor
  · rintro ⟨s, hstands, hopened⟩
    cases s with
    | command body => exact ⟨body, hstands⟩
    | expression => exact absurd hopened (by decide : '(' ≠ '{')
    | escape | plain | dollar => exact hopened.elim
  · rintro ⟨body, hstands⟩
    exact ⟨_, hstands, rfl⟩

/-- Cutting loses nothing and recognises exactly the live spans. Reading one span after the other
ends with nothing left over, no span is empty, and together they are the text. An expression starts
at the positions, outside of live spans before, where a dollar that no dollar stands in front of has
a brace behind it that is closed later and not by the very next character, and where this one does
not close it either; a command starts likewise where there is a parenthesis. -/
theorem spans_recognise (cs : List Char) :
    (∀ ss left, ReadsSpans cs ss left ↔ ss = spans cs ∧ left = []) ∧
    ((spans cs).map Span.chars).flatten = cs ∧
    (∀ s ∈ spans cs, s.chars ≠ []) ∧
    ∀ p,
      ((∃ body, StandsAt (spans cs) p (.expression body)) ↔
        ¬ InsideLive (spans cs) p ∧ OpensAt cs p '{' ∧ cs[p + 2]? ≠ some '}') ∧
      ((∃ body, StandsAt (spans cs) p (.command body)) ↔
        ¬ InsideLive (spans cs) p ∧ OpensAt cs p '(' ∧ cs[p + 2]? ≠ some ')') := by
  refine ⟨fun _ _ => readsSpans_iff, spans_chars cs, (readsSpans_spans cs).chars_ne_nil,
    fun p => ⟨?_, ?_⟩⟩
  · exact exists_openedBy_brace.symm.trans (standsAt_opened_iff (.inl rfl) cs p)
  · exact exists_openedBy_paren.symm.trans (standsAt_opened_iff (.inr rfl) cs p)

/-- It is not enough that a brace is closed by a later character other than the very next one: no
expression is read of a dollar, an opening brace and two closing ones, as the first of these leaves
it empty. -/
theorem not_spans_recognise :
    ¬ ∀ (cs : List Char) (p : Nat), (∃ body, StandsAt (spans cs) p (.expression body)) ↔
      ¬ InsideLive (spans cs) p ∧ OpensAt cs p '{' := by
  intro h
  have hopens : OpensAt ['$', '{', '}', '}'] 0 '{' := ⟨by simp, ['}', '}'], rfl, by decide⟩
  have houtside : ¬ InsideLive (spans ['$', '{', '}', '}']) 0 := by
    rintro ⟨q, s, -, -, hq, -⟩
    exact Nat.not_lt_zero q hq
  have hstands := exists_openedBy_brace.2 ((h _ 0).2 ⟨houtside, hopens⟩)
  obtain ⟨-, -, hfilled⟩ := (standsAt_opened_iff (.inl rfl) _ 0).1 hstands
  exact hfilled rfl

end XmlMacros.Substitution
