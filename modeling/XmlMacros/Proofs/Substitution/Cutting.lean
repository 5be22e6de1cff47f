import XmlMacros.Proofs.Decimal.Numeral
import XmlMacros.Substitution.Span

/-!
# Where texts are cut into spans

`spans` takes one span after the other off a text. Told without it: a run of dollars in front of an
opening bracket starts an escape if there are two of them or more, and a live span if there is one
and the bracket is closed; up to the next such run a text is plain (`spanPlain`). Only the end of a
text matters to how what follows it is cut: if it does not end in a dollar, plain text goes on
behind it (`spanPlain_append`), and every span but a plain one at its end stays what it is
(`Span.Starts.append`).
-/

namespace XmlMacros.Substitution

/-! ## Dollars in front of brackets -/

/-- The character opens a span that a dollar stands in front of. -/
def IsOpening (c : Char) : Prop :=
  c = '{' ∨ c = '('

/-- An opening bracket is no dollar sign, so a run of dollar signs ends where it stands. -/
theorem IsOpening.ne_dollar {c : Char} (h : IsOpening c) : c ≠ '$' := by
  rcases h with rfl | rfl <;> decide

/-- A dollar sign more does not change whether a run of them leads up to a bracket. -/
theorem opensBracket_dollar (cs : List Char) : opensBracket ('$' :: cs) = opensBracket cs := by
  simp [opensBracket]

/-- Any other character decides by itself whether it is a bracket. -/
theorem opensBracket_of_ne {c : Char} (hc : c ≠ '$') (cs cs' : List Char) :
    opensBracket (c :: cs) = opensBracket (c :: cs') := by
  simp only [opensBracket, List.dropWhile_cons, beq_eq_false_iff_ne.2 hc]
  split <;> simp_all

/-- An opening bracket opens after no dollar sign at all. -/
theorem opensBracket_opening {c : Char} (hc : IsOpening c) (cs : List Char) :
    opensBracket (c :: cs) = true := by
  rcases hc with rfl | rfl <;> rfl

/-- Characters open a bracket exactly if they are a run of dollar signs, perhaps an empty one, and
an opening bracket after it. The induction is on the run. -/
theorem opensBracket_iff {cs : List Char} : opensBracket cs = true ↔
    ∃ n bracket rest, IsOpening bracket ∧ cs = List.replicate n '$' ++ bracket :: rest := by
  constructor
  · intro h
    induction cs with
    | nil => cases h
    | cons c cs ih =>
      by_cases hc : c = '$'
      · subst hc
        rw [opensBracket_dollar] at h
        obtain ⟨n, bracket, rest, hbracket, rfl⟩ := ih h
        exact ⟨n + 1, bracket, rest, hbracket, rfl⟩
      · rw [opensBracket, List.dropWhile_cons_of_neg (by simpa using hc)] at h
        refine ⟨0, c, cs, ?_, rfl⟩
        split at h
        · exact .inl (List.cons.inj ‹_›).1
        · exact .inr (List.cons.inj ‹_›).1
        · cases h
  · rintro ⟨n, bracket, rest, hbracket, rfl⟩
    induction n with
    | zero => exact opensBracket_opening hbracket rest
    | succ n ih => rwa [List.replicate_succ, List.cons_append, opensBracket_dollar]

/-- What follows a text does not matter to whether it opens a bracket, if it has other characters
than dollars. -/
theorem opensBracket_append {cs : List Char} (h : ∃ c ∈ cs, c ≠ '$') (rest : List Char) :
    opensBracket (cs ++ rest) = opensBracket cs := by
  induction cs with
  | nil => simp at h
  | cons c cs ih =>
    by_cases hc : c = '$'
    · subst hc
      have hcs : ∃ c ∈ cs, c ≠ '$' := by simpa using h
      rw [List.cons_append, opensBracket_dollar, opensBracket_dollar, ih hcs]
    · exact opensBracket_of_ne hc _ _

theorem getLast?_ne_of_cons {c d : Char} {cs : List Char} (h : (c :: cs).getLast? ≠ some d) :
    cs.getLast? ≠ some d := by
  cases cs with
  | nil => simp
  | cons => simpa using h

/-- A text that does not end in a dollar has another character. -/
theorem exists_ne_dollar {cs : List Char} (hne : cs ≠ []) (h : cs.getLast? ≠ some '$') :
    ∃ c ∈ cs, c ≠ '$' :=
  ⟨cs.getLast hne, List.getLast_mem hne, fun hc => h (by rw [List.getLast?_eq_some_getLast hne, hc])⟩

/-! ## Plain text -/

/-- Plain text stops in front of a dollar sign that leads up to a bracket. -/
theorem spanPlain_of_opens {cs : List Char} (h : opensBracket cs = true) :
    spanPlain ('$' :: cs) = ([], '$' :: cs) := by
  simp [spanPlain, h]

/-- Plain text goes on over any other character. -/
theorem spanPlain_cons {c : Char} {cs : List Char} (h : c ≠ '$' ∨ opensBracket cs = false) :
    spanPlain (c :: cs) = (c :: (spanPlain cs).1, (spanPlain cs).2) := by
  rw [spanPlain, if_neg]
  rcases h with h | h <;> simp [h]

/-- A character that is plain stays plain if more text follows, unless it is one of the dollars that
the text ends in. -/
theorem plain_append {c : Char} {cs : List Char} (h : c ≠ '$' ∨ opensBracket cs = false)
    (hlast : (c :: cs).getLast? ≠ some '$') (more : List Char) :
    c ≠ '$' ∨ opensBracket (cs ++ more) = false := by
  by_cases hc : c = '$'
  · subst hc
    have hne : cs ≠ [] := by
      rintro rfl
      exact hlast rfl
    rw [opensBracket_append (exists_ne_dollar hne (getLast?_ne_of_cons hlast))]
    exact h
  · exact .inl hc

/-- Plain text goes on behind a text that is plain and does not end in a dollar; what ends it in a
text ends it there whatever follows. -/
theorem spanPlain_append {cs : List Char} (hlast : cs.getLast? ≠ some '$') (more : List Char) :
    spanPlain (cs ++ more) =
      if (spanPlain cs).2 = [] then (cs ++ (spanPlain more).1, (spanPlain more).2)
      else ((spanPlain cs).1, (spanPlain cs).2 ++ more) := by
  induction cs with
  | nil => simp [spanPlain]
  | cons c cs ih =>
    by_cases hplain : c ≠ '$' ∨ opensBracket cs = false
    · rw [List.cons_append, spanPlain_cons (plain_append hplain hlast more), spanPlain_cons hplain,
        ih (getLast?_ne_of_cons hlast)]
      split <;> simp
    · rw [not_or, not_not, Bool.not_eq_false] at hplain
      obtain ⟨rfl, hopens⟩ := hplain
      have hopens' : opensBracket (cs ++ more) = true := by
        obtain ⟨n, bracket, rest, hbracket, rfl⟩ := opensBracket_iff.1 hopens
        exact opensBracket_iff.2 ⟨n, bracket, rest ++ more, hbracket, by simp⟩
      rw [List.cons_append, spanPlain_of_opens hopens', spanPlain_of_opens hopens]
      simp

/-- A text of dollars is plain. -/
theorem spanPlain_replicate (n : Nat) :
    spanPlain (List.replicate n '$') = (List.replicate n '$', []) := by
  have hcloses (n : Nat) : opensBracket (List.replicate n '$') = false := by
    induction n with
    | zero => rfl
    | succ n ih => rwa [List.replicate_succ, opensBracket_dollar]
  induction n with
  | zero => rfl
  | succ n ih => rw [List.replicate_succ, spanPlain_cons (.inr (hcloses n)), ih]

/-! ## The first span -/

/-- The bracket that closes a span. -/
def closing (bracket : Char) : Char :=
  if bracket = '{' then '}' else ')'

/-- How the first span of a text is read, and what is left of the text. -/
inductive Span.Starts : List Char → Span → List Char → Prop
  | escape (extra : Nat) {bracket : Char} (h : IsOpening bracket) (rest : List Char) :
    Starts (List.replicate (extra + 2) '$' ++ bracket :: rest) (.escape (extra + 1) bracket) rest
  | expression {body : List Char} (hne : body ≠ []) (hbody : '}' ∉ body) (rest : List Char) :
    Starts ('$' :: '{' :: (body ++ '}' :: rest)) (.expression body) rest
  | command {body : List Char} (hne : body ≠ []) (hbody : ')' ∉ body) (rest : List Char) :
    Starts ('$' :: '(' :: (body ++ ')' :: rest)) (.command body) rest
  | plain {c : Char} {cs : List Char} (h : c ≠ '$' ∨ opensBracket cs = false) :
    Starts (c :: cs) (.plain (c :: (spanPlain cs).1)) (spanPlain cs).2
  | dollar {bracket : Char} (h : IsOpening bracket) {rest : List Char}
    (hbody : scanBody? (closing bracket) rest = none) :
    Starts ('$' :: bracket :: rest) .dollar (bracket :: rest)

/-- A body is scanned exactly if it is not empty and ends at the first closing bracket. -/
theorem scanBody?_eq_some_iff {close : Char} {cs body rest : List Char} :
    scanBody? close cs = some (body, rest) ↔
      body ≠ [] ∧ close ∉ body ∧ cs = body ++ close :: rest := by
  constructor
  · intro h
    have hcs := scanBody?_eq_some h
    unfold scanBody? at h
    split at h
    · cases h
    · dsimp only at h
      split at h
      · cases h
      · rename_i hne
        cases h
        refine ⟨by simpa using hne, fun hmem => ?_, hcs⟩
        simpa using List.mem_takeWhile_imp hmem
  · rintro ⟨hne, hclose, rfl⟩
    have hbody : ∀ c ∈ body, (c != close) = true := by
      intro c hc
      rw [bne_iff_ne]
      rintro rfl
      exact hclose hc
    have hend : ∀ c ∈ (close :: rest).head?, (c != close) = false := by
      rintro c ⟨⟩
      exact bne_self_eq_false close
    rw [scanBody?, Text.dropWhile_append_of_boundary hbody hend,
      Text.takeWhile_append_of_boundary hbody hend]
    simp [hne]

/-- The first span is scanned as its description says, case by case. -/
theorem Span.Starts.scan?_eq {cs rest : List Char} {s : Span} (h : Span.Starts cs s rest) :
    Span.scan? cs = some (s, rest) := by
  cases h with
  | @escape extra bracket h =>
    have hdollars : ∀ c ∈ List.replicate extra '$', (c == '$') = true := by simp [List.mem_replicate]
    have hend : ∀ c ∈ (bracket :: rest).head?, (c == '$') = false := by
      rintro c ⟨⟩
      simpa using h.ne_dollar
    have hopening : (bracket == '{' || bracket == '(') = true := by
      rcases h with rfl | rfl <;> rfl
    simp only [List.replicate_succ, List.cons_append, Span.scan?, scanDollar,
      Text.dropWhile_append_of_boundary hdollars hend,
      Text.takeWhile_append_of_boundary hdollars hend]
    simp [hopening]
  | expression hne hbody =>
    simp [Span.scan?, scanDollar, scanBody?_eq_some_iff.2 ⟨hne, hbody, rfl⟩]
  | command hne hbody =>
    simp [Span.scan?, scanDollar, scanBody?_eq_some_iff.2 ⟨hne, hbody, rfl⟩]
  | @plain c cs h =>
    by_cases hc : c = '$'
    · subst hc
      have hcs : opensBracket cs = false := h.resolve_left fun h => h rfl
      show some (scanDollar cs) = _
      congr 1
      unfold scanDollar
      split
      · cases hcs
      · cases hcs
      · rename_i rest
        split
        · rename_i bracket rest' hdrop
          rw [if_neg]
          intro hopening
          rw [opensBracket_dollar, opensBracket, hdrop] at hcs
          split at hcs <;> simp_all
        · rename_i hdrop
          have hall := List.takeWhile_append_dropWhile (p := (· == '$')) (l := rest)
          rw [hdrop, List.append_nil, takeWhile_dollar_eq_replicate] at hall
          have hrest := spanPlain_replicate ((rest.takeWhile (· == '$')).length + 1)
          rw [List.replicate_succ, hall] at hrest
          rw [hrest]
      · rfl
    · simp [Span.scan?, hc]
  | @dollar bracket h rest hbody =>
    rcases h with rfl | rfl
    · have hbody : scanBody? '}' rest = none := hbody
      simp [Span.scan?, scanDollar, hbody]
    · have hbody : scanBody? ')' rest = none := hbody
      simp [Span.scan?, scanDollar, hbody]

/-- Text that is not empty starts with some span: the cases of `Span.Starts` leave nothing out. -/
theorem Span.exists_starts {cs : List Char} (hne : cs ≠ []) : ∃ s rest, Span.Starts cs s rest := by
  obtain ⟨c, cs, rfl⟩ := List.exists_cons_of_ne_nil hne
  by_cases hplain : c ≠ '$' ∨ opensBracket cs = false
  · exact ⟨_, _, .plain hplain⟩
  · rw [not_or, not_not, Bool.not_eq_false] at hplain
    obtain ⟨rfl, hopens⟩ := hplain
    obtain ⟨n, bracket, tail, hbracket, rfl⟩ := opensBracket_iff.1 hopens
    cases n with
    | succ n => exact ⟨_, _, .escape n hbracket tail⟩
    | zero =>
      cases hbody : scanBody? (closing bracket) tail with
      | none => exact ⟨_, _, .dollar hbracket hbody⟩
      | some found =>
        obtain ⟨body, rest⟩ := found
        obtain ⟨hfilled, hclosed, rfl⟩ := scanBody?_eq_some_iff.1 hbody
        rcases hbracket with rfl | rfl
        · exact ⟨_, _, .expression hfilled hclosed rest⟩
        · exact ⟨_, _, .command hfilled hclosed rest⟩

/-- The span that is read first is the one that starts the text. -/
theorem Span.scan?_eq_some_iff {cs rest : List Char} {s : Span} :
    Span.scan? cs = some (s, rest) ↔ Span.Starts cs s rest := by
  refine ⟨fun h => ?_, fun h => h.scan?_eq⟩
  have hne : cs ≠ [] := by
    rintro rfl
    cases h
  obtain ⟨s', rest', hstarts⟩ := Span.exists_starts hne
  cases hstarts.scan?_eq.symm.trans h
  exact hstarts

/-- A span stays what it is whatever follows the text, unless it is a lone dollar, or plain text at
the end. -/
theorem Span.Starts.append {cs rest : List Char} {s : Span} (h : Span.Starts cs s rest)
    (hdollar : s ≠ .dollar) (hplain : rest ≠ [] ∨ ∀ run, s ≠ .plain run)
    (hlast : cs.getLast? ≠ some '$') (more : List Char) :
    Span.Starts (cs ++ more) s (rest ++ more) := by
  cases h with
  | escape extra hbracket =>
    rw [List.append_assoc]
    exact .escape extra hbracket _
  | expression hne hbody =>
    simpa using Span.Starts.expression hne hbody (rest ++ more)
  | command hne hbody =>
    simpa using Span.Starts.command hne hbody (rest ++ more)
  | @plain c cs h =>
    have hrest : (spanPlain cs).2 ≠ [] := hplain.resolve_right fun h => h _ rfl
    have hspan := spanPlain_append (getLast?_ne_of_cons hlast) more
    rw [if_neg hrest] at hspan
    have := Span.Starts.plain (plain_append h hlast more)
    rwa [hspan] at this
  | dollar => exact absurd rfl hdollar

end XmlMacros.Substitution
