/-!
# Spans of a text

A text is cut into live spans `${…}` and `$(…)`, escapes, lone dollars and what lies between. A
run of two or more dollars in front of an opening bracket is an escape. A single dollar in front
of a bracket starts a live span if the bracket is closed and not empty. Every other dollar is
ordinary text. The cut loses nothing (`spans_chars`).
-/

namespace XmlMacros.Substitution

/-- A piece of a text. -/
inductive Span
  /-- Two or more dollars in front of an opening bracket; `extra` counts them from the second. -/
  | escape (extra : Nat) (bracket : Char)
  /-- An expression between braces. -/
  | expression (body : List Char)
  /-- A command between parentheses. -/
  | command (body : List Char)
  /-- Text that stands for itself. -/
  | plain (cs : List Char)
  /-- A dollar in front of a bracket that is not closed, or empty. -/
  | dollar
deriving DecidableEq, Repr

/-- The characters that a span is read from. -/
def Span.chars : Span → List Char
  | .escape extra bracket => List.replicate (extra + 1) '$' ++ [bracket]
  | .expression body => '$' :: '{' :: body ++ ['}']
  | .command body => '$' :: '(' :: body ++ [')']
  | .plain cs => cs
  | .dollar => ['$']

/-- Whether a text starts with an opening bracket, perhaps after some dollars. -/
def opensBracket (cs : List Char) : Bool :=
  match cs.dropWhile (· == '$') with
  | '{' :: _ => true
  | '(' :: _ => true
  | _ => false

/-- The longest part at the start of a text that stands for itself, and the rest. It ends before
the first run of dollars in front of an opening bracket. -/
def spanPlain : List Char → List Char × List Char
  | [] => ([], [])
  | c :: cs =>
    if c == '$' && opensBracket cs then ([], c :: cs)
    else
      let (run, rest) := spanPlain cs
      (c :: run, rest)

/-- The text up to a closing bracket and the text after it, if there is one and something stands
in front of it. -/
def scanBody? (close : Char) (cs : List Char) : Option (List Char × List Char) :=
  match cs.dropWhile (· != close) with
  | [] => none
  | _ :: rest =>
    let body := cs.takeWhile (· != close)
    if body.isEmpty then none else some (body, rest)

/-- Reads the span at the start of a text that starts with one dollar. `cs` is what follows it. -/
def scanDollar (cs : List Char) : Span × List Char :=
  match cs with
  | '{' :: rest =>
    match scanBody? '}' rest with
    | some (body, rest) => (.expression body, rest)
    | none => (.dollar, cs)
  | '(' :: rest =>
    match scanBody? ')' rest with
    | some (body, rest) => (.command body, rest)
    | none => (.dollar, cs)
  | '$' :: rest =>
    match rest.dropWhile (· == '$') with
    | bracket :: rest' =>
      if bracket == '{' || bracket == '(' then
        (.escape ((rest.takeWhile (· == '$')).length + 1) bracket, rest')
      else
        let (run, rest) := spanPlain cs
        (.plain ('$' :: run), rest)
    | [] => (.plain ('$' :: cs), [])
  | _ =>
    let (run, rest) := spanPlain cs
    (.plain ('$' :: run), rest)

/-- Reads the first span of a text. -/
def Span.scan? : List Char → Option (Span × List Char)
  | [] => none
  | c :: cs =>
    if c == '$' then some (scanDollar cs)
    else
      let (run, rest) := spanPlain cs
      some (.plain (c :: run), rest)

/-- A text is its beginning without a dollar sign and the rest. -/
theorem spanPlain_eq (cs : List Char) : (spanPlain cs).1 ++ (spanPlain cs).2 = cs := by
  induction cs with
  | nil => rfl
  | cons c cs ih => rw [spanPlain]; split <;> simp [ih]

/-- A body ends at the first bracket that closes it. -/
theorem scanBody?_eq_some {close : Char} {cs body rest : List Char}
    (h : scanBody? close cs = some (body, rest)) : cs = body ++ close :: rest := by
  have hcs := List.takeWhile_append_dropWhile (p := (· != close)) (l := cs)
  have hhead := List.head?_dropWhile_not (· != close) cs
  unfold scanBody? at h
  split at h
  · simp at h
  · rename_i c tail hd
    rw [hd] at hhead hcs
    simp only [List.head?_cons, bne_eq_false_iff_eq] at hhead
    subst hhead
    dsimp only at h
    split at h
    · simp at h
    · simp only [Option.some.injEq, Prod.mk.injEq] at h
      obtain ⟨rfl, rfl⟩ := h
      exact hcs.symm

theorem takeWhile_dollar_eq_replicate (cs : List Char) :
    cs.takeWhile (· == '$') = List.replicate (cs.takeWhile (· == '$')).length '$' := by
  induction cs with
  | nil => rfl
  | cons c cs ih =>
    rw [List.takeWhile_cons]
    split
    · rename_i h; simp only [beq_iff_eq] at h; subst h; simp [List.replicate_succ, ← ih]
    · rfl

/-- A dollar sign begins a span of at least one character, and no character is lost. -/
theorem scanDollar_eq (cs : List Char) :
    '$' :: cs = (scanDollar cs).1.chars ++ (scanDollar cs).2 ∧ (scanDollar cs).1.chars ≠ [] := by
  have hplain := spanPlain_eq cs
  unfold scanDollar
  split
  · split
    · rename_i h; simp [Span.chars, scanBody?_eq_some h]
    · simp [Span.chars]
  · split
    · rename_i h; simp [Span.chars, scanBody?_eq_some h]
    · simp [Span.chars]
  · rename_i rest
    split
    · rename_i bracket rest' hd
      split
      · have hcs := List.takeWhile_append_dropWhile (p := (· == '$')) (l := rest)
        rw [hd, takeWhile_dollar_eq_replicate] at hcs
        simp only [Span.chars, List.replicate_succ, List.cons_append, List.append_assoc,
          List.nil_append]
        exact ⟨by rw [hcs], by simp⟩
      · simp [Span.chars, hplain]
    · simp [Span.chars]
  · simp [Span.chars, hplain]

/-- A span is the start of the text it was read from, and it is not empty. -/
theorem Span.scan?_eq_some {cs rest : List Char} {s : Span} (h : Span.scan? cs = some (s, rest)) :
    cs = s.chars ++ rest ∧ s.chars ≠ [] := by
  unfold Span.scan? at h
  split at h
  · simp at h
  · rename_i c cs
    split at h
    · rename_i hc
      simp only [beq_iff_eq] at hc
      simp only [Option.some.injEq] at h
      have := scanDollar_eq cs
      rw [h] at this
      subst hc
      exact this
    · have := spanPlain_eq cs
      simp only [Option.some.injEq, Prod.mk.injEq] at h
      obtain ⟨rfl, rfl⟩ := h
      simp [Span.chars, this]

/-- Every span takes at least one character, which is why scanning ends. -/
theorem Span.length_lt_of_scan? {cs rest : List Char} {s : Span}
    (h : Span.scan? cs = some (s, rest)) : rest.length < cs.length := by
  obtain ⟨rfl, hne⟩ := Span.scan?_eq_some h
  have := List.length_pos_iff.2 hne
  simp only [List.length_append]
  omega

/-- Cuts a text into spans. -/
def spans (cs : List Char) : List Span :=
  match _h : Span.scan? cs with
  | none => []
  | some (s, rest) => s :: spans rest
termination_by cs.length
decreasing_by exact Span.length_lt_of_scan? _h

/-- An empty text has no spans. -/
theorem spans_nil : spans [] = [] := by
  rw [spans]; rfl

/-- The spans of a text are the first one and those of what is left. -/
theorem spans_of_scan? {cs rest : List Char} {s : Span} (h : Span.scan? cs = some (s, rest)) :
    spans cs = s :: spans rest := by
  rw [spans]; split <;> simp_all

/-- There is a first span unless the text is empty. -/
theorem Span.scan?_eq_none_iff {cs : List Char} : Span.scan? cs = none ↔ cs = [] := by
  cases cs with
  | nil => simp [Span.scan?]
  | cons c cs => simp only [Span.scan?]; split <;> simp

/-- The spans make up the whole text. -/
theorem spans_chars (cs : List Char) : ((spans cs).map Span.chars).flatten = cs := by
  match h : Span.scan? cs with
  | none => rw [Span.scan?_eq_none_iff.1 h, spans_nil]; rfl
  | some (s, rest) =>
    have ih := spans_chars rest
    rw [spans_of_scan? h]
    simp [ih, (Span.scan?_eq_some h).1]
termination_by cs.length
decreasing_by exact Span.length_lt_of_scan? h

end XmlMacros.Substitution
