import XmlMacros.Text.Quoted

/-!
# Faults

Why an evaluation or a directive fails. A `Cause` is a value that says what went wrong; its wording
is `Cause.headline`. A `Fault` adds to a cause what else is known where it is reported: the text
of the failure that it wraps, and a suffix that names the place. `Fault.message` joins the three.
-/

namespace XmlMacros

/-- Why a number could not be computed, converted or written. -/
inductive Arithmetic
  | infinityToInteger
  | undefinedToInteger
  /-- The remainder of an infinite dividend. -/
  | domain
  | quotientTooLarge
  | integerTooLarge
  /-- A numeral of an integer has more digits than may be read. -/
  | numeralTooLong (digits : Nat)
  /-- An integer has more digits than may be written. -/
  | integerTooLong
  | nestingTooDeep
deriving DecidableEq, Repr

/-- The largest number of digits of an integer that is read or written. -/
def digitLimit : Nat := 4300

/-- The wording of an arithmetic failure. -/
def Arithmetic.message : Arithmetic → String
  | .infinityToInteger => "cannot convert float infinity to integer"
  | .undefinedToInteger => "cannot convert float NaN to integer"
  | .domain => "math domain error"
  | .quotientTooLarge => "integer division result too large for a float"
  | .integerTooLarge => "int too large to convert to float"
  | .numeralTooLong digits =>
    "Exceeds the limit (" ++ toString digitLimit ++ " digits) for integer string conversion: "
      ++ "value has " ++ toString digits ++ " digits; "
      ++ "use sys.set_int_max_str_digits() to increase the limit"
  | .integerTooLong =>
    "Exceeds the limit (" ++ toString digitLimit ++ " digits) for integer string conversion; "
      ++ "use sys.set_int_max_str_digits() to increase the limit"
  | .nestingTooDeep => "maximum recursion depth exceeded"

/-- The families of faults. -/
inductive FaultKind
  | general
  | evaluation
  | missingParameter
  | cyclicReference
  | unknownCommand
  | unboundBlock
  | macroNotFound
  | includeFailure
  | unsupported
deriving DecidableEq, Repr

/-- What went wrong. -/
inductive Cause
  /-- A fault in words of its own, as an outside party reports it. -/
  | stated (kind : FaultKind) (text : Option String)
  | arithmetic (failure : Arithmetic)
  | invalidSyntax (rest : String)
  | misplaced (token : String)
  | unexpected (token : String)
  | endOfExpression
  | unmatchedParenthesis
  | notANumber (text : String)
  | divisionByZero
  | blockInExpression (name : String)
  | emptyCommand
  | commandFailed (command : String)
  | unknownCommand (name : String) (known : List String)
  | missingParameter (name : String)
  | cyclicReference (chain : List String)
  | undefinedBlock (name : String)
  | notABlock (name : String)
  | undefinedForward (name : String)
  | macroNotFound (name : String)
  | includeFailure (path : String)
  | unsupportedTag (tag : String)
  | missingAttribute (tag name : String)
  | unprocessedText (text : String)
deriving DecidableEq, Repr

/-- The family a cause belongs to. -/
def Cause.kind : Cause → FaultKind
  | .stated kind _ => kind
  | .arithmetic _ | .invalidSyntax _ | .misplaced _ | .unexpected _ | .endOfExpression
  | .unmatchedParenthesis | .notANumber _ | .divisionByZero | .blockInExpression _
  | .emptyCommand => .evaluation
  | .commandFailed _ | .undefinedForward _ | .missingAttribute _ _ | .unprocessedText _ => .general
  | .unknownCommand _ _ => .unknownCommand
  | .missingParameter _ => .missingParameter
  | .cyclicReference _ => .cyclicReference
  | .undefinedBlock _ | .notABlock _ => .unboundBlock
  | .macroNotFound _ => .macroNotFound
  | .includeFailure _ => .includeFailure
  | .unsupportedTag _ => .unsupported

/-- The text in double quotes, without escapes. -/
def inDoubleQuotes (s : String) : String :=
  "\"" ++ s ++ "\""

/-- The wording of a cause. -/
def Cause.headline : Cause → Option String
  | .stated _ text => text
  | .arithmetic failure => some failure.message
  | .invalidSyntax rest => some ("invalid syntax at " ++ inDoubleQuotes rest)
  | .misplaced token => some ("misplaced " ++ inDoubleQuotes token)
  | .unexpected token => some ("unexpected " ++ inDoubleQuotes token)
  | .endOfExpression => some "unexpected end of expression"
  | .unmatchedParenthesis => some "unmatched left paren"
  | .notANumber text => some (inDoubleQuotes text ++ " is not a number")
  | .divisionByZero => some "division by zero"
  | .blockInExpression name => some (inDoubleQuotes name ++ " is a block, not a value")
  | .emptyCommand => some "empty substitution command"
  | .commandFailed command => some ("substitution command " ++ inDoubleQuotes command ++ " failed:")
  | .unknownCommand name known =>
    some ("Unknown substitution command " ++ inDoubleQuotes name ++ ". Valid commands are "
      ++ Text.quotedList (known.mergeSort (fun a b => decide (a ≤ b))))
  | .missingParameter name => some ("Missing parameter " ++ inDoubleQuotes name)
  | .cyclicReference chain =>
    some ("Cannot evaluate infinitely recursive expression: " ++ " > ".intercalate chain)
  | .undefinedBlock name => some ("Undefined block " ++ inDoubleQuotes name)
  | .notABlock name => some (inDoubleQuotes name ++ " is not a block")
  | .undefinedForward name => some ("Undefined property to forward: " ++ name)
  | .macroNotFound name => some ("Cannot find macro " ++ inDoubleQuotes name)
  | .includeFailure path => some ("Could not load included file " ++ inDoubleQuotes path ++ ":")
  | .unsupportedTag tag => some (tag ++ " tags are not supported")
  | .missingAttribute tag name => some (tag ++ ": missing attribute " ++ inDoubleQuotes name)
  | .unprocessedText text => some ("Failed to process expression " ++ inDoubleQuotes text ++ ":")

/-- A cause with what is known about it where it is reported. -/
structure Fault where
  cause : Cause
  /-- The text of the failure that this one wraps. -/
  reason : Option String := none
  /-- The place, in words that follow the message. -/
  suffix : Option String := none
  /-- The names of the macros that were being instantiated. -/
  macros : List String := []
deriving DecidableEq, Repr

/-- The family a fault belongs to. -/
def Fault.kind (fault : Fault) : FaultKind :=
  fault.cause.kind

/-- The full text of a fault: headline, reason and suffix, as far as they are there, with blanks
between them. An empty headline or suffix counts as missing, an empty reason does not. -/
def Fault.message (fault : Fault) : String :=
  let spoken (text : Option String) : List String := text.toList.filter (· ≠ "")
  " ".intercalate (spoken fault.cause.headline ++ fault.reason.toList ++ spoken fault.suffix)

/-- The fault with a suffix, unless it has one already: the innermost place is kept. -/
def Fault.orSuffix (fault : Fault) (place : String) : Fault :=
  match fault.suffix with
  | some _ => fault
  | none => { fault with suffix := some place }

/-- A place does not change the family of a fault. -/
@[simp] theorem Fault.kind_orSuffix (fault : Fault) (place : String) :
    (fault.orSuffix place).kind = fault.kind := by
  unfold Fault.orSuffix
  split <;> rfl

end XmlMacros
