import XmlMacros.Mismatch

/-!
# The console

Where diagnostics go. Warnings are shown from verbosity 1 on, the property log from 3 on, errors
always. On a terminal lines are coloured, elsewhere they carry a word in front. A verbosity that
is not a number cannot be compared with these levels, which is an error.
-/

namespace XmlMacros

/-- How much is reported. -/
inductive Verbosity
  | level (x : Expr.Number)
  /-- A setting that is not a number. -/
  | incomparable (value : Datum)
deriving Repr

namespace Verbosity

/-- The verbosity of a whole number. -/
def ofInt (n : Int) : Verbosity := .level (.int n)

/-- The verbosity that a program starts with. -/
def standard : Verbosity := ofInt 1

/-- Whether the verbosity is below a level. -/
def isBelow (v : Verbosity) (n : Int) : Except Mismatch Bool :=
  match v with
  | .level (.int m) => .ok (m < n)
  | .level (.float x) => .ok (x < Float.ofInt n)
  | .incomparable value => .error (.verbosity value)

/-- Whether the verbosity is above a level. -/
def isAbove (v : Verbosity) (n : Int) : Except Mismatch Bool :=
  match v with
  | .level (.int m) => .ok (n < m)
  | .level (.float x) => .ok (Float.ofInt n < x)
  | .incomparable value => .error (.verbosity value)

end Verbosity

/-- The code of a colour. -/
def colorCode? : String → Option Nat
  | "red" => some 91
  | "yellow" => some 93
  | "cyan" => some 96
  | _ => none

/-- A message in a colour if it goes to a terminal, and with a word in front of it otherwise. There
is no answer for a colour that a terminal does not have. -/
def paint? (tty : Bool) (color mark : Option String) (message : String) : Option String :=
  let plain := (mark.getD "") ++ message
  match color with
  | none | some "" => some plain
  | some color =>
    if tty then
      (colorCode? color).map fun code => "\x1b[" ++ toString code ++ "m" ++ message ++ "\x1b[0m"
    else some plain

/-- The sorts of diagnostics. -/
inductive Channel
  | warning
  | error
  | debug
deriving DecidableEq, Repr

/-- The colour of a channel. -/
def Channel.color : Channel → String
  | .warning => "yellow"
  | .error => "red"
  | .debug => "cyan"

/-- The word in front of the lines of a channel. -/
def Channel.mark : Channel → Option String
  | .warning => some "warning: "
  | .error => some "error: "
  | .debug => none

/-- Whether a channel is shown. -/
def Channel.isShown (channel : Channel) (v : Verbosity) : Except Mismatch Bool :=
  match channel with
  | .warning => (v.isBelow 1).map not
  | .error => .ok true
  | .debug => (v.isBelow 3).map not

/-- What was written, and how much is reported. -/
structure Console where
  verbosity : Verbosity
  text : String

/-- A console on which nothing was written. -/
def Console.fresh : Console := ⟨.standard, ""⟩

/-- Writes a text. -/
def Console.write (c : Console) (s : String) : Console :=
  { c with text := c.text ++ s }

/-- Writes a message on a channel, if the channel is shown. -/
def Console.say (c : Console) (channel : Channel) (message : String) : Except Mismatch Console :=
  (channel.isShown c.verbosity).map fun
    | true => c.write ((channel.mark.getD "") ++ message ++ "\n")
    | false => c

end XmlMacros
