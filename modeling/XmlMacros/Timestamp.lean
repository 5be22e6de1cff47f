/-!
# Timestamps

Dates, perhaps with a time of day and an offset from universal time, as configurations may hold
them.
-/

namespace XmlMacros

/-- A time of day. The offset from universal time is in minutes. -/
structure ClockTime where
  hour : Nat
  minute : Nat
  second : Nat
  microsecond : Nat
  offset : Option Int
deriving DecidableEq, Repr

/-- A date, perhaps with a time of day. -/
structure Timestamp where
  year : Nat
  month : Nat
  day : Nat
  time : Option ClockTime
deriving DecidableEq, Repr

namespace Timestamp

/-! ## Reading -/

/-- The number that some decimal digits denote. -/
def numberOf (digits : List Char) : Nat :=
  digits.foldl (fun n c => n * 10 + (c.toNat - '0'.toNat)) 0

/-- Reads a number of at least `least` and at most `most` digits. -/
def digits? (least most : Nat) (cs : List Char) : Option (Nat × List Char) :=
  let found := (cs.take most).takeWhile Char.isDigit
  if found.length < least then none else some (numberOf found, cs.drop found.length)

/-- Passes a character. -/
def mark? (c : Char) : List Char → Option (List Char)
  | [] => none
  | d :: rest => if d == c then some rest else none

/-- Passes what stands between a date and a time of day. -/
def timeMark? (cs : List Char) : Option (List Char) :=
  match cs with
  | 'T' :: rest | 't' :: rest => some rest
  | ' ' :: rest | '\t' :: rest => some (rest.dropWhile fun c => c == ' ' || c == '\t')
  | _ => none

/-- Reads an offset from universal time up to the end of the text. -/
def offset? (cs : List Char) : Option (Option Int) :=
  match cs.dropWhile fun c => c == ' ' || c == '\t' with
  | [] => if cs.isEmpty then some none else none
  | ['Z'] => some (some 0)
  | sign :: rest => do
    guard (sign == '+' || sign == '-')
    let (hours, rest) ← digits? 1 2 rest
    let minutes ← match rest with
      | [] => pure 0
      | ':' :: rest =>
        match digits? 2 2 rest with
        | some (minutes, []) => pure minutes
        | _ => none
      | _ => none
    let size : Int := hours * 60 + minutes
    return some (if sign == '-' then -size else size)

/-- Reads a fraction of a second in microseconds. Digits beyond those are dropped. -/
def fraction (cs : List Char) : Nat × List Char :=
  match cs with
  | '.' :: rest =>
    let found := rest.takeWhile Char.isDigit
    (numberOf ((found ++ List.replicate 6 '0').take 6), rest.drop found.length)
  | _ => (0, cs)

/-- Reads a timestamp. -/
def read? (cs : List Char) : Option Timestamp := do
  let (year, cs) ← digits? 4 4 cs
  let (month, cs) ← digits? 1 2 (← mark? '-' cs)
  let (day, cs) ← digits? 1 2 (← mark? '-' cs)
  if cs.isEmpty then return ⟨year, month, day, none⟩
  let cs ← timeMark? cs
  let (hour, cs) ← digits? 1 2 cs
  let (minute, cs) ← digits? 2 2 (← mark? ':' cs)
  let (second, cs) ← digits? 2 2 (← mark? ':' cs)
  let (microsecond, cs) := fraction cs
  return ⟨year, month, day, some ⟨hour, minute, second, microsecond, ← offset? cs⟩⟩

/-! ## The calendar -/

/-- Whether a year has a leap day. -/
def isLeap (year : Nat) : Bool :=
  year % 4 == 0 && (year % 100 != 0 || year % 400 == 0)

/-- The number of days of a month. -/
def daysIn (year month : Nat) : Nat :=
  if month == 2 then (if isLeap year then 29 else 28)
  else if [4, 6, 9, 11].contains month then 30
  else 31

/-- The number of days before a date, from the first year on. -/
def dayNumber (year month day : Nat) : Nat :=
  let years := year - 1
  let months := (List.range (month - 1)).map fun m => daysIn year (m + 1)
  years * 365 + years / 4 - years / 100 + years / 400 + months.foldl (· + ·) 0 + day

/-- The time of a clock in microseconds after midnight, in universal time if it has an offset. -/
def clockInstant (c : ClockTime) : Int :=
  (((c.hour * 60 + c.minute : Nat) - c.offset.getD 0) * 60 + c.second) * 1000000 + c.microsecond

/-- Whether two timestamps are the same moment. A date is never a moment of a day, and a time that
has an offset is never one that has none. -/
def isSameAs (s t : Timestamp) : Bool :=
  match s.time, t.time with
  | none, none => s == t
  | some a, some b =>
    let daysApart : Int := (dayNumber s.year s.month s.day : Int) - dayNumber t.year t.month t.day
    a.offset.isSome == b.offset.isSome && daysApart * 86400000000 + clockInstant a == clockInstant b
  | _, _ => false

/-- A span of minutes as it is shown inside of other values: days and seconds, of which only the
days may be negative. -/
def describeSpan (minutes : Int) : String :=
  let days := minutes.fdiv 1440
  let seconds := minutes.fmod 1440 * 60
  let parts := (if days == 0 then [] else ["days=" ++ toString days])
    ++ (if seconds == 0 then [] else ["seconds=" ++ toString seconds])
  "datetime.timedelta(" ++ ", ".intercalate parts ++ ")"

/-- What is wrong with a timestamp, if it is not in the calendar. Offsets are shorter than a day. -/
def fault? (t : Timestamp) : Option String :=
  let offset := (t.time.bind ClockTime.offset).getD 0
  let wrong : List (Bool × String) :=
    [(decide (1440 ≤ offset.natAbs),
        "offset must be a timedelta strictly between -timedelta(hours=24) and "
          ++ "timedelta(hours=24), not " ++ describeSpan offset ++ "."),
      (t.year == 0, "year 0 is out of range"),
      (t.month == 0 || 12 < t.month, "month must be in 1..12"),
      (t.day == 0 || daysIn t.year t.month < t.day, "day is out of range for month")]
      ++ match t.time with
        | none => []
        | some c =>
          [(23 < c.hour, "hour must be in 0..23"), (59 < c.minute, "minute must be in 0..59"),
            (59 < c.second, "second must be in 0..59")]
  (wrong.find? Prod.fst).map Prod.snd

/-! ## Writing -/

/-- A number with zeros in front of it. -/
def padded (width n : Nat) : String :=
  let digits := (toString n).toList
  String.ofList (List.replicate (width - digits.length) '0' ++ digits)

/-- An offset as hours and minutes. -/
def offsetText (minutes : Int) : String :=
  let size := minutes.natAbs
  (if minutes < 0 then "-" else "+") ++ padded 2 (size / 60) ++ ":" ++ padded 2 (size % 60)

/-- A timestamp as a text. -/
def toText (t : Timestamp) : String :=
  let date := padded 4 t.year ++ "-" ++ padded 2 t.month ++ "-" ++ padded 2 t.day
  match t.time with
  | none => date
  | some c =>
    date ++ " " ++ padded 2 c.hour ++ ":" ++ padded 2 c.minute ++ ":" ++ padded 2 c.second
      ++ (if c.microsecond == 0 then "" else "." ++ padded 6 c.microsecond)
      ++ (c.offset.map offsetText).getD ""

/-- A zone as it is shown inside of other values. -/
def describeOffset (minutes : Int) : String :=
  if minutes == 0 then "datetime.timezone.utc"
  else "datetime.timezone(" ++ describeSpan minutes ++ ")"

/-- A timestamp as it is shown inside of other values. -/
def describe (t : Timestamp) : String :=
  let shown (parts : List Nat) : List String := parts.map toString
  match t.time with
  | none => "datetime.date(" ++ ", ".intercalate (shown [t.year, t.month, t.day]) ++ ")"
  | some c =>
    let precise := if c.microsecond != 0 then [c.second, c.microsecond]
      else if c.second != 0 then [c.second] else []
    let parts := shown ([t.year, t.month, t.day, c.hour, c.minute] ++ precise)
      ++ (c.offset.map fun o => "tzinfo=" ++ describeOffset o).toList
    "datetime.datetime(" ++ ", ".intercalate parts ++ ")"

/-- The name of the sort of a timestamp in messages. -/
def sortName (t : Timestamp) : String :=
  if t.time.isSome then "datetime.datetime" else "datetime.date"

end Timestamp

end XmlMacros
