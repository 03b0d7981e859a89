import DecoderForge.Json.Token

/-!
# DecoderForge — dates and times as text

* `Moment.isDate` — a day of the calendar as year, month and day.
* `Moment.isDateTime` — a day, a time of day and an offset.
-/

namespace DecoderForge.Moment

/-- The number that so many digits at the front stand for, and the rest. -/
def readNumber? (count : Nat) (s : List Char) : Option (Nat × List Char) :=
  let ds := s.take count
  if ds.length == count && ds.all Json.Token.isDigit then
    some (Json.Token.digitsValue (ds.map Json.Token.digitValue), s.drop count)
  else none

/-- What follows a character at the front. -/
def dropChar? (c : Char) : List Char → Option (List Char)
  | d :: rest => if d == c then some rest else none
  | [] => none

/-! ## Calendar -/

def isLeapYear (year : Nat) : Bool := year % 4 == 0 && (year % 25 != 0 || year % 16 == 0)

/-- The number of days of a month. -/
def daysInMonth (year month : Nat) : Nat :=
  match month with
  | 2 => if isLeapYear year then 29 else 28
  | 4 | 6 | 9 | 11 => 30
  | _ => 31

/-- A day of the calendar. -/
structure Day where
  year : Nat
  month : Nat
  day : Nat
deriving DecidableEq, Repr

namespace Day

/-- Whether the calendar has the day. -/
def isReal (d : Day) : Bool :=
  1 ≤ d.month && d.month ≤ 12 && 1 ≤ d.day && d.day ≤ daysInMonth d.year d.month

/-- Whether the next day begins a month. -/
def endsMonth (d : Day) : Bool := d.day == daysInMonth d.year d.month

/-- The day before; `none` where a year would be negative. -/
def previous (d : Day) : Option Day :=
  if d.day > 1 then some { d with day := d.day - 1 }
  else if d.month > 1 then some ⟨d.year, d.month - 1, daysInMonth d.year (d.month - 1)⟩
  else if d.year > 0 then some ⟨d.year - 1, 12, 31⟩
  else none

end Day

/-- The day at the front of a text, and the rest. -/
def readDay? (s : List Char) : Option (Day × List Char) := do
  let (year, s) ← readNumber? 4 s
  let s ← dropChar? '-' s
  let (month, s) ← readNumber? 2 s
  let s ← dropChar? '-' s
  let (day, s) ← readNumber? 2 s
  let d : Day := ⟨year, month, day⟩
  if d.isReal then some (d, s) else none

/-- Whether a text is a day; a sign may stand before the year. -/
def isDate (s : List Char) : Bool :=
  let unsigned := match s with
    | c :: rest => if c == '+' || c == '-' then rest else s
    | [] => s
  match readDay? unsigned with
  | some (_, rest) => rest.isEmpty
  | none => false

/-! ## Times -/

/-- A time of day. -/
structure Clock where
  hour : Nat
  minute : Nat
  second : Nat
deriving DecidableEq, Repr

/-- The time of day at the front of a text, and the rest; a fraction of the second may follow. -/
def readClock? (s : List Char) : Option (Clock × List Char) := do
  let (hour, s) ← readNumber? 2 s
  let s ← dropChar? ':' s
  let (minute, s) ← readNumber? 2 s
  let s ← dropChar? ':' s
  let (second, s) ← readNumber? 2 s
  if hour > 23 || minute > 59 || second > 60 then none
  else
    match s with
    | '.' :: d :: rest =>
      if Json.Token.isDigit d then some (⟨hour, minute, second⟩, rest.dropWhile Json.Token.isDigit)
      else none
    | '.' :: [] => none
    | s => some (⟨hour, minute, second⟩, s)

/-- The offset from universal time in minutes that a text stands for. -/
def readOffset? (s : List Char) : Option Int :=
  match s with
  | ['Z'] | ['z'] => some 0
  | sign :: s => do
    let (hour, s) ← readNumber? 2 s
    let s ← dropChar? ':' s
    let (minute, s) ← readNumber? 2 s
    if hour > 23 || minute > 59 || !s.isEmpty then none
    else
      let n : Int := hour * 60 + minute
      if sign == '+' then some n else if sign == '-' then some (-n) else none
  | [] => none

/-- Whether a sixtieth second can stand there: in universal time it follows the last second of a
month. -/
def allowsLeapSecond (d : Day) (c : Clock) (offset : Int) : Bool :=
  let minutes : Int := c.hour * 60 + c.minute - offset
  if minutes == 23 * 60 + 59 then d.endsMonth
  else minutes == -1 && (d.previous).any Day.endsMonth

/-- Whether a text is a day and a time of day with any character between, and an offset. -/
def isDateTime (s : List Char) : Bool :=
  match readDay? s with
  | some (d, separator :: s) =>
    match readClock? s with
    | some (c, s) =>
      match readOffset? s with
      | some offset =>
        separator.toNat < 0x80 && (c.second < 60 || allowsLeapSecond d c offset)
      | none => false
    | none => false
  | _ => false

end DecoderForge.Moment
