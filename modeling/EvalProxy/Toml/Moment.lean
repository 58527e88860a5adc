/-
# Dates and times

Calendar dates, times of day and offsets from universal time, as configuration files write them. A
moment is a date, a time, or both, and with both it may have an offset.

Main definitions: `Moment`, `Moment.ofChars?`, `Moment.text`.
-/
import EvalProxy.Decimal.Shortest
namespace EvalProxy

/-- A day of the calendar. -/
structure Date where
  year : Nat
  month : Nat
  day : Nat

/-- A time of day; the second may be a leap second. -/
structure TimeOfDay where
  hour : Nat
  minute : Nat
  second : Nat
  nanosecond : Nat

/-- The distance from universal time: none, or a number of minutes. -/
inductive Offset where
  | universal
  | minutes (n : Int)

/-- A date, a time, or both; an offset goes with both only. -/
inductive Moment where
  | date (d : Date)
  | time (t : TimeOfDay)
  | both (d : Date) (t : TimeOfDay) (offset : Option Offset)

/-! ## The calendar -/

/-- Whether a year has a leap day. -/
def isLeapYear (year : Nat) : Bool := year % 4 == 0 && (year % 100 != 0 || year % 400 == 0)

/-- The number of days in a month. -/
def daysInMonth (year month : Nat) : Nat :=
  if month = 2 then if isLeapYear year then 29 else 28
  else if month = 4 || month = 6 || month = 9 || month = 11 then 30
  else 31

/-- Whether a date is in the calendar. -/
def Date.isValid (d : Date) : Bool :=
  1 ≤ d.month && d.month ≤ 12 && 1 ≤ d.day && d.day ≤ daysInMonth d.year d.month

/-- Whether a time is on the clock. -/
def TimeOfDay.isValid (t : TimeOfDay) : Bool := t.hour ≤ 23 && t.minute ≤ 59 && t.second ≤ 60

namespace Moment

/-! ## Reading -/

/-- The number that decimal digits spell. -/
def ofDigits (cs : List Char) : Nat := cs.foldl (fun n c => n * 10 + (c.toNat - 48)) 0

/-- The number in a given number of digits at the front of a text, and the rest. -/
def takeNumber? (width : Nat) (cs : List Char) : Option (Nat × List Char) :=
  let digits := cs.take width
  if digits.length = width && digits.all Char.isDigit then some (ofDigits digits, cs.drop width)
  else none

/-- A text behind a character. -/
def skip? (c : Char) : List Char → Option (List Char)
  | d :: rest => if c = d then some rest else none
  | [] => none

/-- A date at the front of a text, and the rest. -/
def takeDate? (cs : List Char) : Option (Date × List Char) := do
  let (year, cs) ← takeNumber? 4 cs
  let cs ← skip? '-' cs
  let (month, cs) ← takeNumber? 2 cs
  let cs ← skip? '-' cs
  let (day, cs) ← takeNumber? 2 cs
  let d : Date := ⟨year, month, day⟩
  if d.isValid then some (d, cs) else none

/-- The digits of a nanosecond that are kept. -/
def nanoPlaces : Nat := 9

/-- The fraction of a second behind its point, in nanoseconds; further digits are cut off. -/
def ofFraction (digits : List Char) : Nat :=
  let kept := digits.take nanoPlaces
  ofDigits kept * Nat.pow 10 (nanoPlaces - kept.length)

/-- A fraction of a second at the front of a text, if there is one, and the rest. -/
def takeFraction? (cs : List Char) : Option (Nat × List Char) :=
  match cs with
  | '.' :: rest =>
    let digits := rest.takeWhile Char.isDigit
    if digits.isEmpty then none else some (ofFraction digits, rest.drop digits.length)
  | _ => some (0, cs)

/-- A time at the front of a text, and the rest. -/
def takeTime? (cs : List Char) : Option (TimeOfDay × List Char) := do
  let (hour, cs) ← takeNumber? 2 cs
  let cs ← skip? ':' cs
  let (minute, cs) ← takeNumber? 2 cs
  let cs ← skip? ':' cs
  let (second, cs) ← takeNumber? 2 cs
  let (nanosecond, cs) ← takeFraction? cs
  let t : TimeOfDay := ⟨hour, minute, second, nanosecond⟩
  if t.isValid then some (t, cs) else none

/-- The offset that a text spells behind its sign. -/
def signedOffset? (negative : Bool) (cs : List Char) : Option Offset := do
  let (hours, cs) ← takeNumber? 2 cs
  let cs ← skip? ':' cs
  let (minutes, cs) ← takeNumber? 2 cs
  let total : Int := hours * 60 + minutes
  if hours ≤ 23 && minutes ≤ 59 && cs.isEmpty then
    some (.minutes (if negative then -total else total))
  else none

/-- The offset that a text spells; the empty text spells none. -/
def offset? (cs : List Char) : Option (Option Offset) :=
  match cs with
  | [] => some none
  | ['Z'] | ['z'] => some (some .universal)
  | '+' :: rest => (signedOffset? false rest).map some
  | '-' :: rest => (signedOffset? true rest).map some
  | _ => none

/-- Whether a character stands between a date and a time. -/
def isTimeMark (c : Char) : Bool := c == 'T' || c == 't' || c == ' '

/-- The moment that a whole text spells. -/
def ofChars? (cs : List Char) : Option Moment :=
  match takeDate? cs with
  | some (d, []) => some (.date d)
  | some (d, c :: rest) =>
    if isTimeMark c then do
      let (t, rest) ← takeTime? rest
      let offset ← offset? rest
      some (.both d t offset)
    else none
  | none =>
    match takeTime? cs with
    | some (t, []) => some (.time t)
    | _ => none

/-! ## Writing -/

/-- A number in at least `width` digits. -/
def padded (width n : Nat) : List Char :=
  let digits := Decimal.decimalDigits n
  List.replicate (width - digits.length) '0' ++ digits

/-- A date. -/
def dateChars (d : Date) : List Char :=
  padded 4 d.year ++ '-' :: padded 2 d.month ++ '-' :: padded 2 d.day

/-- A fraction of a second without zeros at its end. -/
def fractionChars (nanosecond : Nat) : List Char :=
  if nanosecond = 0 then []
  else '.' :: ((padded nanoPlaces nanosecond).reverse.dropWhile (· == '0')).reverse

/-- A time of day. -/
def timeChars (t : TimeOfDay) : List Char :=
  padded 2 t.hour ++ ':' :: padded 2 t.minute ++ ':' :: padded 2 t.second
    ++ fractionChars t.nanosecond

/-- An offset. -/
def offsetChars : Option Offset → List Char
  | none => []
  | some .universal => ['Z']
  | some (.minutes n) =>
    (if n < 0 then '-' else '+') :: padded 2 (n.natAbs / 60) ++ ':' :: padded 2 (n.natAbs % 60)

/-- A moment in its normal form. -/
def text : Moment → String
  | date d => String.ofList (dateChars d)
  | time t => String.ofList (timeChars t)
  | both d t offset => String.ofList (dateChars d ++ 'T' :: timeChars t ++ offsetChars offset)

end Moment

end EvalProxy
