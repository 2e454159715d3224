import Assay.Toml.Token

/-!
# Dates and times of TOML

A date such as `1979-05-27`, a time of day such as `07:32:00`, or a date with a time of day after a
`T` or a blank. Only a time of day with a date may have an offset from universal time. Numbers have
a fixed number of digits, and the day has to be one of its month.
-/

namespace Assay.Toml

/-- A number of so many decimal digits. -/
def fixedNumber? (width : Nat) : Reader Nat := fun cs =>
  let (digits, rest) := cs.splitAt width
  if digits.length = width && digits.all Char.isDigit then some (Digits.number 10 digits, rest)
  else none

/-- What follows a mark. -/
def after? (mark : Char) : List Char → Option (List Char)
  | c :: rest => if c = mark then some rest else none
  | [] => none

def isLeapYear (year : Nat) : Bool := year % 4 = 0 && (year % 100 ≠ 0 || year % 400 = 0)

def monthDays (year month : Nat) : Nat :=
  if month = 2 then if isLeapYear year then 29 else 28
  else if month = 4 || month = 6 || month = 9 || month = 11 then 30
  else 31

/-- What follows a date. -/
def date? (cs : List Char) : Option (List Char) := do
  let (year, cs) ← fixedNumber? 4 cs
  let (month, cs) ← fixedNumber? 2 (← after? '-' cs)
  let (day, cs) ← fixedNumber? 2 (← after? '-' cs)
  if 1 ≤ month && month ≤ 12 && 1 ≤ day && day ≤ monthDays year month then some cs else none

/-- What follows hours and minutes. -/
def hoursMinutes? (cs : List Char) : Option (List Char) := do
  let (hour, cs) ← fixedNumber? 2 cs
  let (minute, cs) ← fixedNumber? 2 (← after? ':' cs)
  if hour < 24 && minute < 60 then some cs else none

/-- What follows a time of day. A minute may have a leap second. -/
def time? (cs : List Char) : Option (List Char) := do
  let (second, cs) ← fixedNumber? 2 (← after? ':' (← hoursMinutes? cs))
  if 60 < second then none
  match cs with
  | '.' :: rest =>
    let (fraction, rest) := rest.span Char.isDigit
    return if fraction.isEmpty then cs else rest
  | _ => return cs

/-- The text without the offset at its start, if it starts with one. -/
def skipOffset : List Char → List Char
  | 'Z' :: rest | 'z' :: rest => rest
  | '+' :: rest => (hoursMinutes? rest).getD ('+' :: rest)
  | '-' :: rest => (hoursMinutes? rest).getD ('-' :: rest)
  | cs => cs

/-- What follows a time of day after a date. -/
def timeAfterDate? : List Char → Option (List Char)
  | c :: rest => if c = 'T' || c = 't' || c = ' ' then skipOffset <$> time? rest else none
  | [] => none

/-- A date, a time of day or both, as they are written. -/
def dateTime? : Reader String := fun cs => do
  let rest ← match date? cs with
    | some rest => some ((timeAfterDate? rest).getD rest)
    | none => time? cs
  return (String.ofList (cs.take (cs.length - rest.length)), rest)

end Assay.Toml
