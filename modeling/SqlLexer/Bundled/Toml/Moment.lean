import SqlLexer.Bundled.Toml.Number

/-!
# Dates and times of a document

A date, a time, or both joined, in which case an offset from universal time may follow.  The
seconds may be left out.
-/

namespace SqlLexer.Toml.Moment

/-- The number written by exactly `count` decimal digits. -/
def digits (count : Nat) : Reader Nat := do
  let text ← (List.replicate count ()).mapM fun _ => Reader.any
  Reader.require (text.all Number.isDecimal)
  return Number.valueOf 10 text

/-- Every fourth year is a leap year, save those centuries that four hundred does not divide. -/
def isLeapYear (year : Nat) : Bool :=
  year % 4 == 0 && (year % 100 != 0 || year % 400 == 0)

def daysIn (year month : Nat) : Nat :=
  if month == 2 then if isLeapYear year then 29 else 28
  else if [4, 6, 9, 11].contains month then 30
  else 31

def date : Reader Unit := do
  let year ← digits 4
  Reader.expect ['-']
  let month ← digits 2
  Reader.expect ['-']
  let day ← digits 2
  Reader.require (1 ≤ month && month ≤ 12 && 1 ≤ day && day ≤ daysIn year month)

def fraction : Reader Unit := do
  if ← Reader.accept ['.'] then
    Reader.require !(← Reader.span Number.isDecimal).isEmpty

/-- A time of the day; a minute may have a leap second. -/
def time : Reader Unit := do
  Reader.require ((← digits 2) ≤ 23)
  Reader.expect [':']
  Reader.require ((← digits 2) ≤ 59)
  if ← Reader.accept [':'] then
    Reader.require ((← digits 2) ≤ 60)
    fraction

/-- An offset from universal time, if one stands next. -/
def offset : Reader Unit := do
  match ← Reader.next? with
  | some 'Z' | some 'z' => let _ ← Reader.any
  | some '+' | some '-' =>
    let _ ← Reader.any
    Reader.require ((← digits 2) ≤ 23)
    Reader.expect [':']
    Reader.require ((← digits 2) ≤ 59)
  | _ => pure ()

/-- A date, with a time after a letter or a single space. -/
def dated : Reader Unit := do
  date
  match ← Reader.next? with
  | some 'T' | some 't' | some ' ' =>
    let _ ← Reader.any
    time
    offset
  | _ => pure ()

def isMoment (text : List Char) : Bool :=
  (Reader.readAll? dated text).isSome || (Reader.readAll? time text).isSome

end SqlLexer.Toml.Moment
