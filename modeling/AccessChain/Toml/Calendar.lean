/-! Dates and times of day, with the two ways in which reports write them: as in ISO 8601, and as a call
with the fields as arguments. -/
namespace AccessChain.Toml

structure Date where
  year : Nat
  month : Nat
  day : Nat
deriving DecidableEq

structure Time where
  hour : Nat
  minute : Nat
  second : Nat
  microsecond : Nat
deriving DecidableEq

/-- A point of the calendar or the clock; `offset` counts minutes from universal time. -/
inductive Moment where
  | date (day : Date)
  | time (clock : Time)
  | dateTime (day : Date) (clock : Time) (offset : Option Int)
deriving DecidableEq

namespace Date

def isLeap (year : Nat) : Bool := year % 4 == 0 && (year % 100 != 0 || year % 400 == 0)

def daysIn (year month : Nat) : Nat :=
  if month = 2 then if isLeap year then 29 else 28
  else if [4, 6, 9, 11].contains month then 30
  else 31

def isValid (date : Date) : Bool :=
  1 ≤ date.year && 1 ≤ date.month && date.month ≤ 12 && 1 ≤ date.day &&
    date.day ≤ daysIn date.year date.month

end Date

namespace Moment

def padded (width value : Nat) : String :=
  let digits := toString value
  String.ofList (List.replicate (width - digits.length) '0') ++ digits

def isoDate (day : Date) : String :=
  padded 4 day.year ++ "-" ++ padded 2 day.month ++ "-" ++ padded 2 day.day

def isoTime (clock : Time) : String :=
  padded 2 clock.hour ++ ":" ++ padded 2 clock.minute ++ ":" ++ padded 2 clock.second ++
    if clock.microsecond = 0 then "" else "." ++ padded 6 clock.microsecond

def isoOffset (minutes : Int) : String :=
  (if minutes < 0 then "-" else "+") ++ padded 2 (minutes.natAbs / 60) ++ ":" ++
    padded 2 (minutes.natAbs % 60)

def iso : Moment → String
  | .date day => isoDate day
  | .time clock => isoTime clock
  | .dateTime day clock offset =>
    isoDate day ++ " " ++ isoTime clock ++ (offset.map isoOffset).getD ""

def dateFields (day : Date) : List String :=
  [toString day.year, toString day.month, toString day.day]

def timeFields (clock : Time) : List String :=
  [toString clock.hour, toString clock.minute] ++
    if clock.microsecond ≠ 0 then [toString clock.second, toString clock.microsecond]
    else if clock.second ≠ 0 then [toString clock.second]
    else []

/-- A negative offset is written as a day less and the seconds left of it. -/
def offsetField (minutes : Int) : String :=
  if minutes = 0 then "tzinfo=datetime.timezone.utc"
  else
    let fields :=
      if minutes < 0 then "days=-1, seconds=" ++ toString (86400 + minutes * 60)
      else "seconds=" ++ toString (minutes * 60)
    "tzinfo=datetime.timezone(datetime.timedelta(" ++ fields ++ "))"

def call : Moment → String
  | .date day => "datetime.date(" ++ String.intercalate ", " (dateFields day) ++ ")"
  | .time clock => "datetime.time(" ++ String.intercalate ", " (timeFields clock) ++ ")"
  | .dateTime day clock offset =>
    "datetime.datetime(" ++
      String.intercalate ", " (dateFields day ++ timeFields clock ++ (offset.map offsetField).toList) ++ ")"

end Moment
end AccessChain.Toml
