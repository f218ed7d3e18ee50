namespace Regression

/-- A time of day in a zone that lies `zone` minutes before or after Greenwich. -/
structure Clock where
  year : Nat
  month : Nat
  day : Nat
  hour : Nat
  minute : Nat
  second : Nat
  zone : Int := 0
  deriving DecidableEq, Repr

namespace Clock

def digits (width n : Nat) : String :=
  let s := toString n
  String.ofList (List.replicate (width - s.length) '0') ++ s

/-- The day of the week, Sunday as 0. January and February count as the end of the year before. -/
def weekday (c : Clock) : Nat :=
  let shifts := [0, 3, 2, 5, 0, 3, 5, 1, 4, 6, 2, 4]
  let y := if c.month < 3 then c.year - 1 else c.year
  (y + y / 4 - y / 100 + y / 400 + shifts.getD (c.month - 1) 0 + c.day) % 7

def dayNames : List String := ["Sun", "Mon", "Tue", "Wed", "Thu", "Fri", "Sat"]

def monthNames : List String :=
  ["Jan", "Feb", "Mar", "Apr", "May", "Jun", "Jul", "Aug", "Sep", "Oct", "Nov", "Dec"]

/-- The zone by its distance, since zones have no names here. -/
def zoneText (c : Clock) : String :=
  if c.zone = 0 then "UTC"
  else
    let n := c.zone.natAbs
    "UTC" ++ (if c.zone < 0 then "-" else "+") ++ digits 2 (n / 60) ++ ":" ++ digits 2 (n % 60)

/-- The stamp of a started command, as in `Tue Mar 05 14:02:09 UTC 2024`. -/
def startStamp (c : Clock) : String :=
  dayNames.getD c.weekday "" ++ " " ++ monthNames.getD (c.month - 1) "" ++ " " ++ digits 2 c.day ++
    " " ++ digits 2 c.hour ++ ":" ++ digits 2 c.minute ++ ":" ++ digits 2 c.second ++ " " ++
    c.zoneText ++ " " ++ digits 4 c.year

/-- The stamp of a run, as in `240305.140209`. -/
def runStamp (c : Clock) : String :=
  digits 2 (c.year % 100) ++ digits 2 c.month ++ digits 2 c.day ++ "." ++ digits 2 c.hour ++
    digits 2 c.minute ++ digits 2 c.second

end Clock

end Regression
