import AccountGroups.Text.Basic

/-!
# Instants of universal time

A day of the proleptic Gregorian calendar, a second of that day, and nanoseconds. The nanoseconds
reach `10 ^ 9` in a leap second, which is written as second 60.
-/

namespace AccountGroups

structure Instant where
  year : Int
  month : Nat
  day : Nat
  second : Nat
  nano : Nat
  deriving DecidableEq

namespace Instant

open Text

def isLeapYear (year : Int) : Bool := year % 4 == 0 && (year % 100 != 0 || year % 400 == 0)

def daysIn (year : Int) (month : Nat) : Nat :=
  if month == 2 then (if isLeapYear year then 29 else 28)
  else if month == 4 || month == 6 || month == 9 || month == 11 then 30
  else 31

def nextDay (i : Instant) : Instant :=
  if i.day < daysIn i.year i.month then { i with day := i.day + 1 }
  else if i.month < 12 then { i with month := i.month + 1, day := 1 }
  else { i with year := i.year + 1, month := 1, day := 1 }

def previousDay (i : Instant) : Instant :=
  if 1 < i.day then { i with day := i.day - 1 }
  else if 1 < i.month then
    { i with month := i.month - 1, day := daysIn i.year (i.month - 1) }
  else { i with year := i.year - 1, month := 12, day := 31 }

/-- A year outside `0 … 9999` has a sign. -/
def yearText (year : Int) : List Char :=
  if 0 ≤ year ∧ year ≤ 9999 then padded 4 year.toNat
  else (if year < 0 then '-' else '+') :: padded 4 year.natAbs

def dateText (i : Instant) : List Char :=
  yearText i.year ++ '-' :: padded 2 i.month ++ '-' :: padded 2 i.day

/-- A fraction has three, six or nine digits, and none when it is zero. -/
def fractionText (nano : Nat) : List Char :=
  if nano = 0 then []
  else if nano % 1000000 = 0 then '.' :: padded 3 (nano / 1000000)
  else if nano % 1000 = 0 then '.' :: padded 6 (nano / 1000)
  else '.' :: padded 9 nano

def timeText (i : Instant) : List Char :=
  let leap := i.nano / 1000000000
  padded 2 (i.second / 3600) ++ ':' :: padded 2 (i.second / 60 % 60) ++ ':' ::
    padded 2 (i.second % 60 + leap) ++ fractionText (i.nano % 1000000000)

/-- The instant as messages write it. -/
def display (i : Instant) : String :=
  String.ofList (dateText i ++ ' ' :: timeText i ++ [' ', 'U', 'T', 'C'])

/-- The instant in the format of RFC 3339. -/
def rfc3339 (i : Instant) : String :=
  String.ofList (dateText i ++ 'T' :: timeText i ++ ['Z'])

end Instant

end AccountGroups
