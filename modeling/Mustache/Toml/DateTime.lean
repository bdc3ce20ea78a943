import Mustache.Text.Reader

namespace Mustache.Toml.DateTime

open Text (Reader)
open Text.Reader

/-- A number of exactly `count` digits that is at least `least` and at most `most`. -/
def field (count least most : Nat) : Reader String := do
  let digits ← exactly count (satisfy Char.isDigit)
  let n := Text.ofDigits 10 digits
  if least ≤ n && n ≤ most then return String.ofList digits else failure

def isLeap (year : Nat) : Bool :=
  year % 4 = 0 && (year % 100 ≠ 0 || year % 400 = 0)

def daysIn (year month : Nat) : Nat :=
  if month = 2 then (if isLeap year then 29 else 28)
  else if [4, 6, 9, 11].contains month then 30
  else 31

def date : Reader String := do
  let year ← field 4 0 9999
  char '-'
  let month ← field 2 1 12
  char '-'
  let day ← field 2 1 (daysIn (Text.ofDigits 10 year.toList) (Text.ofDigits 10 month.toList))
  return year ++ "-" ++ month ++ "-" ++ day

/-- The digits after the point of a second, to nine places and without zeros at the end. -/
def fraction : Reader String := do
  if ← accept '.' then
    let digits ← takeWhile1 Char.isDigit
    let kept := ((digits.take 9).reverse.dropWhile (· == '0')).reverse
    return if kept.isEmpty then "" else "." ++ String.ofList kept
  else return ""

def time : Reader String := do
  let hour ← field 2 0 23
  char ':'
  let minute ← field 2 0 59
  char ':'
  let second ← field 2 0 60
  return hour ++ ":" ++ minute ++ ":" ++ second ++ (← fraction)

/-- The distance from universal time. There is no negative zero. -/
def offset : Reader String := do
  let c ← satisfy fun c => c == 'Z' || c == 'z' || c == '+' || c == '-'
  if c == 'Z' || c == 'z' then return "Z"
  let hour ← field 2 0 23
  char ':'
  let minute ← field 2 0 59
  let sign := if c == '-' && (hour != "00" || minute != "00") then "-" else "+"
  return sign ++ hour ++ ":" ++ minute

def timeOfDay : Reader String := do
  let _ ← satisfy fun c => c == 'T' || c == 't' || c == ' '
  let t ← time
  let o ← optional offset
  return "T" ++ t ++ o.getD ""

def dateTime : Reader String :=
  (do let d ← date; return d ++ ((← optional timeOfDay).getD "")) <|> time

def ofText? (s : String) : Option String :=
  dateTime.readAll? s

end Mustache.Toml.DateTime
