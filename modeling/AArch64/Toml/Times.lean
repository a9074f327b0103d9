import AArch64.Text.Number
import AArch64.Toml.Reader

/-! Dates and times of day. -/
namespace AArch64.Toml

open Reader

def fixedDigits (n : Nat) : Reader Nat := do
  let cs ← (List.replicate n ()).mapM fun _ => next Char.isDigit
  return cs.foldl (fun n c => 10 * n + (c.toNat - '0'.toNat)) 0

def daysIn (year month : Nat) : Nat :=
  if month = 2 then
    if year % 4 = 0 ∧ (year % 100 ≠ 0 ∨ year % 400 = 0) then 29 else 28
  else if month = 4 ∨ month = 6 ∨ month = 9 ∨ month = 11 then 30
  else 31

def date : Reader Unit := do
  let year ← fixedDigits 4
  char '-'
  let month ← fixedDigits 2
  char '-'
  let day ← fixedDigits 2
  guard (1 ≤ month ∧ month ≤ 12 ∧ 1 ≤ day ∧ day ≤ daysIn year month)

def hourAndMinute : Reader Unit := do
  let hour ← fixedDigits 2
  char ':'
  let minute ← fixedDigits 2
  guard (hour ≤ 23 ∧ minute ≤ 59)

/-- A leap second may follow the last of a minute. -/
def timeOfDay : Reader Unit := do
  hourAndMinute
  char ':'
  let second ← fixedDigits 2
  guard (second ≤ 60)
  let _ ← optional (char '.' *> next Char.isDigit *> takeWhile Char.isDigit)

def zone : Reader Unit :=
  (next fun c => c == 'Z' || c == 'z').map (fun _ => ())
    <|> (next fun c => c == '+' || c == '-') *> hourAndMinute

def dateTime : Reader Unit := do
  date
  let _ ← optional do
    let _ ← next fun c => c == 'T' || c == 't' || c == ' '
    timeOfDay
    optional zone

def time : Reader String :=
  spelling (dateTime <|> timeOfDay)

end AArch64.Toml
