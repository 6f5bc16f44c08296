import CodecBuild.Toml.Basic

/-!
TOML numbers, dates and times. Integers have 64 bits. A float may be too small or too far below zero for a
double, but it may not be so large that it would round to positive infinity. The normal form of a date or time
has a `T` between date and time, a fraction of at most nine digits without zeros at its end, and a `Z` or a
signed distance from it.
-/

namespace CodecBuild.Toml.Grammar

open Reader Text

/-! ### Numbers -/

/-- Digits, where an underscore may stand between two of them. -/
def digits (p : Char → Bool) : Reader (List Char) := do
  let d ← satisfy p
  return d :: (← many (satisfy p <|> (do let _ ← char '_'; satisfy p)))

def wholeDigits : Reader (List Char) := do
  if (← peek?) == some '0' then return [← char '0'] else digits Char.isDigit

def sign : Reader Bool := do return (← option? (oneOf "+-")) == some '-'

def isInteger64 (n : Int) : Bool := -Int.pow 2 63 ≤ n && n < Int.pow 2 63

def decimalInteger : Reader Int := do
  let negative ← sign
  let n : Int := numeral 10 (← wholeDigits)
  return if negative then -n else n

/-- An integer in base 16, 8 or 2, without a sign. -/
def basedInteger : Reader Int := do
  let _ ← char '0'
  match ← oneOf "xob" with
  | 'x' => return numeral 16 (← digits isHexDigit)
  | 'o' => return numeral 8 (← digits fun c => '0' ≤ c && c ≤ '7')
  | _ => return numeral 2 (← digits fun c => c == '0' || c == '1')

def integer : Reader Toml := do
  let n ← basedInteger <|> decimalInteger
  if isInteger64 n then return .integer n else failure

/-- The least number that rounds to infinity: half a unit above the largest double. -/
def overflowBound : Nat := Nat.pow 2 1024 - Nat.pow 2 970

/-- Whether `m * 10 ^ e` rounds to infinity. The number of digits decides in all but a few cases. -/
def overflows (m : Nat) (e : Int) : Bool :=
  let size := (Nat.toDigits 10 m).length + e
  if m = 0 || size < 300 then false
  else if size > 320 then true
  else if 0 ≤ e then overflowBound ≤ m * Nat.pow 10 e.toNat
  else overflowBound * Nat.pow 10 (-e).toNat ≤ m

def exponent : Reader Int := do
  let _ ← oneOf "eE"
  let negative ← sign
  let n : Int := numeral 10 (← digits Char.isDigit)
  return if negative then -n else n

def fraction : Reader (List Char) := do
  let _ ← char '.'
  digits Char.isDigit

def decimalFloat : Reader Toml := do
  let negative ← sign
  let whole ← wholeDigits
  let (part, e) ← (do return ([], ← exponent)) <|>
    (do return (← fraction, (← option? exponent).getD 0))
  if !negative && overflows (numeral 10 (whole ++ part)) (e - part.length) then failure
  return .float

def specialFloat : Reader Toml := do
  let _ ← sign
  exactly "inf" <|> exactly "nan"
  return .float

def number : Reader Toml := decimalFloat <|> specialFloat <|> integer

/-! ### Dates and times -/

/-- A number of a fixed count of digits, within bounds. -/
def within (count low high : Nat) : Reader (List Char) := do
  let ds ← times count Char.isDigit
  if low ≤ numeral 10 ds && numeral 10 ds ≤ high then return ds else failure

def daysIn (year month : Nat) : Nat :=
  if month = 2 then if year % 4 = 0 && (year % 100 ≠ 0 || year % 400 = 0) then 29 else 28
  else if month ∈ [4, 6, 9, 11] then 30 else 31

def date : Reader (List Char) := do
  let year ← times 4 Char.isDigit
  let _ ← char '-'
  let month ← within 2 1 12
  let _ ← char '-'
  let day ← within 2 1 (daysIn (numeral 10 year) (numeral 10 month))
  return year ++ '-' :: month ++ '-' :: day

def secondFraction : Reader (List Char) := do
  let _ ← char '.'
  let ds ← takeWhile1 Char.isDigit
  match ((ds.take 9).reverse.dropWhile (· == '0')).reverse with
  | [] => return []
  | ds => return '.' :: ds

def time : Reader (List Char) := do
  let hour ← within 2 0 23
  let _ ← char ':'
  let minute ← within 2 0 59
  let _ ← char ':'
  let second ← within 2 0 60
  return hour ++ ':' :: minute ++ ':' :: second ++ ((← option? secondFraction).getD [])

def zone : Reader (List Char) := do
  match ← oneOf "Zz+-" with
  | 'Z' | 'z' => return ['Z']
  | sign =>
    let hour ← within 2 0 23
    let _ ← char ':'
    let minute ← within 2 0 59
    let zero := numeral 10 (hour ++ minute) == 0
    return (if zero then '+' else sign) :: hour ++ ':' :: minute

def dateThenTime : Reader (List Char) := do
  let d ← date
  let t ← option? (do
    let _ ← oneOf "Tt "
    return 'T' :: (← time) ++ ((← option? zone).getD []))
  return d ++ t.getD []

def dateTime : Reader Toml := do return .dateTime (String.ofList (← dateThenTime <|> time))

end CodecBuild.Toml.Grammar
