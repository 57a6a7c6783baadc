namespace Conform

def paddedDigits (width n : Nat) : String :=
  let digits := Nat.toDigits 10 n
  String.ofList (List.replicate (width - digits.length) '0' ++ digits)

structure Date where
  year : Nat
  month : Nat
  day : Nat
  deriving DecidableEq, Repr, Inhabited

structure DateTime where
  date : Date
  hour : Nat
  minute : Nat
  second : Nat
  microsecond : Nat
  offset : Option Int
  deriving DecidableEq, Repr, Inhabited

namespace Date

def text (d : Date) : String :=
  paddedDigits 4 d.year ++ "-" ++ paddedDigits 2 d.month ++ "-" ++ paddedDigits 2 d.day

def ofText? (s : String) : Option Date := do
  match (s.splitOn "-").map (·.toNat?) with
  | [some y, some m, some d] => some ⟨y, m, d⟩
  | _ => none

def ordinal (d : Date) : Int :=
  -- years begin in March, so that the day that some of them have more is their last
  let y : Int := if d.month < 3 then d.year - 1 else d.year
  let m : Int := (d.month + 9) % 12
  365 * y + y / 4 - y / 100 + y / 400 + (153 * m + 2) / 5 + d.day - 1

end Date

def offsetText (seconds : Int) : String :=
  let n := seconds.natAbs
  let late := if n % 60 = 0 then "" else ":" ++ paddedDigits 2 (n % 60)
  (if seconds < 0 then "-" else "+") ++ paddedDigits 2 (n / 3600) ++ ":" ++
    paddedDigits 2 (n / 60 % 60) ++ late

namespace DateTime

def textWith (mark : String) (t : DateTime) : String :=
  let fraction := if t.microsecond = 0 then "" else "." ++ paddedDigits 6 t.microsecond
  t.date.text ++ mark ++ paddedDigits 2 t.hour ++ ":" ++ paddedDigits 2 t.minute ++ ":" ++
    paddedDigits 2 t.second ++ fraction ++ (t.offset.map offsetText).getD ""

def seconds (t : DateTime) : Int :=
  86400 * t.date.ordinal + 3600 * t.hour + 60 * t.minute + t.second - t.offset.getD 0

def equal (t u : DateTime) : Bool :=
  t.offset.isSome = u.offset.isSome && t.seconds = u.seconds && t.microsecond = u.microsecond

def clockOf? (s : String) : Option (Nat × Nat × Nat) := do
  match (s.splitOn ":").map (·.toNat?) with
  | [some h] => some (h, 0, 0)
  | [some h, some m] => some (h, m, 0)
  | [some h, some m, some s] => some (h, m, s)
  | _ => none

def microsecondOf? (s : String) : Option Nat :=
  (String.ofList ((s.toList ++ List.replicate 6 '0').take 6)).toNat?

def offsetOf? : List Char → Option (Option Int)
  | [] => some none
  | ['Z'] => some (some 0)
  | sign :: cs => do
    let (h, m, s) ← clockOf? (String.ofList cs)
    let n : Int := 3600 * h + 60 * m + s
    if sign == '+' then some (some n) else if sign == '-' then some (some (-n)) else none

def ofText? (s : String) : Option DateTime := do
  let (day, time) := s.toList.splitAt 10
  let date ← Date.ofText? (String.ofList day)
  if time.isEmpty then return ⟨date, 0, 0, 0, 0, none⟩
  let (clock, zone) := (time.drop 1).span fun c => c.isDigit || c == ':' || c == '.'
  let (whole, fraction) := clock.span (· != '.')
  let (hour, minute, second) ← clockOf? (String.ofList whole)
  let microsecond ← microsecondOf? (String.ofList (fraction.drop 1))
  return ⟨date, hour, minute, second, microsecond, ← offsetOf? zone⟩

end DateTime

end Conform
