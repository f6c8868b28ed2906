import Restyle.Yaml.Source

/-!
# Numbers and times in plain scalars

Which texts read as whole numbers, as floating point numbers and as times.  A floating point number is
the double nearest to what is written; only its whole part is ever asked for.
-/

namespace Restyle.Yaml.Number

def digitValue? (c : Char) : Option Nat :=
  if c.isDigit then some (c.toNat - 48)
  else if 'a' ≤ c && c ≤ 'z' then some (c.toNat - 87)
  else if 'A' ≤ c && c ≤ 'Z' then some (c.toNat - 55)
  else none

/-- A number in a base, of any number of digits. -/
def natural? (base : Nat) (s : List Char) : Option Nat :=
  s.foldlM (fun n c => do
    let v ← digitValue? c
    if v < base then some (n * base + v) else none) 0

/-- A number by the base its first characters tell, or in base ten. -/
def prefixed? (s : List Char) : Option Nat :=
  match s with
  | [] => none
  | '0' :: b :: c :: s =>
    match b.toLower with
    | 'b' => natural? 2 (c :: s)
    | 'o' => natural? 8 (c :: s)
    | 'x' => natural? 16 (c :: s)
    | _ => natural? 8 (b :: c :: s)
  | '0' :: s => natural? 8 s
  | s => natural? 10 s

/-- A sign and what follows it. -/
def signed : List Char → Bool × List Char
  | '-' :: s => (true, s)
  | '+' :: s => (false, s)
  | s => (false, s)

/-- The number after the greatest one of 64 bits with a sign. -/
def signLimit : Nat := UInt64.size / 2

/-- A whole number of at most 64 bits: with a sign it is one of 63 bits. -/
def fits? (negative : Bool) (n : Nat) : Option Int :=
  if negative then if n ≤ signLimit then some (-(n : Int)) else none
  else if n < signLimit then some n else none

/-- A whole number with sign in a given base. -/
def signedIn? (base : Nat) (s : List Char) : Option Int := do
  let (negative, ds) := signed s
  if ds.isEmpty then none else fits? negative (← natural? base ds)

/-- A whole number without sign, up to 64 bits. -/
def wide? (n : Option Nat) : Option Int := do
  let n ← n
  if n < UInt64.size then some n else none

def unsignedIn? (base : Nat) (s : List Char) : Option Int :=
  if s.isEmpty then none else wide? (natural? base s)

/-- The text reads as a whole number by the base it tells. -/
def plainInteger? (s : List Char) : Option Int :=
  let (negative, ds) := signed s
  let small := do fits? negative (← prefixed? ds)
  small <|> wide? (prefixed? s)

/-- Binary and octal numbers whose sign stands behind the base. -/
def markedInteger? (s : List Char) : Option Int :=
  match s with
  | '0' :: 'b' :: ds => signedIn? 2 ds <|> unsignedIn? 2 ds
  | '-' :: '0' :: 'b' :: ds => signedIn? 2 ('-' :: ds)
  | '0' :: 'o' :: ds => signedIn? 8 ds <|> unsignedIn? 8 ds
  | '-' :: '0' :: 'o' :: ds => signedIn? 8 ('-' :: ds)
  | _ => none

/-! ### Floating point -/

/-- A decimal number: sign, digits, and the power of ten by which they are multiplied. -/
structure Decimal where
  negative : Bool
  digits : Nat
  exponent : Int
  deriving Repr, DecidableEq

/-- An exponent: nothing, or its letter, a sign and digits. -/
def exponent? : List Char → Option Int
  | [] => some 0
  | c :: s =>
    if c == 'e' || c == 'E' then
      let (negative, ds) := signed s
      if ds.isEmpty || !ds.all Char.isDigit then none
      else
        -- no larger one makes a difference
        let n : Nat := ds.foldl (fun n d => if n < 10000 then n * 10 + (d.toNat - 48) else n) 0
        some (if negative then -(n : Int) else n)
    else none

/-- Digits with or without a point among them, and an exponent.  A point needs digits after it if there
are none before. -/
def decimal? (s : List Char) : Option Decimal := do
  let (negative, s) := signed s
  let whole := s.takeWhile Char.isDigit
  let s := s.dropWhile Char.isDigit
  let (fraction, s) := match s with
    | '.' :: s => (s.takeWhile Char.isDigit, s.dropWhile Char.isDigit)
    | s => ([], s)
  if whole.isEmpty && fraction.isEmpty then none
  else
    let e ← exponent? s
    let digits ← natural? 10 (whole ++ fraction)
    some ⟨negative, digits, e - fraction.length⟩

/-- Rounds a quotient to the nearest whole number, a half to the even one. -/
def roundDiv (n d : Nat) : Nat :=
  let q := n / d
  let r := n % d
  if 2 * r < d then q else if d < 2 * r then q + 1 else q + q % 2

/-- The double nearest to a positive quotient, as `m * 2 ^ e` with `m` of 53 bits. -/
def nearest (n d : Nat) : Nat × Int :=
  -- the quotient lies between 2 ^ (guess - 1) and 2 ^ (guess + 1)
  let guess : Int := (Nat.log2 n : Int) - Nat.log2 d
  let scaled (e : Int) : Nat × Nat :=
    if 0 ≤ e then (n, d <<< e.toNat) else (n <<< (-e).toNat, d)
  let e := guess - 52
  let e := if (scaled e).1 / (scaled e).2 < 1 <<< 52 then e - 1 else e
  (roundDiv (scaled e).1 (scaled e).2, e)

/-- The whole part of the double nearest to a decimal number, or nothing if it is too large for one. -/
def Decimal.wholePart? (x : Decimal) : Option Int :=
  let size := (Nat.toDigits 10 x.digits).length + x.exponent
  let sign (n : Nat) : Int := if x.negative then -(n : Int) else n
  if x.digits == 0 || size < -400 then some 0
  else if 400 < size then none
  else
    let (m, e) := if 0 ≤ x.exponent then nearest (x.digits * Nat.pow 10 x.exponent.toNat) 1
      else nearest x.digits (Nat.pow 10 (-x.exponent).toNat)
    if 0 ≤ e then
      let n := m <<< e.toNat
      if n < 1 <<< 1024 then some (sign n) else none
    else some (sign (m >>> (-e).toNat))

/-- Every underscore stands between two digits. -/
def underscoresOk : (afterDigit : Bool) → List Char → Bool
  | _, [] => true
  | afterDigit, '_' :: s =>
    afterDigit && (match s with | d :: _ => d.isDigit | [] => false) && underscoresOk false s
  | _, c :: s => underscoresOk c.isDigit s

/-! ### Times -/

/-- A number of one or two digits within bounds, and what follows. -/
def field? (low high : Nat) (s : List Char) : Option (Nat × List Char) :=
  let ds := (s.take 2).takeWhile Char.isDigit
  match natural? 10 ds with
  | some n => if !ds.isEmpty && low ≤ n && n ≤ high then some (n, s.drop ds.length) else none
  | none => none

def after? (c : Char) (s : List Char) : Option (List Char) :=
  if s.head? == some c then some (s.drop 1) else none

def daysIn (year month : Nat) : Nat :=
  if month == 2 then
    if year % 4 == 0 && (year % 100 != 0 || year % 400 == 0) then 29 else 28
  else if month == 4 || month == 6 || month == 9 || month == 11 then 30
  else 31

/-- A date, and what follows it. -/
def date? (s : List Char) : Option (List Char) := do
  if (s.takeWhile Char.isDigit).length != 4 then none
  let year ← natural? 10 (s.take 4)
  let s ← after? '-' (s.drop 4)
  let (month, s) ← field? 1 12 s
  let s ← after? '-' s
  let (day, s) ← field? 1 31 s
  if day ≤ daysIn year month then some s else none

/-- A time of day with or without a fraction of a second, and what follows it. -/
def clock? (s : List Char) : Option (List Char) := do
  let (_, s) ← field? 0 23 s
  let s ← after? ':' s
  let (_, s) ← field? 0 59 s
  let s ← after? ':' s
  let (_, s) ← field? 0 59 s
  match s with
  | c :: d :: t =>
    if (c == '.' || c == ',') && d.isDigit then some (t.dropWhile Char.isDigit) else some s
  | _ => some s

/-- A time zone: the letter `Z`, or hours and minutes. -/
def isZone : List Char → Bool
  | ['Z'] => true
  | sign :: a :: b :: ':' :: [c, d] =>
    (sign == '+' || sign == '-') && [a, b, c, d].all Char.isDigit
      && (a.toNat - 48) * 10 + (b.toNat - 48) ≤ 24 && (c.toNat - 48) * 10 + (d.toNat - 48) ≤ 60
  | _ => false

/-- The text reads as a time: a date, alone or with a time of day behind a letter T and a zone, or behind
a space and without zone. -/
def isTime (s : List Char) : Bool :=
  match date? s with
  | none => false
  | some [] => true
  | some (c :: s) =>
    match clock? s with
    | none => false
    | some rest => if c == ' ' then rest.isEmpty else (c == 'T' || c == 't') && isZone rest

end Restyle.Yaml.Number
