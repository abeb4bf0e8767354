import ComputeTopology.Toml.Basic
/-!
# Numbers, dates and truth values

A value that is neither quoted nor bracketed is a run of letters, digits, signs, points, colons and
underscores, judged as a whole. Integers have 64 bits with a sign. A float that is too large is
refused if it is positive and reads as an infinity if it is negative. Dates have to exist.
-/

namespace ComputeTopology.Toml

/-- Digits of `base`, in groups with single underscores between them. -/
def isDigitGroups (base : Nat) (cs : List Char) : Bool :=
  (Text.fields (· = '_') cs).all fun group =>
    group ≠ [] && group.all fun c => (Text.digitValue? base c).isSome

def groupsValue (base : Nat) (cs : List Char) : Nat :=
  (Text.digitsValue? base 0 (cs.filter (· ≠ '_'))).getD 0

/-- A sign, and what follows it. -/
def cutSign : List Char → Bool × List Char
  | '-' :: cs => (true, cs)
  | '+' :: cs => (false, cs)
  | cs => (false, cs)

/-- The digits of a decimal integer: none of them a leading zero. -/
def isDecimal (cs : List Char) : Bool :=
  isDigitGroups 10 cs && (cs.length = 1 || cs.head? ≠ some '0')

def asWord? (n : Int) : Option Toml :=
  if Int64.minValue.toInt ≤ n ∧ n ≤ Int64.maxValue.toInt then some (.integer n) else none

def ofBase? (base : Nat) (cs : List Char) : Option Toml :=
  if isDigitGroups base cs then asWord? (groupsValue base cs) else none

def integer? (word : List Char) : Option Toml :=
  match word with
  | '0' :: 'x' :: cs => ofBase? 16 cs
  | '0' :: 'o' :: cs => ofBase? 8 cs
  | '0' :: 'b' :: cs => ofBase? 2 cs
  | _ =>
    let (negative, digits) := cutSign word
    if isDecimal digits then
      let n : Int := groupsValue 10 digits
      asWord? (if negative then -n else n)
    else none

/-- The least magnitude that no finite float of 64 bits is nearest to. -/
def overflowBound : Nat := ((1 <<< 54) - 1) <<< 970

/-- Whether `mantissa · 10 ^ exponent` is too large for a float. -/
def overflows (mantissa : Nat) (exponent : Int) : Bool :=
  if mantissa = 0 then false
  else
    let magnitude := (Nat.toDigits 10 mantissa).length + exponent
    if magnitude > 310 then true
    else if magnitude < 308 then false
    else if 0 ≤ exponent then overflowBound ≤ mantissa * Nat.pow 10 exponent.toNat
    else overflowBound * Nat.pow 10 exponent.natAbs ≤ mantissa

/-- The exponent of a float: the digits behind `e` with their sign. -/
def exponent? (cs : List Char) : Option Int :=
  let (negative, digits) := cutSign cs
  if isDigitGroups 10 digits then
    let n : Int := groupsValue 10 digits
    some (if negative then -n else n)
  else none

def isExponentMark (c : Char) : Bool :=
  c = 'e' || c = 'E'

/-- Mantissa and exponent of the digits of a float: an integer, then a fraction, an exponent, or a
fraction and an exponent. -/
def floatParts? (digits : List Char) : Option (Nat × Int) := do
  let body := digits.takeWhile (! isExponentMark ·)
  let exponent ← match digits.dropWhile (! isExponentMark ·) with
    | [] => some none
    | _ :: cs => (exponent? cs).map some
  match Text.cutAt? '.' body, exponent with
  | none, none => none
  | none, some e => if isDecimal body then some (groupsValue 10 body, e) else none
  | some (whole, fraction), e =>
    if isDecimal whole && isDigitGroups 10 fraction then
      let places := (fraction.filter (· ≠ '_')).length
      some (groupsValue 10 (whole ++ fraction), e.getD 0 - places)
    else none

def float? (word : List Char) : Option Toml :=
  let (negative, digits) := cutSign word
  if digits = "inf".toList || digits = "nan".toList then some (.float word)
  else
    (floatParts? digits).bind fun (mantissa, exponent) =>
      if !negative && overflows mantissa exponent then none else some (.float word)

/-- A number of two digits. -/
def twoDigits (a b : Char) : Option Nat :=
  Text.digitsValue? 10 0 [a, b]

def daysInMonth (year month : Nat) : Nat :=
  if month = 2 then
    if year % 4 = 0 && (year % 100 ≠ 0 || year % 400 = 0) then 29 else 28
  else if month = 4 || month = 6 || month = 9 || month = 11 then 30
  else 31

/-- A date at the front of the text, and what follows it. -/
def date? : List Char → Option (List Char)
  | y₁ :: y₂ :: y₃ :: y₄ :: '-' :: m₁ :: m₂ :: '-' :: d₁ :: d₂ :: rest => do
    let year ← Text.digitsValue? 10 0 [y₁, y₂, y₃, y₄]
    let month ← twoDigits m₁ m₂
    let day ← twoDigits d₁ d₂
    if 1 ≤ month && month ≤ 12 && 1 ≤ day && day ≤ daysInMonth year month then some rest else none
  | _ => none

/-- A time of day at the front of the text, and what follows it. -/
def time? : List Char → Option (List Char)
  | h₁ :: h₂ :: ':' :: m₁ :: m₂ :: ':' :: s₁ :: s₂ :: rest => do
    let hour ← twoDigits h₁ h₂
    let minute ← twoDigits m₁ m₂
    let second ← twoDigits s₁ s₂
    if hour ≤ 23 && minute ≤ 59 && second ≤ 60 then
      match rest with
      | '.' :: cs =>
        if (cs.takeWhile Char.isDigit) = [] then none else some (cs.dropWhile Char.isDigit)
      | cs => some cs
    else none
  | _ => none

/-- The whole text is the offset of a time zone, or empty. -/
def isOffset : List Char → Bool
  | [] | ['Z'] | ['z'] => true
  | [sign, h₁, h₂, ':', m₁, m₂] =>
    (sign = '+' || sign = '-') && (twoDigits h₁ h₂).any (· ≤ 23) && (twoDigits m₁ m₂).any (· ≤ 59)
  | _ => false

/-- A date, a time, or a date and a time with or without an offset. -/
def dateTime? (word : List Char) : Option Toml :=
  let valid := match date? word with
    | some [] => true
    | some (mark :: rest) =>
      (mark = 'T' || mark = 't' || mark = ' ') && (time? rest).any isOffset
    | none => (time? word).any (· = [])
  if valid then some (.dateTime word) else none

def ofWord? (word : List Char) : Option Toml :=
  if word = "true".toList then some (.boolean true)
  else if word = "false".toList then some (.boolean false)
  else (dateTime? word <|> float? word <|> integer? word)

def isWordChar (c : Char) : Bool :=
  c.isAlphanum || c = '+' || c = '-' || c = '.' || c = ':' || c = '_'

/-- A value that is a word. The time of a date may follow it after a space. -/
def scalar (cs : List Char) : Option (Toml × List Char) :=
  let word := cs.takeWhile isWordChar
  match date? word, cs.dropWhile isWordChar with
  | some [], ' ' :: d :: rest =>
    if d.isDigit then
      let time := (d :: rest).takeWhile isWordChar
      (ofWord? (word ++ ' ' :: time)).map (·, (d :: rest).dropWhile isWordChar)
    else (ofWord? word).map (·, ' ' :: d :: rest)
  | _, rest => (ofWord? word).map (·, rest)

end ComputeTopology.Toml
