import ComputeTopology.Json.Basic
/-!
# JSON tokens

A text is cut into tokens by an automaton that reads one character at a time (`Scan.step`), so the
whole scan is a fold over the text. Numbers and the three names are runs of letters, digits, signs
and points, judged when the run ends (`ofWord`).

The characters of a string literal are collected as code points, with `\u` escapes contributing
the sixteen-bit unit they name; `textOfUnits?` joins the two halves of a surrogate pair.
-/

namespace ComputeTopology.Json

inductive Token
  | openArray
  | closeArray
  | openObject
  | closeObject
  | comma
  | colon
  | scalar (value : Json)

def isHighSurrogate (n : Nat) : Bool :=
  0xD800 ≤ n && n < 0xDC00

def isLowSurrogate (n : Nat) : Bool :=
  0xDC00 ≤ n && n < 0xE000

/-- The text of a string literal, if no half of a surrogate pair stands alone in it. -/
def textOfUnits? : List Nat → Option (List Char)
  | [] => some []
  | high :: low :: rest =>
    if isHighSurrogate high && isLowSurrogate low then
      (textOfUnits? rest).map (Char.ofNat (0x10000 + (high - 0xD800) * 0x400 + (low - 0xDC00)) :: ·)
    else if isHighSurrogate high || isLowSurrogate high then none
    else (textOfUnits? (low :: rest)).map (Char.ofNat high :: ·)
  | [unit] =>
    if isHighSurrogate unit || isLowSurrogate unit then none else some [Char.ofNat unit]

def isDigit (c : Char) : Bool :=
  '0' ≤ c && c ≤ '9'

/-- One or more digits at the front of `cs`, with what follows them. -/
def digitRun (cs : List Char) : Option (List Char × List Char) :=
  match cs.takeWhile isDigit with
  | [] => none
  | ds => some (ds, cs.dropWhile isDigit)

/-- An exponent part and nothing else. -/
def isExponent : List Char → Bool
  | e :: cs =>
    (e = 'e' || e = 'E') &&
      let digits := match cs with
        | '+' :: ds => ds
        | '-' :: ds => ds
        | ds => ds
      digits ≠ [] && digits.all isDigit
  | [] => false

/-- A fraction, an exponent, or a fraction and then an exponent. -/
def isRealTail : List Char → Bool
  | '.' :: cs =>
    match digitRun cs with
    | none => false
    | some (_, []) => true
    | some (_, rest) => isExponent rest
  | cs => isExponent cs

/-- A number literal. The integer part has no leading zero, and `-0` is a real number. -/
def ofNumber (word : List Char) : Option Json :=
  let (negative, body) := match word with
    | '-' :: cs => (true, cs)
    | cs => (false, cs)
  (digitRun body).bind fun (digits, rest) =>
    if digits.length > 1 && digits.head? = some '0' then none
    else if rest ≠ [] then
      if isRealTail rest then some (.real word) else none
    else
      (Text.digitsValue? 10 0 digits).map fun n =>
        if negative && n = 0 then .real word
        else .integer (if negative then -(n : Int) else n)

def ofWord (word : List Char) : Option Json :=
  if word = "null".toList then some .null
  else if word = "true".toList then some (.bool true)
  else if word = "false".toList then some (.bool false)
  else ofNumber word

def isWordChar (c : Char) : Bool :=
  isDigit c || ('a' ≤ c && c ≤ 'z') || ('A' ≤ c && c ≤ 'Z') || c = '+' || c = '-' || c = '.'

/-- Where the scan stands; what is being collected is held in reverse. -/
inductive Mode
  | between
  | word (done : List Char)
  | quoted (done : List Nat)
  | escape (done : List Nat)
  /-- Inside `\u` with `left` hexadecimal digits to come. -/
  | unit (done : List Nat) (value left : Nat)

structure Scan where
  tokens : List Token := []
  mode : Mode := .between

namespace Scan

def push (s : Scan) (t : Token) : Scan :=
  { tokens := t :: s.tokens, mode := .between }

/-- A character outside every literal. -/
def between (s : Scan) (c : Char) : Option Scan :=
  if c = ' ' || c = '\n' || c = '\t' || c = '\r' then some { s with mode := .between }
  else if c = '[' then some (s.push .openArray)
  else if c = ']' then some (s.push .closeArray)
  else if c = '\x7b' then some (s.push .openObject)
  else if c = '\x7d' then some (s.push .closeObject)
  else if c = ',' then some (s.push .comma)
  else if c = ':' then some (s.push .colon)
  else if c = '"' then some { s with mode := .quoted [] }
  else if isWordChar c then some { s with mode := .word [c] }
  else none

/-- The character that a one-letter escape stands for. -/
def escaped (c : Char) : Option Nat :=
  if c = '"' || c = '\\' || c = '/' then some c.toNat
  else if c = 'b' then some 8
  else if c = 'f' then some 12
  else if c = 'n' then some 10
  else if c = 'r' then some 13
  else if c = 't' then some 9
  else none

def step (s : Scan) (c : Char) : Option Scan :=
  match s.mode with
  | .between => s.between c
  | .word done =>
    if isWordChar c then some { s with mode := .word (c :: done) }
    else (ofWord done.reverse).bind fun v => (s.push (.scalar v)).between c
  | .quoted done =>
    if c = '"' then
      some (s.push (.scalar (.string ((textOfUnits? done.reverse).map String.ofList))))
    else if c = '\\' then some { s with mode := .escape done }
    else if c.toNat < 0x20 then none
    else some { s with mode := .quoted (c.toNat :: done) }
  | .escape done =>
    if c = 'u' then some { s with mode := .unit done 0 4 }
    else (escaped c).map fun n => { s with mode := .quoted (n :: done) }
  | .unit done value left =>
    (Text.digitValue? 16 c).map fun d =>
      let value := value * 16 + d
      { s with mode := if left ≤ 1 then .quoted (value :: done) else .unit done value (left - 1) }

/-- The tokens in order, if the text may end here. -/
def finish (s : Scan) : Option (List Token) :=
  match s.mode with
  | .between => some s.tokens.reverse
  | .word done => (ofWord done.reverse).map fun v => (s.push (.scalar v)).tokens.reverse
  | _ => none

end Scan

def tokens (cs : List Char) : Option (List Token) :=
  (cs.foldlM Scan.step {}).bind Scan.finish

end ComputeTopology.Json
