import ComputeTopology.Text.Numeral
/-!
# TOML strings

The four notations of a string: basic and literal, on one line or on several. Each reader starts
behind the opening quotes and yields the text together with what follows the closing quotes. A basic
string knows escapes; in one of several lines a backslash at the end of a line also swallows all
blanks and line ends up to the next character. A string of several lines drops a line end right
behind its opening quotes, reads every line end as a line feed, and may have up to two quotes right
before the closing ones.
-/

namespace ComputeTopology.Toml

abbrev Rest (α : Type) := Option (α × List Char)

/-- A character that a comment or a string may hold as it is. -/
def isPlain (c : Char) : Bool :=
  c = '\t' || (0x20 ≤ c.toNat && c.toNat ≠ 0x7F)

def isSpace (c : Char) : Bool :=
  c = ' ' || c = '\t'

def escaped (c : Char) : Option Char :=
  if c = 'b' then some (Char.ofNat 8)
  else if c = 't' then some '\t'
  else if c = 'n' then some '\n'
  else if c = 'f' then some (Char.ofNat 12)
  else if c = 'r' then some '\r'
  else if c = '"' then some '"'
  else if c = '\\' then some '\\'
  else none

/-- The character with the code point that the hexadecimal digits give. -/
def scalarValue (digits : List Char) : Option Char :=
  (Text.digitsValue? 16 0 digits).bind fun n => if n.isValidChar then some (Char.ofNat n) else none

/-- The text goes on with one more character. -/
def before (c : Char) (rest : Rest (List Char)) : Rest (List Char) :=
  rest.map fun (text, rest) => (c :: text, rest)

def basic : List Char → Rest (List Char)
  | [] => none
  | '"' :: rest => some ([], rest)
  | '\\' :: 'u' :: a :: b :: c :: d :: rest =>
    (scalarValue [a, b, c, d]).bind (before · (basic rest))
  | '\\' :: 'U' :: a :: b :: c :: d :: e :: f :: g :: h :: rest =>
    (scalarValue [a, b, c, d, e, f, g, h]).bind (before · (basic rest))
  | '\\' :: c :: rest => (escaped c).bind (before · (basic rest))
  | c :: rest => if isPlain c && c ≠ '\\' then before c (basic rest) else none

def literal : List Char → Rest (List Char)
  | [] => none
  | '\'' :: rest => some ([], rest)
  | c :: rest => if isPlain c then before c (literal rest) else none

/-- What follows three closing quotes: up to two more of them belong to the text. -/
def closeQuotes (q : Char) : List Char → List Char × List Char
  | a :: b :: rest =>
    if a = q && b = q then ([q, q], rest)
    else if a = q then ([q], b :: rest)
    else ([], a :: b :: rest)
  | [a] => if a = q then ([q], []) else ([], [a])
  | [] => ([], [])

/-- Nothing but spaces stands before the end of the line. -/
def atLineEnd (cs : List Char) : Bool :=
  match cs.dropWhile isSpace with
  | '\n' :: _ => true
  | '\r' :: '\n' :: _ => true
  | _ => false

/-- A basic string of several lines. While `swallow` holds, blanks and line ends are passed over. -/
def basicLines (swallow : Bool) : List Char → Rest (List Char)
  | [] => none
  | '"' :: '"' :: '"' :: rest => some (closeQuotes '"' rest)
  | '\r' :: '\n' :: rest =>
    if swallow then basicLines true rest else before '\n' (basicLines false rest)
  | '\\' :: 'u' :: a :: b :: c :: d :: rest =>
    (scalarValue [a, b, c, d]).bind (before · (basicLines false rest))
  | '\\' :: 'U' :: a :: b :: c :: d :: e :: f :: g :: h :: rest =>
    (scalarValue [a, b, c, d, e, f, g, h]).bind (before · (basicLines false rest))
  | '\\' :: c :: rest =>
    if isSpace c || c = '\n' || c = '\r' then
      if atLineEnd (c :: rest) then basicLines true rest else none
    else (escaped c).bind (before · (basicLines false rest))
  | c :: rest =>
    if c = '\n' then
      if swallow then basicLines true rest else before c (basicLines false rest)
    else if swallow && isSpace c then basicLines true rest
    else if isPlain c && c ≠ '\\' then before c (basicLines false rest)
    else none

def literalLines : List Char → Rest (List Char)
  | [] => none
  | '\'' :: '\'' :: '\'' :: rest => some (closeQuotes '\'' rest)
  | '\r' :: '\n' :: rest => before '\n' (literalLines rest)
  | c :: rest => if isPlain c || c = '\n' then before c (literalLines rest) else none

/-- Drops a line end right behind the opening quotes. -/
def dropLineEnd : List Char → List Char
  | '\n' :: rest => rest
  | '\r' :: '\n' :: rest => rest
  | cs => cs

/-- A string in any notation. -/
def quoted : List Char → Rest String
  | '"' :: '"' :: '"' :: rest => (basicLines false (dropLineEnd rest)).map (·.map String.ofList id)
  | '"' :: rest => (basic rest).map (·.map String.ofList id)
  | '\'' :: '\'' :: '\'' :: rest => (literalLines (dropLineEnd rest)).map (·.map String.ofList id)
  | '\'' :: rest => (literal rest).map (·.map String.ofList id)
  | _ => none

/-- A string on one line. -/
def quotedLine : List Char → Rest String
  | '"' :: rest => (basic rest).map (·.map String.ofList id)
  | '\'' :: rest => (literal rest).map (·.map String.ofList id)
  | _ => none

end ComputeTopology.Toml
