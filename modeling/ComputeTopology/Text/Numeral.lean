import ComputeTopology.Text.Blank
/-!
# Numerals

Reading and writing natural numbers in a base. A reader takes one optional `+`, then at least one
digit and nothing else; a sign `-` is refused even before a zero. Leading zeros count for nothing,
and the value has to fit the width that is read.
-/

namespace ComputeTopology.Text

/-- The value of a digit of `base`, letters in either case. -/
def digitValue? (base : Nat) (c : Char) : Option Nat :=
  let value :=
    if '0' ≤ c ∧ c ≤ '9' then c.toNat - '0'.toNat
    else if 'a' ≤ c ∧ c ≤ 'z' then c.toNat - 'a'.toNat + 10
    else if 'A' ≤ c ∧ c ≤ 'Z' then c.toNat - 'A'.toNat + 10
    else base
  if value < base then some value else none

/-- The value of `cs` read on after `high`, if it holds digits only. -/
def digitsValue? (base : Nat) (high : Nat) : List Char → Option Nat
  | [] => some high
  | c :: cs => (digitValue? base c).bind fun d => digitsValue? base (high * base + d) cs

def dropPlus : List Char → List Char
  | '+' :: cs => cs
  | cs => cs

/-- A natural number in `base`, with one optional `+`. -/
def readNat? (base : Nat) (cs : List Char) : Option Nat :=
  let digits := dropPlus cs
  if digits = [] then none else digitsValue? base 0 digits

def readUInt32? (cs : List Char) (base : Nat := 10) : Option UInt32 :=
  (readNat? base cs).bind fun n => if n < UInt32.size then some (.ofNat n) else none

def readUInt64? (cs : List Char) : Option UInt64 :=
  (readNat? 10 cs).bind fun n => if n < UInt64.size then some (.ofNat n) else none

def decimal (n : Nat) : String :=
  String.ofList (Nat.toDigits 10 n)

/-- Lower case, at least `width` digits. -/
def hex (n : Nat) (width : Nat := 1) : String :=
  String.ofList (List.leftpad width '0' (Nat.toDigits 16 n))

/-- The text moved to the right end of a column of `width` characters; a longer text stays whole. -/
def alignRight (width : Nat) (text : String) : String :=
  String.ofList (List.leftpad width ' ' text.toList)

def int (n : Int) : String :=
  if n < 0 then "-" ++ decimal n.natAbs else decimal n.natAbs

end ComputeTopology.Text
