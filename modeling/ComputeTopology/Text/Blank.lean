/-!
# Blank space

Which characters count as blank, and the three ways in which a text is cut along blanks or
separators: the trimmed text, its words, and its fields.

A field list is never empty (`fields_ne_nil`), and joining the fields with their separator gives
the text back (`intercalate_fields`).
-/

namespace ComputeTopology.Text

/-- The characters with the Unicode property White_Space. -/
def isBlank (c : Char) : Bool :=
  let n := c.toNat
  (9 ≤ n && n ≤ 13) || n = 0x20 || n = 0x85 || n = 0xA0 || n = 0x1680
    || (0x2000 ≤ n && n ≤ 0x200A) || n = 0x2028 || n = 0x2029 || n = 0x202F || n = 0x205F
    || n = 0x3000

def trimStart (cs : List Char) : List Char :=
  cs.dropWhile isBlank

def trimEnd (cs : List Char) : List Char :=
  (cs.reverse.dropWhile isBlank).reverse

/-- The text without the blanks at its two ends. -/
def trim (cs : List Char) : List Char :=
  trimEnd (trimStart cs)

/-- The pieces between the characters that `sep` picks, empty ones included. -/
def fields (sep : Char → Bool) : List Char → List (List Char)
  | [] => [[]]
  | c :: cs =>
    match fields sep cs with
    | [] => [[c]]
    | f :: fs => if sep c then [] :: f :: fs else (c :: f) :: fs

theorem fields_ne_nil (sep : Char → Bool) : ∀ cs : List Char, fields sep cs ≠ []
  | [] => by simp [fields]
  | c :: cs => by
    unfold fields
    split
    · simp
    · split <;> simp

/-- The maximal runs without blanks, in order. -/
def words (cs : List Char) : List (List Char) :=
  (fields isBlank cs).filter (· ≠ [])

/-- The text cut at its line feeds. A text that ends in a line feed has an empty last line, and a
carriage return before a line feed stays in its line as a blank. -/
def lines (cs : List Char) : List (List Char) :=
  fields (· = '\n') cs

/-- The text before and after the first `sep`, if there is one. -/
def cutAt? (sep : Char) : List Char → Option (List Char × List Char)
  | [] => none
  | c :: cs =>
    if c = sep then some ([], cs) else (cutAt? sep cs).map fun (a, b) => (c :: a, b)

/-- Joining the fields with the separator they were cut at gives the text back. -/
theorem intercalate_fields (sep : Char) :
    ∀ cs : List Char, [sep].intercalate (fields (· = sep) cs) = cs
  | [] => by simp [fields, List.intercalate]
  | c :: cs => by
    have ih := intercalate_fields sep cs
    unfold fields
    split
    · rename_i h
      exact absurd h (fields_ne_nil _ cs)
    · rename_i f fs h
      rw [h] at ih
      by_cases hc : c = sep
      · subst hc
        simp only [decide_true, ↓reduceIte]
        rw [← ih]
        simp [List.intercalate, List.intersperse]
      · simp only [hc, decide_false, Bool.false_eq_true, ↓reduceIte]
        rw [← ih]
        cases fs <;> simp [List.intercalate, List.intersperse]

end ComputeTopology.Text
