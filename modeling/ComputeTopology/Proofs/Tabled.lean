import ComputeTopology.Proofs.Notations
import ComputeTopology.Proofs.Scalars
import ComputeTopology.Toml.Reader
import Mathlib.Data.List.Basic

/-!
# Tables are read line by line

A line with a header opens a table (`Toml.line_header`), a line with a bare key adds its value to
the table that is open (`Toml.line_entry`), and an empty line changes nothing
(`Toml.line_empty`). So the lines of a table add it to the draft with its entries in order
(`Toml.lines_table`).
-/

namespace ComputeTopology.Toml

/-- The name can stand as a key without quotes. -/
def Bare (name : String) : Prop :=
  name.toList ≠ [] ∧ ∀ c ∈ name.toList, isBareKeyChar c = true

instance (name : String) : Decidable (Bare name) :=
  @instDecidableAnd _ _ _ (List.decidableBAll _ name.toList)

namespace Entry

/-- The value that is written. -/
def value : Entry → Toml
  | text t => .string t
  | number n => .integer n

def literal : Entry → String
  | text t => renderString t
  | number n => Text.decimal n

/-- A number can be written if it has 64 bits with a sign. -/
def Fits : Entry → Prop
  | text _ => True
  | number n => (n : Int) ≤ Int64.maxValue.toInt

/-- A text holds no control characters. -/
def Printable : Entry → Prop
  | text t => ∀ c ∈ t.toList, ¬IsControl c
  | number _ => True

instance : DecidablePred Fits
  | text _ => inferInstanceAs (Decidable True)
  | number _ => inferInstanceAs (Decidable (_ ≤ _))

instance : DecidablePred Printable
  | text t => List.decidableBAll _ t.toList
  | number _ => inferInstanceAs (Decidable True)

end Entry

def headerLine (name : String) : List Char :=
  '[' :: (name.toList ++ [']'])

def entryLine (e : String × Entry) : List Char :=
  e.1.toList ++ (" = ".toList ++ e.2.literal.toList)

/-- Lines as a text, each with its line feed. -/
def joined (ls : List (List Char)) : List Char :=
  ls.flatMap (· ++ ['\n'])

/-- A table with its name and the entries below it. -/
abbrev NamedTable :=
  String × List (String × Entry)

def tableLines (table : NamedTable) : List (List Char) :=
  headerLine table.1 :: table.2.map entryLine

/-- The table can be written: its names are bare keys and different, its texts hold no control
characters and its numbers are not too large. -/
structure Writable (table : NamedTable) : Prop where
  bare : Bare table.1
  nodup : (table.2.map (·.1)).Nodup
  entries : ∀ e ∈ table.2, Bare e.1 ∧ e.2.Fits ∧ e.2.Printable

section Value

variable {rest : List Char}

theorem exists_quote (text : String) : ∃ cs, (renderString text).toList = '"' :: cs
    ∨ (renderString text).toList = '\'' :: cs := by
  rw [renderString]
  cases notationOf text.toList <;> simp

theorem exists_digit (n : Nat) : ∃ d ds, (Text.decimal n).toList = d :: ds ∧ d.isDigit = true := by
  obtain ⟨d, ds, hds⟩ : ∃ d ds, (Text.decimal n).toList = d :: ds := by
    refine List.exists_cons_of_ne_nil ?_
    rw [Text.decimal, String.toList_ofList]
    exact Nat.toDigits_ne_nil
  exact ⟨d, ds, hds, Text.isDigit_of_mem_decimal (hds ▸ List.mem_cons_self)⟩

theorem value_text {text : String} (h : ∀ c ∈ text.toList, ¬IsControl c) (depth : Nat) :
    value depth ((renderString text).toList ++ '\n' :: rest)
      = some (.string text, '\n' :: rest) := by
  have hquoted := quoted_renderString h rest
  obtain ⟨cs, hcs⟩ := exists_quote text
  rcases hcs with hcs | hcs <;> rw [hcs, List.cons_append] at hquoted ⊢ <;>
    rw [value, hquoted] <;> rfl

theorem value_number {n : Nat} (h : (n : Int) ≤ Int64.maxValue.toInt) (depth : Nat) :
    value depth ((Text.decimal n).toList ++ '\n' :: rest) = some (.integer n, '\n' :: rest) := by
  have hscalar := scalar_decimal h rest
  obtain ⟨d, ds, hds, hd⟩ := exists_digit n
  rw [hds, List.cons_append] at hscalar ⊢
  have hne : ∀ c : Char, c.isDigit = false → ∀ r, d :: (ds ++ '\n' :: rest) ≠ c :: r := by
    rintro c hc r heq
    rw [(List.cons.inj heq).1, hc] at hd
    cases hd
  rw [value, hscalar]
  · exact hne '[' (by decide)
  · exact hne '\x7b' (by decide)
  · exact hne '"' (by decide)
  · exact hne '\'' (by decide)

theorem Entry.value_literal {e : Entry} (hfits : e.Fits) (hprintable : e.Printable) (depth : Nat) :
    Toml.value depth (e.literal.toList ++ '\n' :: rest) = some (e.value, '\n' :: rest) := by
  cases e with
  | text t => exact value_text hprintable depth
  | number n => exact value_number hfits depth

theorem Entry.skipSpaces_literal (e : Entry) :
    skipSpaces (e.literal.toList ++ rest) = e.literal.toList ++ rest := by
  have hhead : ∃ c cs, e.literal.toList = c :: cs ∧ isSpace c = false := by
    cases e with
    | text t =>
      obtain ⟨cs, hcs | hcs⟩ := exists_quote t
      · exact ⟨'"', cs, hcs, by decide⟩
      · exact ⟨'\'', cs, hcs, by decide⟩
    | number n =>
      obtain ⟨d, ds, hds, hd⟩ := exists_digit n
      refine ⟨d, ds, hds, Bool.eq_false_iff.2 fun hspace => ?_⟩
      simp only [isSpace, Bool.or_eq_true, decide_eq_true_eq] at hspace
      rcases hspace with rfl | rfl <;> revert hd <;> decide
  obtain ⟨c, cs, hcs, hc⟩ := hhead
  rw [hcs, List.cons_append, skipSpaces, List.dropWhile_cons_of_neg (by simp [hc])]

end Value

section Keys

variable {name : String} {c d : Char} {rest rest' : List Char}

theorem isSpace_of_bare (hc : isBareKeyChar c = true) : isSpace c = false := by
  rw [Bool.eq_false_iff]
  intro hspace
  simp only [isSpace, Bool.or_eq_true, decide_eq_true_eq] at hspace
  rcases hspace with rfl | rfl <;> revert hc <;> decide

theorem ne_of_bare (hc : isBareKeyChar c = true) (hd : isBareKeyChar d = false) : c ≠ d := by
  rintro rfl
  rw [hc] at hd
  cases hd

theorem Bare.exists_cons (hname : Bare name) :
    ∃ c cs, name.toList = c :: cs ∧ isBareKeyChar c = true := by
  obtain ⟨c, cs, hcs⟩ := List.exists_cons_of_ne_nil hname.1
  exact ⟨c, cs, hcs, hname.2 c (hcs ▸ List.mem_cons_self)⟩

theorem Bare.skipSpaces (hname : Bare name) :
    skipSpaces (name.toList ++ rest) = name.toList ++ rest := by
  obtain ⟨c, cs, hcs, hc⟩ := hname.exists_cons
  rw [hcs, List.cons_append, Toml.skipSpaces,
    List.dropWhile_cons_of_neg (by simp [isSpace_of_bare hc])]

theorem Bare.takeWhile (hname : Bare name) (hd : isBareKeyChar d = false) (rest : List Char) :
    (name.toList ++ d :: rest).takeWhile isBareKeyChar = name.toList := by
  rw [List.takeWhile_append_of_pos hname.2, List.takeWhile_cons_of_neg (by simp [hd]),
    List.append_nil]

theorem Bare.dropWhile (hname : Bare name) (hd : isBareKeyChar d = false) (rest : List Char) :
    (name.toList ++ d :: rest).dropWhile isBareKeyChar = d :: rest := by
  rw [List.dropWhile_append_of_pos hname.2, List.dropWhile_cons_of_neg (by simp [hd])]

theorem Bare.keyPart (hname : Bare name) (hd : isBareKeyChar d = false) :
    keyPart (name.toList ++ d :: rest) = some (name, d :: rest) := by
  obtain ⟨c, cs, hcs, hc⟩ := hname.exists_cons
  have htake := hname.takeWhile hd rest
  have hdrop := hname.dropWhile hd rest
  rw [hcs, List.cons_append] at htake hdrop ⊢
  rw [Toml.keyPart, htake, hdrop]
  · change some (String.ofList (c :: cs), d :: rest) = _
    rw [← hcs, String.ofList_toList]
  · exact fun r heq => ne_of_bare hc (by decide) (List.cons.inj heq).1
  · exact fun r heq => ne_of_bare hc (by decide) (List.cons.inj heq).1

theorem Bare.key (hname : Bare name) (hd : isBareKeyChar d = false)
    (hrest : Toml.skipSpaces (d :: rest) = c :: rest') (hc : c ≠ '.') :
    key (name.toList ++ d :: rest) = some (([], name), c :: rest') := by
  have hparts : keyParts (name.toList ++ d :: rest) = some ([name], c :: rest') := by
    rw [keyParts, hname.skipSpaces, hname.keyPart hd]
    simp only [hrest]
    split
    · simp_all
    · simp_all
  rw [Toml.key, hparts]
  rfl

end Keys

section Line

variable {name : String} {rest : List Char} (d : Draft)

theorem line_empty : line d ('\n' :: rest) = some (d, rest) := rfl

theorem line_header (hname : Bare name) (rest : List Char) :
    line d (headerLine name ++ '\n' :: rest) = (d.enter false [] name).map (·, rest) := by
  have hkey : key (name.toList ++ ']' :: '\n' :: rest) = some (([], name), ']' :: '\n' :: rest) :=
    hname.key (by decide) rfl (by decide)
  have hline : skipSpaces (headerLine name ++ '\n' :: rest)
      = '[' :: (name.toList ++ ']' :: '\n' :: rest) := by
    simp [headerLine, skipSpaces, isSpace]
  obtain ⟨c, cs, hcs, hc⟩ := hname.exists_cons
  have hone : ∀ r, name.toList ++ ']' :: '\n' :: rest ≠ '[' :: r := by
    rw [hcs]
    exact fun r heq => ne_of_bare hc (by decide) (List.cons.inj heq).1
  rw [line, hline]
  split
  · rename_i heq
    exact absurd (List.cons.inj heq).2 (hone _)
  · rename_i heq
    rw [← (List.cons.inj heq).2, hkey]
    change (d.enter false [] name).bind (fun d' => some (d', rest)) = _
    rw [Option.map_eq_bind]
    rfl
  · rename_i h
    exact absurd rfl (h _)

/-- A name is neither blank nor a comment. -/
theorem Bare.afterLine (hname : Bare name) : afterLine (name.toList ++ rest) = none := by
  obtain ⟨c, cs, hcs, hc⟩ := hname.exists_cons
  have hne : ∀ d, isBareKeyChar d = false → ∀ r, c :: (cs ++ rest) ≠ d :: r := fun d hd r heq =>
    ne_of_bare hc hd (List.cons.inj heq).1
  rw [Toml.afterLine, hname.skipSpaces, hcs, List.cons_append]
  split
  · rename_i heq
    cases heq
  · rename_i heq
    exact absurd heq (hne '\n' (by decide) _)
  · rename_i heq
    exact absurd heq (hne '\r' (by decide) _)
  · rename_i heq
    exact absurd heq (hne '#' (by decide) _)
  · rfl

theorem line_entry {e : Entry} (hname : Bare name) (hfits : e.Fits) (hprintable : e.Printable)
    (rest : List Char) :
    line d (entryLine (name, e) ++ '\n' :: rest) = (d.add [] name e.value).map (·, rest) := by
  have hkey : key (name.toList ++ ' ' :: '=' :: ' ' :: (e.literal.toList ++ '\n' :: rest))
      = some (([], name), '=' :: ' ' :: (e.literal.toList ++ '\n' :: rest)) :=
    hname.key (by decide) rfl (by decide)
  have hpair : pair (value (nestingLimit - 1))
      (name.toList ++ ' ' :: '=' :: ' ' :: (e.literal.toList ++ '\n' :: rest))
        = some (([], name, e.value), '\n' :: rest) := by
    have hspace : skipSpaces (' ' :: (e.literal.toList ++ '\n' :: rest))
        = e.literal.toList ++ '\n' :: rest := e.skipSpaces_literal
    rw [pair, hkey]
    change (value _ (skipSpaces (' ' :: _))).bind _ = _
    rw [hspace, Entry.value_literal hfits hprintable]
    rfl
  have hline : entryLine (name, e) ++ '\n' :: rest
      = name.toList ++ ' ' :: '=' :: ' ' :: (e.literal.toList ++ '\n' :: rest) := by
    simp [entryLine]
  obtain ⟨c, cs, hcs, hc⟩ := hname.exists_cons
  have hbracket : ∀ r r', name.toList ++ r ≠ '[' :: r' := by
    rw [hcs]
    exact fun r r' heq => ne_of_bare hc (by decide) (List.cons.inj heq).1
  rw [hline, line, hname.skipSpaces]
  split
  · rename_i heq
    exact absurd heq (hbracket _ _)
  · rename_i heq
    exact absurd heq (hbracket _ _)
  · rw [hname.afterLine, hpair]
    change (d.add [] name e.value).bind (fun d' => some (d', rest)) = _
    rw [Option.map_eq_bind]
    rfl

end Line

section Draft

variable {done rows entries : List (String × Layer)} {current : List String} {name : String}
  {layer old : Layer} {rest : List Char} {table : NamedTable}

/-- The draft with these tables, the last of which is open and has these rows. -/
def opened (done : List (String × Layer)) (name : String) (rows : List (String × Layer)) : Draft :=
  ⟨.table .header (done ++ [(name, .table .header rows)]), [name]⟩

theorem lookup_of_not_mem (h : name ∉ entries.map (·.1)) : entries.lookup name = none :=
  List.lookup_eq_none_iff.2 fun e he => by
    have hne : name ≠ e.1 := fun heq => h (heq ▸ List.mem_map_of_mem he)
    simpa using hne

theorem lookup_append_last (h : name ∉ entries.map (·.1)) :
    (entries ++ [(name, old)]).lookup name = some old := by
  rw [List.lookup_append, lookup_of_not_mem h, Option.none_or, List.lookup_cons_self]

theorem setEntry_of_not_mem (h : name ∉ entries.map (·.1)) :
    Layer.setEntry name layer entries = entries ++ [(name, layer)] := by
  induction entries with
  | nil => rfl
  | cons e entries ih =>
    rw [List.map_cons, List.mem_cons, not_or] at h
    rw [Layer.setEntry, if_neg (Ne.symm h.1), ih h.2, List.cons_append]

theorem setEntry_append_last (h : name ∉ entries.map (·.1)) :
    Layer.setEntry name layer (entries ++ [(name, old)]) = entries ++ [(name, layer)] := by
  induction entries with
  | nil => exact if_pos rfl
  | cons e entries ih =>
    rw [List.map_cons, List.mem_cons, not_or] at h
    rw [List.cons_append, Layer.setEntry, if_neg (Ne.symm h.1), ih h.2, List.cons_append]

theorem enter_of_not_mem (h : name ∉ done.map (·.1)) :
    Draft.enter ⟨.table .header done, current⟩ false [] name = some (opened done name []) := by
  have hopen : Layer.openTable name .header done
      = some (.table .header (done ++ [(name, .table .header [])])) := by
    rw [Layer.openTable, lookup_of_not_mem h, setEntry_of_not_mem h]
  change (Layer.openTable name .header done).map _ = _
  rw [hopen]
  rfl

theorem add_of_not_mem {key : String} {v : Toml} (h : name ∉ done.map (·.1))
    (hkey : key ∉ rows.map (·.1)) : (opened done name rows).add [] key v
      = some (opened done name (rows ++ [(key, .closed v)])) := by
  have hadd : Layer.addValue key v false [] (.table .header rows)
      = some (.table .header (rows ++ [(key, .closed v)])) := by
    change Layer.addHere key v false .header rows = _
    rw [Layer.addHere, lookup_of_not_mem hkey, setEntry_of_not_mem hkey]
    rfl
  simp only [Draft.add, opened, Layer.descend, Layer.change, lookup_append_last h, Option.getD_some,
    hadd, Option.map_some, setEntry_append_last h]

theorem lines_line {d d' : Draft} {l : List Char}
    (h : line d (l ++ '\n' :: rest) = some (d', rest)) :
    lines d (l ++ '\n' :: rest) = lines d' rest := by
  obtain ⟨c, cs, hcs⟩ : ∃ c cs, l ++ '\n' :: rest = c :: cs :=
    List.exists_cons_of_ne_nil (by simp)
  have hlength : rest.length ≤ cs.length := by
    have := congrArg List.length hcs
    simp only [List.length_append, List.length_cons] at this
    omega
  rw [hcs] at h ⊢
  rw [lines, h, Option.bind_some]
  exact if_pos hlength

theorem lines_rows (h : name ∉ done.map (·.1)) : ∀ (es : List (String × Entry))
    (rows : List (String × Layer)), (∀ e ∈ es, Bare e.1 ∧ e.2.Fits ∧ e.2.Printable) →
      (rows.map (·.1) ++ es.map (·.1)).Nodup →
      lines (opened done name rows) (joined (es.map entryLine) ++ rest)
        = lines (opened done name (rows ++ es.map fun e => (e.1, .closed e.2.value))) rest
  | [], rows, _, _ => by rw [List.map_nil, List.map_nil, List.append_nil]; rfl
  | e :: es, rows, hes, hnodup => by
    obtain ⟨⟨hbare, hfits, hprintable⟩, hes⟩ := List.forall_mem_cons.1 hes
    have hkey : e.1 ∉ rows.map (·.1) := fun hmem =>
      (List.nodup_append.1 hnodup).2.2 _ hmem _ List.mem_cons_self rfl
    have hline := line_entry (opened done name rows) hbare hfits hprintable
      (joined (es.map entryLine) ++ rest)
    rw [add_of_not_mem h hkey] at hline
    have ih := lines_rows h es (rows ++ [(e.1, .closed e.2.value)]) hes (by simpa using hnodup)
    have hjoined : joined ((e :: es).map entryLine) ++ rest
        = entryLine e ++ '\n' :: (joined (es.map entryLine) ++ rest) := by simp [joined]
    rw [hjoined, lines_line hline, ih, List.append_assoc]
    rfl

/-- Reading the lines of a table adds it to what has been read. -/
theorem lines_table (h : table.1 ∉ done.map (·.1)) (htable : Writable table) :
    lines ⟨.table .header done, current⟩ (joined (tableLines table) ++ rest)
      = lines (opened done table.1 (table.2.map fun e => (e.1, .closed e.2.value))) rest := by
  have hline := line_header ⟨.table .header done, current⟩ htable.bare
    (joined (table.2.map entryLine) ++ rest)
  rw [enter_of_not_mem h] at hline
  have hjoined : joined (tableLines table) ++ rest
      = headerLine table.1 ++ '\n' :: (joined (table.2.map entryLine) ++ rest) := by
    simp [joined, tableLines]
  rw [hjoined, lines_line hline, lines_rows h _ _ htable.entries (by simpa using htable.nodup)]
  rfl

end Draft

end ComputeTopology.Toml
