import ComputeTopology.Proofs.Omission
import ComputeTopology.Proofs.Tabled
import ComputeTopology.Proofs.Words

/-!
# Lines left out of a settings text

A text of tables is cut down by leaving out lines: a key goes with its line, a table with its header
and the lines below it (`Toml.withoutLines`). What tables are written as is known line by line
(`Toml.render_eq`), so what is left of it is written the same way from what is left of the tables
(`Toml.withoutLines_render`), and reading it gives just these (`Toml.parse?_withoutLines`).
-/

namespace ComputeTopology.Toml

/-- The table that a header names. -/
def headerOf? : List Char → Option String
  | '[' :: cs => some (String.ofList (cs.takeWhile isBareKeyChar))
  | _ => none

/-- A header is left out with its table, the line of a key with the table or by itself. -/
def omitsLine (D : Omission) (table : String) (l : List Char) : Bool :=
  match headerOf? l, l.takeWhile isBareKeyChar with
  | some _, _ => D.omits table
  | none, [] => false
  | none, key => D.omits table || (D.inside table).omits (String.ofList key)

/-- The lines that are left, where `current` is the table named last. -/
def leave (D : Omission) : (current : String) → List (List Char) → List (List Char)
  | _, [] => []
  | current, l :: ls =>
    let current := (headerOf? l).getD current
    if omitsLine D current l then leave D current ls else l :: leave D current ls

/-- The text without the lines that are left out. -/
def withoutLines (D : Omission) (text : String) : String :=
  String.ofList (['\n'].intercalate (leave D "" (Text.lines text.toList)))

/-- The entries that are left of a table. -/
def keptEntries (D : Omission) (table : NamedTable) : NamedTable :=
  (table.1, table.2.filter fun e => !(D.inside table.1).omits e.1)

def keptTables (D : Omission) (tables : List NamedTable) : List NamedTable :=
  (tables.filter fun t => !D.omits t.1).map (keptEntries D)

/-- The document with these tables. -/
def documentOf (tables : List NamedTable) : Toml :=
  .table (tables.map fun t => (t.1, .table (t.2.map fun e => (e.1, e.2.value))))

def leftLines (D : Omission) (table : NamedTable) : List (List Char) :=
  if D.omits table.1 then [] else tableLines (keptEntries D table)

/-- What is left of the lines of all tables. The empty lines between tables stay. -/
def fileLines (D : Omission) (tables : List NamedTable) : List (List Char) :=
  [[]].intercalate (tables.map (leftLines D))

section Joined

variable {ls ls' : List (List Char)}

theorem joined_append : joined (ls ++ ls') = joined ls ++ joined ls' :=
  List.flatMap_append

theorem joined_intercalate : ∀ blocks : List (List (List Char)),
    joined ([[]].intercalate blocks) = ['\n'].intercalate (blocks.map joined)
  | [] => rfl
  | [b] => by simp only [List.map_cons, List.map_nil, List.intercalate_singleton]
  | b :: b' :: blocks => by
    have ih := joined_intercalate (b' :: blocks)
    rw [List.intercalate_cons_cons, joined_append, joined_append, ih]
    simp only [List.map_cons, List.intercalate_cons_cons]
    rfl

/-- A last line that is empty is the end of the line before. -/
theorem intercalate_append_nil : ∀ ls : List (List Char),
    ['\n'].intercalate (ls ++ [[]]) = joined ls
  | [] => rfl
  | l :: ls => by
    rw [List.cons_append, List.intercalate_cons_of_ne_nil (by simp), intercalate_append_nil ls]
    rfl

end Joined

section Render

variable {table : NamedTable} {tables : List NamedTable}

theorem mapM_ite {α β : Type} {f : α → Option β} {p : α → Prop} [DecidablePred p] {g : α → β}
    (h : ∀ a, f a = if p a then some (g a) else none) :
    ∀ l : List α, l.mapM f = if ∀ a ∈ l, p a then some (l.map g) else none
  | [] => by simp
  | a :: l => by
    rw [List.mapM_cons, h a, mapM_ite h l]
    by_cases ha : p a
    · by_cases hl : ∀ b ∈ l, p b
      · rw [if_pos ha, if_pos hl, if_pos (List.forall_mem_cons.2 ⟨ha, hl⟩)]
        rfl
      · rw [if_pos ha, if_neg hl, if_neg fun h => hl (List.forall_mem_cons.1 h).2]
        rfl
    · rw [if_neg ha, if_neg fun h => ha (List.forall_mem_cons.1 h).1]
      rfl

theorem renderEntry_eq (e : Entry) : renderEntry e = if e.Fits then some e.literal else none := by
  cases e with
  | text t => rfl
  | number n => rfl

theorem renderLine_eq (e : String × Entry) : renderLine e.1 e.2
    = if e.2.Fits then some (String.ofList (entryLine e ++ ['\n'])) else none := by
  rw [renderLine, renderEntry_eq]
  split_ifs
  · refine congrArg some (String.toList_injective ?_)
    simp [entryLine]
  · rfl

theorem renderTable_eq (table : NamedTable) : renderTable table.1 table.2
    = if ∀ e ∈ table.2, e.2.Fits then some (String.ofList (joined (tableLines table)))
      else none := by
  rw [renderTable, mapM_ite renderLine_eq]
  split_ifs
  · refine congrArg some (String.toList_injective ?_)
    simp [joined, tableLines, headerLine, String.toList_join, List.flatMap_map]
  · rfl

theorem leftLines_none (table : NamedTable) :
    leftLines .none table = tableLines table := by
  have hkept : keptEntries .none table = table :=
    congrArg (Prod.mk table.1) (List.filter_eq_self.2 fun _ _ => rfl)
  rw [leftLines, hkept]
  rfl

theorem render_eq (tables : List NamedTable) : render tables
    = if ∀ t ∈ tables, ∀ e ∈ t.2, e.2.Fits
      then some (String.ofList (joined (fileLines .none tables))) else none := by
  rw [render, mapM_ite renderTable_eq]
  split_ifs
  · refine congrArg some (String.toList_injective ?_)
    rw [String.toList_intercalate, String.toList_ofList, fileLines, joined_intercalate]
    simp [Function.comp_def, leftLines_none]
  · rfl

end Render

section Idle

theorem omitsLine_none (current : String) (l : List Char) :
    omitsLine .none current l = false := by
  rw [omitsLine]
  split <;> rfl

theorem leave_none : ∀ (current : String) (ls : List (List Char)), leave .none current ls = ls
  | _, [] => rfl
  | current, l :: ls => by
    simp only [leave, omitsLine_none, Bool.false_eq_true, if_false, leave_none _ ls]

/-- Where nothing is left out the text stays as it is. -/
theorem withoutLines_none (text : String) : withoutLines .none text = text := by
  rw [withoutLines, leave_none, Text.lines, Text.intercalate_fields, String.ofList_toList]

end Idle

section Leave

variable {D : Omission} {name current : String} {es : List (String × Entry)}
  {table : NamedTable} {tables : List NamedTable}
  {rest : List (List Char)}

theorem leave_empty : leave D current ([] :: rest) = [] :: leave D current rest := rfl

theorem leave_header (hname : Bare name) : leave D current (headerLine name :: rest)
    = if D.omits name then leave D name rest else headerLine name :: leave D name rest := by
  have hheader : headerOf? (headerLine name) = some name := by
    rw [headerLine, headerOf?, hname.takeWhile (by decide), String.ofList_toList]
  have homits : omitsLine D name (headerLine name) = D.omits name := by
    rw [omitsLine, hheader]
  simp only [leave, hheader, Option.getD_some, homits]

theorem leave_entry {e : String × Entry} (he : Bare e.1) : leave D name (entryLine e :: rest)
    = if D.omits name || (D.inside name).omits e.1 then leave D name rest
      else entryLine e :: leave D name rest := by
  have htake : (entryLine e).takeWhile isBareKeyChar = e.1.toList :=
    he.takeWhile (by decide) ('=' :: ' ' :: e.2.literal.toList)
  obtain ⟨c, cs, hcs, hc⟩ := he.exists_cons
  have hheader : headerOf? (entryLine e) = none := by
    rw [entryLine, hcs, List.cons_append, headerOf?]
    exact fun _ heq => ne_of_bare hc (by decide) (List.cons.inj heq).1
  have homits : omitsLine D name (entryLine e) = (D.omits name || (D.inside name).omits e.1) := by
    rw [omitsLine, hheader, htake, hcs]
    change (D.omits name || (D.inside name).omits (String.ofList (c :: cs))) = _
    rw [← hcs, String.ofList_toList]
  simp only [leave, hheader, Option.getD_none, homits]

theorem leave_entries (hes : ∀ e ∈ es, Bare e.1) : leave D name (es.map entryLine ++ rest)
    = (if D.omits name then []
        else (es.filter fun e => !(D.inside name).omits e.1).map entryLine)
      ++ leave D name rest := by
  induction es with
  | nil => simp
  | cons e es ih =>
    obtain ⟨he, hes⟩ := List.forall_mem_cons.1 hes
    rw [List.map_cons, List.cons_append, leave_entry he, ih hes]
    cases D.omits name <;> cases homits : (D.inside name).omits e.1 <;> simp [homits]

/-- The lines of a table are left as the lines of what is left of the table. -/
theorem leave_table (htable : Writable table) :
    leave D current (tableLines table ++ rest) = leftLines D table ++ leave D table.1 rest := by
  rw [tableLines, List.cons_append, leave_header htable.bare,
    leave_entries fun e he => (htable.entries e he).1, leftLines]
  cases D.omits table.1 <;> rfl

theorem leave_fileLines : ∀ (tables : List NamedTable) (current : String),
    (∀ t ∈ tables, Writable t) →
      leave D current (fileLines .none tables ++ [[]]) = fileLines D tables ++ [[]]
  | [], _, _ => rfl
  | [t], _, h => by
    simp only [fileLines, List.map_cons, List.map_nil, List.intercalate_singleton, leftLines_none]
    rw [leave_table (h t List.mem_cons_self)]
    rfl
  | t :: t' :: tables, _, h => by
    have ih := leave_fileLines (t' :: tables) t.1 fun u hu => h u (List.mem_cons_of_mem t hu)
    simp only [fileLines, List.map_cons, List.intercalate_cons_cons, leftLines_none,
      List.append_assoc, List.cons_append, List.nil_append] at ih ⊢
    rw [leave_table (h t List.mem_cons_self), leave_empty, ih]

end Leave

section Text

variable {D : Omission} {name : String} {l : List Char} {table : NamedTable}
  {tables : List NamedTable}

theorem lineFeed_not_mem_name (hname : Bare name) : '\n' ∉ name.toList := fun hmem =>
  ne_of_bare (hname.2 _ hmem) (by decide) rfl

theorem lineFeed_not_mem_entryLine {e : String × Entry} (hname : Bare e.1)
    (hprintable : e.2.Printable) : '\n' ∉ entryLine e := by
  have hliteral : '\n' ∉ e.2.literal.toList := by
    obtain ⟨_, t | n⟩ := e
    · exact lineFeed_not_mem_renderString hprintable
    · exact fun hmem => absurd (Text.isDigit_of_mem_decimal hmem) (by decide)
  simp [entryLine, lineFeed_not_mem_name hname, hliteral]

theorem lineFeed_not_mem_tableLines (htable : Writable table) :
    ∀ l ∈ tableLines table, '\n' ∉ l := by
  refine List.forall_mem_cons.2 ⟨?_, fun l hl => ?_⟩
  · simp [headerLine, lineFeed_not_mem_name htable.bare]
  · obtain ⟨e, he, rfl⟩ := List.mem_map.1 hl
    exact lineFeed_not_mem_entryLine (htable.entries e he).1 (htable.entries e he).2.2

theorem lineFeed_not_mem_fileLines : ∀ {tables : List NamedTable},
    (∀ t ∈ tables, Writable t) → ∀ l ∈ fileLines .none tables, '\n' ∉ l
  | [], _, _, hl => absurd hl List.not_mem_nil
  | [t], h, l, hl => by
    simp only [fileLines, List.map_cons, List.map_nil, List.intercalate_singleton,
      leftLines_none] at hl
    exact lineFeed_not_mem_tableLines (h t List.mem_cons_self) l hl
  | t :: t' :: tables, h, l, hl => by
    have ih := lineFeed_not_mem_fileLines fun u hu => h u (List.mem_cons_of_mem t hu)
    simp only [fileLines, List.map_cons, List.intercalate_cons_cons, leftLines_none,
      List.mem_append] at ih hl
    rcases hl with (hl | hl) | hl
    · exact lineFeed_not_mem_tableLines (h t List.mem_cons_self) l hl
    · rw [List.mem_singleton.1 hl]
      exact List.not_mem_nil
    · exact ih l hl

/-- The text of tables is cut down to the text of what is left of them. -/
theorem withoutLines_render (h : ∀ t ∈ tables, Writable t) :
    withoutLines D (String.ofList (joined (fileLines .none tables)))
      = String.ofList (joined (fileLines D tables)) := by
  have hlines : Text.lines (joined (fileLines .none tables)) = fileLines .none tables ++ [[]] :=
    Text.lines_flatMap (lineFeed_not_mem_fileLines h)
  rw [withoutLines, String.toList_ofList, hlines, leave_fileLines tables "" h,
    intercalate_append_nil]

example : withoutLines (fun path => path = [.field "a", .field "x"] ∨ path = [.field "b"])
    "[a]\nx = 1\ny = 2\n\n[b]\nz = 3\n" = "[a]\ny = 2\n\n" :=
  String.toList_injective (by decide +kernel)

end Text

section Read

variable {D : Omission} {done : List (String × Layer)} {current : List String}
  {rest : List Char} {table : NamedTable}
  {tables : List NamedTable}

/-- The tables as they stand in a draft. -/
def layersOf (tables : List NamedTable) : List (String × Layer) :=
  tables.map fun t => (t.1, .table .header (t.2.map fun e => (e.1, .closed e.2.value)))

theorem Writable.keptEntries (h : Writable table) : Writable (keptEntries D table) where
  bare := h.bare
  nodup := h.nodup.sublist (List.filter_sublist.map _)
  entries e he := h.entries e (List.mem_of_mem_filter he)

theorem keptTables_cons (D : Omission) (table : NamedTable)
    (tables : List NamedTable) : keptTables D (table :: tables)
    = (if D.omits table.1 then [] else [keptEntries D table]) ++ keptTables D tables := by
  rw [keptTables, List.filter_cons]
  cases D.omits table.1 <;> rfl

theorem lines_empty (d : Draft) : lines d ('\n' :: rest) = lines d rest :=
  lines_line (l := []) (line_empty d)

theorem lines_leftLines (h : table.1 ∉ done.map (·.1)) (htable : Writable table) (D : Omission)
    (current : List String) (rest : List Char) :
    ∃ current', lines ⟨.table .header done, current⟩ (joined (leftLines D table) ++ rest)
      = lines ⟨.table .header (done ++ layersOf
          (if D.omits table.1 then [] else [keptEntries D table])), current'⟩ rest := by
  rw [leftLines]
  cases D.omits table.1
  · refine ⟨[table.1], ?_⟩
    simp only [Bool.false_eq_true, if_false]
    have hkept : (keptEntries D table).1 ∉ done.map (·.1) := h
    rw [lines_table hkept htable.keptEntries]
    rfl
  · refine ⟨current, ?_⟩
    simp only [if_true, layersOf, List.map_nil, List.append_nil]
    rfl

/-- A table that is left out makes no name taken. -/
theorem nodup_layersOf (hnodup : (done.map (·.1) ++ (table :: tables).map (·.1)).Nodup) :
    ((done ++ layersOf (if D.omits table.1 then [] else [keptEntries D table])).map (·.1)
      ++ tables.map (·.1)).Nodup := by
  refine hnodup.sublist ?_
  rw [List.map_append, List.append_assoc, List.map_cons]
  refine (List.Sublist.refl _).append ?_
  cases D.omits table.1
  · exact List.Sublist.refl _
  · exact List.sublist_cons_self _ _

theorem layersOf_append (ts us : List NamedTable) :
    layersOf (ts ++ us) = layersOf ts ++ layersOf us :=
  List.map_append

/-- Reading what is left of the lines adds what is left of the tables. -/
theorem lines_fileLines : ∀ (tables : List NamedTable)
    (done : List (String × Layer)) (current : List String),
    (∀ t ∈ tables, Writable t) → (done.map (·.1) ++ tables.map (·.1)).Nodup →
      ∃ current', lines ⟨.table .header done, current⟩ (joined (fileLines D tables))
        = some ⟨.table .header (done ++ layersOf (keptTables D tables)), current'⟩
  | [], done, current, _, _ => ⟨current, by
      change lines _ [] = some ⟨.table .header (done ++ []), current⟩
      rw [List.append_nil, lines]⟩
  | [t], done, current, h, hnodup => by
    have ht : t.1 ∉ done.map (·.1) := fun hmem =>
      (List.nodup_append.1 hnodup).2.2 _ hmem _ List.mem_cons_self rfl
    obtain ⟨current', hread⟩ := lines_leftLines ht (h t List.mem_cons_self) D current []
    refine ⟨current', ?_⟩
    simp only [fileLines, List.map_cons, List.map_nil, List.intercalate_singleton]
    rw [List.append_nil, lines] at hread
    rw [hread, keptTables_cons D t []]
    simp [keptTables]
  | t :: t' :: tables, done, current, h, hnodup => by
    have ht : t.1 ∉ done.map (·.1) := fun hmem =>
      (List.nodup_append.1 hnodup).2.2 _ hmem _ List.mem_cons_self rfl
    obtain ⟨current', hread⟩ := lines_leftLines ht (h t List.mem_cons_self) D current
      ('\n' :: joined (fileLines D (t' :: tables)))
    obtain ⟨last, ih⟩ := lines_fileLines (t' :: tables) _ current'
      (fun u hu => h u (List.mem_cons_of_mem t hu)) (nodup_layersOf (D := D) hnodup)
    have hfile : joined (fileLines D (t :: t' :: tables))
        = joined (leftLines D t) ++ '\n' :: joined (fileLines D (t' :: tables)) := by
      simp [fileLines, List.intercalate_cons_cons, joined]
    refine ⟨last, ?_⟩
    rw [hfile, hread, lines_empty, ih, keptTables_cons D t, layersOf_append, List.append_assoc]

theorem finishEntries_eq : ∀ entries : List (String × Layer),
    Layer.finishEntries entries = entries.map fun e => (e.1, e.2.finish)
  | [] => rfl
  | (name, layer) :: entries => by rw [Layer.finishEntries, finishEntries_eq entries]; rfl

theorem finish_layersOf (tables : List NamedTable) :
    (Layer.table .header (layersOf tables)).finish = documentOf tables := by
  simp only [Layer.finish, finishEntries_eq, layersOf, documentOf, List.map_map, Function.comp_def]

/-- A text of tables begins with a header or an empty line, not with a byte order mark. -/
theorem byteOrderMark_ne (D : Omission) : ∀ (tables : List NamedTable) {cs},
    joined (fileLines D tables) ≠ '\uFEFF' :: cs
  | [], cs => nofun
  | [t], cs => by
    rw [fileLines, List.map_cons, List.map_nil, List.intercalate_singleton, leftLines]
    cases D.omits t.1 <;> simp [joined, tableLines, headerLine]
  | t :: t' :: tables, cs => by
    rw [fileLines, List.map_cons, List.map_cons, List.intercalate_cons_cons, leftLines]
    cases D.omits t.1 <;> simp [joined, tableLines, headerLine]

/-- What is left of a text of tables is read as what is left of the tables. -/
theorem parse?_withoutLines {text : String} (h : ∀ t ∈ tables, Writable t)
    (hnodup : (tables.map (·.1)).Nodup) (hrender : render tables = some text) (D : Omission) :
    parse? (withoutLines D text) = some (documentOf (keptTables D tables)) := by
  obtain ⟨current, hread⟩ := lines_fileLines (D := D) tables [] [] h hnodup
  rw [render_eq] at hrender
  split_ifs at hrender
  rw [← Option.some.inj hrender, withoutLines_render h, parse?, String.toList_ofList]
  split
  · rename_i heq
    exact absurd heq (byteOrderMark_ne D tables)
  · change (lines ⟨.table .header [], []⟩ _).map _ = _
    rw [hread, Option.map_some, List.nil_append, finish_layersOf]

end Read

end ComputeTopology.Toml
