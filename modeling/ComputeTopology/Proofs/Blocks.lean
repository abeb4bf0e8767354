import ComputeTopology.Proofs.Cuts
import ComputeTopology.Proofs.Result
import ComputeTopology.Sysfs.ProcessorTable

/-!
# The processor table, block by block

A text that is cut at the end of a line is read part by part (`foldlM_linesOf_append`), and from the
beginning of an entry on, what stands before it counts for nothing (`foldlM_of_beginsEntry`). So the
entries of two such parts stand side by side (`parse_append`): what comes before the first processor
is passed over, and each block gives one entry, of what the last line of each key says
(`ProcessorTable.parse_by_block`). The key and the value of a line stand before and behind its first
colon (`ProcessorTable.value?_eq_some_iff`).
-/

namespace ComputeTopology

namespace ProcessorTable

/-- The value of a line that has this key. -/
def value? (key : String) (line : List Char) : Option (List Char) :=
  (keyValue? line).bind fun (k, value) => if k = key.toList then some value else none

/-- The values that lines give for a key, in order. -/
def values (key : String) (lines : List (List Char)) : List (List Char) :=
  lines.filterMap (value? key)

def linesOf (text : String) : List (List Char) :=
  Text.lines text.toList

/-- The text ends where a line ends, if it has one. -/
def WholeLines (text : String) : Prop :=
  text = "" ∨ text.toList.getLast? = some '\n'

/-- The first line is one for a processor. -/
def BeginsEntry (lines : List (List Char)) : Prop :=
  (lines.head?.bind (value? "processor")).isSome

/-- A line for a processor, and lines of other kinds. -/
def IsBlock (lines : List (List Char)) : Prop :=
  BeginsEntry lines ∧ (values "processor" lines).length = 1

/-- The lines with this key have numbers for values. -/
def HasNumbers (key : String) (lines : List (List Char)) : Prop :=
  ∀ value ∈ values key lines, (Text.readUInt32? value).isSome

def Sound (lines : List (List Char)) : Prop :=
  HasNumbers "processor" lines ∧ HasNumbers "apicid" lines

instance (text : String) : Decidable (WholeLines text) :=
  inferInstanceAs (Decidable (_ ∨ _))

instance (lines : List (List Char)) : Decidable (BeginsEntry lines) :=
  inferInstanceAs (Decidable (_ = true))

instance (lines : List (List Char)) : Decidable (IsBlock lines) :=
  inferInstanceAs (Decidable (_ ∧ _))

instance (key : String) (lines : List (List Char)) : Decidable (HasNumbers key lines) :=
  inferInstanceAs (Decidable (∀ value ∈ values key lines, _ = true))

instance (lines : List (List Char)) : Decidable (Sound lines) :=
  inferInstanceAs (Decidable (_ ∧ _))

/-- The entry of a block: its number, and the last APIC id and model name, if it has one. -/
structure Describes (lines : List (List Char)) (p : Processor) : Prop where
  number : ∃ value, values "processor" lines = [value] ∧ Text.readUInt32? value = some p.number
  apicId : match (values "apicid" lines).getLast? with
    | some value => Text.readUInt32? value = some p.apicId
    | none => p.apicId = p.number
  model : p.model = String.ofList ((values "model name" lines).getLast?.getD [])

theorem value?_eq_some {key : String} {line value : List Char} :
    value? key line = some value ↔ keyValue? line = some (key.toList, value) := by
  rw [value?, Option.bind_eq_some_iff]
  constructor
  · rintro ⟨⟨k, v⟩, hkv, h⟩
    obtain ⟨rfl, hv⟩ := Option.ite_none_right_eq_some.1 h
    rw [hkv, Option.some.inj hv]
  · exact fun h => ⟨_, h, if_pos rfl⟩

/-- The key of a line is what stands before its first colon, its value what stands behind it. -/
theorem value?_eq_some_iff {key : String} {line value : List Char} :
    value? key line = some value ↔ ∃ before after, line = before ++ ':' :: after
      ∧ ':' ∉ before ∧ Text.trim before = key.toList ∧ Text.trim after = value := by
  rw [value?_eq_some, keyValue?, Option.map_eq_some_iff]
  constructor
  · rintro ⟨⟨before, after⟩, hcut, h⟩
    obtain ⟨hline, hbefore⟩ := Text.cutAt?_eq_some_iff.1 hcut
    obtain ⟨hkey, hvalue⟩ := Prod.mk.inj h
    exact ⟨before, after, hline, hbefore, hkey, hvalue⟩
  · rintro ⟨before, after, hline, hbefore, hkey, hvalue⟩
    exact ⟨(before, after), Text.cutAt?_eq_some_iff.2 ⟨hline, hbefore⟩, Prod.ext hkey hvalue⟩

theorem value?_eq_none_of_ne {key key' : String} {line value : List Char}
    (h : value? key line = some value) (hne : key ≠ key') : value? key' line = none := by
  refine Option.eq_none_iff_forall_ne_some.2 fun v hv => ?_
  have h := (value?_eq_some.1 h).symm.trans (value?_eq_some.1 hv)
  exact hne (String.toList_inj.1 (Prod.mk.inj (Option.some.inj h)).1)

section Line

variable {path : String} {line value : List Char} {entries : List Processor}

/-- What a line that is not one for a processor makes of the entry it follows. -/
def fill (path : String) (p : Processor) (line : List Char) : Except FileFault Processor :=
  match value? "model name" line, value? "apicid" line with
  | some value, _ => .ok { p with model := String.ofList value }
  | none, some value => (number path "apicid" value).map fun n => { p with apicId := n }
  | none, none => .ok p

theorem addLine_of_processor (h : value? "processor" line = some value) :
    addLine path entries line
      = (number path "processor" value).map fun n => ⟨n, n, ""⟩ :: entries := by
  rw [addLine, value?_eq_some.1 h]
  rfl

theorem addLine_nil (h : value? "processor" line = none) : addLine path [] line = .ok [] := by
  unfold addLine
  rcases hkv : keyValue? line with _ | ⟨k, v⟩
  · rfl
  · refine if_neg fun hk => ?_
    rw [value?_eq_some.2 (hkv.trans (by rw [hk]))] at h
    cases h

theorem addLine_cons (h : value? "processor" line = none) (p : Processor) :
    addLine path (p :: entries) line = (fill path p line).map (· :: entries) := by
  unfold addLine fill
  rcases hkv : keyValue? line with _ | ⟨k, v⟩
  · simp only [value?, hkv, Option.bind_none]
    rfl
  · have hproc : k ≠ "processor".toList := by
      rintro rfl
      cases h.symm.trans (value?_eq_some.2 hkv)
    simp only [value?, hkv, Option.bind_some, if_neg hproc]
    by_cases hmodel : k = "model name".toList
    · simp only [if_pos hmodel]
      rfl
    · by_cases hapic : k = "apicid".toList
      · simp only [if_neg hmodel, if_pos hapic]
        rcases number path "apicid" v with fault | n <;> rfl
      · simp only [if_neg hmodel, if_neg hapic]
        rfl

end Line

section Block

variable {path key : String} {p q r : Processor} {value : List Char}
  {lines lines' : List (List Char)}

theorem number_settles : Settles (Text.readUInt32? value).isSome
    (fun n => Text.readUInt32? value = some n) (number path key value) := by
  unfold number
  rcases Text.readUInt32? value with _ | n
  · exact nofun
  · exact ⟨rfl, rfl⟩

/-- What the lines after an entry's first one make of it. -/
structure Fills (lines : List (List Char)) (p q : Processor) : Prop where
  number : q.number = p.number
  apicId : match (values "apicid" lines).getLast? with
    | some value => Text.readUInt32? value = some q.apicId
    | none => q.apicId = p.apicId
  model : q.model = ((values "model name" lines).getLast?.map String.ofList).getD p.model

theorem values_append (key : String) (lines lines' : List (List Char)) :
    values key (lines ++ lines') = values key lines ++ values key lines' :=
  List.filterMap_append

theorem hasNumbers_append : HasNumbers key (lines ++ lines') ↔
    HasNumbers key lines ∧ HasNumbers key lines' := by
  rw [HasNumbers, values_append, List.forall_mem_append]
  rfl

theorem Fills.trans (h : Fills lines p q) (h' : Fills lines' q r) :
    Fills (lines ++ lines') p r where
  number := h'.number.trans h.number
  apicId := by
    have ha := h.apicId
    have hb := h'.apicId
    rw [values_append, List.getLast?_append]
    rcases hlast : (values "apicid" lines').getLast? with _ | v <;> rw [hlast] at hb
    · rw [Option.none_or, hb]
      exact ha
    · exact hb
  model := by
    rw [values_append, List.getLast?_append, h'.model, h.model]
    rcases (values "model name" lines').getLast? with _ | v <;> rfl

theorem fill_fills (path : String) (p : Processor) (line : List Char) :
    Settles (HasNumbers "apicid" [line]) (Fills [line] p) (fill path p line) := by
  unfold fill
  rcases hmodel : value? "model name" line with _ | v
  · rcases hapic : value? "apicid" line with _ | v
    · exact ⟨by simp [HasNumbers, values, hapic], rfl, by simp [values, hapic],
        by simp [values, hmodel]⟩
    · refine (number_settles.map fun n hn => ⟨rfl, ?_, ?_⟩).imp ?_ fun _ h => h
      · simp [HasNumbers, values, hapic]
      · simp [values, hapic, hn]
      · simp [values, hmodel]
  · have hapic : value? "apicid" line = none := value?_eq_none_of_ne hmodel (by decide)
    exact ⟨by simp [HasNumbers, values, hapic], rfl, by simp [values, hapic],
      by simp [values, hmodel]⟩

theorem foldlM_addLine_fills (path : String) :
    ∀ (lines : List (List Char)) (p : Processor), values "processor" lines = [] →
      Settles (HasNumbers "apicid" lines) (fun entries => ∃ q, entries = [q] ∧ Fills lines p q)
        (lines.foldlM (addLine path) [p])
  | [], p, _ => ⟨nofun, p, rfl, rfl, rfl, rfl⟩
  | line :: lines, p, h => by
    rw [← List.singleton_append, values_append, List.append_eq_nil_iff] at h
    rw [List.foldlM_cons, addLine_cons (by simpa [values] using h.1), ← List.singleton_append]
    refine (((fill_fills path p line).map fun q hq => ⟨q, rfl, hq⟩).bind
      (P := fun entries => ∃ q, entries = [q] ∧ Fills [line] p q)
      (q := HasNumbers "apicid" lines) ?_).imp hasNumbers_append.symm fun _ h => h
    rintro _ ⟨q, rfl, hpq⟩
    refine (foldlM_addLine_fills path lines q h.2).imp Iff.rfl ?_
    rintro _ ⟨r, rfl, hqr⟩
    exact ⟨r, rfl, hpq.trans hqr⟩

theorem foldlM_addLine_head (path : String) :
    ∀ lines : List (List Char), values "processor" lines = [] →
      lines.foldlM (addLine path) [] = .ok []
  | [], _ => rfl
  | line :: lines, h => by
    rw [← List.singleton_append, values_append, List.append_eq_nil_iff] at h
    rw [List.foldlM_cons, addLine_nil (by simpa [values] using h.1), ok_bind,
      foldlM_addLine_head path lines h.2]

end Block

section Append

variable {path : String} {a b : String}

/-- What stands before the last entry stays as it is. -/
theorem addLine_append (path : String) (line : List Char) {entries : List Processor}
    (earlier : List Processor)
    (h : entries ≠ [] ∨ (value? "processor" line).isSome) :
    addLine path (entries ++ earlier) line
        = (addLine path entries line).map (· ++ earlier)
      ∧ Ensures (· ≠ []) (addLine path entries line) := by
  rcases hline : value? "processor" line with _ | v
  · obtain ⟨p, entries, rfl⟩ := List.exists_cons_of_ne_nil (h.resolve_right (by simp [hline]))
    rw [List.cons_append, addLine_cons hline, addLine_cons hline]
    rcases fill path p line with fault | q
    · exact ⟨rfl, nofun⟩
    · exact ⟨rfl, by rintro _ ⟨⟩; simp⟩
  · rw [addLine_of_processor hline, addLine_of_processor hline]
    rcases number path "processor" v with fault | n
    · exact ⟨rfl, nofun⟩
    · exact ⟨rfl, by rintro _ ⟨⟩; simp⟩

theorem foldlM_addLine_append (earlier : List Processor) :
    ∀ (lines : List (List Char)) {entries : List Processor}, entries ≠ [] →
      lines.foldlM (addLine path) (entries ++ earlier)
        = (lines.foldlM (addLine path) entries).map (· ++ earlier)
  | [], _, _ => rfl
  | line :: lines, entries, h => by
    obtain ⟨hline, hne⟩ := addLine_append path line earlier (.inl h)
    rw [List.foldlM_cons, List.foldlM_cons, hline]
    rcases hx : addLine path entries line with fault | entries'
    · rfl
    · exact foldlM_addLine_append earlier lines (hne _ hx)

/-- From the beginning of an entry on, what stands before it counts for nothing. -/
theorem foldlM_of_beginsEntry (earlier : List Processor) {lines : List (List Char)}
    (h : BeginsEntry lines) :
    lines.foldlM (addLine path) earlier
      = (lines.foldlM (addLine path) []).map (· ++ earlier) := by
  rcases lines with _ | ⟨line, lines⟩
  · cases h
  · have hstart : ([] : List Processor) ≠ [] ∨ (value? "processor" line).isSome := .inr h
    obtain ⟨happend, hne⟩ := addLine_append path line earlier hstart
    rw [List.foldlM_cons, List.foldlM_cons, ← List.nil_append earlier, happend]
    rcases hx : addLine path [] line with fault | entries
    · rfl
    · rw [List.nil_append]
      exact foldlM_addLine_append earlier lines (hne _ hx)

theorem linesOf_append (ha : a.toList.getLast? = some '\n') (b : String) :
    ∃ lines, linesOf a = lines ++ [[]] ∧ linesOf (a ++ b) = lines ++ linesOf b := by
  obtain ⟨cs, hcs⟩ := List.getLast?_eq_some_iff.1 ha
  refine ⟨Text.lines cs, ?_, ?_⟩
  · rw [linesOf, hcs]
    exact Text.fields_append_sep (by decide) cs []
  · rw [linesOf, String.toList_append, hcs, List.append_assoc]
    exact Text.fields_append_sep (by decide) cs b.toList

/-- A text that is cut at the end of a line is read part by part. -/
theorem foldlM_linesOf_append (ha : WholeLines a) (b : String) (entries : List Processor) :
    (linesOf (a ++ b)).foldlM (addLine path) entries
      = (linesOf a).foldlM (addLine path) entries
        >>= fun entries' => (linesOf b).foldlM (addLine path) entries' := by
  rcases ha with rfl | ha
  · rw [String.empty_append]
    rfl
  · obtain ⟨lines, hlines, happend⟩ := linesOf_append ha b
    rw [happend, hlines, List.foldlM_append, List.foldlM_append]
    rcases lines.foldlM (addLine path) entries with fault | entries' <;> rfl

theorem parse_append (ha : WholeLines a) (hb : BeginsEntry (linesOf b)) :
    parse path (a ++ b) = do
      let entries ← parse path a
      let entries' ← parse path b
      return entries ++ entries' := by
  have hscan : ∀ text, parse path text
      = ((linesOf text).foldlM (addLine path) []).map List.reverse := fun _ => rfl
  rw [hscan, hscan, hscan, foldlM_linesOf_append ha]
  rcases (linesOf a).foldlM (addLine path) [] with fault | entries
  · rfl
  · rw [ok_bind, foldlM_of_beginsEntry entries hb]
    rcases (linesOf b).foldlM (addLine path) [] with fault | entries'
    · rfl
    · exact congrArg Except.ok List.reverse_append

end Append

section Blocks

variable {path a b : String}

theorem BeginsEntry.append (ha : WholeLines a) (h : BeginsEntry (linesOf a)) (b : String) :
    BeginsEntry (linesOf (a ++ b)) := by
  rcases ha with rfl | ha
  · cases h
  · obtain ⟨lines, hlines, happend⟩ := linesOf_append ha b
    rw [hlines] at h
    rw [happend]
    rcases lines with _ | ⟨line, lines⟩
    · cases h
    · exact h

section OneBlock

variable {first value : List Char} {rest : List (List Char)}
  (hfirst : value? "processor" first = some value)
include hfirst

theorem values_processor (hrest : values "processor" rest = []) :
    values "processor" (first :: rest) = [value] := by
  rw [values, List.filterMap_cons_some hfirst]
  exact congrArg _ hrest

theorem values_other {key : String} (hkey : "processor" ≠ key) :
    values key (first :: rest) = values key rest := by
  rw [values, List.filterMap_cons_none (value?_eq_none_of_ne hfirst hkey), values]

theorem Fills.describes {n : UInt32} {p : Processor} (hn : Text.readUInt32? value = some n)
    (hrest : values "processor" rest = []) (h : Fills rest ⟨n, n, ""⟩ p) :
    Describes (first :: rest) p where
  number := ⟨value, values_processor hfirst hrest, by rw [hn, h.number]⟩
  apicId := by
    have hapic := h.apicId
    rw [values_other hfirst (by decide)]
    rcases hlast : (values "apicid" rest).getLast? with _ | v <;> rw [hlast] at hapic
    · exact hapic.trans h.number.symm
    · exact hapic
  model := by
    rw [h.model, values_other hfirst (by decide)]
    rcases (values "model name" rest).getLast? with _ | v <;> rfl

theorem foldlM_block (path : String) (hrest : values "processor" rest = []) :
    Settles (Sound (first :: rest)) (fun l => ∃ p, l = [p] ∧ Describes (first :: rest) p)
      ((first :: rest).foldlM (addLine path) []) := by
  have hsound : Sound (first :: rest)
      ↔ (Text.readUInt32? value).isSome ∧ HasNumbers "apicid" rest := by
    rw [Sound, HasNumbers, values_processor hfirst hrest, List.forall_mem_singleton,
      HasNumbers, values_other hfirst (by decide), HasNumbers]
  rw [List.foldlM_cons, addLine_of_processor hfirst]
  have hnumber : Settles (Text.readUInt32? value).isSome
      (fun entries => ∃ n : UInt32, entries = [Processor.mk n n ""]
        ∧ Text.readUInt32? value = some n)
      ((number path "processor" value).map fun n => [⟨n, n, ""⟩]) :=
    number_settles.map fun n hn => ⟨n, rfl, hn⟩
  refine (hnumber.bind (q := HasNumbers "apicid" rest) ?_).imp hsound.symm fun _ h => h
  rintro _ ⟨n, rfl, hn⟩
  refine (foldlM_addLine_fills path rest ⟨n, n, ""⟩ hrest).imp Iff.rfl ?_
  rintro _ ⟨p, rfl, hp⟩
  exact ⟨p, rfl, hp.describes hfirst hn hrest⟩

end OneBlock

theorem IsBlock.parse (path : String) (h : IsBlock (linesOf b)) :
    Settles (Sound (linesOf b)) (fun l => ∃ p, l = [p] ∧ Describes (linesOf b) p)
      (parse path b) := by
  obtain ⟨hbegins, halone⟩ := h
  change Settles _ _ (((linesOf b).foldlM (addLine path) []).map List.reverse)
  rcases hlines : linesOf b with _ | ⟨first, rest⟩ <;> rw [hlines] at hbegins halone
  · cases hbegins
  · obtain ⟨value, hfirst⟩ := Option.isSome_iff_exists.1 hbegins
    change value? "processor" first = some value at hfirst
    have hrest : values "processor" rest = [] := by
      rw [values, List.filterMap_cons_some hfirst, List.length_cons] at halone
      exact List.length_eq_zero_iff.1 (Nat.succ.inj halone)
    refine (foldlM_block hfirst path hrest).map ?_
    rintro _ ⟨p, rfl, hp⟩
    exact ⟨p, rfl, hp⟩

theorem beginsEntry_join {blocks : List String} (hb : BeginsEntry (linesOf b))
    (h : ∀ c ∈ (b :: blocks).dropLast, WholeLines c) :
    BeginsEntry (linesOf (String.join (b :: blocks))) := by
  rw [String.join_cons]
  rcases blocks with _ | ⟨next, blocks⟩
  · rwa [String.join_nil, String.append_empty]
  · exact hb.append (h b List.mem_cons_self) _

theorem parse_join (path : String) :
    ∀ blocks : List String, (∀ b ∈ blocks, IsBlock (linesOf b)) →
      (∀ b ∈ blocks.dropLast, WholeLines b) →
        Settles (∀ b ∈ blocks, Sound (linesOf b))
          (fun l => List.Forall₂ (fun b p => Describes (linesOf b) p) blocks l)
          (parse path (String.join blocks))
  | [], _, _ => ⟨nofun, .nil⟩
  | [b], hblock, _ => by
    rw [String.join_cons, String.join_nil, String.append_empty]
    refine ((hblock b List.mem_cons_self).parse path).imp (by simp) ?_
    rintro _ ⟨p, rfl, hp⟩
    exact .cons hp .nil
  | b :: next :: blocks, hblock, hwhole => by
    have hblock' : ∀ c ∈ next :: blocks, IsBlock (linesOf c) :=
      fun c hc => hblock c (List.mem_cons_of_mem _ hc)
    have hwhole' : ∀ c ∈ (next :: blocks).dropLast, WholeLines c :=
      fun c hc => hwhole c (List.mem_cons_of_mem _ hc)
    rw [String.join_cons, parse_append (hwhole b List.mem_cons_self)
      (beginsEntry_join (hblock' next List.mem_cons_self).1 hwhole')]
    refine (((hblock b List.mem_cons_self).parse path).bind
      (q := ∀ c ∈ next :: blocks, Sound (linesOf c)) ?_).imp (by simp) fun _ h => h
    rintro _ ⟨p, rfl, hp⟩
    exact (parse_join path (next :: blocks) hblock' hwhole').map fun l hl => .cons hp hl

theorem parse_head (path : String) (h : values "processor" (linesOf a) = []) :
    parse path a = .ok [] := by
  change ((linesOf a).foldlM (addLine path) []).map List.reverse = _
  rw [foldlM_addLine_head path _ h]
  rfl

/-- A table is read block by block: what stands before the first block is passed over, each block
has to be sound, and each gives one entry. So the entries of two parts stand side by side, unless
one of them is spoilt; then the fault is that of the first one that is. -/
theorem parse_by_block (path : String) :
    (∀ (head : String) (blocks : List String), values "processor" (linesOf head) = [] →
      (∀ b ∈ blocks, IsBlock (linesOf b)) →
      (∀ piece ∈ (head :: blocks).dropLast, WholeLines piece) →
        ((∃ l, parse path (head ++ String.join blocks) = .ok l)
          ↔ ∀ b ∈ blocks, Sound (linesOf b))
        ∧ ∀ l, parse path (head ++ String.join blocks) = .ok l →
          List.Forall₂ (fun b p => Describes (linesOf b) p) blocks l)
    ∧ ∀ a b : String, a.toList.getLast? = some '\n' → BeginsEntry (linesOf b) →
      parse path (a ++ b) = do
        let entries ← parse path a
        let entries' ← parse path b
        return entries ++ entries' := by
  refine ⟨fun head blocks hhead hblocks hwhole => settles_iff.1 ?_,
    fun a b ha hb => parse_append (.inr ha) hb⟩
  rcases blocks with _ | ⟨b, blocks⟩
  · rw [String.join_nil, String.append_empty, parse_head path hhead]
    exact ⟨nofun, .nil⟩
  · have hwhole' : ∀ c ∈ (b :: blocks).dropLast, WholeLines c :=
      fun c hc => hwhole c (List.mem_cons_of_mem _ hc)
    rw [parse_append (hwhole head List.mem_cons_self)
      (beginsEntry_join (hblocks b List.mem_cons_self).1 hwhole'), parse_head path hhead, ok_bind]
    refine ((parse_join path (b :: blocks) hblocks hwhole').map (g := ([] ++ ·)) fun l hl => hl)

/-- A head and two blocks, with carriage returns and a last line without an end; and two entries
that are both spoilt. -/
theorem parse_by_block_ghost :
    (∃ p q, parse "cpuinfo" ("model name : ghost\n" ++ String.join
        ["processor : 2\r\nmodel name : a: b\r\n\r\n", "processor:0\napicid : 5\napicid : 7"])
          = .ok [p, q]
      ∧ Describes (linesOf "processor : 2\r\nmodel name : a: b\r\n\r\n") p
      ∧ Describes (linesOf "processor:0\napicid : 5\napicid : 7") q)
    ∧ parse "cpuinfo" ("processor : x\n" ++ "processor : y\n")
      = parse "cpuinfo" "processor : x\n" := by
  refine ⟨?_, ?_⟩
  · obtain ⟨hok, hdescribes⟩ := (parse_by_block "cpuinfo").1 "model name : ghost\n"
      ["processor : 2\r\nmodel name : a: b\r\n\r\n", "processor:0\napicid : 5\napicid : 7"]
      (by decide +kernel) (by decide +kernel) (by decide +kernel)
    obtain ⟨l, hl⟩ := hok.2 (by decide +kernel)
    obtain _ | ⟨hp, _ | ⟨hq, ⟨⟩⟩⟩ := hdescribes l hl
    exact ⟨_, _, hl, hp, hq⟩
  · rw [(parse_by_block "cpuinfo").2 _ _ (by decide +kernel) (by decide +kernel)]
    rfl

end Blocks

end ProcessorTable

end ComputeTopology
