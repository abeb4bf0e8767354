import ComputeTopology.Proofs.Numerals
import ComputeTopology.Proofs.Result
import ComputeTopology.Proofs.Words
import ComputeTopology.Sysfs.PropertySheet

/-!
# Property sheets in any layout

A property sheet is known by the words on its lines (`Text.Lined`): lines of two words give a key
its value, the last one of a key counts, and all other lines may stand anywhere. Whatever blanks
and line ends a text has, its sheet holds the values that its lines record
(`PropertySheet.raw?_parse`). What stands for no number is a fault, and what is missing is not
(`PropertySheet.parse_answers`).
-/

namespace ComputeTopology

namespace Text

/-- The words on the lines of a text. A carriage return before a line feed is a blank of its line,
and a text that ends in a line feed has an empty last line. -/
inductive Lined : List (List (List Char)) → List Char → Prop
  | last {ws : List (List Char)} {line : List Char} (hfeed : '\n' ∉ line) (h : Spaced ws line) :
    Lined [ws] line
  | more {ws : List (List Char)} {rows : List (List (List Char))} {line rest : List Char}
    (hfeed : '\n' ∉ line) (h : Spaced ws line) (hrest : Lined rows rest) :
    Lined (ws :: rows) (line ++ '\n' :: rest)

variable {rows : List (List (List Char))} {cs : List Char}

theorem Lined.map_words (h : Lined rows cs) : (lines cs).map words = rows := by
  induction h with
  | last hfeed h => rw [lines_of_not_mem hfeed, List.map_singleton, words_of_spaced h]
  | more hfeed h _ ih => rw [lines_append_cons hfeed, List.map_cons, words_of_spaced h, ih]

theorem Lined.isWord (h : Lined rows cs) : ∀ ws ∈ rows, ∀ w ∈ ws, IsWord w := by
  induction h with
  | last _ h => exact List.forall_mem_singleton.2 (.of_spaced h)
  | more _ h _ ih => exact List.forall_mem_cons.2 ⟨.of_spaced h, ih⟩

/-- Every text has words on its lines. -/
theorem lined_lines (cs : List Char) : Lined ((lines cs).map words) cs := by
  rcases hcut : cutAt? '\n' cs with _ | ⟨line, rest⟩
  · have hfeed := cutAt?_eq_none_iff.1 hcut
    rw [lines_of_not_mem hfeed]
    exact .last hfeed (spaced_words cs)
  · obtain ⟨hcs, hfeed⟩ := cutAt?_eq_some_iff.1 hcut
    have hlt : rest.length < cs.length := by
      rw [hcs, List.length_append, List.length_cons]
      omega
    rw [hcs, lines_append_cons hfeed]
    exact .more hfeed (spaced_words line) (lined_lines rest)
termination_by cs.length

end Text

namespace PropertySheet

variable {m : String → Option String} {rows : List (List (List Char))} {path content : String}

/-- The rows with two words have the keys of `m`, and the last one for a key has its value. -/
structure Records (m : String → Option String) (rows : List (List (List Char))) : Prop where
  known : ∀ key value, [key, value] ∈ rows → (m (String.ofList key)).isSome
  last : ∀ key value, m key = some value → ∃ before after,
    rows = before ++ [key.toList, value.toList] :: after ∧ ∀ other, [key.toList, other] ∉ after

/-- What a reader finds under a key: `absent` if it has no value, what its value stands for, and a
fault of the sheet if that is nothing. -/
structure Reads {α : Type} (path : String) (m : String → Option String)
    (read : String → Except FileFault α) (absent : α) (Means : List Char → α → Prop) : Prop where
  absent : ∀ key, m key = none → read key = .ok absent
  value : ∀ key text a, m key = some text → Means text.toList a → read key = .ok a
  fault : ∀ key text, m key = some text → (∀ a, ¬ Means text.toList a) →
    ∃ fault, read key = .error fault ∧ fault.path = path

/-- The numbers between the commas, without the empty places. -/
def CommaList (cs : List Char) (numbers : List UInt32) : Prop :=
  ∃ parts, parts ≠ [] ∧ (∀ part ∈ parts, ',' ∉ part) ∧ cs = [','].intercalate parts
    ∧ List.Forall₂ (fun part n => Text.Numeral part n.toNat) (parts.filter (· ≠ [])) numbers

/-- The key and the value that the words of a line give. -/
def entryOfWords? : List (List Char) → Option (String × String)
  | [key, value] => some (String.ofList key, String.ofList value)
  | _ => none

theorem entries_parse (h : Text.Lined rows content.toList) :
    (parse path content).entries = (rows.filterMap entryOfWords?).reverse := by
  rw [← h.map_words, List.filterMap_map]
  rfl

theorem mem_filterMap_entryOfWords? {key value : String} :
    (key, value) ∈ rows.filterMap entryOfWords? ↔ [key.toList, value.toList] ∈ rows := by
  rw [List.mem_filterMap]
  constructor
  · rintro ⟨ws, hmem, h⟩
    unfold entryOfWords? at h
    split at h <;> cases h
    simpa using hmem
  · intro h
    exact ⟨_, h, by simp [entryOfWords?]⟩

/-- A sheet holds the values that the lines of its text record. -/
theorem raw?_parse (hrows : Text.Lined rows content.toList) (hm : Records m rows) (key : String) :
    (parse path content).raw? key = m key := by
  rw [raw?, entries_parse hrows]
  rcases hkey : m key with _ | value
  · rw [List.lookup_eq_none_iff]
    rintro ⟨k, value⟩ hmem
    have hsome := hm.known _ _ (mem_filterMap_entryOfWords?.1 (List.mem_reverse.1 hmem))
    rw [bne_iff_ne]
    rintro rfl
    rw [String.ofList_toList, hkey] at hsome
    cases hsome
  · obtain ⟨before, after, rfl, hafter⟩ := hm.last key value hkey
    rw [List.lookup_eq_some_iff]
    refine ⟨(after.filterMap entryOfWords?).reverse, (before.filterMap entryOfWords?).reverse, ?_,
      fun ⟨k, other⟩ hmem => ?_⟩
    · simp [entryOfWords?]
    · rw [bne_iff_ne]
      rintro rfl
      exact hafter _ (mem_filterMap_entryOfWords?.1 (List.mem_reverse.1 hmem))

/-- The lines of every text record some values. -/
theorem records_lookup (rows : List (List (List Char))) :
    Records (fun key => (rows.filterMap entryOfWords?).reverse.lookup key) rows where
  known key value h := by
    rw [List.lookup_isSome_iff]
    refine ⟨(String.ofList key, String.ofList value), ?_, beq_self_eq_true _⟩
    rw [List.mem_reverse, mem_filterMap_entryOfWords?, String.toList_ofList, String.toList_ofList]
    exact h
  last key value h := by
    obtain ⟨later, earlier, hentries, hlater⟩ := List.lookup_eq_some_iff.1 h
    rw [List.reverse_eq_iff, List.reverse_append, List.reverse_cons, List.append_assoc,
      List.singleton_append] at hentries
    obtain ⟨before, rest, rfl, -, hrest⟩ := List.filterMap_eq_append_iff.1 hentries
    obtain ⟨noise, ws, after, rfl, -, hws, hafter⟩ := List.filterMap_eq_cons_iff.1 hrest
    have hwords : ws = [key.toList, value.toList] := by
      unfold entryOfWords? at hws
      split at hws <;> cases hws
      simp
    refine ⟨before ++ noise, after, by rw [hwords, List.append_assoc], fun other hmem => ?_⟩
    rw [← String.toList_ofList (l := other), ← mem_filterMap_entryOfWords?, hafter,
      List.mem_reverse] at hmem
    exact absurd rfl (bne_iff_ne.1 (hlater _ hmem))

section Readers

variable {s : PropertySheet} {key value : String}

theorem mapM_listEntry_of_forall₂ {parts : List (List Char)} {numbers : List UInt32}
    (h : List.Forall₂ (fun part n => Text.readUInt32? (Text.trim part) = some n) parts numbers) :
    parts.mapM (listEntry path key) = .ok numbers := by
  induction h with
  | nil => rfl
  | cons hpart _ ih =>
    rw [List.mapM_cons, listEntry, hpart, ih]
    rfl

theorem mapM_listEntry_of_error :
    ∀ {parts : List (List Char)}, (¬ ∃ numbers, List.Forall₂
      (fun part n => Text.readUInt32? (Text.trim part) = some n) parts numbers) →
      ∃ fault, parts.mapM (listEntry path key) = .error fault ∧ fault.path = path
  | [], h => absurd ⟨[], .nil⟩ h
  | part :: parts, h => by
    rw [List.mapM_cons, listEntry]
    rcases hpart : Text.readUInt32? (Text.trim part) with _ | n
    · exact ⟨_, rfl, rfl⟩
    · obtain ⟨fault, hparts, hpath⟩ := mapM_listEntry_of_error
        fun ⟨numbers, hnumbers⟩ => h ⟨n :: numbers, .cons hpart hnumbers⟩
      refine ⟨fault, ?_, hpath⟩
      rw [hparts]
      rfl

/-- There are no blanks in a word, so the parts of a list need no trimming. -/
theorem commaList_iff (hvalue : Text.IsWord value.toList) {numbers : List UInt32} :
    CommaList value.toList numbers ↔ List.Forall₂
      (fun part n => Text.readUInt32? (Text.trim part) = some n)
      ((Text.fields (· = ',') value.toList).filter (· ≠ [])) numbers := by
  have hparts : ∀ part ∈ Text.fields (· = ',') value.toList, ',' ∉ part := fun part hpart hcomma =>
    absurd (Text.of_mem_fields hpart _ hcomma).2 (by decide)
  have htrim : ((Text.fields (· = ',') value.toList).filter (· ≠ [])).map Text.trim
      = (Text.fields (· = ',') value.toList).filter (· ≠ []) := by
    refine (List.map_congr_left fun part hpart => ?_).trans (List.map_id _)
    exact Text.trim_of_forall_not_blank fun c hc =>
      hvalue.not_blank c (Text.of_mem_fields (List.mem_of_mem_filter hpart) c hc).1
  simp only [Text.readUInt32?_eq_some_iff]
  rw [← List.forall₂_map_left_iff (R := fun part n => Text.Numeral part (UInt32.toNat n)), htrim]
  constructor
  · rintro ⟨parts, hne, hcomma, hcs, h⟩
    rwa [hcs, Text.fields_intercalate hne hcomma]
  · intro h
    exact ⟨_, Text.fields_ne_nil _ _, hparts, (Text.intercalate_fields ',' _).symm, h⟩

theorem Reads.map {α β : Type} {read : String → Except FileFault α} {absent : α}
    {Means : List Char → α → Prop} {Means' : List Char → β → Prop}
    (h : Reads path m read absent Means) (f : α → β)
    (hmeans : ∀ cs b, Means' cs b ↔ ∃ a, Means cs a ∧ f a = b) :
    Reads path m (fun key => (read key).map f) (f absent) Means' where
  absent key hkey := by rw [h.absent key hkey]; rfl
  value key text b hkey hb := by
    obtain ⟨a, ha, rfl⟩ := (hmeans _ _).1 hb
    rw [h.value key text a hkey ha]
    rfl
  fault key text hkey hnone := by
    obtain ⟨fault, hread, hpath⟩ := h.fault key text hkey fun a ha =>
      hnone (f a) ((hmeans _ _).2 ⟨a, ha, rfl⟩)
    exact ⟨fault, by rw [hread]; rfl, hpath⟩

variable (hraw : ∀ key, s.raw? key = m key)

include hraw

theorem reads_get : Reads s.path m s.get none
    fun cs n => ∃ w : UInt64, n = some w ∧ Text.Numeral cs w.toNat where
  absent key hkey := by rw [get, hraw, hkey]
  value key text n hkey hn := by
    obtain ⟨w, rfl, hw⟩ := hn
    rw [get, hraw, hkey]
    simp only [Text.readUInt64?_eq_some_iff.2 hw]
  fault key text hkey hnone := by
    rw [get, hraw, hkey]
    rcases hread : Text.readUInt64? text.toList with _ | w
    · exact ⟨.malformed s.path (key ++ ": expected integer, got '" ++ text ++ "'"),
        by simp only [hread], rfl⟩
    · exact absurd ⟨w, rfl, Text.readUInt64?_eq_some_iff.1 hread⟩ (hnone (some w))

theorem reads_uint64 : Reads s.path m s.uint64 0 fun cs n => Text.Numeral cs n.toNat :=
  (reads_get hraw).map (·.getD 0) fun cs n => by
    constructor
    · exact fun h => ⟨some n, ⟨n, rfl, h⟩, rfl⟩
    · rintro ⟨_, ⟨w, rfl, h⟩, rfl⟩
      exact h

theorem reads_uint32 : Reads s.path m s.uint32 0
    fun cs n => ∃ w : UInt64, Text.Numeral cs w.toNat ∧ n.toNat = w.toNat % 2 ^ 32 :=
  (reads_uint64 hraw).map (·.toUInt32) fun cs n => by
    simp only [← UInt32.toNat_inj, UInt64.toNat_toUInt32, eq_comm]

theorem reads_list (hwords : ∀ key value, m key = some value → Text.IsWord value.toList) :
    Reads s.path m s.list [] CommaList where
  absent key hkey := by rw [list, hraw, hkey]
  value key text numbers hkey hnumbers := by
    rw [list, hraw, hkey]
    exact mapM_listEntry_of_forall₂ ((commaList_iff (hwords key text hkey)).1 hnumbers)
  fault key text hkey hnone := by
    rw [list, hraw, hkey]
    exact mapM_listEntry_of_error fun ⟨numbers, hnumbers⟩ =>
      hnone numbers ((commaList_iff (hwords key text hkey)).2 hnumbers)

end Readers

/-- From a text in any layout a sheet has the values that its lines record and no others. A value is
read as the number or the list that it stands for, or is a fault; a missing one is zero, or no
number at all. -/
theorem parse_answers (path : String) (hrows : Text.Lined rows content.toList)
    (hm : Records m rows) :
    (∀ key, (parse path content).raw? key = m key)
      ∧ Reads path m (parse path content).get none
        (fun cs n => ∃ w : UInt64, n = some w ∧ Text.Numeral cs w.toNat)
      ∧ Reads path m (parse path content).uint64 0 (fun cs n => Text.Numeral cs n.toNat)
      ∧ Reads path m (parse path content).uint32 0
        (fun cs n => ∃ w : UInt64, Text.Numeral cs w.toNat ∧ n.toNat = w.toNat % 2 ^ 32)
      ∧ Reads path m (parse path content).list [] CommaList := by
  have hraw : ∀ key, (parse path content).raw? key = m key := raw?_parse hrows hm
  refine ⟨hraw, reads_get hraw, reads_uint64 hraw, reads_uint32 hraw,
    reads_list hraw fun key value hkey => ?_⟩
  obtain ⟨before, after, heq, -⟩ := hm.last key value hkey
  have hmem : [key.toList, value.toList] ∈ rows := by
    rw [heq]
    exact List.mem_append_right _ List.mem_cons_self
  exact hrows.isWord _ hmem _ (.tail _ (.head _))

/-- Lines with either end and lines to be passed over, a key with two values, a value beyond 32
bits, a list with an empty place, and a value that is no number. -/
theorem parse_answers_oddSheet :
    let content := "a  1\r\nnoise\n\ta 4294967298\r\n\nb 1,,+02\nx y z\nc 0x12"
    ∃ m rows, Text.Lined rows content.toList ∧ Records m rows
      ∧ m "a" = some "4294967298" ∧ (parse "p" content).uint32 "a" = .ok 2
      ∧ m "b" = some "1,,+02" ∧ (parse "p" content).list "b" = .ok [1, 2]
      ∧ m "noise" = none ∧ (parse "p" content).get "noise" = .ok none
      ∧ m "c" = some "0x12" ∧ ∃ fault, (parse "p" content).get "c" = .error fault := by
  intro content
  have hnumeral : ∀ cs n, Text.readNat? 10 cs = some n → Text.Numeral cs n := fun _ _ =>
    Text.readNat?_eq_some_iff.1
  have hrows := Text.lined_lines content.toList
  have hm := records_lookup ((Text.lines content.toList).map Text.words)
  obtain ⟨-, hget, -, huint32, hlist⟩ := parse_answers "p" hrows hm
  have hlarge := huint32.value "a" "4294967298" 2 (by decide +kernel)
    ⟨4294967298, hnumeral _ _ (by decide +kernel), by decide⟩
  have hnumbers := hlist.value "b" "1,,+02" [1, 2] (by decide +kernel)
    ⟨[['1'], [], ['+', '0', '2']], by decide, by decide, by decide +kernel,
      .cons (hnumeral _ _ (by decide +kernel)) (.cons (hnumeral _ _ (by decide +kernel)) .nil)⟩
  have hnone : Text.readUInt64? "0x12".toList = none := by decide +kernel
  obtain ⟨fault, hfault, -⟩ := hget.fault "c" "0x12" (by decide +kernel) fun _ ⟨w, _, hw⟩ => by
    have hw := Text.readUInt64?_eq_some_iff.2 hw
    rw [hnone] at hw
    cases hw
  exact ⟨_, _, hrows, hm, by decide +kernel, hlarge, by decide +kernel, hnumbers,
    by decide +kernel, hget.absent "noise" (by decide +kernel), by decide +kernel, fault, hfault⟩

end PropertySheet

end ComputeTopology
