import ComputeTopology.Proofs.Cuts
import ComputeTopology.Proofs.Numbered
import ComputeTopology.Sysfs.ProcessorSet
import Mathlib.Algebra.Order.Group.Nat
import Mathlib.Data.List.Forall2

/-!
# Masks of processors

A hexadecimal word is read back with any number of leading zeros and in either case
(`Text.Spells.readUInt32?`), so a mask is read word by word (`ProcessorSet.ofMask?_of_spells`). The
set it stands for is strictly increasing and holds the numbers of the bits that are set
(`ProcessorSet.mem_ofWords`), and its sibling map has a one for each APIC id of the set
(`ProcessorSet.siblings_marks`).
-/

namespace ComputeTopology

namespace Text

/-- The word in hexadecimal: zeros, and then its digits in either case. -/
def Spells (cs : List Char) (word : UInt32) : Prop :=
  ∃ zeros, cs.map Char.toLower = List.replicate zeros '0' ++ Nat.toDigits 16 word.toNat

section Digits

variable {base : Nat} {c : Char} {cs : List Char}

theorem digitValue?_eq (base : Nat) (c : Char) : digitValue? base c =
    let value := if 48 ≤ c.toNat ∧ c.toNat ≤ 57 then c.toNat - 48
      else if 97 ≤ c.toNat ∧ c.toNat ≤ 122 then c.toNat - 97 + 10
      else if 65 ≤ c.toNat ∧ c.toNat ≤ 90 then c.toNat - 65 + 10
      else base
    if value < base then some value else none := by
  simp only [digitValue?, Char.le_def, UInt32.le_iff_toNat_le]
  rfl

theorem toNat_of_digitValue? (h : (digitValue? base c).isSome) :
    48 ≤ c.toNat ∧ c.toNat ≤ 122 := by
  rw [digitValue?_eq] at h
  by_contra hc
  have hdigit : ¬(48 ≤ c.toNat ∧ c.toNat ≤ 57) := by omega
  have hlower : ¬(97 ≤ c.toNat ∧ c.toNat ≤ 122) := by omega
  have hupper : ¬(65 ≤ c.toNat ∧ c.toNat ≤ 90) := by omega
  simp [hdigit, hlower, hupper] at h

theorem isBlank_of_digitValue? (h : (digitValue? base c).isSome) : isBlank c = false := by
  have hc := toNat_of_digitValue? h
  simp [isBlank]
  omega

theorem ne_of_digitValue? {d : Char} (h : (digitValue? base c).isSome) (hd : d.toNat < 48) :
    c ≠ d := by
  rintro rfl
  exact absurd (toNat_of_digitValue? h).1 (by omega)

theorem isUpper_iff : (c.val ≥ 'A'.val ∧ c.val ≤ 'Z'.val) ↔ 65 ≤ c.toNat ∧ c.toNat ≤ 90 := by
  simp only [ge_iff_le, UInt32.le_iff_toNat_le]
  rfl

theorem toNat_toLower (h : 65 ≤ c.toNat ∧ c.toNat ≤ 90) : c.toLower.toNat = c.toNat + 32 := by
  have hle : c.val.toNat ≤ 90 := h.2
  have hlower : c.toLower = _ := dif_pos (isUpper_iff.2 h)
  rw [hlower]
  change (c.val.toNat + 32) % UInt32.size = c.val.toNat + 32
  exact Nat.mod_eq_of_lt (Nat.lt_of_le_of_lt (Nat.add_le_add_right hle 32) (by decide))

theorem digitValue?_toLower (base : Nat) (c : Char) :
    digitValue? base c.toLower = digitValue? base c := by
  by_cases h : 65 ≤ c.toNat ∧ c.toNat ≤ 90
  · have hdigit : ¬(48 ≤ c.toNat ∧ c.toNat ≤ 57) := by omega
    have hlower : ¬(97 ≤ c.toNat ∧ c.toNat ≤ 122) := by omega
    have hdigit' : ¬(48 ≤ c.toNat + 32 ∧ c.toNat + 32 ≤ 57) := by omega
    have hlower' : 97 ≤ c.toNat + 32 ∧ c.toNat + 32 ≤ 122 := by omega
    have hvalue : c.toNat + 32 - 97 = c.toNat - 65 := by omega
    rw [digitValue?_eq, digitValue?_eq, toNat_toLower h]
    simp only [if_pos h, if_neg hdigit, if_neg hlower, if_neg hdigit', if_pos hlower', hvalue]
  · have hsame : c.toLower = c := dif_neg (isUpper_iff.not.2 h)
    rw [hsame]

theorem digitsValue?_map_toLower (base : Nat) :
    ∀ (cs : List Char) (high : Nat),
      digitsValue? base high (cs.map Char.toLower) = digitsValue? base high cs
  | [], _ => rfl
  | c :: cs, high => by
    rw [List.map_cons, digitsValue?, digitsValue?, digitValue?_toLower]
    exact Option.bind_congr fun v _ => digitsValue?_map_toLower base cs _

theorem digitsValue?_append (base : Nat) (es : List Char) :
    ∀ (ds : List Char) (high : Nat), digitsValue? base high (ds ++ es)
      = (digitsValue? base high ds).bind fun high => digitsValue? base high es
  | [], _ => rfl
  | d :: ds, high => by
    rw [List.cons_append, digitsValue?, digitsValue?, Option.bind_assoc]
    exact Option.bind_congr fun v _ => digitsValue?_append base es ds _

theorem digitValue?_digitChar : ∀ {d : Nat}, d < 16 → digitValue? 16 d.digitChar = some d := by
  decide

theorem digitsValue?_toDigits (n : Nat) : digitsValue? 16 0 (Nat.toDigits 16 n) = some n := by
  induction n using Nat.strongRecOn with
  | ind n ih =>
    rcases Nat.lt_or_ge n 16 with hn | hn
    · rw [Nat.toDigits_of_lt_base hn, digitsValue?, digitValue?_digitChar hn, Option.bind_some,
        digitsValue?, Nat.zero_mul, Nat.zero_add]
    · rw [Nat.toDigits_of_base_le (by decide) hn, digitsValue?_append, ih (n / 16) (by omega),
        Option.bind_some, digitsValue?, digitValue?_digitChar (Nat.mod_lt n (by decide)),
        Option.bind_some, digitsValue?, Nat.div_add_mod' n 16]

theorem digitsValue?_replicate_zero (ds : List Char) :
    ∀ zeros : Nat, digitsValue? 16 0 (List.replicate zeros '0' ++ ds) = digitsValue? 16 0 ds
  | 0 => rfl
  | zeros + 1 => digitsValue?_replicate_zero ds zeros

end Digits

namespace Spells

variable {cs : List Char} {word : UInt32} {c : Char}

theorem digitsValue? (h : Spells cs word) : Text.digitsValue? 16 0 cs = some word.toNat := by
  obtain ⟨zeros, hcs⟩ := h
  rw [← digitsValue?_map_toLower, hcs, digitsValue?_replicate_zero, digitsValue?_toDigits]

theorem isSome_of_mem (h : Spells cs word) (hc : c ∈ cs) : (digitValue? 16 c).isSome :=
  digitValue?_of_digitsValue? h.digitsValue? c hc

theorem ne_nil (h : Spells cs word) : cs ≠ [] := by
  rintro rfl
  obtain ⟨zeros, hcs⟩ := h
  exact Nat.toDigits_ne_nil (List.append_eq_nil_iff.1 hcs.symm).2

theorem readUInt32? (h : Spells cs word) : Text.readUInt32? (trim cs) 16 = some word := by
  have hplus : dropPlus cs = cs := by
    unfold dropPlus
    split
    · exact absurd rfl (ne_of_digitValue? (h.isSome_of_mem List.mem_cons_self) (by decide))
    · rfl
  rw [trim_of_forall_not_blank fun c hc => isBlank_of_digitValue? (h.isSome_of_mem hc),
    Text.readUInt32?, readNat?, hplus]
  simp only [if_neg h.ne_nil, h.digitsValue?, Option.bind_some, if_pos word.toNat_lt_size,
    UInt32.ofNat_toNat]

end Spells

end Text

/-- The APIC id of a processor: that of its first entry, or its number if it has none. -/
inductive Processor.Bears (table : List Processor) (number : UInt32) : UInt32 → Prop
  | listed {before after : List Processor} {p : Processor}
    (table_eq : table = before ++ p :: after) (number_eq : p.number = number)
    (first : ∀ q ∈ before, q.number ≠ number) : Bears table number p.apicId
  | unlisted (absent : ∀ q ∈ table, q.number ≠ number) : Bears table number number

theorem Processor.bears_iff {table : List Processor} {number id : UInt32} :
    Bears table number id ↔ apicIdOf table number = id := by
  constructor
  · rintro (⟨rfl, hp, hfirst⟩ | habsent)
    · rw [apicIdOf, List.find?_append, List.find?_eq_none.2 (by simpa using hfirst), Option.none_or,
        List.find?_cons_of_pos (by simpa using hp)]
      rfl
    · rw [apicIdOf, List.find?_eq_none.2 (by simpa using habsent)]
      rfl
  · rintro rfl
    rcases hfind : table.find? (·.number = number) with _ | p
    · rw [apicIdOf, hfind]
      exact .unlisted (by simpa using hfind)
    · obtain ⟨hp, before, after, htable, hfirst⟩ := List.find?_eq_some_iff_append.1 hfind
      rw [apicIdOf, hfind]
      exact .listed htable (by simpa using hp) (by simpa using hfirst)

namespace ProcessorSet

section Words

variable {words : List UInt32} {spelled : List (List Char)}

/-- The numbers of the bits that are set, the lowest word first. -/
def ofWords (words : List UInt32) : List UInt32 :=
  words.zipIdx.flatMap fun (word, index) => bitsOfWord word index

theorem mapM_readUInt32? (h : List.Forall₂ Text.Spells spelled words) :
    (spelled.mapM fun word => Text.readUInt32? (Text.trim word) 16) = some words := by
  induction h with
  | nil => rfl
  | cons hword _ ih => rw [List.mapM_cons, hword.readUInt32?, ih]; rfl

theorem isSome_of_mem_spelled (h : List.Forall₂ Text.Spells spelled words) :
    ∀ cs ∈ spelled, ∀ c ∈ cs, (Text.digitValue? 16 c).isSome := by
  induction h with
  | nil => exact nofun
  | cons hword _ ih => exact List.forall_mem_cons.2 ⟨fun c hc => hword.isSome_of_mem hc, ih⟩

theorem ofMask?_of_spells (h : List.Forall₂ Text.Spells spelled words) (hne : words ≠ []) :
    ofMask? ([','].intercalate spelled) = some (ofWords words.reverse) := by
  have hdigit := isSome_of_mem_spelled h
  have hblank : ∀ c ∈ [','].intercalate spelled, Text.isBlank c = false := by
    intro c hc
    obtain rfl | ⟨cs, hcs, hc⟩ := Text.mem_intercalate hc
    · rfl
    · exact Text.isBlank_of_digitValue? (hdigit cs hcs c hc)
  have hcomma : ∀ cs ∈ spelled, ',' ∉ cs := fun cs hcs hc =>
    Text.ne_of_digitValue? (hdigit cs hcs ',' hc) (by decide) rfl
  have hne' : spelled ≠ [] := by
    rintro rfl
    exact hne (List.forall₂_nil_left_iff.1 h)
  rw [ofMask?, Text.trim_of_forall_not_blank hblank, Text.fields_intercalate hne' hcomma,
    mapM_readUInt32? (List.forall₂_reverse_iff.2 h)]
  rfl

theorem toNat_of_bit {index bit : Nat} (hindex : index < 2 ^ 27) (hbit : bit < 32) :
    (UInt32.ofNat (32 * index + bit)).toNat = 32 * index + bit :=
  UInt32.toNat_ofNat_of_lt' (show _ < 2 ^ 32 by omega)

theorem mem_bitsOfWord {word c : UInt32} {index : Nat} (hindex : index < 2 ^ 27) :
    c ∈ bitsOfWord word index
      ↔ c.toNat / 32 = index ∧ word.toNat.testBit (c.toNat % 32) = true := by
  simp only [bitsOfWord, List.mem_filterMap, List.mem_range, Option.ite_none_right_eq_some,
    Option.some.injEq]
  constructor
  · rintro ⟨bit, hbit, hset, rfl⟩
    rw [toNat_of_bit hindex hbit, Nat.mul_add_div (by decide), Nat.mul_add_mod,
      Nat.div_eq_of_lt hbit, Nat.mod_eq_of_lt hbit]
    exact ⟨rfl, hset⟩
  · rintro ⟨rfl, hset⟩
    refine ⟨c.toNat % 32, Nat.mod_lt _ (by decide), hset, ?_⟩
    rw [Nat.div_add_mod, UInt32.ofNat_toNat]

theorem pairwise_bitsOfWord {word : UInt32} {index : Nat} (hindex : index < 2 ^ 27) :
    (bitsOfWord word index).Pairwise (· < ·) := by
  refine List.pairwise_filterMap.2 (List.pairwise_lt_range.imp_of_mem ?_)
  intro bit bit' hmem hmem' hlt a ha b hb
  obtain ⟨-, ha⟩ := Option.ite_none_right_eq_some.1 ha
  obtain ⟨-, hb⟩ := Option.ite_none_right_eq_some.1 hb
  rw [← Option.some.inj ha, ← Option.some.inj hb, UInt32.lt_iff_toNat_lt,
    toNat_of_bit hindex (List.mem_range.1 hmem), toNat_of_bit hindex (List.mem_range.1 hmem')]
  omega

theorem lt_length_of_mem_zipIdx {word : UInt32} {index : Nat} (h : (word, index) ∈ words.zipIdx) :
    index < words.length :=
  (List.getElem?_eq_some_iff.1 (List.mk_mem_zipIdx_iff_getElem?.1 h)).1

/-- A set in a mask holds the numbers of the bits that are set. -/
theorem mem_ofWords (hlen : words.length ≤ 2 ^ 27) {c : UInt32} :
    c ∈ ofWords words
      ↔ ∃ word, words[c.toNat / 32]? = some word ∧ word.toNat.testBit (c.toNat % 32) = true := by
  rw [ofWords, List.mem_flatMap]
  constructor
  · rintro ⟨⟨word, index⟩, hmem, hc⟩
    have hindex := Nat.lt_of_lt_of_le (lt_length_of_mem_zipIdx hmem) hlen
    obtain ⟨rfl, hset⟩ := (mem_bitsOfWord hindex).1 hc
    exact ⟨word, List.mk_mem_zipIdx_iff_getElem?.1 hmem, hset⟩
  · rintro ⟨word, hword, hset⟩
    have hmem := List.mk_mem_zipIdx_iff_getElem?.2 hword
    have hindex := Nat.lt_of_lt_of_le (lt_length_of_mem_zipIdx hmem) hlen
    exact ⟨(word, c.toNat / 32), hmem, (mem_bitsOfWord hindex).2 ⟨rfl, hset⟩⟩

theorem pairwise_ofWords (hlen : words.length ≤ 2 ^ 27) : (ofWords words).Pairwise (· < ·) := by
  have hindex : ∀ {word index}, (word, index) ∈ words.zipIdx → index < 2 ^ 27 := fun hmem =>
    Nat.lt_of_lt_of_le (lt_length_of_mem_zipIdx hmem) hlen
  have hsorted : words.zipIdx.Pairwise fun a b => a.2 < b.2 := by
    rw [← List.pairwise_map, List.zipIdx_map_snd]
    exact List.pairwise_lt_range'
  refine List.pairwise_flatMap.2 ⟨fun ⟨word, index⟩ hmem => pairwise_bitsOfWord (hindex hmem), ?_⟩
  refine hsorted.imp_of_mem ?_
  rintro ⟨word, index⟩ ⟨word', index'⟩ hmem hmem' hlt c hc d hd
  obtain ⟨hc, -⟩ := (mem_bitsOfWord (hindex hmem)).1 hc
  obtain ⟨hd, -⟩ := (mem_bitsOfWord (hindex hmem')).1 hd
  simp only at hlt
  rw [UInt32.lt_iff_toNat_lt]
  omega

end Words

section Siblings

variable {table : List Processor} {set set' map map' : List UInt32}

/-- One for each APIC id of the set that has a place in the map, zero elsewhere. -/
structure Marks (table : List Processor) (set map : List UInt32) : Prop where
  length : map.length = siblingSlots
  bit : ∀ x ∈ map, x = 0 ∨ x = 1
  one_iff : ∀ id : UInt32, id.toNat < siblingSlots →
    (map[id.toNat]? = some 1 ↔ ∃ cpu ∈ set, Processor.Bears table cpu id)

theorem length_foldl_mark (table : List Processor) : ∀ set map : List UInt32,
    (set.foldl (fun map cpu => map.set (Processor.apicIdOf table cpu).toNat 1) map).length
      = map.length
  | [], _ => rfl
  | _ :: set, _ => (length_foldl_mark table set _).trans List.length_set

theorem getElem?_foldl_mark (table : List Processor) (id : UInt32) :
    ∀ set map : List UInt32, id.toNat < map.length →
      (set.foldl (fun map cpu => map.set (Processor.apicIdOf table cpu).toNat 1) map)[id.toNat]?
        = if ∃ cpu ∈ set, Processor.apicIdOf table cpu = id then some 1 else map[id.toNat]?
  | [], map, _ => by simp
  | cpu :: set, map, h => by
    rw [List.foldl_cons, getElem?_foldl_mark table id set _ (by rwa [List.length_set])]
    by_cases hset : ∃ c ∈ set, Processor.apicIdOf table c = id
    · rw [if_pos hset, if_pos (hset.imp fun c hc => ⟨List.mem_cons_of_mem _ hc.1, hc.2⟩)]
    · rw [if_neg hset]
      by_cases hcpu : Processor.apicIdOf table cpu = id
      · rw [if_pos ⟨cpu, List.mem_cons_self, hcpu⟩, hcpu, List.getElem?_set_self h]
      · have hnone : ¬∃ c ∈ cpu :: set, Processor.apicIdOf table c = id := by
          rintro ⟨c, hc, hid⟩
          rcases List.mem_cons.1 hc with rfl | hc
          · exact hcpu hid
          · exact hset ⟨c, hc, hid⟩
        rw [if_neg hnone, List.getElem?_set_ne fun heq => hcpu (UInt32.toNat_inj.1 heq)]

theorem siblings_marks (table : List Processor) (set : List UInt32) :
    Marks table set (siblings table set) := by
  have hlen : (siblings table set).length = siblingSlots :=
    (length_foldl_mark table set _).trans List.length_replicate
  have hget : ∀ id : UInt32, id.toNat < siblingSlots → (siblings table set)[id.toNat]?
      = if ∃ cpu ∈ set, Processor.apicIdOf table cpu = id then some 1 else some 0 := by
    intro id hid
    rw [siblings, getElem?_foldl_mark table id set _ (by rwa [List.length_replicate]),
      List.getElem?_replicate_of_lt hid]
  refine ⟨hlen, fun x hx => ?_, fun id hid => ?_⟩
  · obtain ⟨i, hi, rfl⟩ := List.getElem_of_mem hx
    rw [hlen] at hi
    have hsize : (UInt32.ofNat i).toNat = i :=
      UInt32.toNat_ofNat_of_lt' (Nat.lt_trans hi (by decide))
    have hvalue := hget (.ofNat i) (by rwa [hsize])
    rw [hsize, List.getElem?_eq_getElem (hlen ▸ hi)] at hvalue
    split_ifs at hvalue
    · exact .inr (Option.some.inj hvalue)
    · exact .inl (Option.some.inj hvalue)
  · rw [hget id hid]
    simp only [Processor.bears_iff]
    split_ifs with h
    · exact iff_of_true rfl h
    · exact iff_of_false (by decide) h

theorem Marks.unique (h : Marks table set map) (h' : Marks table set' map')
    (hids : ∀ id : UInt32, id.toNat < siblingSlots →
      ((∃ cpu ∈ set, Processor.Bears table cpu id) ↔ ∃ cpu ∈ set', Processor.Bears table cpu id)) :
    map = map' := by
  refine List.ext_getElem (h.length.trans h'.length.symm) fun i hi hi' => ?_
  have hslot : i < siblingSlots := h.length ▸ hi
  have hsize : (UInt32.ofNat i).toNat = i :=
    UInt32.toNat_ofNat_of_lt' (Nat.lt_trans hslot (by decide))
  have hiff := (h.one_iff (.ofNat i) (by rwa [hsize])).trans
    ((hids _ (by rwa [hsize])).trans (h'.one_iff (.ofNat i) (by rwa [hsize])).symm)
  rw [hsize, List.getElem?_eq_getElem hi, List.getElem?_eq_getElem hi', Option.some.injEq,
    Option.some.injEq] at hiff
  rcases h.bit _ (List.getElem_mem hi) with hx | hx <;>
    rcases h'.bit _ (List.getElem_mem hi') with hy | hy <;> simp_all

/-- Processors whose APIC ids have no place in the map count for nothing. -/
theorem siblings_filter (table : List Processor) (set : List UInt32) :
    siblings table (set.filter fun cpu => (Processor.apicIdOf table cpu).toNat < siblingSlots)
      = siblings table set := by
  refine (siblings_marks table _).unique (siblings_marks table set) fun id hid => ?_
  simp only [List.mem_filter, decide_eq_true_eq, Processor.bears_iff]
  constructor
  · rintro ⟨cpu, ⟨hcpu, -⟩, rfl⟩
    exact ⟨cpu, hcpu, rfl⟩
  · rintro ⟨cpu, hcpu, rfl⟩
    exact ⟨cpu, ⟨hcpu, hid⟩, rfl⟩

end Siblings

/-- A mask of at least one word is read as the set of its bits, and its sibling map has a one for
each processor of the set. -/
theorem mask_read {words : List UInt32} {spelled : List (List Char)}
    (hspelled : List.Forall₂ Text.Spells spelled words) (hne : words ≠ [])
    (hlen : words.length ≤ 2 ^ 27) :
    ∃ set, ofMask? ([','].intercalate spelled) = some set
      ∧ set.Pairwise (· < ·)
      ∧ (∀ cpu : UInt32, cpu ∈ set ↔ ∃ word, words.reverse[cpu.toNat / 32]? = some word
        ∧ word.toNat.testBit (cpu.toNat % 32) = true)
      ∧ ∀ table, Marks table set (siblings table set)
        ∧ siblings table (set.filter fun cpu =>
          (Processor.apicIdOf table cpu).toNat < siblingSlots) = siblings table set := by
  have hlen' : words.reverse.length ≤ 2 ^ 27 := by rwa [List.length_reverse]
  exact ⟨ofWords words.reverse, ofMask?_of_spells hspelled hne, pairwise_ofWords hlen',
    fun cpu => mem_ofWords hlen', fun table => ⟨siblings_marks table _, siblings_filter table _⟩⟩

/-- Two words with a leading zero and letters in either case. -/
theorem mask_read_twoWords :
    ∃ set, ofMask? "00A,8000000f".toList = some set ∧ (31 ∈ set ∧ 33 ∈ set) ∧ 32 ∉ set
      ∧ (siblings [⟨33, 300, ""⟩] set).length = siblingSlots := by
  have hspelled : List.Forall₂ Text.Spells ["00A".toList, "8000000f".toList] [10, 0x8000000f] :=
    .cons ⟨2, by decide +kernel⟩ (.cons ⟨0, by decide +kernel⟩ .nil)
  obtain ⟨set, hset, -, hmem, hmarks⟩ := mask_read hspelled (by decide) (by decide)
  refine ⟨set, hset, ⟨?_, ?_⟩, ?_, (hmarks [⟨33, 300, ""⟩]).1.length⟩
  · exact (hmem 31).2 ⟨0x8000000f, by decide, by decide⟩
  · exact (hmem 33).2 ⟨10, by decide, by decide⟩
  · intro h
    obtain ⟨word, hword, hbit⟩ := (hmem 32).1 h
    cases hword
    exact absurd hbit (by decide)

/-- A mask without a word is not the empty set, but no mask. -/
theorem noWords_not_read :
    ¬∀ (words : List UInt32) (spelled : List (List Char)),
      List.Forall₂ Text.Spells spelled words → words.length ≤ 2 ^ 27 →
        ∃ set, ofMask? ([','].intercalate spelled) = some set
          ∧ ∀ cpu : UInt32, cpu ∈ set ↔ ∃ word, words.reverse[cpu.toNat / 32]? = some word
            ∧ word.toNat.testBit (cpu.toNat % 32) = true := by
  intro h
  obtain ⟨set, hset, -⟩ := h [] [] .nil (by decide)
  cases hset

end ProcessorSet

end ComputeTopology
