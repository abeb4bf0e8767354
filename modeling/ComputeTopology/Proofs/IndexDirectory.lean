import ComputeTopology.Proofs.Exposed
import ComputeTopology.Proofs.Numerals

/-!
# Index directories

What the files of an index directory say: the processor that the cache belongs to
(`Sysfs.Owner`) and, as far as the directory is complete, the cache (`Sysfs.Describes`). The size
of the cache is a numeral, with or without a unit behind it (`Sysfs.readSizeKb?_eq_some_iff`,
`Sysfs.carries_readSizeKb?_iff`). The cache that is read from an index directory of its owner is the
one it describes (`Sysfs.readIndex_eq_some`), and the directory can be read exactly if it is sound
(`Sysfs.exists_readIndex_iff`).
-/

namespace ComputeTopology

/-- The processor that a list begins with: what stands before its first comma or dash. -/
def ProcessorSet.beginning? (cs : List Char) : Option UInt32 :=
  Text.readUInt32? (Text.trim (cs.takeWhile fun c => c ≠ ',' && c ≠ '-'))

theorem ProcessorSet.firstOfList?_eq (cs : List Char) : firstOfList? cs = beginning? cs := by
  have hblank : ∀ c, Text.isBlank c = true → decide (c ≠ '-') = true := fun c hc =>
    decide_eq_true fun h => by simp [h, Text.isBlank] at hc
  have hfirst : firstOfList? cs = Text.readUInt32? (Text.trim
      ((Text.trim (cs.takeWhile fun c => !decide (c = ','))).takeWhile fun c => c ≠ '-')) := by
    unfold firstOfList?
    rw [Text.headD_fields]
    exact congrArg (fun cs => Text.readUInt32? (Text.trim cs)) (Text.cutAt?_takeWhile '-' _)
  rw [hfirst, Text.trim_takeWhile_trim hblank, List.takeWhile_takeWhile, beginning?]
  simp [Bool.and_comm]

namespace Sysfs

variable {α : Type} {fs : Files Id} {path directory : String} {table : List Processor}
  {cpu : UInt32}

/-- The text is a size of `kb` times 1024 bytes: in this unit, in its 1024-fold, or in bytes, of
which a rest below 1024 does not count. -/
inductive SizeText : List Char → UInt32 → Prop
  | kilo {ds : List Char} {kb : UInt32} (h : Text.Numeral ds kb.toNat) : SizeText (ds ++ ['K']) kb
  | mega {ds : List Char} {kb : UInt32} {n : Nat} (h : Text.Numeral ds n)
    (hkb : kb.toNat = n * 1024) : SizeText (ds ++ ['M']) kb
  | bytes {ds : List Char} {kb : UInt32} {n : Nat} (h : Text.Numeral ds n) (hn : n < UInt32.size)
    (hkb : kb.toNat = n / 1024) : SizeText ds kb

theorem toNat_mul_1024 {n : UInt32} (h : n.toNat * 1024 < UInt32.size) :
    (n * 1024).toNat = n.toNat * 1024 := by
  rw [UInt32.toNat_mul]
  exact Nat.mod_eq_of_lt h

/-- A size is read from its trimmed text, if 32 bits can hold it. -/
theorem readSizeKb?_eq_some_iff {cs : List Char} {kb : UInt32} :
    readSizeKb? cs = some kb ↔ SizeText (Text.trim cs) kb := by
  unfold readSizeKb?
  dsimp only
  generalize Text.trim cs = size
  constructor
  · intro h
    split at h
    · rename_i hlast
      obtain ⟨ds, rfl⟩ := List.getLast?_eq_some_iff.1 hlast
      rw [List.dropLast_concat] at h
      exact .kilo (Text.readUInt32?_eq_some_iff.1 h)
    · rename_i hlast
      obtain ⟨ds, rfl⟩ := List.getLast?_eq_some_iff.1 hlast
      obtain ⟨n, hn, h⟩ := Option.bind_eq_some_iff.1 h
      rw [List.dropLast_concat, Text.readUInt32?_eq_some_iff] at hn
      split_ifs at h with hlt
      obtain rfl := Option.some.inj h
      exact .mega hn (toNat_mul_1024 hlt)
    · obtain ⟨n, hn, rfl⟩ := Option.map_eq_some_iff.1 h
      exact .bytes (Text.readUInt32?_eq_some_iff.1 hn) n.toNat_lt_size (UInt32.toNat_div n 1024)
  · intro h
    cases h with
    | kilo h =>
      rw [List.getLast?_concat, List.dropLast_concat]
      exact Text.readUInt32?_eq_some_iff.2 h
    | @mega _ _ n h hkb =>
      have hlt : n * 1024 < UInt32.size := hkb ▸ kb.toNat_lt_size
      have hn : n < UInt32.size := Nat.lt_of_le_of_lt (Nat.le_mul_of_pos_right n (by decide)) hlt
      rw [← UInt32.toNat_ofNat_of_lt' hn] at hlt hkb
      rw [List.getLast?_concat, List.dropLast_concat]
      refine Option.bind_eq_some_iff.2 ⟨_, h.readUInt32? hn, ?_⟩
      rw [if_pos hlt, Option.some.injEq, ← UInt32.toNat_inj, toNat_mul_1024 hlt, hkb]
    | bytes h hn hkb =>
      -- the last digit is neither of the two units
      obtain ⟨c, hlast, hdigit⟩ := h.getLast?
      have hread : (Text.readUInt32? size).map (· / 1024) = some kb := by
        rw [h.readUInt32? hn, Option.map_some, Option.some.injEq, ← UInt32.toNat_inj,
          UInt32.toNat_div, UInt32.toNat_ofNat_of_lt' hn, hkb]
        rfl
      rw [hlast]
      split
      · rename_i hc
        cases hc
        cases hdigit
      · rename_i hc
        cases hc
        cases hdigit
      · exact hread

/-- A size in the larger unit can be too large although its numeral is not. -/
example : readSizeKb? "8M".toList = some 8192 ∧ readSizeKb? "4194304M".toList = none
    ∧ readSizeKb? "2047".toList = some 1 := by decide +kernel

/-- The file can be read, and its trimmed content stands for `a`. -/
def Carries (fs : Files Id) (path : String) (parse : List Char → Option α) (a : α) : Prop :=
  (fs.kind path).run ≠ none
    ∧ ∃ text, (fs.readText path).run = .ok text ∧ parse (Text.trim text.toList) = some a

theorem readContent_eq_ok {content : String} : result (readContent fs path) = .ok content ↔
    Carries fs path (fun cs => some (String.ofList cs)) content := by
  rw [result_readContent, Carries]
  rcases (fs.kind path).run with _ | kind
  · simp
  · rcases (fs.readText path).run with cause | text <;> simp

theorem exists_parse_iff {parse : List Char → Option α} {a : α} :
    (∃ content, result (readContent fs path) = .ok content ∧ parse content.toList = some a)
      ↔ Carries fs path parse a := by
  simp only [readContent_eq_ok, Carries, Option.some.injEq]
  constructor
  · rintro ⟨_, ⟨hkind, text, htext, rfl⟩, hparse⟩
    exact ⟨hkind, text, htext, by rwa [String.toList_ofList] at hparse⟩
  · rintro ⟨hkind, text, htext, hparse⟩
    exact ⟨_, ⟨hkind, text, htext, rfl⟩, by rwa [String.toList_ofList]⟩

theorem readWith_eq_ok {what : String} {parse : List Char → Option α} {a : α} :
    result (readWith fs path what parse) = .ok a ↔ Carries fs path parse a := by
  rw [readWith, result_bind, bind_eq_ok, ← exists_parse_iff]
  refine exists_congr fun content => and_congr_right fun _ => ?_
  rcases parse content.toList with _ | b <;> simp

theorem readUInt32_eq_ok {n : UInt32} :
    result (readUInt32 fs path) = .ok n ↔ Carries fs path (fun cs => Text.readUInt32? cs) n := by
  rw [readUInt32, result_bind, bind_eq_ok, ← exists_parse_iff]
  refine exists_congr fun content => and_congr_right fun _ => ?_
  rcases Text.readUInt32? content.toList with _ | m <;> simp

/-- The cache of the index directory belongs to the processor. -/
def Owner (fs : Files Id) (directory : String) (cpu : UInt32) : Prop :=
  Carries fs (joinPath directory "shared_cpu_list") ProcessorSet.beginning? cpu

/-- The files of an index directory that a cache is read from are there and well formed. -/
structure Complete (fs : Files Id) (directory : String) : Prop where
  type : ∃ type, Carries fs (joinPath directory "type") some type
  size : ∃ sizeKb, Carries fs (joinPath directory "size") readSizeKb? sizeKb
  sharing : ∃ set, Carries fs (joinPath directory "shared_cpu_map") ProcessorSet.ofMask? set
  numbers : ∀ name ∈ ["level", "coherency_line_size", "physical_line_partition",
    "ways_of_associativity"],
      ∃ n, Carries fs (joinPath directory name) (fun cs => Text.readUInt32? cs) n

/-- The directory names the owner of its cache, and its owner's directory is complete. -/
def SoundIndex (fs : Files Id) (cpu : UInt32) (directory : String) : Prop :=
  ∃ owner, Owner fs directory owner ∧ (owner = cpu → Complete fs directory)

/-- The cache of processor `cpu` that an index directory describes. -/
structure Describes (fs : Files Id) (table : List Processor) (cpu : UInt32) (directory : String)
    (c : Cache) : Prop where
  processor : Processor.Bears table cpu c.processorIdLow
  level : Carries fs (joinPath directory "level") (fun cs => Text.readUInt32? cs) c.level
  size : Carries fs (joinPath directory "size") readSizeKb? c.sizeKb
  lineSize : Carries fs (joinPath directory "coherency_line_size")
    (fun cs => Text.readUInt32? cs) c.lineSize
  linesPerTag : Carries fs (joinPath directory "physical_line_partition")
    (fun cs => Text.readUInt32? cs) c.linesPerTag
  associativity : Carries fs (joinPath directory "ways_of_associativity")
    (fun cs => Text.readUInt32? cs) c.associativity
  latency : c.latency = 0
  kinds : Carries fs (joinPath directory "type")
    (fun cs => some (kindsOfType (String.ofList cs))) c.kinds
  siblings : ∃ set, Carries fs (joinPath directory "shared_cpu_map") ProcessorSet.ofMask? set
    ∧ ProcessorSet.Marks table set c.siblings

/-- The size of a cache is what its file says in one of three ways. -/
theorem carries_readSizeKb?_iff {kb : UInt32} : Carries fs path readSizeKb? kb ↔
    (fs.kind path).run ≠ none
      ∧ ∃ text, (fs.readText path).run = .ok text ∧ SizeText (Text.trim text.toList) kb := by
  simp only [Carries, readSizeKb?_eq_some_iff, Text.trim_trim]

theorem carries_firstOfList? : Carries fs (joinPath directory "shared_cpu_list")
    ProcessorSet.firstOfList? cpu ↔ Owner fs directory cpu := by
  rw [Owner, funext ProcessorSet.firstOfList?_eq]

theorem Carries.unique {parse : List Char → Option α} {a b : α} (h : Carries fs path parse a)
    (h' : Carries fs path parse b) : a = b := by
  obtain ⟨-, text, htext, ha⟩ := h
  obtain ⟨-, text', htext', hb⟩ := h'
  cases htext.symm.trans htext'
  exact Option.some.inj (ha.symm.trans hb)

theorem readIndex_eq_none : result (readIndex fs table cpu directory) = .ok none ↔
    ∃ owner, Owner fs directory owner ∧ owner ≠ cpu := by
  rw [readIndex, result_bind, bind_eq_ok]
  constructor
  · rintro ⟨owner, howner, h⟩
    rw [readWith_eq_ok, carries_firstOfList?] at howner
    split_ifs at h with hne
    · exact ⟨owner, howner, hne⟩
    · simp only [result_bind, bind_eq_ok] at h
      obtain ⟨_, -, _, -, _, -, _, -, _, -, _, -, _, -, h⟩ := h
      cases h
  · rintro ⟨owner, howner, hne⟩
    refine ⟨owner, readWith_eq_ok.2 (carries_firstOfList?.2 howner), ?_⟩
    rw [if_pos hne, result_pure]

theorem readIndex_eq_some {c : Cache} : result (readIndex fs table cpu directory) = .ok (some c) ↔
    Owner fs directory cpu ∧ Describes fs table cpu directory c := by
  rw [readIndex, result_bind, bind_eq_ok]
  constructor
  · rintro ⟨owner, howner, h⟩
    rw [readWith_eq_ok, carries_firstOfList?] at howner
    split_ifs at h with hne
    · cases h
    · obtain rfl := not_not.1 hne
      simp only [result_bind, bind_eq_ok, readWith_eq_ok, readUInt32_eq_ok] at h
      obtain ⟨type, htype, sizeKb, hsize, sharing, hsharing, level, hlevel, lineSize, hlineSize,
        linesPerTag, hlinesPerTag, associativity, hassociativity, h⟩ := h
      cases h
      exact ⟨howner, {
        processor := Processor.bears_iff.2 rfl
        level := hlevel
        size := hsize
        lineSize := hlineSize
        linesPerTag := hlinesPerTag
        associativity := hassociativity
        latency := rfl
        kinds := exists_parse_iff.1 ⟨type, htype, by rw [String.ofList_toList]⟩
        siblings := ⟨sharing, hsharing, ProcessorSet.siblings_marks table sharing⟩ }⟩
  · rintro ⟨howner, h⟩
    obtain ⟨sharing, hsharing, hmarks⟩ := h.siblings
    obtain ⟨type, htype, hkinds⟩ := exists_parse_iff.2 h.kinds
    refine ⟨cpu, readWith_eq_ok.2 (carries_firstOfList?.2 howner), ?_⟩
    rw [if_neg (not_not.2 rfl)]
    simp only [result_bind, bind_eq_ok, readWith_eq_ok, readUInt32_eq_ok]
    refine ⟨type, htype, c.sizeKb, h.size, sharing, hsharing, c.level, h.level, c.lineSize,
      h.lineSize, c.linesPerTag, h.linesPerTag, c.associativity, h.associativity, ?_⟩
    have hprocessor := Processor.bears_iff.1 h.processor
    have hsiblings := (ProcessorSet.siblings_marks table sharing).unique hmarks fun _ _ => Iff.rfl
    rw [String.ofList_toList, Option.some.injEq] at hkinds
    obtain ⟨processorIdLow, level, sizeKb, lineSize, linesPerTag, associativity, latency, kinds,
      siblings⟩ := c
    cases h.latency
    cases hprocessor
    cases hsiblings
    cases hkinds
    rfl

theorem exists_describes_iff (table : List Processor) (cpu : UInt32) :
    (∃ c, Describes fs table cpu directory c) ↔ Complete fs directory := by
  constructor
  · rintro ⟨c, h⟩
    obtain ⟨type, htype, -⟩ := exists_parse_iff.2 h.kinds
    obtain ⟨sharing, hsharing, -⟩ := h.siblings
    refine ⟨⟨type.toList, exists_parse_iff.1 ⟨type, htype, rfl⟩⟩, ⟨_, h.size⟩, ⟨_, hsharing⟩, ?_⟩
    simp only [List.forall_mem_cons]
    exact ⟨⟨_, h.level⟩, ⟨_, h.lineSize⟩, ⟨_, h.linesPerTag⟩, ⟨_, h.associativity⟩, nofun⟩
  · rintro ⟨⟨type, htype⟩, ⟨sizeKb, hsize⟩, ⟨sharing, hsharing⟩, hnumbers⟩
    obtain ⟨level, hlevel⟩ := hnumbers "level" (by simp)
    obtain ⟨lineSize, hlineSize⟩ := hnumbers "coherency_line_size" (by simp)
    obtain ⟨linesPerTag, hlinesPerTag⟩ := hnumbers "physical_line_partition" (by simp)
    obtain ⟨associativity, hassociativity⟩ := hnumbers "ways_of_associativity" (by simp)
    obtain ⟨content, hcontent, -⟩ := exists_parse_iff.2 htype
    exact ⟨⟨Processor.apicIdOf table cpu, level, sizeKb, lineSize, linesPerTag, associativity, 0,
      kindsOfType content, ProcessorSet.siblings table sharing⟩, {
        processor := Processor.bears_iff.2 rfl
        level := hlevel
        size := hsize
        lineSize := hlineSize
        linesPerTag := hlinesPerTag
        associativity := hassociativity
        latency := rfl
        kinds := exists_parse_iff.1 ⟨content, hcontent, by rw [String.ofList_toList]⟩
        siblings := ⟨sharing, hsharing, ProcessorSet.siblings_marks table sharing⟩ }⟩

theorem exists_readIndex_iff : (∃ found, result (readIndex fs table cpu directory) = .ok found) ↔
    SoundIndex fs cpu directory := by
  constructor
  · rintro ⟨_ | c, h⟩
    · obtain ⟨owner, howner, hne⟩ := readIndex_eq_none.1 h
      exact ⟨owner, howner, fun heq => absurd heq hne⟩
    · obtain ⟨howner, hc⟩ := readIndex_eq_some.1 h
      exact ⟨cpu, howner, fun _ => (exists_describes_iff table cpu).1 ⟨c, hc⟩⟩
  · rintro ⟨owner, howner, hcomplete⟩
    by_cases hcpu : owner = cpu
    · obtain ⟨c, hc⟩ := (exists_describes_iff table cpu).2 (hcomplete hcpu)
      exact ⟨some c, readIndex_eq_some.2 ⟨hcpu ▸ howner, hc⟩⟩
    · exact ⟨none, readIndex_eq_none.2 ⟨owner, howner, hcpu⟩⟩

end Sysfs

end ComputeTopology
