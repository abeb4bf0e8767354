import ComputeTopology.Proofs.Masks
import ComputeTopology.Proofs.Meaning
import ComputeTopology.Proofs.Words
import ComputeTopology.Report.WeightMatrix

/-!
# Reading a weight matrix back

A weight matrix has a line of numbers and then one line for each node (`WeightMatrix.lines_render`).
Blanks stand between the cells of a line only where a cell is narrower than its column, so a row
reads back as the entries it shows (`WeightMatrix.RowReads`) exactly if its weights leave a blank in
their columns (`WeightMatrix.Slim`). Two matrices of that kind are the same only if weights and
kinds of all links are (`WeightMatrix.render_reads_iff`); among all matrices that is not so
(`WeightMatrix.merged_not_told_apart`).
-/

namespace ComputeTopology

namespace Text

theorem isWord_decimal (n : Nat) : IsWord (decimal n).toList where
  ne_nil := by
    rw [decimal, String.toList_ofList]
    exact Nat.toDigits_ne_nil
  not_blank c hc := by
    have hdigit := digitValue?_of_isDigit (isDigit_of_mem_decimal hc)
    exact isBlank_of_digitValue? (Option.isSome_iff_exists.2 ⟨_, hdigit⟩)

theorem length_decimal_le_iff {n k : Nat} (hk : 0 < k) :
    (decimal n).toList.length ≤ k ↔ n < 10 ^ k := by
  rw [decimal, String.toList_ofList]
  exact Nat.length_toDigits_le_iff (by decide) hk

/-- A decimal that is followed by something else than a digit. -/
theorem takeWhile_decimal_append (n : Nat) {rest : List Char}
    (hrest : ∀ c ∈ rest.head?, c.isDigit = false) :
    ((decimal n).toList ++ rest).takeWhile Char.isDigit = (decimal n).toList
      ∧ ((decimal n).toList ++ rest).dropWhile Char.isDigit = rest := by
  have hdigits : ∀ c ∈ (decimal n).toList, c.isDigit = true := fun c => isDigit_of_mem_decimal
  rw [List.takeWhile_append_of_pos hdigits, List.dropWhile_append_of_pos hdigits]
  rcases rest with _ | ⟨c, rest⟩
  · exact ⟨List.append_nil _, rfl⟩
  · have hc : ¬ c.isDigit = true := by simp [hrest c rfl]
    rw [List.takeWhile_cons_of_neg hc, List.dropWhile_cons_of_neg hc]
    exact ⟨List.append_nil _, rfl⟩

end Text

/-- The first link of node `i` that leads to node `j`. -/
def Snapshot.FirstLink (S : Snapshot) (i j : Nat) (l : Link) : Prop :=
  ∃ n before after, S.nodes[i]? = some n ∧ n.links = before ++ l :: after ∧ l.target.toNat = j
    ∧ ∀ k ∈ before, k.target.toNat ≠ j

/-- Weight and kind of the first link from node `i` to node `j`. -/
def Snapshot.connection (S : Snapshot) (i j : Nat) : Option (UInt32 × LinkKind) :=
  (S.linkBetween? (.ofNat i) (.ofNat j)).map fun l => (l.weight, l.kind)

theorem Snapshot.linkBetween?_eq_some_iff {S : Snapshot} {i j : Nat} {l : Link}
    (hi : i < UInt32.size) (hj : j < UInt32.size) :
    S.linkBetween? (.ofNat i) (.ofNat j) = some l ↔ S.FirstLink i j l := by
  have htarget : ∀ k : Link, k.target = .ofNat j ↔ k.target.toNat = j := fun k => by
    rw [← UInt32.toNat_inj, UInt32.toNat_ofNat_of_lt' hj]
  rw [linkBetween?, UInt32.toNat_ofNat_of_lt' hi, Option.bind_eq_some_iff]
  simp only [Node.linkTo?, List.find?_eq_some_iff_append, htarget, FirstLink, Bool.not_eq_true',
    decide_eq_true_eq, decide_eq_false_iff_not]
  constructor
  · rintro ⟨n, hn, hl, before, after, hlinks, hbefore⟩
    exact ⟨n, before, after, hn, hlinks, hl, hbefore⟩
  · rintro ⟨n, before, after, hn, hlinks, hl, hbefore⟩
    exact ⟨n, hn, hl, before, after, hlinks, hbefore⟩

namespace WeightMatrix

variable {S S' : Snapshot} {count i j : Nat} {entry : String}

/-- The entry for nodes `i` and `j`. -/
inductive Shows (S : Snapshot) (i : Nat) : Nat → String → Prop
  | self : Shows S i i "0"
  | direct {j : Nat} {l : Link} (hne : i ≠ j) (hl : S.FirstLink i j l) (hkind : l.kind = .direct) :
    Shows S i j (Text.decimal l.weight.toNat)
  | indirect {j : Nat} {l : Link} (hne : i ≠ j) (hl : S.FirstLink i j l)
    (hkind : l.kind = .indirect) : Shows S i j (Text.decimal l.weight.toNat ++ "*")
  | unlinked {j : Nat} (hne : i ≠ j) (hnone : ∀ l, ¬ S.FirstLink i j l) : Shows S i j "-"

/-- The words of the line are the number of its node and then the entry for each of the nodes. -/
def RowReads (S : Snapshot) (count i : Nat) (row : List Char) : Prop :=
  ∃ entries, Text.words row = (Text.decimal i :: entries).map String.toList
    ∧ entries.length = count ∧ ∀ j entry, entries[j]? = some entry → Shows S i j entry

/-- The least weight that fills a column, with the asterisk of an indirect link. -/
def fullWeight : LinkKind → Nat
  | .direct => 10 ^ 6
  | .indirect => 10 ^ 5

/-- No entry of the row fills its column. -/
def Slim (S : Snapshot) (count i : Nat) : Prop :=
  ∀ j l, j < count → i ≠ j → S.FirstLink i j l → l.weight.toNat < fullWeight l.kind

section Mark

/-- How the weight and the kind of a link are written. -/
def spell : Option (UInt32 × LinkKind) → String
  | none => "-"
  | some (weight, .direct) => Text.decimal weight.toNat
  | some (weight, .indirect) => Text.decimal weight.toNat ++ "*"

theorem mark_self (S : Snapshot) (i : Nat) : mark S i i = "0" :=
  if_pos rfl

theorem mark_of_ne (hne : i ≠ j) : mark S i j = spell (S.connection i j) := by
  rw [mark, if_neg hne, Snapshot.connection]
  rcases S.linkBetween? (.ofNat i) (.ofNat j) with _ | l
  · rfl
  · rcases hkind : l.kind <;> simp [spell, Link.isIndirect, hkind]

/-- What a written entry says of a link. -/
def unspell (entry : String) : Option (UInt32 × LinkKind) :=
  let digits := entry.toList.takeWhile Char.isDigit
  if digits = [] then none
  else some (.ofNat (Nat.ofDigitChars 10 digits 0),
    if entry.toList.dropWhile Char.isDigit = [] then .direct else .indirect)

theorem unspell_decimal_append (weight : UInt32) {suffix : String}
    (hsuffix : ∀ c ∈ suffix.toList.head?, c.isDigit = false) :
    unspell (Text.decimal weight.toNat ++ suffix)
      = some (weight, if suffix.toList = [] then .direct else .indirect) := by
  obtain ⟨htake, hdrop⟩ := Text.takeWhile_decimal_append weight.toNat hsuffix
  have hvalue : Nat.ofDigitChars 10 (Text.decimal weight.toNat).toList 0 = weight.toNat := by
    rw [Text.decimal, String.toList_ofList, Nat.ofDigitChars_ten_toDigits]
  simp only [unspell, String.toList_append, htake, hdrop, hvalue, UInt32.ofNat_toNat,
    if_neg (Text.isWord_decimal weight.toNat).ne_nil]

theorem unspell_spell : ∀ c : Option (UInt32 × LinkKind), unspell (spell c) = c
  | none => rfl
  | some (weight, .direct) => by
    have hempty : ∀ c ∈ "".toList.head?, c.isDigit = false := by simp
    have h := unspell_decimal_append weight hempty
    rwa [String.append_empty] at h
  | some (weight, .indirect) => unspell_decimal_append weight (by simp)

theorem spell_injective : Function.Injective spell :=
  Function.LeftInverse.injective unspell_spell

theorem isWord_mark (S : Snapshot) (i j : Nat) : Text.IsWord (mark S i j).toList := by
  by_cases hij : i = j
  · rw [hij, mark_self]
    decide
  · rw [mark_of_ne hij]
    rcases S.connection i j with _ | ⟨weight, _ | _⟩
    · decide
    · exact Text.isWord_decimal _
    · have hdigits := Text.isWord_decimal weight.toNat
      rw [spell, String.toList_append]
      refine ⟨by simp [hdigits.ne_nil], fun c hc => ?_⟩
      rcases List.mem_append.1 hc with hc | hc
      · exact hdigits.not_blank c hc
      · rw [List.mem_singleton.1 hc]
        rfl

section Entry

variable (hi : i < UInt32.size) (hj : j < UInt32.size)

include hi hj

theorem shows_iff : Shows S i j entry ↔ mark S i j = entry := by
  have hfirst := fun l => Snapshot.linkBetween?_eq_some_iff (S := S) (l := l) hi hj
  constructor
  · rintro (_ | ⟨hne, hl, hkind⟩ | ⟨hne, hl, hkind⟩ | ⟨hne, hnone⟩)
    · exact mark_self S i
    · rw [mark_of_ne hne, Snapshot.connection, (hfirst _).2 hl, Option.map_some, hkind]
      rfl
    · rw [mark_of_ne hne, Snapshot.connection, (hfirst _).2 hl, Option.map_some, hkind]
      rfl
    · have hnone : S.linkBetween? (.ofNat i) (.ofNat j) = none :=
        Option.eq_none_iff_forall_ne_some.2 fun l hl => hnone l ((hfirst l).1 hl)
      rw [mark_of_ne hne, Snapshot.connection, hnone]
      rfl
  · rintro rfl
    by_cases hij : i = j
    · rw [← hij, mark_self]
      exact .self
    · rw [mark_of_ne hij, Snapshot.connection]
      rcases hlink : S.linkBetween? (.ofNat i) (.ofNat j) with _ | l
      · exact .unlinked hij fun l hl => by simpa [hlink] using (hfirst l).2 hl
      · have hl := (hfirst l).1 hlink
        rw [Option.map_some]
        rcases hkind : l.kind
        · exact .direct hij hl hkind
        · exact .indirect hij hl hkind

theorem length_mark_lt_iff : (mark S i j).toList.length < columnWidth
    ↔ (i ≠ j → ∀ l, S.FirstLink i j l → l.weight.toNat < fullWeight l.kind) := by
  by_cases hij : i = j
  · rw [hij, mark_self]
    exact iff_of_true (by decide) fun h => absurd rfl h
  · have hspell : ∀ l : Link, (spell (some (l.weight, l.kind))).toList.length < columnWidth
        ↔ l.weight.toNat < fullWeight l.kind := fun l => by
      rcases hkind : l.kind
      · exact Nat.lt_succ_iff.trans (Text.length_decimal_le_iff (by decide))
      · rw [spell, String.toList_append, List.length_append]
        exact Nat.lt_succ_iff.trans
          (Nat.succ_le_succ_iff.trans (Text.length_decimal_le_iff (by decide)))
    have hfirst := fun l => Snapshot.linkBetween?_eq_some_iff (S := S) (l := l) hi hj
    rw [mark_of_ne hij, Snapshot.connection]
    simp only [← hfirst, ne_eq, hij, not_false_eq_true, true_implies]
    rcases S.linkBetween? (.ofNat i) (.ofNat j) with _ | l
    · exact iff_of_true (by decide) nofun
    · rw [Option.map_some, hspell]
      exact ⟨fun h k hk => Option.some.inj hk ▸ h, fun h => h l rfl⟩

end Entry

end Mark

section Lines

/-- The cells of the first line, and those of the row of node `i`. -/
def headerCells (count : Nat) : List String :=
  "from\\to" :: (List.range count).map Text.decimal

def rowCells (S : Snapshot) (count i : Nat) : List String :=
  Text.decimal i :: (List.range count).map (mark S i)

/-- A line without its line feed. -/
def lineText (cells : List String) : List Char :=
  Text.columns columnWidth (cells.map String.toList)

theorem toList_line (cells : List String) : (line cells).toList = lineText cells ++ ['\n'] := by
  rw [line, String.toList_append, String.toList_join, List.flatMap_map, lineText, Text.columns,
    List.flatMap_map]
  simp only [Text.alignRight, String.toList_ofList]
  rfl

theorem isWord_of_mem_headerCells {cell : List Char}
    (h : cell ∈ (headerCells count).map String.toList) : Text.IsWord cell := by
  rw [headerCells, List.map_cons, List.mem_cons, List.map_map, List.mem_map] at h
  rcases h with rfl | ⟨j, -, rfl⟩
  · decide
  · exact Text.isWord_decimal j

theorem isWord_of_mem_rowCells {cell : List Char}
    (h : cell ∈ (rowCells S count i).map String.toList) : Text.IsWord cell := by
  rw [rowCells, List.map_cons, List.mem_cons, List.map_map, List.mem_map] at h
  rcases h with rfl | ⟨j, -, rfl⟩
  · exact Text.isWord_decimal i
  · exact isWord_mark S i j

theorem not_mem_lineText {cells : List String}
    (h : ∀ cell ∈ cells.map String.toList, Text.IsWord cell) : '\n' ∉ lineText cells := by
  intro hmem
  obtain ⟨cell, hcell, hmem⟩ := List.mem_flatMap.1 hmem
  rcases List.mem_append.1 hmem with hmem | hmem
  · exact absurd (List.eq_of_mem_replicate hmem) (by decide)
  · exact absurd ((h cell hcell).not_blank _ hmem) (by decide)

/-- A weight matrix has a line of numbers and a line for each node. -/
theorem lines_render (S : Snapshot) :
    Text.lines (render S).toList = lineText (headerCells S.platform.nodes.toNat)
      :: (List.range S.platform.nodes.toNat).map
        (fun i => lineText (rowCells S S.platform.nodes.toNat i)) ++ [[]] := by
  generalize hcount : S.platform.nodes.toNat = count
  have hrender : (render S).toList = (lineText (headerCells count)
      :: (List.range count).map fun i => lineText (rowCells S count i)).flatMap (· ++ ['\n']) := by
    rw [render, hcount, String.toList_append, String.toList_join, List.flatMap_map, header,
      toList_line, List.flatMap_cons, List.flatMap_map]
    simp only [row, toList_line]
    rfl
  rw [hrender, Text.lines_flatMap]
  refine List.forall_mem_cons.2 ⟨not_mem_lineText fun _ => isWord_of_mem_headerCells, ?_⟩
  intro l hl
  obtain ⟨i, -, rfl⟩ := List.mem_map.1 hl
  exact not_mem_lineText fun _ => isWord_of_mem_rowCells

end Lines

section Rows

variable (hcount : count < 10 ^ 6)

include hcount

theorem words_header : Text.words (lineText (headerCells count))
    = (headerCells count).map String.toList := by
  have hwords : ∀ cell ∈ (headerCells count).map String.toList, Text.IsWord cell :=
    fun _ => isWord_of_mem_headerCells
  refine (Text.words_columns_iff (hwords _ List.mem_cons_self)
    fun cell hcell => hwords cell (.tail _ hcell)).2 fun cell hcell => ?_
  rw [List.map_map] at hcell
  obtain ⟨j, hj, rfl⟩ := List.mem_map.1 hcell
  have hj := List.mem_range.1 hj
  exact Nat.lt_succ_iff.2 ((Text.length_decimal_le_iff (by decide)).2 (by omega))

theorem slim_iff (hi : i < count) :
    Slim S count i ↔ ∀ j < count, (mark S i j).toList.length < columnWidth := by
  have hlt : ∀ {j}, j < count → j < UInt32.size := fun h =>
    Nat.lt_trans h (Nat.lt_trans hcount (by decide))
  constructor
  · intro h j hj
    exact (length_mark_lt_iff (hlt hi) (hlt hj)).2 fun hne l hl => h j l hj hne hl
  · intro h j l hj hne hl
    exact (length_mark_lt_iff (hlt hi) (hlt hj)).1 (h j hj) hne l hl

theorem words_row_iff (hi : i < count) : Text.words (lineText (rowCells S count i))
    = (rowCells S count i).map String.toList ↔ Slim S count i := by
  have hwords : ∀ cell ∈ (rowCells S count i).map String.toList, Text.IsWord cell :=
    fun _ => isWord_of_mem_rowCells
  rw [slim_iff hcount hi]
  refine (Text.words_columns_iff (hwords _ List.mem_cons_self)
    fun cell hcell => hwords cell (.tail _ hcell)).trans ?_
  rw [List.map_map, List.forall_mem_map]
  exact ⟨fun h j hj => h j (List.mem_range.2 hj), fun h j hj => h j (List.mem_range.1 hj)⟩

/-- A row reads back exactly if none of its entries fills its column. -/
theorem rowReads_iff (hi : i < count) :
    RowReads S count i (lineText (rowCells S count i)) ↔ Slim S count i := by
  have hlt : ∀ {j}, j < count → j < UInt32.size := fun h =>
    Nat.lt_trans h (Nat.lt_trans hcount (by decide))
  rw [← words_row_iff hcount hi]
  constructor
  · rintro ⟨entries, hwords, hlength, hentries⟩
    have hmarks : entries = (List.range count).map (mark S i) := by
      refine List.ext_getElem (by rw [hlength, List.length_map, List.length_range]) fun j hj _ => ?_
      rw [List.getElem_map, List.getElem_range]
      exact ((shows_iff (hlt hi) (hlt (hlength ▸ hj))).1
        (hentries j _ (List.getElem?_eq_getElem hj))).symm
    rw [hwords, hmarks]
    rfl
  · intro hwords
    refine ⟨(List.range count).map (mark S i), hwords, by simp, fun j entry hentry => ?_⟩
    rw [List.getElem?_map, Option.map_eq_some_iff] at hentry
    obtain ⟨k, hk, rfl⟩ := hentry
    obtain ⟨hj, rfl⟩ := List.getElem?_eq_some_iff.1 hk
    rw [List.length_range] at hj
    rw [List.getElem_range]
    exact (shows_iff (hlt hi) (hlt hj)).2 rfl

end Rows

/-- Matrices of rows that read back are the same only if weights and kinds of all links are. -/
theorem render_eq_iff (hnodes : S'.platform.nodes = S.platform.nodes)
    (hcount : S.platform.nodes.toNat < 10 ^ 6)
    (hslim : ∀ i < S.platform.nodes.toNat, Slim S S.platform.nodes.toNat i)
    (hslim' : ∀ i < S.platform.nodes.toNat, Slim S' S.platform.nodes.toNat i) :
    render S = render S' ↔ ∀ i < S.platform.nodes.toNat, ∀ j < S.platform.nodes.toNat, i ≠ j →
      S.connection i j = S'.connection i j := by
  constructor
  · intro h i hi j hj hne
    have hlines := congrArg (Text.lines ∘ String.toList) h
    rw [Function.comp_apply, Function.comp_apply, lines_render, lines_render, hnodes] at hlines
    have hrow := List.map_inj_left.1 (List.cons.inj (List.append_cancel_right hlines)).2 i
      (List.mem_range.2 hi)
    have hcells := (words_row_iff hcount hi).2 (hslim i hi)
    rw [hrow, (words_row_iff hcount hi).2 (hslim' i hi)] at hcells
    have hcells := List.map_injective_iff.2 (fun _ _ => String.toList_injective) hcells
    have hmark := List.map_inj_left.1 (List.cons.inj hcells).2 j (List.mem_range.2 hj)
    rw [mark_of_ne hne, mark_of_ne hne] at hmark
    exact (spell_injective hmark).symm
  · intro h
    have hrow : ∀ i ∈ List.range S.platform.nodes.toNat,
        row S S.platform.nodes.toNat i = row S' S.platform.nodes.toNat i := by
      intro i hi
      rw [row, row, List.map_congr_left fun j hj => ?_]
      by_cases hij : i = j
      · rw [hij, mark_self, mark_self]
      · rw [mark_of_ne hij, mark_of_ne hij,
          h i (List.mem_range.1 hi) j (List.mem_range.1 hj) hij]
    rw [render, render, hnodes, List.map_congr_left hrow]

/-- A matrix has a line of numbers and a line for each node. A line reads back if and only if none
of its weights fills its column, and matrices of such lines tell snapshots apart. -/
theorem render_reads_iff (S : Snapshot) (hcount : S.platform.nodes.toNat < 10 ^ 6) :
    (∃ header rows, Text.lines (render S).toList = header :: rows ++ [[]]
      ∧ Text.words header = "from\\to".toList
        :: (List.range S.platform.nodes.toNat).map (fun j => (Text.decimal j).toList)
      ∧ rows.length = S.platform.nodes.toNat
      ∧ ∀ i row, rows[i]? = some row →
        (RowReads S S.platform.nodes.toNat i row ↔ Slim S S.platform.nodes.toNat i))
    ∧ ∀ S' : Snapshot, S'.platform.nodes = S.platform.nodes →
      (∀ i < S.platform.nodes.toNat, Slim S S.platform.nodes.toNat i) →
      (∀ i < S.platform.nodes.toNat, Slim S' S.platform.nodes.toNat i) →
      (render S = render S' ↔ ∀ i < S.platform.nodes.toNat, ∀ j < S.platform.nodes.toNat, i ≠ j →
        S.connection i j = S'.connection i j) := by
  refine ⟨⟨_, _, lines_render S, ?_, by rw [List.length_map, List.length_range],
    fun i row hrow => ?_⟩, fun S' hnodes => render_eq_iff hnodes hcount⟩
  · rw [words_header hcount, headerCells, List.map_cons, List.map_map]
    rfl
  · rw [List.getElem?_map, Option.map_eq_some_iff] at hrow
    obtain ⟨k, hk, rfl⟩ := hrow
    obtain ⟨hi, rfl⟩ := List.getElem?_eq_some_iff.1 hk
    rw [List.length_range] at hi
    rw [List.getElem_range]
    exact rowReads_iff hcount hi

/-- Two nodes, and a link of the first one. -/
def twoNodes (l : Link) : Snapshot :=
  ⟨{ nodes := 2 }, [⟨{}, [], [], [l]⟩, ⟨{}, [], [], []⟩], 1⟩

/-- The largest weights that leave a blank in their columns. -/
theorem render_reads_iff_largest :
    let S := twoNodes { target := 1, weight := 999999 }
    let S' := twoNodes { kind := .indirect, target := 1, weight := 99999 }
    S.platform.nodes.toNat < 10 ^ 6
      ∧ S'.platform.nodes = S.platform.nodes ∧ (∀ i < 2, Slim S 2 i) ∧ (∀ i < 2, Slim S' 2 i)
      ∧ (∃ header rows, Text.lines (render S).toList = header :: rows ++ [[]] ∧ rows.length = 2
        ∧ ∀ i row, rows[i]? = some row → RowReads S 2 i row)
      ∧ render S ≠ render S' := by
  intro S S'
  have hcount : S.platform.nodes.toNat < 10 ^ 6 := by decide
  have hnarrow : ∀ l ∈ [{ target := 1, weight := 999999 },
        { kind := .indirect, target := 1, weight := 99999 }],
      ∀ i < 2, ∀ j < 2, (mark (twoNodes l) i j).toList.length < columnWidth := by
    decide +kernel
  have hslim : ∀ i < 2, Slim S 2 i := fun i hi =>
    (slim_iff (by decide) hi).2 (hnarrow _ (.head _) i hi)
  have hslim' : ∀ i < 2, Slim S' 2 i := fun i hi =>
    (slim_iff (by decide) hi).2 (hnarrow _ (.tail _ (.head _)) i hi)
  obtain ⟨⟨header, rows, hlines, -, hlength, hrows⟩, heq⟩ := render_reads_iff S hcount
  refine ⟨hcount, rfl, hslim, hslim', ⟨header, rows, hlines, hlength, fun i row hrow => ?_⟩, ?_⟩
  · have hi : i < 2 := Nat.lt_of_lt_of_eq (List.getElem?_eq_some_iff.1 hrow).1 hlength
    exact (hrows i row hrow).2 (hslim i hi)
  · intro h
    have hconnection := (heq S' rfl hslim hslim').1 h 0 (by decide) 1 (by decide) (by decide)
    exact absurd hconnection (by decide)

/-- Three hosts; the first one has links of these weights to the two others. -/
def threeHosts (v w : UInt32) : Capture where
  nodes := [
    { CapturedNode.cpu 4 with
      links := [some (CapturedNode.directLink 1 .pciExpress v),
        some (CapturedNode.directLink 2 .pciExpress w)] },
    CapturedNode.cpu 4, CapturedNode.cpu 4]

/-- Two weights of together fifteen digits run into each other. The row of the first host does not
read back, and a snapshot with the weights the other way round has the same matrix. -/
theorem merged_not_told_apart :
    ∃ S S' tally tally',
      ({} : Publisher).take Capture.machine (threeHosts 1111111 11111111)
          = ((.ok (), ({} : Publisher).publish S tally), threeHosts 1111111 11111111)
        ∧ ({} : Publisher).take Capture.machine (threeHosts 11111111 1111111)
          = ((.ok (), ({} : Publisher).publish S' tally'), threeHosts 11111111 1111111)
        ∧ S.platform.nodes = 3 ∧ S'.platform.nodes = 3
        ∧ (∃ row, (Text.lines (render S).toList)[1]? = some row ∧ ¬ RowReads S 3 0 row)
        ∧ S.connection 0 1 ≠ S'.connection 0 1 ∧ render S = render S' := by
  have hmeaning : ∀ c ∈ [threeHosts 1111111 11111111, threeHosts 11111111 1111111],
      ((Survey.attempt 1).eval c.answer).toOption.join.map (·.1) = some c.meaning := by
    decide +kernel
  have htake : ∀ c ∈ [threeHosts 1111111 11111111, threeHosts 11111111 1111111],
      ∃ tally, ({} : Publisher).take Capture.machine c
        = ((.ok (), ({} : Publisher).publish c.meaning tally), c) := fun c hc => by
    obtain ⟨S, tally, heval⟩ := c.exists_attempt 1
    have hS := hmeaning c hc
    rw [heval] at hS
    cases hS
    exact ⟨tally, Capture.take_machine heval {}⟩
  obtain ⟨tally, htake₁⟩ := htake _ (.head _)
  obtain ⟨tally', htake₂⟩ := htake _ (.tail _ (.head _))
  refine ⟨_, _, tally, tally', htake₁, htake₂, by decide, by decide, ?_, by decide +kernel,
    String.toList_injective (by decide +kernel)⟩
  have hcount : (threeHosts 1111111 11111111).meaning.platform.nodes.toNat = 3 := by decide
  refine ⟨lineText (rowCells (threeHosts 1111111 11111111).meaning 3 0), ?_, ?_⟩
  · rw [lines_render, hcount]
    rfl
  · exact (rowReads_iff (by decide) (by decide)).not.2 fun hslim =>
      absurd ((slim_iff (by decide) (by decide)).1 hslim 1 (by decide)) (by decide +kernel)

end WeightMatrix

end ComputeTopology
