import ComputeTopology.Proofs.Cuts

/-!
# Words

A text is cut into words at its blanks: blanks in front count for nothing
(`Text.words_append_of_blank`), and a word goes on until the next blank
(`Text.IsWord.words_append`). So the words of a text are those it is written with, whatever blanks
stand around them (`Text.words_of_spaced`), and cells that are moved to the right ends of their
columns are the words of their line exactly if none but the first fills its column
(`Text.words_columns_iff`).
-/

namespace ComputeTopology.Text

structure IsWord (w : List Char) : Prop where
  ne_nil : w ≠ []
  not_blank : ∀ c ∈ w, isBlank c = false

/-- The words, with blanks between them and maybe around them. -/
inductive Spaced : List (List Char) → List Char → Prop
  | blank {gap : List Char} (hgap : ∀ c ∈ gap, isBlank c = true) : Spaced [] gap
  | word {gap w rest : List Char} {ws : List (List Char)} (hgap : ∀ c ∈ gap, isBlank c = true)
    (hw : IsWord w) (hrest : ∀ c ∈ rest.head?, isBlank c = true) (h : Spaced ws rest) :
    Spaced (w :: ws) (gap ++ w ++ rest)

instance (w : List Char) : Decidable (IsWord w) :=
  @decidable_of_iff _ (w ≠ [] ∧ ∀ c ∈ w, isBlank c = false)
    ⟨fun ⟨hne, hw⟩ => ⟨hne, hw⟩, fun h => ⟨h.ne_nil, h.not_blank⟩⟩
    (@instDecidableAnd _ _ _ (List.decidableBAll _ w))

section Words

variable {gap w rest : List Char} {c : Char}

theorem words_append_cons (hc : isBlank c = true) (a b : List Char) :
    words (a ++ c :: b) = words a ++ words b := by
  rw [words, fields_append_sep hc, List.filter_append, words, words]

theorem words_append_of_blank (hgap : ∀ c ∈ gap, isBlank c = true) (cs : List Char) :
    words (gap ++ cs) = words cs := by
  induction gap with
  | nil => rfl
  | cons c gap ih =>
    rw [List.cons_append, ← List.nil_append (c :: _),
      words_append_cons (hgap c List.mem_cons_self), ih fun d hd => hgap d (.tail c hd)]
    rfl

theorem words_of_blank (hgap : ∀ c ∈ gap, isBlank c = true) : words gap = [] := by
  have h := words_append_of_blank hgap []
  rwa [List.append_nil] at h

namespace IsWord

theorem words_eq (hw : IsWord w) : words w = [w] := by
  rw [words, fields_eq_splitOnP, List.splitOnP_eq_singleton hw.not_blank,
    List.filter_cons_of_pos (by simpa using hw.ne_nil), List.filter_nil]

theorem words_append (hw : IsWord w) (rest : List Char) : words (w ++ rest) =
    (w ++ rest.takeWhile (! isBlank ·)) :: words (rest.dropWhile (! isBlank ·)) := by
  have hhead : IsWord (w ++ rest.takeWhile (! isBlank ·)) := by
    refine ⟨by simp [hw.ne_nil], fun c hc => ?_⟩
    rcases List.mem_append.1 hc with hc | hc
    · exact hw.not_blank c hc
    · simpa using List.mem_takeWhile_imp hc
  conv_lhs => rw [← List.takeWhile_append_dropWhile (p := (! isBlank ·)) (l := rest),
    ← List.append_assoc]
  rcases hdrop : rest.dropWhile (! isBlank ·) with _ | ⟨d, ds⟩
  · rw [List.append_nil, hhead.words_eq]
    rfl
  · have hd := List.head?_dropWhile_not (! isBlank ·) rest
    rw [hdrop] at hd
    have hd : isBlank d = true := by simpa using hd
    rw [words_append_cons hd, hhead.words_eq, ← List.nil_append (d :: ds), words_append_cons hd]
    rfl

theorem words_append_of_blank (hw : IsWord w) (hrest : ∀ c ∈ rest.head?, isBlank c = true) :
    words (w ++ rest) = w :: words rest := by
  rw [hw.words_append]
  rcases rest with _ | ⟨d, ds⟩
  · rw [List.takeWhile_nil, List.append_nil, List.dropWhile_nil]
  · have hd : isBlank d = true := hrest d rfl
    rw [List.takeWhile_cons_of_neg (by simp [hd]), List.append_nil,
      List.dropWhile_cons_of_neg (by simp [hd])]

end IsWord

theorem words_of_spaced {ws : List (List Char)} {cs : List Char} (h : Spaced ws cs) :
    words cs = ws := by
  induction h with
  | blank hgap => exact words_of_blank hgap
  | word hgap hw hrest _ ih =>
    rw [List.append_assoc, words_append_of_blank hgap, hw.words_append_of_blank hrest, ih]

/-- Every text is written with its words. -/
theorem spaced_words (cs : List Char) : Spaced (words cs) cs := by
  obtain ⟨gap, rest, hcs, hgap, hrest⟩ : ∃ gap rest, cs = gap ++ rest
      ∧ (∀ c ∈ gap, isBlank c = true) ∧ ∀ c ∈ rest.head?, isBlank c = false :=
    ⟨_, _, List.takeWhile_append_dropWhile.symm, fun c => List.mem_takeWhile_imp, fun c hc => by
      have h := List.head?_dropWhile_not isBlank cs
      rw [hc] at h
      simpa using h⟩
  rcases rest with _ | ⟨c, rest⟩
  · rw [hcs, List.append_nil, words_of_blank hgap]
    exact .blank hgap
  · have hc : isBlank c = false := hrest c rfl
    obtain ⟨w, tail, hw, hword, htail⟩ : ∃ w tail, c :: rest = w ++ tail ∧ IsWord w
        ∧ ∀ d ∈ tail.head?, isBlank d = true := by
      refine ⟨(c :: rest).takeWhile (! isBlank ·), (c :: rest).dropWhile (! isBlank ·),
        List.takeWhile_append_dropWhile.symm, ⟨?_, fun d hd => ?_⟩, fun d hd => ?_⟩
      · rw [List.takeWhile_cons_of_pos (by simp [hc])]
        exact List.cons_ne_nil _ _
      · simpa using List.mem_takeWhile_imp hd
      · have h := List.head?_dropWhile_not (! isBlank ·) (c :: rest)
        rw [hd] at h
        simpa using h
    have hlt : tail.length < cs.length := by
      have hpos := List.length_pos_iff.2 hword.ne_nil
      rw [hcs, hw, List.length_append, List.length_append]
      omega
    rw [hcs, hw, words_append_of_blank hgap, hword.words_append_of_blank htail, ← List.append_assoc]
    exact .word hgap hword htail (spaced_words tail)
termination_by cs.length

theorem IsWord.of_spaced {ws : List (List Char)} {cs : List Char} (h : Spaced ws cs) :
    ∀ w ∈ ws, IsWord w := by
  induction h with
  | blank => exact nofun
  | word _ hw _ _ ih => exact List.forall_mem_cons.2 ⟨hw, ih⟩

end Words

section Lines

variable {cs : List Char}

theorem lines_of_not_mem (h : '\n' ∉ cs) : lines cs = [cs] := by
  rw [lines, fields_eq_splitOnP]
  exact List.splitOnP_eq_singleton fun c hc => decide_eq_false fun heq => h (heq ▸ hc)

theorem lines_append_cons (h : '\n' ∉ cs) (rest : List Char) :
    lines (cs ++ '\n' :: rest) = cs :: lines rest := by
  rw [lines, fields_append_sep (by decide), ← lines, ← lines, lines_of_not_mem h,
    List.singleton_append]

/-- Lines that all have their line feed are the lines of their text. -/
theorem lines_flatMap : ∀ {ls : List (List Char)}, (∀ l ∈ ls, '\n' ∉ l) →
    lines (ls.flatMap (· ++ ['\n'])) = ls ++ [[]]
  | [], _ => rfl
  | l :: ls, h => by
    obtain ⟨hl, hls⟩ := List.forall_mem_cons.1 h
    rw [List.flatMap_cons, List.append_assoc, List.singleton_append, lines_append_cons hl,
      lines_flatMap hls, List.cons_append]

end Lines

section Columns

variable {width : Nat} {cell next : List Char} {cells : List (List Char)}

/-- The cells at the right ends of columns of this width. -/
def columns (width : Nat) (cells : List (List Char)) : List Char :=
  cells.flatMap (List.leftpad width ' ')

theorem isBlank_of_mem_replicate {n : Nat} : ∀ c ∈ List.replicate n ' ', isBlank c = true := by
  intro c hc
  rw [List.eq_of_mem_replicate hc]
  rfl

theorem words_columns_cons (hcell : IsWord cell) : words (columns width (cell :: cells))
    = (cell ++ (columns width cells).takeWhile (! isBlank ·))
      :: words ((columns width cells).dropWhile (! isBlank ·)) := by
  rw [columns, List.flatMap_cons, List.leftpad, List.append_assoc,
    words_append_of_blank isBlank_of_mem_replicate, hcell.words_append]
  rfl

/-- A column begins with a blank exactly if its cell does not fill it. -/
theorem takeWhile_columns_eq_nil_iff (cells : List (List Char)) (hnext : IsWord next) :
    (columns width (next :: cells)).takeWhile (! isBlank ·) = [] ↔ next.length < width := by
  rw [columns, List.flatMap_cons, List.leftpad]
  rcases hn : width - next.length with _ | n
  · obtain ⟨c, cs, rfl⟩ := List.exists_cons_of_ne_nil hnext.ne_nil
    have hc := hnext.not_blank c List.mem_cons_self
    refine iff_of_false ?_ (by omega)
    rw [List.replicate_zero, List.nil_append, List.cons_append,
      List.takeWhile_cons_of_pos (by simp [hc])]
    exact List.cons_ne_nil _ _
  · refine iff_of_true ?_ (by omega)
    rw [List.replicate_succ, List.cons_append, List.cons_append]
    exact List.takeWhile_cons_of_neg (by decide)

/-- Cells without blanks are the words of their line if and only if each but the first leaves a
blank in its column. -/
theorem words_columns_iff (hcell : IsWord cell) (hcells : ∀ cell ∈ cells, IsWord cell) :
    words (columns width (cell :: cells)) = cell :: cells
      ↔ ∀ cell ∈ cells, cell.length < width := by
  induction cells generalizing cell with
  | nil =>
    rw [words_columns_cons hcell]
    simp [columns, words, fields]
  | cons next cells ih =>
    obtain ⟨hnext, hcells⟩ := List.forall_mem_cons.1 hcells
    rw [words_columns_cons hcell, List.cons.injEq, List.append_right_eq_self,
      takeWhile_columns_eq_nil_iff cells hnext, List.forall_mem_cons]
    refine and_congr_right fun hlt => ?_
    have hnil := (takeWhile_columns_eq_nil_iff cells hnext).2 hlt
    have hdrop := List.takeWhile_append_dropWhile (p := (! isBlank ·))
      (l := columns width (next :: cells))
    rw [hnil, List.nil_append] at hdrop
    rw [hdrop, ih hnext hcells]

end Columns

end ComputeTopology.Text
