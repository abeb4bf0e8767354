import ComputeTopology.Text.Blank
import Mathlib.Data.List.TakeWhile
import Mathlib.Tactic.Common

/-!
# Cutting texts

The fields of a text are the parts of a list that is split at the separators
(`Text.fields_eq_splitOnP`). A cut at a separator is where the separator stands first
(`Text.cutAt?_eq_some_iff`). A text without blanks is trimmed already
(`Text.trim_of_forall_not_blank`), and one that is cut off at something else than a blank can be
trimmed before or after (`Text.trim_takeWhile_trim`).
-/

namespace ComputeTopology.Text

section Fields

variable {sep : Char → Bool} {c d : Char} {pieces : List (List Char)}

theorem fields_eq_splitOnP (sep : Char → Bool) : ∀ cs : List Char, fields sep cs = cs.splitOnP sep
  | [] => rfl
  | c :: cs => by
    rw [fields, List.splitOnP_cons_eq_if_modifyHead, fields_eq_splitOnP sep cs]
    rcases h : cs.splitOnP sep with _ | ⟨f, fs⟩
    · exact absurd h (List.splitOnP_ne_nil sep cs)
    · rfl

theorem fields_eq_splitOn (c : Char) (cs : List Char) : fields (· = c) cs = cs.splitOn c :=
  fields_eq_splitOnP _ cs

theorem fields_append_sep (hc : sep c = true) (a b : List Char) :
    fields sep (a ++ c :: b) = fields sep a ++ fields sep b := by
  simp only [fields_eq_splitOnP, List.splitOnP_append_cons a b hc]

theorem fields_intercalate (hne : pieces ≠ []) (h : ∀ piece ∈ pieces, c ∉ piece) :
    fields (· = c) ([c].intercalate pieces) = pieces := by
  rw [fields_eq_splitOn, List.splitOn_intercalate c h hne]

theorem of_mem_fields : ∀ {cs field : List Char}, field ∈ fields sep cs →
    ∀ c ∈ field, c ∈ cs ∧ sep c = false
  | [], field, h, c, hc => by
    rw [List.mem_singleton.1 h] at hc
    cases hc
  | d :: cs, field, h, c, hc => by
    have ih : ∀ f ∈ fields sep cs, c ∈ f → c ∈ d :: cs ∧ sep c = false := fun f hf hc =>
      (of_mem_fields hf c hc).imp_left (.tail d)
    rw [fields] at h
    rcases hfields : fields sep cs with _ | ⟨f, fs⟩
    · exact absurd hfields (fields_ne_nil sep cs)
    · rw [hfields] at h ih
      cases hd : sep d <;> simp only [hd, Bool.false_eq_true, ↓reduceIte] at h
      · rcases List.mem_cons.1 h with rfl | h
        · rcases List.mem_cons.1 hc with rfl | hc
          · exact ⟨.head _, hd⟩
          · exact ih _ (.head _) hc
        · exact ih _ (.tail _ h) hc
      · rcases List.mem_cons.1 h with rfl | h
        · cases hc
        · exact ih _ h hc

theorem headD_fields (sep : Char → Bool) :
    ∀ cs : List Char, (fields sep cs).headD [] = cs.takeWhile fun c => !sep c
  | [] => rfl
  | c :: cs => by
    have ih := headD_fields sep cs
    rw [fields, List.takeWhile_cons]
    rcases h : fields sep cs with _ | ⟨f, fs⟩
    · exact absurd h (fields_ne_nil sep cs)
    · rw [h, List.headD_cons] at ih
      cases sep c <;> simp [ih]

theorem mem_intercalate :
    ∀ {pieces : List (List Char)}, d ∈ [c].intercalate pieces → d = c ∨ ∃ piece ∈ pieces, d ∈ piece
  | [], h => absurd h List.not_mem_nil
  | [piece], h => .inr ⟨piece, List.mem_cons_self, by rwa [List.intercalate_singleton] at h⟩
  | piece :: next :: pieces, h => by
    rw [List.intercalate_cons_cons, List.mem_append, List.mem_append, List.mem_singleton] at h
    rcases h with (h | h) | h
    · exact .inr ⟨piece, List.mem_cons_self, h⟩
    · exact .inl h
    · exact (mem_intercalate h).imp_right fun ⟨p, hp, hd⟩ => ⟨p, List.mem_cons_of_mem _ hp, hd⟩

end Fields

theorem cutAt?_eq_some_iff {sep : Char} :
    ∀ {cs a b : List Char}, cutAt? sep cs = some (a, b) ↔ cs = a ++ sep :: b ∧ sep ∉ a
  | [], a, b => by simp [cutAt?]
  | c :: cs, a, b => by
    rw [cutAt?]
    split_ifs with hc
    · subst hc
      rcases a with _ | ⟨d, a⟩
      · simp
      · simp only [Option.some.injEq, Prod.mk.injEq, List.cons_append, List.cons.injEq]
        constructor
        · rintro ⟨⟨⟩, -⟩
        · rintro ⟨⟨rfl, -⟩, hmem⟩
          exact absurd List.mem_cons_self hmem
    · rw [Option.map_eq_some_iff]
      constructor
      · rintro ⟨⟨a', b'⟩, hcut, heq⟩
        obtain ⟨rfl, hmem⟩ := cutAt?_eq_some_iff.1 hcut
        cases heq
        exact ⟨rfl, by simp [Ne.symm hc, hmem]⟩
      · rintro ⟨heq, hmem⟩
        rcases a with _ | ⟨d, a⟩
        · cases heq
          exact absurd rfl hc
        · cases heq
          exact ⟨(a, b), cutAt?_eq_some_iff.2 ⟨rfl, fun h => hmem (List.mem_cons_of_mem _ h)⟩, rfl⟩

theorem cutAt?_eq_none_iff {sep : Char} {cs : List Char} : cutAt? sep cs = none ↔ sep ∉ cs := by
  induction cs with
  | nil => simp [cutAt?]
  | cons c cs ih =>
    rw [cutAt?]
    split_ifs with hc
    · simp [hc]
    · rw [Option.map_eq_none_iff, ih, List.mem_cons, not_or]
      exact ⟨fun h => ⟨Ne.symm hc, h⟩, And.right⟩

theorem cutAt?_takeWhile (sep : Char) (cs : List Char) :
    (match cutAt? sep cs with
      | some (before, _) => before
      | none => cs) = cs.takeWhile fun c => c ≠ sep := by
  rcases hcut : cutAt? sep cs with _ | ⟨before, after⟩
  · have hsep := cutAt?_eq_none_iff.1 hcut
    have hcs : ∀ c ∈ cs, decide (c ≠ sep) = true :=
      fun c hc => decide_eq_true fun h => hsep (h ▸ hc)
    exact (List.takeWhile_eq_self_iff.2 hcs).symm
  · obtain ⟨rfl, hsep⟩ := cutAt?_eq_some_iff.1 hcut
    have hbefore : ∀ c ∈ before, decide (c ≠ sep) = true :=
      fun c hc => decide_eq_true fun h => hsep (h ▸ hc)
    rw [List.takeWhile_append_of_pos hbefore, List.takeWhile_cons_of_neg (by simp),
      List.append_nil]

section Trim

variable {cs : List Char}

theorem trimStart_of_forall_not_blank (h : ∀ c ∈ cs, isBlank c = false) : trimStart cs = cs := by
  rcases cs with _ | ⟨c, cs⟩
  · rfl
  · rw [trimStart, List.dropWhile_cons_of_neg (by simp [h c List.mem_cons_self])]

theorem trim_of_forall_not_blank (h : ∀ c ∈ cs, isBlank c = false) : trim cs = cs := by
  rw [trim, trimStart_of_forall_not_blank h, trimEnd]
  change (trimStart cs.reverse).reverse = cs
  rw [trimStart_of_forall_not_blank fun c hc => h c (List.mem_reverse.1 hc), List.reverse_reverse]

theorem exists_trimEnd_append (cs : List Char) :
    ∃ blanks, (∀ c ∈ blanks, isBlank c = true) ∧ trimEnd cs ++ blanks = cs := by
  refine ⟨(cs.reverse.takeWhile isBlank).reverse, fun c hc => ?_, ?_⟩
  · exact List.mem_takeWhile_imp (List.mem_reverse.1 hc)
  · rw [trimEnd, ← List.reverse_append, List.takeWhile_append_dropWhile, List.reverse_reverse]

theorem trimEnd_append_of_blank (cs : List Char) {blanks : List Char}
    (h : ∀ c ∈ blanks, isBlank c = true) : trimEnd (cs ++ blanks) = trimEnd cs := by
  rw [trimEnd, List.reverse_append, List.dropWhile_append_of_pos, trimEnd]
  exact fun c hc => h c (List.mem_reverse.1 hc)

section TakeWhile

variable {p : Char → Bool}

theorem trimEnd_takeWhile (p : Char → Bool) (cs : List Char) :
    trimEnd ((trimEnd cs).takeWhile p) = trimEnd (cs.takeWhile p) := by
  obtain ⟨blanks, hblanks, hcs⟩ := exists_trimEnd_append cs
  have hbegins := List.takeWhile_prefix p (l := trimEnd cs)
  conv_rhs => rw [← hcs, List.takeWhile_append]
  split_ifs with hall
  · rw [trimEnd_append_of_blank _ fun c hc => hblanks c ((List.takeWhile_sublist p).subset hc),
      hbegins.eq_of_length hall]
  · rfl

theorem trimStart_takeWhile (hp : ∀ c, isBlank c = true → p c = true) :
    ∀ cs : List Char, (trimStart cs).takeWhile p = trimStart (cs.takeWhile p)
  | [] => rfl
  | c :: cs => by
    by_cases hc : isBlank c = true
    · rw [trimStart, List.dropWhile_cons_of_pos hc, List.takeWhile_cons_of_pos (hp c hc), trimStart,
        List.dropWhile_cons_of_pos hc]
      exact trimStart_takeWhile hp cs
    · rw [trimStart, List.dropWhile_cons_of_neg hc]
      by_cases hpc : p c = true
      · rw [List.takeWhile_cons_of_pos hpc, trimStart, List.dropWhile_cons_of_neg hc]
      · rw [List.takeWhile_cons_of_neg hpc]
        rfl

theorem trimStart_of_isPrefix {ds : List Char} (h : ds <+: trimStart cs) : trimStart ds = ds := by
  rcases ds with _ | ⟨d, ds⟩
  · rfl
  · obtain ⟨rest, hrest⟩ := h
    have hd := List.head?_dropWhile_not isBlank cs
    rw [← trimStart, ← hrest] at hd
    rw [trimStart, List.dropWhile_cons_of_neg (by simpa using hd)]

/-- A text that is trimmed before it is cut off differs in blanks only. -/
theorem trim_takeWhile_trim (hp : ∀ c, isBlank c = true → p c = true) (cs : List Char) :
    trim ((trim cs).takeWhile p) = trim (cs.takeWhile p) := by
  have hbegins : (trim cs).takeWhile p <+: trimStart cs := by
    obtain ⟨blanks, -, hcs⟩ := exists_trimEnd_append (trimStart cs)
    have hcut := List.takeWhile_prefix p (l := trim cs)
    exact hcut.trans ⟨blanks, hcs⟩
  rw [trim, trimStart_of_isPrefix hbegins, trim, trimEnd_takeWhile, trimStart_takeWhile hp, trim]

end TakeWhile

theorem trim_trim (cs : List Char) : trim (trim cs) = trim cs := by
  have h := trim_takeWhile_trim (p := fun _ => true) (fun _ _ => rfl) cs
  rwa [List.takeWhile_eq_self_iff.2 fun _ _ => rfl, List.takeWhile_eq_self_iff.2 fun _ _ => rfl] at h

end Trim

end ComputeTopology.Text
