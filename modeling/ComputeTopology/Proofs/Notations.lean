import ComputeTopology.Toml.Printer
import ComputeTopology.Toml.Quoted
import Mathlib.Tactic.Common

/-!
# Strings come back from their notations

A string without control characters is read back from each notation that a printer may choose for
it: from the basic one whatever is in it (`Toml.basic_basicBody`), from the literal one if it has no
single quote (`Toml.literal_append`), and from those of several lines if its quotes stand in short
runs (`Toml.ReadsLines.append`). A run at the end of the string merges with the closing quotes and
is told from them by its length. A notation is chosen only if it shows the string
(`Toml.shows_notationOf`), so every such string comes back (`Toml.quoted_renderString`).
-/

namespace ComputeTopology.Toml

/-- A control character, tabs and line ends included. -/
def IsControl (c : Char) : Prop :=
  c.toNat < 0x20 ∨ c.toNat = 0x7F

instance (c : Char) : Decidable (IsControl c) :=
  inferInstanceAs (Decidable (_ ∨ _))

/-- No run of `q` is longer than `most`. -/
inductive ShortRuns (q : Char) (most : Nat) : List Char → Prop
  | done {k : Nat} (hk : k ≤ most) : ShortRuns q most (List.replicate k q)
  | step {k : Nat} {c : Char} {cs : List Char} (hk : k ≤ most) (hc : c ≠ q)
    (h : ShortRuns q most cs) : ShortRuns q most (List.replicate k q ++ c :: cs)

/-- A string without control characters can be written in the notation as it is; in the basic one
its quotes and backslashes are escaped. -/
def Notation.Shows : Notation → List Char → Prop
  | basic, _ => True
  | literal, cs => '\'' ∉ cs
  | basicLines, cs => ShortRuns '"' 2 cs ∧ '\\' ∉ cs
  | literalLines, cs => ShortRuns '\'' 2 cs

section Characters

variable {c : Char}

theorem isPlain_of_not_control (h : ¬IsControl c) : isPlain c = true := by
  simp only [IsControl, not_or, Nat.not_lt] at h
  simp [isPlain, h.1, h.2]

theorem needsEscape_of_not_control (h : ¬IsControl c) : needsEscape c = false := by
  simp only [IsControl, not_or] at h
  simp [needsEscape, h.1, h.2]

theorem ne_of_not_control (h : ¬IsControl c) {d : Char} (hd : IsControl d) : c ≠ d := by
  rintro rfl
  exact h hd

theorem escape_of_not_control (h : ¬IsControl c) (hc : c ≠ '\\') (lines : Bool) :
    escape lines c = [c] := by
  have h8 : c.toNat ≠ 8 := fun h8 => h (.inl (by omega))
  have h12 : c.toNat ≠ 12 := fun h12 => h (.inl (by omega))
  simp only [escape, hc, ne_of_not_control h (d := '\t') (by decide),
    ne_of_not_control h (d := '\n') (by decide), ne_of_not_control h (d := '\r') (by decide),
    h8, h12, needsEscape_of_not_control h, Bool.false_eq_true, if_false]

end Characters

section Runs

variable {q : Char} {most : Nat}

/-- The longest run up to a place and the run right before it, after one more character. -/
def runStep (q : Char) (run : Nat × Nat) (c : Char) : Nat × Nat :=
  if c = q then (max run.1 (run.2 + 1), run.2 + 1) else (run.1, 0)

theorem le_foldl_runStep (q : Char) :
    ∀ (cs : List Char) (run : Nat × Nat), run.1 ≤ (cs.foldl (runStep q) run).1
  | [], _ => Nat.le_refl _
  | c :: cs, run => by
    have ih := le_foldl_runStep q cs (runStep q run c)
    refine Nat.le_trans ?_ ih
    unfold runStep
    split_ifs
    · exact Nat.le_max_left _ _
    · exact Nat.le_refl _

/-- The quotes right before a place belong to the run that goes on there. -/
theorem shortRuns_of_foldl : ∀ (cs : List Char) (best now : Nat), now ≤ best →
    (cs.foldl (runStep q) (best, now)).1 ≤ most → ShortRuns q most (List.replicate now q ++ cs)
  | [], best, now, hnow, h => by
    rw [List.append_nil]
    exact .done (Nat.le_trans hnow h)
  | c :: cs, best, now, hnow, h => by
    have hbest : best ≤ most := Nat.le_trans (le_foldl_runStep q (c :: cs) (best, now)) h
    rw [List.foldl_cons, runStep] at h
    split_ifs at h with hc
    · have ih := shortRuns_of_foldl cs _ _ (Nat.le_max_right _ _) h
      rw [List.replicate_succ', List.append_assoc, List.singleton_append] at ih
      rwa [hc]
    · exact .step (Nat.le_trans hnow hbest) hc (shortRuns_of_foldl cs _ _ (Nat.zero_le _) h)

theorem shortRuns_of_longestRun {cs : List Char} (h : longestRun q cs ≤ most) :
    ShortRuns q most cs :=
  shortRuns_of_foldl cs 0 0 (Nat.le_refl _) h

theorem ShortRuns.not_mem {cs : List Char} (h : ShortRuns q 0 cs) : q ∉ cs := by
  induction h with
  | done hk => simp [Nat.le_zero.1 hk]
  | step hk hc _ ih => simp [Nat.le_zero.1 hk, hc.symm, ih]

end Runs

section Readers

variable {rest : List Char} {c : Char}

theorem basic_cons (hc : ¬IsControl c) (hquote : c ≠ '"') (hslash : c ≠ '\\') :
    basic (c :: rest) = before c (basic rest) := by
  rw [basic.eq_def]
  split <;> simp_all [isPlain_of_not_control]

theorem basicBody_cons (hquote : c ≠ '"') (lines : Bool) (allowed run : Nat) (cs : List Char) :
    basicBody lines allowed run (c :: cs) = escape lines c ++ basicBody lines allowed 0 cs := by
  rw [basicBody]
  exact fun h => hquote h

theorem basic_basicBody : ∀ {cs : List Char}, (∀ c ∈ cs, ¬IsControl c) → ∀ run,
    basic (basicBody false 0 run cs ++ '"' :: rest) = some (cs, rest)
  | [], _, _ => rfl
  | c :: cs, h, run => by
    obtain ⟨hc, hcs⟩ := List.forall_mem_cons.1 h
    have ih := basic_basicBody hcs 0
    by_cases hquote : c = '"'
    · subst hquote
      rw [basicBody, if_pos (Nat.zero_le _)]
      change before '"' (basic (basicBody false 0 0 cs ++ '"' :: rest)) = _
      rw [ih]
      rfl
    · rw [basicBody_cons hquote, List.append_assoc]
      by_cases hslash : c = '\\'
      · subst hslash
        change before '\\' (basic (basicBody false 0 0 cs ++ '"' :: rest)) = _
        rw [ih]
        rfl
      · rw [escape_of_not_control hc hslash, List.singleton_append, basic_cons hc hquote hslash, ih]
        rfl

theorem literal_append : ∀ {cs : List Char}, (∀ c ∈ cs, ¬IsControl c) → '\'' ∉ cs →
    literal (cs ++ '\'' :: rest) = some (cs, rest)
  | [], _, _ => rfl
  | c :: cs, h, hquote => by
    obtain ⟨hc, hcs⟩ := List.forall_mem_cons.1 h
    rw [List.mem_cons, not_or] at hquote
    rw [List.cons_append, literal, isPlain_of_not_control hc, if_pos rfl,
      literal_append hcs hquote.2]
    · rfl
    · exact fun heq => hquote.1 heq.symm

theorem basicLines_cons (hc : ¬IsControl c) (hslash : c ≠ '\\')
    (hquotes : ∀ r, c :: rest ≠ '"' :: '"' :: '"' :: r) :
    basicLines false (c :: rest) = before c (basicLines false rest) := by
  have hreturn : c ≠ '\r' := ne_of_not_control hc (by decide)
  have hfeed : c ≠ '\n' := ne_of_not_control hc (by decide)
  rw [basicLines.eq_def]
  split <;> simp_all [isPlain_of_not_control]

theorem literalLines_cons (hc : ¬IsControl c)
    (hquotes : ∀ r, c :: rest ≠ '\'' :: '\'' :: '\'' :: r) :
    literalLines (c :: rest) = before c (literalLines rest) := by
  have hreturn : c ≠ '\r' := ne_of_not_control hc (by decide)
  rw [literalLines.eq_def]
  split <;> simp_all [isPlain_of_not_control]

/-- Up to two quotes before the closing ones belong to the string. -/
theorem closeQuotes_replicate {q : Char} (hq : q ≠ '\n') {k : Nat} (hk : k ≤ 2) :
    closeQuotes q (List.replicate k q ++ '\n' :: rest) = (List.replicate k q, '\n' :: rest) := by
  have hfeed : '\n' ≠ q := hq.symm
  obtain rfl | rfl | rfl : k = 0 ∨ k = 1 ∨ k = 2 := by omega
  · rcases rest with _ | ⟨c, rest⟩ <;> simp [closeQuotes, hfeed]
  · simp [closeQuotes, hfeed]
  · simp [closeQuotes]

theorem replicate_append_closing (q : Char) (k : Nat) (rest : List Char) :
    List.replicate k q ++ q :: q :: q :: rest = q :: q :: q :: (List.replicate k q ++ rest) := by
  induction k with
  | zero => rfl
  | succ k ih => rw [List.replicate_succ, List.cons_append, ih, List.cons_append]

/-- Three quotes end the string, and a character that is good stands for itself. -/
structure ReadsLines (q : Char) (good : Char → Prop) (read : List Char → Rest (List Char)) :
    Prop where
  ne_lineFeed : q ≠ '\n'
  quote : good q
  close : ∀ rest, read (q :: q :: q :: rest) = some (closeQuotes q rest)
  cons : ∀ c rest, good c → (∀ r, c :: rest ≠ q :: q :: q :: r) →
    read (c :: rest) = before c (read rest)

theorem readsLines_basic :
    ReadsLines '"' (fun c => ¬IsControl c ∧ c ≠ '\\') (basicLines false) where
  ne_lineFeed := by decide
  quote := by decide
  close _ := by rw [basicLines]
  cons _ _ hc := basicLines_cons hc.1 hc.2

theorem readsLines_literal : ReadsLines '\'' (fun c => ¬IsControl c) literalLines where
  ne_lineFeed := by decide
  quote := by decide
  close _ := by rw [literalLines]
  cons _ _ hc := literalLines_cons hc

section ReadsLines

variable {q : Char} {good : Char → Prop} {read : List Char → Rest (List Char)}

theorem ReadsLines.replicate (hread : ReadsLines q good read) (hc : good c) (hquote : c ≠ q)
    {k : Nat} (hk : k ≤ 2) : read (List.replicate k q ++ c :: rest)
      = (read rest).map fun (text, after) => (List.replicate k q ++ c :: text, after) := by
  have hlast : read (c :: rest) = before c (read rest) :=
    hread.cons c rest hc fun r heq => hquote (List.cons.inj heq).1
  have hone : read (q :: c :: rest) = before q (before c (read rest)) := by
    rw [hread.cons q _ hread.quote (by simp [hquote]), hlast]
  have htwo : read (q :: q :: c :: rest) = before q (before q (before c (read rest))) := by
    rw [hread.cons q _ hread.quote (by simp [hquote]), hone]
  obtain rfl | rfl | rfl : k = 0 ∨ k = 1 ∨ k = 2 := by omega
  · exact hlast
  · exact hone.trans (by simp [before, Function.comp_def])
  · exact htwo.trans (by simp [before, Function.comp_def])

theorem ReadsLines.append (hread : ReadsLines q good read) {cs : List Char}
    (hruns : ShortRuns q 2 cs) (h : ∀ c ∈ cs, good c) :
    read (cs ++ q :: q :: q :: '\n' :: rest) = some (cs, '\n' :: rest) := by
  induction hruns with
  | done hk =>
    rw [replicate_append_closing, hread.close, closeQuotes_replicate hread.ne_lineFeed hk]
  | step hk hc _ ih =>
    simp only [List.mem_append, List.mem_cons] at h
    rw [List.append_assoc, List.cons_append, hread.replicate (h _ (.inr (.inl rfl))) hc hk,
      ih fun c hc => h c (.inr (.inr hc)), Option.map_some]

end ReadsLines

end Readers

section Printer

variable {cs rest : List Char} {c : Char} {text : String}

theorem basicBody_eq_self (hruns : ShortRuns '"' 2 cs) (h : ∀ c ∈ cs, ¬IsControl c)
    (hslash : '\\' ∉ cs) : basicBody true 2 0 cs = cs := by
  induction hruns with
  | @done k hk =>
    obtain rfl | rfl | rfl : k = 0 ∨ k = 1 ∨ k = 2 := by omega
    all_goals rfl
  | @step k c cs hk hc _ ih =>
    simp only [List.mem_append, List.mem_cons, not_or] at h hslash
    have hescape := escape_of_not_control (h c (.inr (.inl rfl))) (Ne.symm hslash.2.1) true
    have hlast : ∀ run, basicBody true 2 run (c :: cs) = c :: cs := fun run => by
      rw [basicBody_cons hc, hescape, ih (fun c hc => h c (.inr (.inr hc))) hslash.2.2]
      rfl
    obtain rfl | rfl | rfl : k = 0 ∨ k = 1 ∨ k = 2 := by omega
    · exact hlast 0
    · exact congrArg _ (hlast 1)
    · exact congrArg (fun l => '"' :: '"' :: l) (hlast 2)

/-- The body of a basic string does not begin with a quote. -/
theorem exists_basicBody (h : ∀ c ∈ cs, ¬IsControl c) (hcs : cs ≠ []) :
    ∃ c r, basicBody false 0 0 cs = c :: r ∧ c ≠ '"' := by
  rcases cs with _ | ⟨c, cs⟩
  · exact absurd rfl hcs
  by_cases hquote : c = '"'
  · subst hquote
    exact ⟨'\\', _, by rw [basicBody, if_pos (Nat.zero_le _)], by decide⟩
  by_cases hslash : c = '\\'
  · subst hslash
    exact ⟨'\\', _, basicBody_cons hquote _ _ _ _, by decide⟩
  · refine ⟨c, basicBody false 0 0 cs, ?_, hquote⟩
    rw [basicBody_cons hquote, escape_of_not_control (h c List.mem_cons_self) hslash]
    rfl

theorem quoted_basic (h : ∀ c ∈ cs, ¬IsControl c) :
    quoted ('"' :: (basicBody false 0 0 cs ++ '"' :: '\n' :: rest))
      = some (String.ofList cs, '\n' :: rest) := by
  have hclosed : ∀ r, basicBody false 0 0 cs ++ '"' :: '\n' :: rest ≠ '"' :: '"' :: r := by
    by_cases hcs : cs = []
    · simp [hcs, basicBody]
    · obtain ⟨c, r, hbody, hc⟩ := exists_basicBody h hcs
      simp [hbody, hc]
  rw [quoted, basic_basicBody h]
  · rfl
  · exact hclosed

theorem quoted_literal (h : ∀ c ∈ cs, ¬IsControl c) (hquote : '\'' ∉ cs) :
    quoted ('\'' :: (cs ++ '\'' :: '\n' :: rest)) = some (String.ofList cs, '\n' :: rest) := by
  have hclosed : ∀ r, cs ++ '\'' :: '\n' :: rest ≠ '\'' :: '\'' :: r := by
    rcases cs with _ | ⟨c, cs⟩
    · simp
    · rw [List.mem_cons, not_or] at hquote
      simp [Ne.symm hquote.1]
  rw [quoted, literal_append h hquote]
  · rfl
  · exact hclosed

theorem dropLineEnd_append (h : ∀ c ∈ cs, ¬IsControl c) {c : Char} (hc : ¬IsControl c) :
    dropLineEnd (cs ++ c :: rest) = cs ++ c :: rest := by
  obtain ⟨d, r, heq, hd⟩ : ∃ d r, cs ++ c :: rest = d :: r ∧ ¬IsControl d := by
    rcases cs with _ | ⟨d, cs⟩
    · exact ⟨c, rest, rfl, hc⟩
    · exact ⟨d, cs ++ c :: rest, rfl, h d List.mem_cons_self⟩
  have hfeed : d ≠ '\n' := ne_of_not_control hd (by decide)
  have hreturn : d ≠ '\r' := ne_of_not_control hd (by decide)
  rw [heq, dropLineEnd]
  · exact fun r heq => hfeed (List.cons.inj heq).1
  · exact fun r heq => hreturn (List.cons.inj heq).1

theorem quoted_basicLines (hruns : ShortRuns '"' 2 cs) (h : ∀ c ∈ cs, ¬IsControl c)
    (hslash : '\\' ∉ cs) :
    quoted ('"' :: '"' :: '"' :: (cs ++ '"' :: '"' :: '"' :: '\n' :: rest))
      = some (String.ofList cs, '\n' :: rest) := by
  rw [quoted, dropLineEnd_append h (by decide), readsLines_basic.append hruns fun c hc =>
    ⟨h c hc, fun heq => hslash (heq ▸ hc)⟩]
  rfl

theorem quoted_literalLines (hruns : ShortRuns '\'' 2 cs) (h : ∀ c ∈ cs, ¬IsControl c) :
    quoted ('\'' :: '\'' :: '\'' :: (cs ++ '\'' :: '\'' :: '\'' :: '\n' :: rest))
      = some (String.ofList cs, '\n' :: rest) := by
  rw [quoted, dropLineEnd_append h (by decide), readsLines_literal.append hruns h]
  rfl

theorem shows_notationOf (h : ∀ c ∈ cs, ¬IsControl c) : (notationOf cs).Shows cs := by
  have hlines : cs.contains '\n' = false := by
    simpa using fun hmem => h '\n' hmem (by decide)
  simp only [notationOf, hlines]
  split_ifs with hbasic hliteral hbasicLines hliteralLines <;>
    simp only [Bool.and_eq_true, Bool.not_eq_true', decide_eq_true_eq] at *
  · trivial
  · exact (shortRuns_of_longestRun (Nat.le_of_eq hliteral.1.2)).not_mem
  · exact ⟨shortRuns_of_longestRun hbasicLines.2, by simpa using hbasicLines.1.2⟩
  · exact shortRuns_of_longestRun hliteralLines.2
  · trivial

/-- The notation that is chosen for a string without control characters gives it back. -/
theorem quoted_renderString (h : ∀ c ∈ text.toList, ¬IsControl c) (rest : List Char) :
    quoted ((renderString text).toList ++ '\n' :: rest) = some (text, '\n' :: rest) := by
  have hlines : text.toList.contains '\n' = false := by
    simpa using fun hmem => h '\n' hmem (by decide)
  have hshows := shows_notationOf h
  simp only [renderString, hlines]
  cases hchosen : notationOf text.toList <;> rw [hchosen] at hshows
  case basic => simpa using quoted_basic h
  case literal => simpa using quoted_literal h hshows
  case basicLines =>
    rw [basicBody_eq_self hshows.1 h hshows.2]
    simpa using quoted_basicLines hshows.1 h hshows.2
  case literalLines => simpa using quoted_literalLines hshows h

theorem mem_escape (hc : ¬IsControl c) {lines : Bool} {d : Char} (h : d ∈ escape lines c) :
    d = '\\' ∨ d = c := by
  by_cases hslash : c = '\\'
  · rw [hslash] at h ⊢
    exact (List.mem_cons.1 h).imp_right List.eq_of_mem_singleton
  · rw [escape_of_not_control hc hslash] at h
    exact .inr (List.eq_of_mem_singleton h)

theorem mem_basicBody {lines : Bool} {allowed : Nat} {d : Char} : ∀ {cs : List Char} {run : Nat},
    (∀ c ∈ cs, ¬IsControl c) → d ∈ basicBody lines allowed run cs → d = '\\' ∨ d ∈ cs
  | [], _, _, hd => absurd hd List.not_mem_nil
  | c :: cs, run, h, hd => by
    obtain ⟨hc, hcs⟩ := List.forall_mem_cons.1 h
    have hrest : ∀ {run}, d ∈ basicBody lines allowed run cs → d = '\\' ∨ d ∈ c :: cs := fun hd =>
      (mem_basicBody hcs hd).imp_right (List.mem_cons_of_mem c)
    by_cases hquote : c = '"'
    · subst hquote
      rw [basicBody] at hd
      split_ifs at hd
      · rcases List.mem_cons.1 hd with rfl | hd
        · exact .inl rfl
        · rcases List.mem_cons.1 hd with rfl | hd
          · exact .inr List.mem_cons_self
          · exact hrest hd
      · rcases List.mem_cons.1 hd with rfl | hd
        · exact .inr List.mem_cons_self
        · exact hrest hd
    · rw [basicBody_cons hquote, List.mem_append] at hd
      rcases hd with hd | hd
      · rcases mem_escape hc hd with rfl | rfl
        · exact .inl rfl
        · exact .inr List.mem_cons_self
      · exact hrest hd

/-- What stands for a string without control characters is on one line. -/
theorem lineFeed_not_mem_renderString (h : ∀ c ∈ text.toList, ¬IsControl c) :
    '\n' ∉ (renderString text).toList := by
  have htext : '\n' ∉ text.toList := fun hmem => h '\n' hmem (by decide)
  have hbody : ∀ lines allowed, '\n' ∉ basicBody lines allowed 0 text.toList := fun _ _ hmem =>
    (mem_basicBody h hmem).elim (by decide) htext
  have hlines : text.toList.contains '\n' = false := by simpa using htext
  simp only [renderString, hlines]
  cases notationOf text.toList <;> simp [htext, hbody]

end Printer


end ComputeTopology.Toml
