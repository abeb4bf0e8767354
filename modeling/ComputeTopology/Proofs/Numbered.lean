import ComputeTopology.Proofs.Result
import ComputeTopology.Sysfs.Numbered

/-!
# Numbered directories are in order

What is written as a decimal reads back as the same number (`Text.readUInt32?_decimal`), and a name
with a number in it never leads out of its directory (`Sysfs.plain_of_numberIn?`). The numbered
directories of a tree that does not change are the listed ones, by number
(`Sysfs.numberedDirectories_eq_ok`, `Sysfs.pairwise_lt_of_sorted`).
-/

namespace ComputeTopology

namespace Text

theorem digitValue?_of_isDigit {c : Char} (h : c.isDigit = true) :
    digitValue? 10 c = some (c.toNat - '0'.toNat) := by
  simp only [Char.isDigit, Bool.and_eq_true, decide_eq_true_eq] at h
  have hge : '0' ≤ c := h.1
  have hle : c ≤ '9' := h.2
  have hlt : c.toNat - '0'.toNat < 10 := by
    have : c.toNat ≤ '9'.toNat := UInt32.le_iff_toNat_le.1 h.2
    have : '9'.toNat = 57 := rfl
    have : '0'.toNat = 48 := rfl
    omega
  simp only [digitValue?, hge, hle, and_self, if_true, hlt]

theorem digitsValue?_of_isDigit :
    ∀ {cs : List Char}, (∀ c ∈ cs, c.isDigit = true) → ∀ high : Nat,
      digitsValue? 10 high cs = some (Nat.ofDigitChars 10 cs high)
  | [], _, _ => rfl
  | c :: cs, h, high => by
    rw [digitsValue?, digitValue?_of_isDigit (h c List.mem_cons_self), Option.bind_some,
      digitsValue?_of_isDigit fun d hd => h d (List.mem_cons_of_mem _ hd), Nat.mul_comm]
    rfl

theorem isDigit_of_mem_decimal {n : Nat} {c : Char} (h : c ∈ (decimal n).toList) :
    c.isDigit = true := by
  rw [decimal, String.toList_ofList] at h
  exact Nat.isDigit_of_mem_toDigits (by decide) (by decide) h

theorem dropPlus_of_isDigit {cs : List Char} (h : ∀ c ∈ cs, c.isDigit = true) :
    dropPlus cs = cs := by
  unfold dropPlus
  split
  · exact absurd (h '+' List.mem_cons_self) (by decide)
  · rfl

theorem readUInt32?_decimal (n : UInt32) : readUInt32? (decimal n.toNat).toList = some n := by
  have hdigits : ∀ c ∈ (decimal n.toNat).toList, c.isDigit = true := fun _ => isDigit_of_mem_decimal
  have hne : (decimal n.toNat).toList ≠ [] := by
    rw [decimal, String.toList_ofList]
    exact Nat.toDigits_ne_nil
  have hvalue : Nat.ofDigitChars 10 (decimal n.toNat).toList 0 = n.toNat := by
    rw [decimal, String.toList_ofList, Nat.ofDigitChars_ten_toDigits]
  rw [readUInt32?, readNat?, dropPlus_of_isDigit hdigits]
  simp only [if_neg hne, digitsValue?_of_isDigit hdigits, hvalue, Option.bind_some,
    if_pos (UInt32.toNat_lt_size n), UInt32.ofNat_toNat]

theorem digitValue?_of_digitsValue? {base v : Nat} :
    ∀ {cs : List Char} {high : Nat}, digitsValue? base high cs = some v →
      ∀ c ∈ cs, (digitValue? base c).isSome = true
  | [], _, _, _, hc => absurd hc List.not_mem_nil
  | d :: cs, high, h, c, hc => by
    obtain ⟨w, hw, h⟩ := Option.bind_eq_some_iff.1 h
    rcases List.mem_cons.1 hc with rfl | hc
    · rw [hw]
      rfl
    · exact digitValue?_of_digitsValue? h c hc

theorem of_readUInt32? {cs : List Char} {n : UInt32} (h : readUInt32? cs = some n) :
    cs ≠ [] ∧ ∀ c ∈ cs, c = '+' ∨ (digitValue? 10 c).isSome = true := by
  obtain ⟨v, hv, -⟩ := Option.bind_eq_some_iff.1 h
  simp only [readNat?] at hv
  split_ifs at hv with hnil
  refine ⟨?_, fun c hc => ?_⟩
  · rintro rfl
    exact hnil rfl
  · unfold dropPlus at hv
    split at hv
    · rcases List.mem_cons.1 hc with rfl | hc
      · exact .inl rfl
      · exact .inr (digitValue?_of_digitsValue? hv c hc)
    · exact .inr (digitValue?_of_digitsValue? hv c hc)

end Text

/-- The name leads one step down, if anywhere. -/
def Plain (name : String) : Prop :=
  '/' ∉ name.toList ∧ name ≠ ".."

instance (name : String) : Decidable (Plain name) :=
  inferInstanceAs (Decidable (_ ∧ _))

namespace Sysfs

theorem eq_append_of_afterLead? :
    ∀ {lead cs rest : List Char}, afterLead? lead cs = some rest → cs = lead ++ rest
  | [], _, _, h => Option.some.inj h
  | _ :: _, [], _, h => by cases h
  | a :: lead, c :: cs, rest, h => by
    rw [afterLead?] at h
    split_ifs at h with hac
    rw [hac, eq_append_of_afterLead? h, List.cons_append]

theorem afterLead?_append (rest : List Char) :
    ∀ lead : List Char, afterLead? lead (lead ++ rest) = some rest
  | [] => rfl
  | a :: lead => by rw [List.cons_append, afterLead?, if_pos rfl, afterLead?_append rest lead]

theorem numberIn?_append_decimal (lead : String) (n : UInt32) :
    numberIn? lead (lead ++ Text.decimal n.toNat) = some n := by
  rw [numberIn?, String.toList_append, afterLead?_append, Option.bind_some,
    Text.readUInt32?_decimal]

theorem numberIn?_decimal (n : UInt32) : numberIn? "" (Text.decimal n.toNat) = some n := by
  have h := numberIn?_append_decimal "" n
  rwa [String.empty_append] at h

theorem plain_of_numberIn? {lead name : String} {n : UInt32} (h : numberIn? lead name = some n)
    (hlead : '/' ∉ lead.toList) : Plain name := by
  obtain ⟨rest, hrest, hn⟩ := Option.bind_eq_some_iff.1 h
  have hname := eq_append_of_afterLead? hrest
  obtain ⟨hne, hchars⟩ := Text.of_readUInt32? hn
  refine ⟨fun hslash => ?_, fun hdots => ?_⟩
  · rw [hname, List.mem_append] at hslash
    rcases hslash with hslash | hslash
    · exact hlead hslash
    · exact absurd (hchars _ hslash) (by decide)
  · have hlast := List.getLast_mem hne
    have hdot : rest.getLast hne = '.' := by
      have : rest.getLast hne ∈ name.toList := hname ▸ List.mem_append_right _ hlast
      simpa [hdots] using this
    rw [hdot] at hlast
    exact absurd (hchars _ hlast) (by decide)

theorem plain_append_decimal {lead : String} (hlead : '/' ∉ lead.toList) (n : UInt32) :
    Plain (lead ++ Text.decimal n.toNat) :=
  plain_of_numberIn? (numberIn?_append_decimal lead n) hlead

theorem plain_decimal (n : UInt32) : Plain (Text.decimal n.toNat) :=
  plain_of_numberIn? (numberIn?_decimal n) (by decide)

variable {fs : Files Id} {directory lead : String}

/-- The numbered directory that a name of a listing stands for. -/
def numberedName? (fs : Files Id) (directory lead : String) :
    Except OsError String → Option (UInt32 × String)
  | .error _ => none
  | .ok name => (numberIn? lead name).bind fun n =>
    if (fs.isDirectory (joinPath directory name)).run then some (n, joinPath directory name)
    else none

theorem result_pickNumbered_cons (name : String) (names : List (Except OsError String)) :
    result (pickNumbered fs directory lead (.ok name :: names)) =
      match numberedName? fs directory lead (.ok name) with
      | none => result (pickNumbered fs directory lead names)
      | some d => (result (pickNumbered fs directory lead names)).map (d :: ·) := by
  rw [pickNumbered, numberedName?]
  rcases numberIn? lead name with _ | n
  · rfl
  · rw [result_bind, result_lift, Option.bind_some]
    change result (if _ then _ else _) = _
    split_ifs
    · rw [result_bind]
      rfl
    · rfl

theorem pickNumbered_eq_ok :
    ∀ {names : List (Except OsError String)} {l : List (UInt32 × String)},
      result (pickNumbered fs directory lead names) = .ok l →
        l = names.filterMap (numberedName? fs directory lead)
  | [], _, h => by
    cases h
    rfl
  | .error _ :: _, _, h => by cases h
  | .ok name :: names, l, h => by
    rw [result_pickNumbered_cons] at h
    rw [List.filterMap_cons]
    rcases hd : numberedName? fs directory lead (.ok name) with _ | d <;> rw [hd] at h
    · exact pickNumbered_eq_ok h
    · rcases hl : result (pickNumbered fs directory lead names) with e | l' <;> rw [hl] at h <;>
        cases h
      rw [← pickNumbered_eq_ok hl]

theorem result_pickNumbered_names (names : List String) :
    result (pickNumbered fs directory lead (names.map .ok))
      = .ok ((names.map .ok).filterMap (numberedName? fs directory lead)) := by
  induction names with
  | nil => rfl
  | cons name names ih =>
    rw [List.map_cons, result_pickNumbered_cons, ih, List.filterMap_cons]
    rcases numberedName? fs directory lead (.ok name) with _ | d <;> rfl

theorem numberedDirectories_eq_ok {l : List (UInt32 × String)}
    (h : result (numberedDirectories fs directory lead) = .ok l) :
    ∃ names, (fs.list directory).run = .ok names
      ∧ l = (names.filterMap (numberedName? fs directory lead)).mergeSort fun a b => a.1 ≤ b.1 := by
  rw [numberedDirectories, result_bind, result_lift, bind_eq_ok] at h
  obtain ⟨_, hlist, h⟩ := h
  rcases Except.ok.inj hlist with rfl
  rcases hlist : (fs.list directory).run with e | names <;> rw [hlist] at h
  · cases h
  · change result (numberedEntries fs directory lead names) = _ at h
    rw [numberedEntries, result_bind, bind_eq_ok] at h
    obtain ⟨picked, hpicked, h⟩ := h
    cases h
    exact ⟨names, rfl, by rw [pickNumbered_eq_ok hpicked]⟩

theorem result_numberedDirectories (names : List (Except OsError String))
    {l : List (UInt32 × String)} (hlist : (fs.list directory).run = .ok names)
    (hpick : result (pickNumbered fs directory lead names) = .ok l)
    (hsorted : l.Pairwise fun a b => a.1 ≤ b.1) :
    result (numberedDirectories fs directory lead) = .ok l := by
  rw [numberedDirectories, result_bind, result_lift, ok_bind, hlist]
  change result (numberedEntries fs directory lead names) = _
  rw [numberedEntries, result_bind, hpick, ok_bind, result_pure]
  exact congrArg _ (List.mergeSort_of_pairwise (hsorted.imp fun h => decide_eq_true h))

theorem result_numberedDirectories_names {names : List String}
    (hlist : (fs.list directory).run = .ok (names.map .ok)) :
    result (numberedDirectories fs directory lead)
      = .ok (((names.map .ok).filterMap (numberedName? fs directory lead)).mergeSort
        fun a b => a.1 ≤ b.1) := by
  rw [numberedDirectories, result_bind, result_lift, ok_bind, hlist]
  change result (numberedEntries fs directory lead (names.map .ok)) = _
  rw [numberedEntries, result_bind, result_pickNumbered_names, ok_bind, result_pure]

theorem mem_numberedNames {names : List (Except OsError String)} {n : UInt32} {path : String} :
    (n, path) ∈ names.filterMap (numberedName? fs directory lead) ↔ ∃ name, .ok name ∈ names
      ∧ numberIn? lead name = some n ∧ (fs.isDirectory path).run = true
      ∧ path = joinPath directory name := by
  rw [List.mem_filterMap]
  constructor
  · rintro ⟨e | name, hmem, h⟩
    · cases h
    · obtain ⟨m, hm, h⟩ := Option.bind_eq_some_iff.1 h
      split_ifs at h with hdir
      cases h
      exact ⟨name, hmem, hm, hdir, rfl⟩
  · rintro ⟨name, hmem, hn, hdir, rfl⟩
    exact ⟨.ok name, hmem, by rw [numberedName?, hn, Option.bind_some, if_pos hdir]⟩

/-- Directories with decimals for names have different numbers. -/
theorem nodup_numbers {names : List (Except OsError String)} (hnodup : names.Nodup)
    (hdecimal : ∀ name n, .ok name ∈ names → numberIn? lead name = some n →
      (fs.isDirectory (joinPath directory name)).run = true → name = lead ++ Text.decimal n.toNat) :
    ((names.filterMap (numberedName? fs directory lead)).map (·.1)).Nodup := by
  refine List.Pairwise.map _ (fun a b hab => hab) (List.Pairwise.filterMap _ ?_
    (hnodup.imp_of_mem fun ha hb hab => And.intro hab (And.intro ha hb))
    (S := fun a b : UInt32 × String => a.1 ≠ b.1))
  -- the number gives the name back, so different names have different numbers
  have hname : ∀ {a : Except OsError String} {d : UInt32 × String}, a ∈ names →
      numberedName? fs directory lead a = some d → a = .ok (lead ++ Text.decimal d.1.toNat) := by
    rintro (e | name) d hmem hd
    · cases hd
    · obtain ⟨n, hn, hd⟩ := Option.bind_eq_some_iff.1 hd
      split_ifs at hd with hdir
      cases hd
      rw [← hdecimal name n hmem hn hdir]
  rintro a b ⟨hab, ha, hb⟩ d hd d' hd' heq
  exact hab ((hname ha hd).trans (heq ▸ (hname hb hd').symm))

theorem pairwise_lt_of_sorted {l : List (UInt32 × String)} (hnodup : (l.map (·.1)).Nodup) :
    ((l.mergeSort fun a b => a.1 ≤ b.1).map (·.1)).Pairwise (· < ·) := by
  have hnodup' : ((l.mergeSort fun a b => a.1 ≤ b.1).map (·.1)).Nodup :=
    ((List.mergeSort_perm l _).map _).nodup_iff.2 hnodup
  have hle : ((l.mergeSort fun a b => a.1 ≤ b.1).map (·.1)).Pairwise (· ≤ ·) := by
    refine List.Pairwise.map _ (fun a b hab => by simpa using hab) (List.pairwise_mergeSort ?_ ?_ l)
    · intro a b c hab hbc
      simp only [decide_eq_true_eq] at hab hbc ⊢
      exact UInt32.le_trans hab hbc
    · intro a b
      simpa using UInt32.le_total a.1 b.1
  exact (hle.and hnodup').imp fun h => UInt32.lt_of_le_of_ne h.1 h.2

end Sysfs

end ComputeTopology
