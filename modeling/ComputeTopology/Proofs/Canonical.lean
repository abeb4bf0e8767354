import ComputeTopology.Files.Tree
import ComputeTopology.Proofs.Exposed

/-!
# File trees that are canonical

Whatever is read from a file tree is the text of one of its files (`FileTree.mem_texts_of_readText`).
So it is enough to look at the names of the nodes and at all the texts to see that the driver's names
are decimals and its numbers have 32 bits (`Sysfs.canonical_of_texts`).
-/

namespace ComputeTopology

namespace FileTree

mutual

/-- The texts of all files. -/
def texts : FileTree → List String
  | file none => []
  | file (some text) => [text]
  | directory entries => entryTexts entries

def entryTexts : List (String × FileTree) → List String
  | [] => []
  | (_, t) :: entries => t.texts ++ entryTexts entries

end

theorem texts_subset_of_lookup {name : String} {t : FileTree} :
    ∀ {entries : List (String × FileTree)}, entries.lookup name = some t →
      ∀ text ∈ t.texts, text ∈ entryTexts entries
  | [], h, _, _ => by cases h
  | (n, t') :: entries, h, text, htext => by
    rw [entryTexts, List.mem_append]
    rw [List.lookup_cons] at h
    split at h
    · cases h
      exact .inl htext
    · exact .inr (texts_subset_of_lookup h text htext)

theorem texts_subset_of_at? :
    ∀ {names : List String} {root t : FileTree}, root.at? names = some t →
      ∀ text ∈ t.texts, text ∈ root.texts
  | [], _, _, h, text, htext => by
    cases h
    exact htext
  | name :: names, root, t, h, text, htext => by
    obtain ⟨child, hchild, h⟩ := Option.bind_eq_some_iff.1 h
    have hmem := texts_subset_of_at? h text htext
    cases root with
    | file _ => cases hchild
    | directory entries =>
      rw [texts]
      exact texts_subset_of_lookup hchild text hmem

theorem mem_texts_of_readText {root : FileTree} {path text : String}
    (h : root.readText path = .ok text) : text ∈ root.texts := by
  obtain ⟨t, ht, h⟩ := bind_eq_ok.1 h
  obtain ⟨names, -, ht⟩ := bind_eq_ok.1 ht
  rcases hat : root.at? names with _ | t' <;> rw [hat] at ht <;> cases ht
  refine texts_subset_of_at? hat text ?_
  rcases t with (_ | _) | _ <;> cases h
  rw [texts]
  exact List.mem_singleton_self _

end FileTree

namespace Sysfs

variable {fs : Files Id} {path content key : String} {n : UInt64}

theorem exists_text (h : result (readContent fs path) = .ok content) :
    ∃ text, fs.readText path = .ok text ∧ content = String.ofList (Text.trim text.toList) := by
  rw [result_readContent] at h
  split at h <;> rename_i text _ htext <;> cases h
  exact ⟨text, htext, rfl⟩

/-- If the text is a number, it has 32 bits. -/
def Fits (cs : List Char) : Bool :=
  (Text.readUInt64? cs).all (·.toNat < UInt32.size)

/-- The numbers in a text have 32 bits, whether it is a number or a property sheet. -/
def numbersFit (text : String) : Bool :=
  let content := Text.trim text.toList
  Fits content && (PropertySheet.parse "" (.ofList content)).entries.all (Fits ·.2.toList)

theorem fits_readUInt64 (h : result (readUInt64 fs path) = .ok n)
    (hfit : ∀ text, fs.readText path = .ok text → numbersFit text = true) :
    n.toNat < UInt32.size := by
  rw [readUInt64, result_bind, bind_eq_ok] at h
  obtain ⟨content, hcontent, h⟩ := h
  obtain ⟨text, htext, rfl⟩ := exists_text hcontent
  have hfits := (Bool.and_eq_true_iff.1 (hfit text htext)).1
  rw [String.toList_ofList] at h
  unfold Fits at hfits
  split at h <;> rename_i hn
  · cases h
    simpa [hn] using hfits
  · cases h

theorem fits_uint64 {sheet : PropertySheet} (h : result (PropertySheet.read fs path) = .ok sheet)
    (hn : sheet.uint64 key = .ok n)
    (hfit : ∀ text, fs.readText path = .ok text → numbersFit text = true) :
    n.toNat < UInt32.size := by
  rw [PropertySheet.read, result_bind, bind_eq_ok] at h
  obtain ⟨content, hcontent, h⟩ := h
  obtain ⟨text, htext, rfl⟩ := exists_text hcontent
  cases h
  have hentries := (Bool.and_eq_true_iff.1 (hfit text htext)).2
  rw [List.all_eq_true] at hentries
  unfold PropertySheet.uint64 PropertySheet.get at hn
  split at hn <;> rename_i value hvalue
  · cases hn
    decide
  · obtain ⟨l₁, l₂, hentry, -⟩ := List.lookup_eq_some_iff.1 hvalue
    have hfits := hentries (key, value) (hentry ▸ List.mem_append_right l₁ List.mem_cons_self)
    unfold Fits at hfits
    split at hn <;> rename_i hnumber
    · cases hn
      simpa [hnumber] using hfits
    · cases hn

/-- A file tree is canonical if its node names are decimals and its numbers have 32 bits. -/
theorem canonical_of_texts {root : FileTree} {opens : String → Id Bool} {layout : Layout}
    (names : List String) (hnames : root.list layout.nodes = .ok names) (hnodup : names.Nodup)
    (hdecimal : ∀ name ∈ names, (numberIn? "" name).all (name = Text.decimal ·.toNat))
    (hfit : ∀ text ∈ root.texts, numbersFit text = true) :
    Canonical { root.files with opens } layout := by
  have hlist : ∀ names', ({ root.files with opens } : Files Id).list layout.nodes = .ok names' →
      names' = names.map .ok := fun names' h => by
    change (root.list layout.nodes).map _ = _ at h
    rw [hnames] at h
    exact (Except.ok.inj h).symm
  have htext : ∀ path text, ({ root.files with opens } : Files Id).readText path = .ok text →
      numbersFit text = true := fun path text h =>
    hfit text (FileTree.mem_texts_of_readText h)
  refine ⟨fun names' h => ?_, fun names' h name id hmem hn _ => ?_,
    fun id _ n h => fits_readUInt64 h (htext _), fun id _ sheet n h hn => fits_uint64 h hn (htext _),
    fun id _ peer k sheet n h hn => fits_uint64 h hn (htext _)⟩
  · rw [hlist names' h]
    exact List.Pairwise.map _ (fun _ _ hne heq => hne (Except.ok.inj heq)) hnodup
  · rw [hlist names' h, List.mem_map] at hmem
    obtain ⟨name', hmem, heq⟩ := hmem
    have hname := hdecimal name (Except.ok.inj heq ▸ hmem)
    rw [hn] at hname
    exact of_decide_eq_true hname

end Sysfs

end ComputeTopology
