import ComputeTopology.Proofs.Numbered
import ComputeTopology.Sysfs.Machine

/-!
# Which nodes are exposed

In files that do not change, the exposure holds the listed nodes that are accessible, each once and
by number (`Sysfs.Canonical.mem_exposure_iff`, `Sysfs.Canonical.pairwise_exposure`), as long as the driver names its nodes by
decimals and its numbers have 32 bits (`Sysfs.Canonical`). So the driver's number of a node and its
index determine each other (`Exposure.number_iff_index?`).
-/

namespace ComputeTopology

namespace Exposure

variable {e : Exposure}

theorem number_eq_ok {i id : UInt32} : e.number i = .ok id ↔ e[i.toNat]? = some id := by
  unfold number
  split <;> rename_i h <;> simp [h]

theorem le_toNat (he : e.Pairwise (· < ·)) : ∀ {k : Nat} (hk : k < e.length), k ≤ e[k].toNat
  | 0, _ => Nat.zero_le _
  | k + 1, hk => by
    have ih := le_toNat he (Nat.lt_of_succ_lt hk)
    have hlt := List.pairwise_iff_getElem.1 he k (k + 1) (Nat.lt_of_succ_lt hk) hk (Nat.lt_succ_self k)
    exact Nat.lt_of_le_of_lt ih (UInt32.lt_iff_toNat_lt.1 hlt)

theorem lt_size_of_lt_length (he : e.Pairwise (· < ·)) {k : Nat} (hk : k < e.length) :
    k < UInt32.size :=
  Nat.lt_of_le_of_lt (le_toNat he hk) (UInt32.toNat_lt_size _)

theorem idxOf?_iff (he : e.Pairwise (· < ·)) {id : UInt32} {k : Nat} :
    e.idxOf? id = some k ↔ e[k]? = some id := by
  rw [List.idxOf?_eq_some_iff, List.getElem?_eq_some_iff]
  refine ⟨fun ⟨hk, h, _⟩ => ⟨hk, h⟩, fun ⟨hk, h⟩ => ⟨hk, h, fun j hj heq => ?_⟩⟩
  have hlt := List.pairwise_iff_getElem.1 he j k (Nat.lt_trans hj hk) hk hj
  rw [heq, h] at hlt
  exact UInt32.lt_irrefl _ hlt

theorem number_iff_index? (he : e.Pairwise (· < ·)) {i id : UInt32} :
    e.number i = .ok id ↔ e.index? id = some i := by
  rw [number_eq_ok, ← idxOf?_iff he, index?, Option.map_eq_some_iff]
  constructor
  · exact fun h => ⟨i.toNat, h, UInt32.ofNat_toNat⟩
  · rintro ⟨k, hk, rfl⟩
    have hlt := (List.getElem?_eq_some_iff.1 ((idxOf?_iff he).1 hk)).1
    rwa [UInt32.toNat_ofNat_of_lt' (lt_size_of_lt_length he hlt)]

end Exposure

namespace Sysfs

variable {fs : Files Id} {layout : Layout} {id : UInt32}

/-- The driver has a directory for the node. -/
def Listed (fs : Files Id) (layout : Layout) (id : UInt32) : Prop :=
  ∃ names, (fs.list layout.nodes).run = .ok names ∧ .ok (Text.decimal id.toNat) ∈ names
    ∧ (fs.isDirectory (joinPath layout.nodes (Text.decimal id.toNat))).run = true

/-- The file that is opened to see whether a GPU can be used. -/
def renderDevice (layout : Layout) (minor : Nat) : String :=
  joinPath layout.renderDevices ("renderD" ++ Text.decimal minor)

/-- The node is no GPU, or its render device can be opened. -/
inductive Accessible (fs : Files Id) (layout : Layout) (id : UInt32) : Prop
  | noId (h : (fs.kind (nodeFile layout id "gpu_id")).run = none)
  | zeroId (h : result (readUInt64 fs (nodeFile layout id "gpu_id")) = .ok 0)
  | opens {sheet : PropertySheet} {minor : UInt64}
    (hsheet : result (PropertySheet.read fs (nodeFile layout id "properties")) = .ok sheet)
    (hminor : sheet.uint64 "drm_render_minor" = .ok minor)
    (h : (fs.opens (renderDevice layout minor.toNat)).run = true)

/-- The directory of a node's standard link table, or of its table of peer links. -/
def linkTable (peer : Bool) : String :=
  if peer then "p2p_links" else "io_links"

/-- The driver names its nodes by decimals, no name twice, and its numbers have 32 bits. -/
structure Canonical (fs : Files Id) (layout : Layout) : Prop where
  nodup : ∀ names, (fs.list layout.nodes).run = .ok names → names.Nodup
  decimal : ∀ names, (fs.list layout.nodes).run = .ok names → ∀ name id, .ok name ∈ names →
    numberIn? "" name = some id → (fs.isDirectory (joinPath layout.nodes name)).run = true →
      name = Text.decimal id.toNat
  gpuId : ∀ id, Listed fs layout id → ∀ n,
    result (readUInt64 fs (nodeFile layout id "gpu_id")) = .ok n → n.toNat < UInt32.size
  renderMinor : ∀ id, Listed fs layout id → ∀ sheet n,
    result (PropertySheet.read fs (nodeFile layout id "properties")) = .ok sheet →
      sheet.uint64 "drm_render_minor" = .ok n → n.toNat < UInt32.size
  linkTarget : ∀ id, Listed fs layout id → ∀ peer k sheet n,
    result (PropertySheet.read fs (entryFile layout id (linkTable peer) k)) = .ok sheet →
      sheet.uint64 "node_to" = .ok n → n.toNat < UInt32.size

theorem result_readContent (path : String) : result (readContent fs path) =
    match (fs.kind path).run, (fs.readText path).run with
    | none, _ => .error (.missing path)
    | some _, .ok text => .ok (String.ofList (Text.trim text.toList))
    | some _, .error cause => .error (.unreadable path cause) := by
  rw [readContent, result_bind, result_lift, ok_bind]
  rcases (fs.kind path).run with _ | k
  · rfl
  · simp only [result_bind, result_lift, ok_bind]
    rcases (fs.readText path).run with e | text <;> rfl

theorem kind_of_missing_content {path p : String}
    (h : result (readContent fs path) = .error (.missing p)) : (fs.kind path).run = none := by
  rw [result_readContent] at h
  rcases hkind : (fs.kind path).run with _ | k
  · rfl
  · rcases htext : (fs.readText path).run with e | text <;> rw [hkind, htext] at h <;> cases h

theorem kind_of_missing {path p : String}
    (h : result (readUInt64 fs path) = .error (.missing p)) : (fs.kind path).run = none := by
  rw [readUInt64, result_bind] at h
  rcases hcontent : result (readContent fs path) with e | text <;> rw [hcontent] at h
  · cases h
    exact kind_of_missing_content hcontent
  · simp only [ok_bind] at h
    split at h <;> cases h

theorem result_readUInt64_of_none {path : String} (h : (fs.kind path).run = none) :
    result (readUInt64 fs path) = .error (.missing path) := by
  rw [readUInt64, result_bind, result_readContent, h]
  rfl

theorem result_readGpuId : result (readGpuId fs layout id) =
    match result (readUInt64 fs (nodeFile layout id "gpu_id")) with
    | .ok n => .ok n.toUInt32
    | .error (.missing _) => .ok 0
    | .error e => .error e := by
  rw [readGpuId, result_mk, Id.run_bind, result]
  rcases (readUInt64 fs (nodeFile layout id "gpu_id")).run.run with e | n
  · cases e <;> rfl
  · rfl

theorem result_isExposed_of_eq (h : result (readGpuId fs layout id) = .ok 0) :
    result (isExposed fs layout id) = .ok true := by
  rw [isExposed, result_bind, h]
  rfl

theorem result_isExposed_of_ne {gpuId : UInt32} (h : result (readGpuId fs layout id) = .ok gpuId)
    (hne : gpuId ≠ 0) : result (isExposed fs layout id) = do
      let sheet ← result (PropertySheet.read fs (nodeFile layout id "properties"))
      let minor ← sheet.uint32 "drm_render_minor"
      return (fs.opens (renderDevice layout minor.toNat)).run := by
  rw [isExposed, result_bind, h, ok_bind, if_neg hne, result_bind]
  congr 1
  funext sheet
  rw [result_bind]
  rfl

theorem toNat_toUInt32 {n : UInt64} (h : n.toNat < UInt32.size) : n.toUInt32.toNat = n.toNat := by
  rw [UInt64.toNat_toUInt32]
  exact Nat.mod_eq_of_lt h

theorem exists_uint64 {sheet : PropertySheet} {key : String} {v : UInt32}
    (h : sheet.uint32 key = .ok v) : ∃ n, sheet.uint64 key = .ok n ∧ n.toUInt32 = v := by
  unfold PropertySheet.uint32 at h
  rcases hn : sheet.uint64 key with e | n <;> rw [hn] at h <;> cases h
  exact ⟨n, rfl, rfl⟩

theorem Canonical.accessible_of_readGpuId (hfs : Canonical fs layout) (hid : Listed fs layout id)
    (h : result (readGpuId fs layout id) = .ok 0) : Accessible fs layout id := by
  rw [result_readGpuId] at h
  rcases hn : result (readUInt64 fs (nodeFile layout id "gpu_id")) with (_ | _ | p) | n <;>
    rw [hn] at h
  · cases h
  · cases h
  · exact .noId (kind_of_missing hn)
  · refine .zeroId ?_
    have hzero : n.toUInt32.toNat = 0 := congrArg UInt32.toNat (Except.ok.inj h)
    rw [toNat_toUInt32 (hfs.gpuId id hid n hn)] at hzero
    rwa [UInt64.toNat_inj.1 (hzero.trans UInt64.toNat_zero.symm)] at hn

theorem Canonical.isExposed_iff (hfs : Canonical fs layout) (hid : Listed fs layout id) {b : Bool}
    (h : result (isExposed fs layout id) = .ok b) : b = true ↔ Accessible fs layout id := by
  have hread := h
  rw [isExposed, result_bind, bind_eq_ok] at hread
  obtain ⟨gpuId, hgpuId, -⟩ := hread
  by_cases hzero : gpuId = 0
  · subst hzero
    rw [result_isExposed_of_eq hgpuId] at h
    exact ⟨fun _ => hfs.accessible_of_readGpuId hid hgpuId, fun _ => (Except.ok.inj h).symm⟩
  · rw [result_isExposed_of_ne hgpuId hzero] at h
    obtain ⟨sheet, hsheet, h⟩ := bind_eq_ok.1 h
    obtain ⟨_, hlow, h⟩ := bind_eq_ok.1 h
    obtain ⟨minor, hminor, rfl⟩ := exists_uint64 hlow
    rw [toNat_toUInt32 (hfs.renderMinor id hid sheet minor hsheet hminor)] at h
    obtain rfl := Except.ok.inj h
    refine ⟨fun hopens => .opens hsheet hminor hopens, fun hacc => ?_⟩
    -- a node whose GPU id is not zero can only be accessible by its render device
    rw [result_readGpuId] at hgpuId
    rcases hacc with hnone | hzeroId | ⟨hsheet', hminor', hopens⟩
    · rw [result_readUInt64_of_none hnone] at hgpuId
      exact absurd (Except.ok.inj hgpuId).symm hzero
    · rw [hzeroId] at hgpuId
      exact absurd (Except.ok.inj hgpuId).symm hzero
    · cases hsheet.symm.trans hsheet'
      cases hminor.symm.trans hminor'
      exact hopens

section Exposure

variable {e : Exposure}

theorem readExposure_eq_ok : result (readExposure fs layout) = .ok e ↔
    (fs.isDirectory layout.nodes).run = true ∧ ∃ (l : List (UInt32 × String)) (g : UInt32 → Bool),
      result (numberedDirectories fs layout.nodes "") = .ok l ∧ e = (l.map (·.1)).filter g
      ∧ ∀ n ∈ l.map (·.1), result (isExposed fs layout n) = .ok (g n) := by
  rw [readExposure, result_bind, result_lift, ok_bind]
  constructor
  · intro h
    split_ifs at h with hdir
    · obtain ⟨l, hl, h⟩ := bind_eq_ok.1 ((result_bind _ _).symm.trans h)
      obtain ⟨g, rfl, hg⟩ := exists_of_filterM h
      exact ⟨hdir, l, g, hl, rfl, hg⟩
    · cases h
  · rintro ⟨hdir, l, g, hl, rfl, hg⟩
    rw [if_pos hdir, result_bind, hl, ok_bind, result_filterM hg]

variable (hfs : Canonical fs layout)

include hfs

theorem Canonical.pairwise_numbers {l : List (UInt32 × String)}
    (hl : result (numberedDirectories fs layout.nodes "") = .ok l) :
    (l.map (·.1)).Pairwise (· < ·) := by
  obtain ⟨names, hnames, rfl⟩ := numberedDirectories_eq_ok hl
  refine pairwise_lt_of_sorted (nodup_numbers (hfs.nodup names hnames) ?_)
  intro name n hname hn hdir
  rw [hfs.decimal names hnames name n hname hn hdir, String.empty_append]

theorem Canonical.mem_numbers_iff {l : List (UInt32 × String)}
    (hl : result (numberedDirectories fs layout.nodes "") = .ok l) :
    id ∈ l.map (·.1) ↔ Listed fs layout id := by
  obtain ⟨names, hnames, rfl⟩ := numberedDirectories_eq_ok hl
  rw [((List.mergeSort_perm _ _).map _).mem_iff, List.mem_map]
  constructor
  · rintro ⟨⟨n, path⟩, hd, rfl⟩
    obtain ⟨name, hname, hn, hdir, rfl⟩ := mem_numberedNames.1 hd
    obtain rfl := hfs.decimal names hnames name n hname hn hdir
    exact ⟨names, hnames, hname, hdir⟩
  · rintro ⟨names', hnames', hname, hdir⟩
    cases hnames.symm.trans hnames'
    exact ⟨(id, _), mem_numberedNames.2 ⟨_, hname, numberIn?_decimal id, hdir, rfl⟩, rfl⟩

theorem Canonical.pairwise_exposure (h : result (readExposure fs layout) = .ok e) :
    e.Pairwise (· < ·) := by
  obtain ⟨-, l, g, hl, rfl, -⟩ := readExposure_eq_ok.1 h
  exact (hfs.pairwise_numbers hl).filter g

/-- The exposed nodes are the accessible ones among those that the driver lists. -/
theorem Canonical.mem_exposure_iff (h : result (readExposure fs layout) = .ok e) :
    id ∈ e ↔ Listed fs layout id ∧ Accessible fs layout id := by
  obtain ⟨-, l, g, hl, rfl, hg⟩ := readExposure_eq_ok.1 h
  rw [List.mem_filter, hfs.mem_numbers_iff hl]
  refine and_congr_right fun hid => ?_
  exact hfs.isExposed_iff hid (hg id ((hfs.mem_numbers_iff hl).2 hid))

end Exposure

end Sysfs

end ComputeTopology
