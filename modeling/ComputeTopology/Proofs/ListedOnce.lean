import ComputeTopology.Proofs.Contents
import ComputeTopology.Proofs.IndexDirectory
import Mathlib.Data.List.Nodup
import Mathlib.Data.List.Pairwise
import Mathlib.Tactic.Choose

/-!
# The caches of processors are listed once

The numbered directories of a listing with decimals for names are in order and each number stands
for one of them (`Sysfs.DecimalNames.exists_numbered`). So a processor's caches are listed by index
(`Sysfs.exists_listed_of_processor`) and a node's caches by processor and index, each one under its
owner and nowhere else; and a single index directory that is not sound spoils the whole listing
(`Sysfs.readProcessorCaches_once`).
-/

namespace ComputeTopology

namespace Sysfs

variable {fs : Files Id} {layout : Layout} {node cpu k : UInt32} {table : List Processor}
  {directory lead path d : String}

/-- The directory with a node's processors: its own one or, for node 0 without one, that of all
processors. -/
inductive ProcessorsAt (fs : Files Id) (layout : Layout) (node : UInt32) : String → Prop
  | own (h : (fs.isDirectory
      (joinPath layout.memoryNodes ("node" ++ Text.decimal node.toNat))).run = true) :
    ProcessorsAt fs layout node (joinPath layout.memoryNodes ("node" ++ Text.decimal node.toNat))
  | all (hnode : node = 0) (h : (fs.isDirectory
      (joinPath layout.memoryNodes ("node" ++ Text.decimal node.toNat))).run = false) :
    ProcessorsAt fs layout node layout.processors

/-- A directory in the listing whose name is `lead` and then the number. -/
def Numbered (fs : Files Id) (directory lead : String) (n : UInt32) (path : String) : Prop :=
  ∃ names, (fs.list directory).run = .ok names ∧ ∃ name, .ok name ∈ names
    ∧ numberIn? lead name = some n ∧ (fs.isDirectory path).run = true
    ∧ path = joinPath directory name

/-- The listing can be read, it has no name twice, and its numbered directories have decimals in
their names. -/
def DecimalNames (fs : Files Id) (directory lead : String) : Prop :=
  ∃ names : List String, (fs.list directory).run = .ok (names.map .ok) ∧ names.Nodup
    ∧ ∀ name ∈ names, ∀ n, numberIn? lead name = some n →
      (fs.isDirectory (joinPath directory name)).run = true → name = lead ++ Text.decimal n.toNat

def HasCaches (fs : Files Id) (path : String) : Prop :=
  (fs.isDirectory (joinPath path "cache")).run = true

/-- The directory of index `k` of processor `cpu`. -/
def IndexAt (fs : Files Id) (directory : String) (cpu k : UInt32) (d : String) : Prop :=
  ∃ path, Numbered fs directory "cpu" cpu path ∧ HasCaches fs path
    ∧ Numbered fs (joinPath path "cache") "index" k d

/-- The names of the processors and of their caches' indices are in order. -/
structure Orderly (fs : Files Id) (directory : String) : Prop where
  processors : DecimalNames fs directory "cpu"
  indices : ∀ cpu path, Numbered fs directory "cpu" cpu path → HasCaches fs path →
    DecimalNames fs (joinPath path "cache") "index"

/-- The listing has an entry for each index directory under its owner, and no other entries. -/
def ListsOwned (fs : Files Id) (table : List Processor) (directory : String)
    (listed : List (UInt32 × UInt32 × Cache)) : Prop :=
  ∀ cpu k c, (cpu, k, c) ∈ listed ↔ ∃ d, IndexAt fs directory cpu k d
    ∧ Owner fs d cpu ∧ Describes fs table cpu d c

def ByProcessorAndIndex (a b : UInt32 × UInt32 × Cache) : Prop :=
  a.1 < b.1 ∨ a.1 = b.1 ∧ a.2.1 < b.2.1

theorem processorDirectory_eq_some :
    (processorDirectory fs layout node).run = some directory
      ↔ ProcessorsAt fs layout node directory := by
  have hrun : (processorDirectory fs layout node).run
      = if (fs.isDirectory (joinPath layout.memoryNodes
          ("node" ++ Text.decimal node.toNat))).run = true
        then some (joinPath layout.memoryNodes ("node" ++ Text.decimal node.toNat))
        else if node = 0 then some layout.processors else none := by
    rw [processorDirectory, Id.run_bind]
    split_ifs <;> rfl
  rw [hrun]
  constructor
  · intro h
    split_ifs at h with hown hnode
    · cases h
      exact .own hown
    · cases h
      exact .all hnode (Bool.eq_false_iff.2 hown)
  · rintro (hown | ⟨hnode, hown⟩)
    · rw [if_pos hown]
    · rw [if_neg (Bool.eq_false_iff.1 hown), if_pos hnode]

section Numbers

variable {l : List (UInt32 × String)}

theorem numbered_iff {n : UInt32} {names : List (Except OsError String)}
    (hlist : (fs.list directory).run = .ok names) : Numbered fs directory lead n path ↔
      (n, path) ∈ names.filterMap (numberedName? fs directory lead) := by
  rw [mem_numberedNames]
  constructor
  · rintro ⟨names', hnames', hpath⟩
    cases hlist.symm.trans hnames'
    exact hpath
  · exact fun hpath => ⟨names, hlist, hpath⟩

theorem mem_numberedDirectories (h : result (numberedDirectories fs directory lead) = .ok l)
    {n : UInt32} : (n, path) ∈ l ↔ Numbered fs directory lead n path := by
  obtain ⟨names, hnames, rfl⟩ := numberedDirectories_eq_ok h
  rw [(List.mergeSort_perm _ _).mem_iff, numbered_iff hnames]

theorem DecimalNames.exists_numbered (h : DecimalNames fs directory lead) :
    ∃ l, result (numberedDirectories fs directory lead) = .ok l
      ∧ l.Pairwise fun a b => a.1 < b.1 := by
  obtain ⟨names, hlist, hnodup, hdecimal⟩ := h
  refine ⟨_, result_numberedDirectories_names hlist, List.pairwise_map.1 (pairwise_lt_of_sorted ?_)⟩
  refine nodup_numbers (List.Nodup.map (fun _ _ => Except.ok.inj) hnodup) fun name n hname => ?_
  obtain ⟨name', hname', heq⟩ := List.mem_map.1 hname
  exact hdecimal name (Except.ok.inj heq ▸ hname') n

theorem DecimalNames.unique (h : DecimalNames fs directory lead) {n : UInt32} {path' : String}
    (hpath : Numbered fs directory lead n path) (hpath' : Numbered fs directory lead n path') :
    path = path' := by
  obtain ⟨names, hlist, -, hdecimal⟩ := h
  -- the number gives the name, and the name the path
  have hname : ∀ {p}, Numbered fs directory lead n p →
      p = joinPath directory (lead ++ Text.decimal n.toNat) := by
    rintro _ ⟨names', hlist', name, hname, hn, hdir, rfl⟩
    cases hlist.symm.trans hlist'
    obtain ⟨_, hname, ⟨⟩⟩ := List.mem_map.1 hname
    rw [hdecimal name hname n hn hdir]
  rw [hname hpath, hname hpath']

theorem Orderly.unique (h : Orderly fs directory) {d' : String}
    (hd : IndexAt fs directory cpu k d) (hd' : IndexAt fs directory cpu k d') : d = d' := by
  obtain ⟨path, hpath, hcaches, hd⟩ := hd
  obtain ⟨path', hpath', -, hd'⟩ := hd'
  obtain rfl := h.processors.unique hpath hpath'
  exact (h.indices cpu path hpath hcaches).unique hd hd'

end Numbers

section Listed

theorem exists_listed_of_processor
    (hnames : HasCaches fs path → DecimalNames fs (joinPath path "cache") "index")
    (hsound : ∀ k d, HasCaches fs path → Numbered fs (joinPath path "cache") "index" k d →
      SoundIndex fs cpu d) :
    ∃ listed : List (UInt32 × Cache),
      result (readProcessor fs table cpu path) = .ok (listed.map (·.2))
      ∧ listed.Pairwise (fun a b => a.1 < b.1)
      ∧ ∀ k c, (k, c) ∈ listed ↔ HasCaches fs path ∧ ∃ d,
        Numbered fs (joinPath path "cache") "index" k d ∧ Owner fs d cpu
          ∧ Describes fs table cpu d c := by
  by_cases hcaches : HasCaches fs path
  · obtain ⟨l, hl, hsorted⟩ := (hnames hcaches).exists_numbered
    have hread : ∀ a ∈ l, ∃ found, result (readIndex fs table cpu a.2) = .ok found := fun a ha =>
      exists_readIndex_iff.2 (hsound a.1 a.2 hcaches ((mem_numberedDirectories hl).1 ha))
    choose! g hg using hread
    refine ⟨l.filterMap fun a => (g a).map (a.1, ·), ?_, ?_, fun k c => ?_⟩
    · rw [result_readProcessor hcaches hl hg, List.map_filterMap]
      simp [Function.comp_def]
    · refine List.pairwise_filterMap.2 (hsorted.imp ?_)
      rintro a b hlt x hx y hy
      obtain ⟨_, -, rfl⟩ := Option.map_eq_some_iff.1 hx
      obtain ⟨_, -, rfl⟩ := Option.map_eq_some_iff.1 hy
      exact hlt
    · rw [List.mem_filterMap]
      constructor
      · rintro ⟨⟨k, d⟩, ha, hc⟩
        obtain ⟨c, hgc, heq⟩ := Option.map_eq_some_iff.1 hc
        cases heq
        exact ⟨hcaches, d, (mem_numberedDirectories hl).1 ha,
          readIndex_eq_some.1 (hgc ▸ hg (k, d) ha)⟩
      · rintro ⟨-, d, hd, hc⟩
        have ha := (mem_numberedDirectories hl).2 hd
        have hgc := Except.ok.inj ((hg (k, d) ha).symm.trans (readIndex_eq_some.2 hc))
        exact ⟨(k, d), ha, by rw [hgc, Option.map_some]⟩
  · refine ⟨[], ?_, .nil, fun k c => ⟨nofun, fun h => absurd h.1 hcaches⟩⟩
    rw [readProcessor, result_bind, result_lift, ok_bind]
    exact congrArg result (if_neg hcaches)

theorem exists_listed (table : List Processor) (hdirectory : ProcessorsAt fs layout node directory)
    (hnames : Orderly fs directory)
    (hsound : ∀ cpu k d, IndexAt fs directory cpu k d → SoundIndex fs cpu d) :
    ∃ listed : List (UInt32 × UInt32 × Cache),
      result (readProcessorCaches fs layout node table) = .ok (listed.map (·.2.2))
      ∧ listed.Pairwise ByProcessorAndIndex ∧ ListsOwned fs table directory listed := by
  obtain ⟨cpus, hcpus, hsorted⟩ := hnames.processors.exists_numbered
  have hread : ∀ a ∈ cpus, ∃ listed : List (UInt32 × Cache),
      result (readProcessor fs table a.1 a.2) = .ok (listed.map (·.2))
      ∧ listed.Pairwise (fun a b => a.1 < b.1)
      ∧ ∀ k c, (k, c) ∈ listed ↔ HasCaches fs a.2 ∧ ∃ d,
        Numbered fs (joinPath a.2 "cache") "index" k d ∧ Owner fs d a.1
          ∧ Describes fs table a.1 d c := by
    rintro ⟨cpu, path⟩ ha
    have hpath := (mem_numberedDirectories hcpus).1 ha
    exact exists_listed_of_processor (hnames.indices cpu path hpath)
      fun k d hcaches hd => hsound cpu k d ⟨path, hpath, hcaches, hd⟩
  choose! g hg using hread
  refine ⟨cpus.flatMap fun a => (g a).map fun x => (a.1, x), ?_, ?_, fun cpu k c => ?_⟩
  · rw [result_readProcessorCaches (processorDirectory_eq_some.2 hdirectory) hcpus
      fun a ha => (hg a ha).1, List.map_flatMap, List.flatMap_def]
    simp [Function.comp_def]
  · refine List.pairwise_flatMap.2 ⟨fun a ha => ?_, hsorted.imp ?_⟩
    · exact List.pairwise_map.2 ((hg a ha).2.1.imp fun hlt => .inr ⟨rfl, hlt⟩)
    · rintro a b hlt x hx y hy
      obtain ⟨_, -, rfl⟩ := List.mem_map.1 hx
      obtain ⟨_, -, rfl⟩ := List.mem_map.1 hy
      exact .inl hlt
  · rw [List.mem_flatMap]
    constructor
    · rintro ⟨⟨cpu, path⟩, ha, hx⟩
      obtain ⟨⟨k, c⟩, hkc, heq⟩ := List.mem_map.1 hx
      cases heq
      obtain ⟨hcaches, d, hd, hc⟩ := ((hg _ ha).2.2 k c).1 hkc
      exact ⟨d, ⟨path, (mem_numberedDirectories hcpus).1 ha, hcaches, hd⟩, hc⟩
    · rintro ⟨d, ⟨path, hpath, hcaches, hd⟩, hc⟩
      have ha := (mem_numberedDirectories hcpus).2 hpath
      have hkc := ((hg _ ha).2.2 k c).2 ⟨hcaches, d, hd, hc⟩
      exact ⟨(cpu, path), ha, List.mem_map.2 ⟨(k, c), hkc, rfl⟩⟩

theorem soundIndex_of_readProcessor {l : List Cache}
    (h : result (readProcessor fs table cpu path) = .ok l) (hcaches : HasCaches fs path)
    (hd : Numbered fs (joinPath path "cache") "index" k d) : SoundIndex fs cpu d := by
  rw [readProcessor, result_bind, result_lift, ok_bind] at h
  replace h := (congrArg result (if_pos hcaches)).symm.trans h
  rw [result_bind, bind_eq_ok] at h
  obtain ⟨indices, hindices, h⟩ := h
  rw [result_bind, bind_eq_ok] at h
  obtain ⟨found, hfound, -⟩ := h
  exact exists_readIndex_iff.1
    (exists_of_mapM hfound (k, d) ((mem_numberedDirectories hindices).2 hd))

theorem soundIndex_of_readProcessorCaches {l : List Cache}
    (hdirectory : ProcessorsAt fs layout node directory)
    (h : result (readProcessorCaches fs layout node table) = .ok l)
    (hd : IndexAt fs directory cpu k d) : SoundIndex fs cpu d := by
  obtain ⟨path, hpath, hcaches, hd⟩ := hd
  have hlift : result (ExceptT.lift (processorDirectory fs layout node)) = .ok (some directory) :=
    congrArg Except.ok (processorDirectory_eq_some.2 hdirectory)
  rw [readProcessorCaches, result_bind, hlift, ok_bind, result_bind, bind_eq_ok] at h
  obtain ⟨cpus, hcpus, h⟩ := h
  rw [result_bind, bind_eq_ok] at h
  obtain ⟨found, hfound, -⟩ := h
  obtain ⟨caches, hread⟩ :=
    exists_of_mapM hfound (cpu, path) ((mem_numberedDirectories hcpus).2 hpath)
  exact soundIndex_of_readProcessor hread hcaches hd

variable {listed : List (UInt32 × UInt32 × Cache)}

theorem ByProcessorAndIndex.ne {a b : UInt32 × UInt32 × Cache} (h : ByProcessorAndIndex a b) :
    ¬(a.1 = b.1 ∧ a.2.1 = b.2.1) := by
  rintro ⟨hcpu, hk⟩
  rcases h with h | ⟨-, h⟩
  · exact absurd (hcpu ▸ h) (UInt32.lt_irrefl _)
  · exact absurd (hk ▸ h) (UInt32.lt_irrefl _)

theorem eq_of_same_index (hsorted : listed.Pairwise ByProcessorAndIndex) {c c' : Cache}
    (h : (cpu, k, c) ∈ listed) (h' : (cpu, k, c') ∈ listed) : c = c' := by
  by_contra hne
  have hsymm : Std.Symm fun a b : UInt32 × UInt32 × Cache => ¬(a.1 = b.1 ∧ a.2.1 = b.2.1) :=
    ⟨fun _ _ hab hba => hab ⟨hba.1.symm, hba.2.symm⟩⟩
  have hdiffer := hsorted.imp ByProcessorAndIndex.ne
  exact hdiffer.forall h h' (fun heq => hne (by cases heq; rfl)) ⟨rfl, rfl⟩

theorem ListsOwned.existsUnique (hlisted : ListsOwned fs table directory listed)
    (hsorted : listed.Pairwise ByProcessorAndIndex)
    (hsound : ∀ cpu k d, IndexAt fs directory cpu k d → SoundIndex fs cpu d)
    (hd : IndexAt fs directory cpu k d) (howner : Owner fs d cpu) :
    ∃! c, (cpu, k, c) ∈ listed := by
  obtain ⟨owner, howner', hcomplete⟩ := hsound cpu k d hd
  obtain ⟨c, hc⟩ := (exists_describes_iff table cpu).2 (hcomplete (howner'.unique howner))
  have hmem := (hlisted cpu k c).2 ⟨d, hd, howner, hc⟩
  exact ⟨c, hmem, fun c' hc' => eq_of_same_index hsorted hc' hmem⟩

/-- A cache whose places all carry one list, and that the first processor of the list has in one
place, is listed there and in none of the others. -/
theorem ListsOwned.countP_eq_one (hlisted : ListsOwned fs table directory listed)
    (hsorted : listed.Pairwise ByProcessorAndIndex) (hnames : Orderly fs directory)
    (hsound : ∀ cpu k d, IndexAt fs directory cpu k d → SoundIndex fs cpu d)
    {places : UInt32 → UInt32 → Bool} {list : List Char} {owner : UInt32}
    (hbegins : ProcessorSet.beginning? list = some owner)
    (hplaces : ∀ cpu k, places cpu k = true → ∃ d, IndexAt fs directory cpu k d
      ∧ Carries fs (joinPath d "shared_cpu_list") some list)
    (honce : ∃! k, places owner k = true) :
    listed.countP (fun x => places x.1 x.2.1) = 1 := by
  have howner : ∀ {d}, Carries fs (joinPath d "shared_cpu_list") some list → Owner fs d owner := by
    rintro d ⟨hkind, text, htext, hlist⟩
    exact ⟨hkind, text, htext, Option.some.inj hlist ▸ hbegins⟩
  obtain ⟨k, hk, hunique⟩ := honce
  obtain ⟨d, hd, hlist⟩ := hplaces owner k hk
  obtain ⟨c, hc, -⟩ := hlisted.existsUnique hsorted hsound hd (howner hlist)
  have hnodup : listed.Nodup := hsorted.imp fun h heq => h.ne (by rw [heq]; exact ⟨rfl, rfl⟩)
  rw [← List.count_eq_one_of_mem hnodup hc]
  refine List.countP_congr fun ⟨cpu', k', c'⟩ hmem => ?_
  simp only [beq_iff_eq, Prod.mk.injEq]
  constructor
  · intro hplace
    obtain ⟨d', hd', hlist'⟩ := hplaces cpu' k' hplace
    obtain ⟨d'', hd'', howner'', -⟩ := (hlisted cpu' k' c').1 hmem
    obtain rfl := hnames.unique hd' hd''
    obtain rfl := (howner hlist').unique howner''
    obtain rfl := hunique k' hplace
    exact ⟨rfl, rfl, eq_of_same_index hsorted hmem hc⟩
  · rintro ⟨rfl, rfl, -⟩
    exact hk

/-- In files whose directories have decimals in their names and whose index directories are sound,
the caches of a node are listed by processor and index, each one under its owner: so a cache whose
places all carry one list is listed once. An index directory that is not sound spoils the
listing. -/
theorem readProcessorCaches_once (table : List Processor)
    (hdirectory : ProcessorsAt fs layout node directory) :
    (Orderly fs directory → (∀ cpu k d, IndexAt fs directory cpu k d → SoundIndex fs cpu d) →
      ∃ listed : List (UInt32 × UInt32 × Cache),
        result (readProcessorCaches fs layout node table) = .ok (listed.map (·.2.2))
        ∧ listed.Pairwise ByProcessorAndIndex
        ∧ ListsOwned fs table directory listed
        ∧ (∀ cpu k d, IndexAt fs directory cpu k d → Owner fs d cpu → ∃! c, (cpu, k, c) ∈ listed)
        ∧ ∀ (places : UInt32 → UInt32 → Bool) (list : List Char) (owner : UInt32),
          ProcessorSet.beginning? list = some owner →
          (∀ cpu k, places cpu k = true → ∃ d, IndexAt fs directory cpu k d
            ∧ Carries fs (joinPath d "shared_cpu_list") some list) →
          (∃! k, places owner k = true) → listed.countP (fun x => places x.1 x.2.1) = 1)
    ∧ ((∃ cpu k d, IndexAt fs directory cpu k d ∧ ¬SoundIndex fs cpu d) →
      ∃ fault, result (readProcessorCaches fs layout node table) = .error fault) := by
  refine ⟨fun hnames hsound => ?_, ?_⟩
  · obtain ⟨listed, hresult, hsorted, hlisted⟩ := exists_listed table hdirectory hnames hsound
    exact ⟨listed, hresult, hsorted, hlisted,
      fun cpu k d hd howner => hlisted.existsUnique hsorted hsound hd howner,
      fun places list owner hbegins hplaces honce =>
        hlisted.countP_eq_one hsorted hnames hsound hbegins hplaces honce⟩
  · rintro ⟨cpu, k, d, hd, hnot⟩
    rcases hresult : result (readProcessorCaches fs layout node table) with fault | l
    · exact ⟨fault, rfl⟩
    · exact absurd (soundIndex_of_readProcessorCaches hdirectory hresult hd) hnot

end Listed

section Pair

/-- An index directory of a cache that the processors of the list share. -/
def indexDirectory (list : String) : FileTree :=
  .directory [("level", .file "2"), ("type", .file "Unified"), ("size", .file "512K"),
    ("coherency_line_size", .file "64"), ("physical_line_partition", .file "1"),
    ("ways_of_associativity", .file "8"), ("shared_cpu_list", .file list),
    ("shared_cpu_map", .file "404")]

/-- Processors 10 and 2, which share a cache. The list of the first one may be spoilt. -/
def pair (spoilt : Bool) : FileTree :=
  .directory [("node", .directory [("node0", .directory [
    ("cpu10", .directory [("cache", .directory [
      ("index0", indexDirectory (if spoilt then "" else "2,10"))])]),
    ("cpu2", .directory [("cache", .directory [("index0", indexDirectory "2,10")])])])])]

def pairProcessor (cpu : UInt32) : String :=
  joinPath "node/node0" ("cpu" ++ Text.decimal cpu.toNat)

def pairIndex (cpu : UInt32) : String :=
  joinPath (joinPath (pairProcessor cpu) "cache") "index0"

variable {spoilt : Bool}

theorem list_pair : ((pair spoilt).files.list "node/node0").run = .ok [.ok "cpu10", .ok "cpu2"] :=
  toOption_eq_some (by cases spoilt <;> decide +kernel)

theorem list_pairCaches (hcpu : cpu = 10 ∨ cpu = 2) :
    ((pair spoilt).files.list (joinPath (pairProcessor cpu) "cache")).run = .ok [.ok "index0"] :=
  toOption_eq_some (by rcases hcpu with rfl | rfl <;> cases spoilt <;> decide +kernel)

theorem numbered_pair : Numbered (pair spoilt).files "node/node0" "cpu" cpu path ↔
    (cpu = 10 ∨ cpu = 2) ∧ path = pairProcessor cpu := by
  have hnames : [.ok "cpu10", .ok "cpu2"].filterMap
        (numberedName? (pair spoilt).files "node/node0" "cpu")
      = [(10, pairProcessor 10), (2, pairProcessor 2)] := by
    cases spoilt <;> decide +kernel
  rw [numbered_iff list_pair, hnames]
  simp only [List.mem_cons, Prod.mk.injEq, List.not_mem_nil, or_false]
  constructor
  · rintro (⟨rfl, rfl⟩ | ⟨rfl, rfl⟩) <;> simp
  · rintro ⟨rfl | rfl, rfl⟩ <;> simp

theorem numbered_pairCaches (hcpu : cpu = 10 ∨ cpu = 2) :
    Numbered (pair spoilt).files (joinPath (pairProcessor cpu) "cache") "index" k d ↔
      k = 0 ∧ d = pairIndex cpu := by
  have hnames : [.ok "index0"].filterMap
        (numberedName? (pair spoilt).files (joinPath (pairProcessor cpu) "cache") "index")
      = [(0, pairIndex cpu)] := by
    rcases hcpu with rfl | rfl <;> cases spoilt <;> decide +kernel
  rw [numbered_iff (list_pairCaches hcpu), hnames]
  simp

theorem hasCaches_pair (hcpu : cpu = 10 ∨ cpu = 2) : HasCaches (pair spoilt).files
    (pairProcessor cpu) := by
  have hdirectory : ((pair spoilt).files.isDirectory (joinPath (pairProcessor cpu) "cache")).run
      = true := by
    rcases hcpu with rfl | rfl <;> cases spoilt <;> decide +kernel
  exact hdirectory

theorem indexAt_pair : IndexAt (pair spoilt).files "node/node0" cpu k d ↔
    (cpu = 10 ∨ cpu = 2) ∧ k = 0 ∧ d = pairIndex cpu := by
  constructor
  · rintro ⟨path, hpath, -, hd⟩
    obtain ⟨hcpu, rfl⟩ := numbered_pair.1 hpath
    exact ⟨hcpu, (numbered_pairCaches hcpu).1 hd⟩
  · rintro ⟨hcpu, hd⟩
    exact ⟨_, numbered_pair.2 ⟨hcpu, rfl⟩, hasCaches_pair hcpu, (numbered_pairCaches hcpu).2 hd⟩

theorem orderly_pair : Orderly (pair spoilt).files "node/node0" where
  processors := ⟨["cpu10", "cpu2"], list_pair, by decide, fun name hname n hn _ => by
    have hnames : ∀ name ∈ ["cpu10", "cpu2"],
        (numberIn? "cpu" name).all fun n => name = "cpu" ++ Text.decimal n.toNat := by
      decide +kernel
    exact of_decide_eq_true ((Option.all_eq_true _ _).1 (hnames name hname) n hn)⟩
  indices cpu path hpath _ := by
    obtain ⟨hcpu, rfl⟩ := numbered_pair.1 hpath
    refine ⟨["index0"], list_pairCaches hcpu, by decide, fun name hname n hn _ => ?_⟩
    obtain rfl := List.mem_singleton.1 hname
    have hnumber : numberIn? "index" "index0" = some 0 := by decide +kernel
    obtain rfl := Option.some.inj (hnumber.symm.trans hn)
    decide +kernel

theorem soundIndex_pair (h : IndexAt (pair false).files "node/node0" cpu k d) :
    SoundIndex (pair false).files cpu d := by
  obtain ⟨hcpu, -, rfl⟩ := indexAt_pair.1 h
  have hread : (result (readIndex (pair false).files [] cpu (pairIndex cpu))).toOption.isSome
      = true := by
    rcases hcpu with rfl | rfl <;> decide +kernel
  obtain ⟨found, hfound⟩ := Option.isSome_iff_exists.1 hread
  exact exists_readIndex_iff.1 ⟨found, toOption_eq_some hfound⟩

theorem carries_pair {α : Type} {parse : List Char → Option α} {a : α} (hcpu : cpu = 10 ∨ cpu = 2)
    (hparse : parse "2,10".toList = some a) :
    Carries (pair false).files (joinPath (pairIndex cpu) "shared_cpu_list") parse a := by
  have htrim : Text.trim "2,10".toList = "2,10".toList := by decide +kernel
  refine ⟨?_, "2,10", toOption_eq_some ?_, (congrArg parse htrim).trans hparse⟩
  · rcases hcpu with rfl | rfl <;> decide +kernel
  · rcases hcpu with rfl | rfl <;> decide +kernel

/-- The cache that the processors share is listed once, under the one that begins its list. With a
list that is spoilt there is no listing. -/
theorem readProcessorCaches_once_pair :
    (∃ listed : List (UInt32 × UInt32 × Cache),
      result (readProcessorCaches (pair false).files gappedLayout 0 []) = .ok (listed.map (·.2.2))
      ∧ (∃! c, (2, 0, c) ∈ listed)
      ∧ listed.countP (fun x => (x.1 = 10 ∨ x.1 = 2) ∧ x.2.1 = 0) = 1)
    ∧ ∃ fault, result (readProcessorCaches (pair true).files gappedLayout 0 []) = .error fault := by
  have hdirectory : ∀ spoilt, ProcessorsAt (pair spoilt).files gappedLayout 0 "node/node0" :=
    fun spoilt => processorDirectory_eq_some.1 (by cases spoilt <;> decide +kernel)
  have hbegins : ProcessorSet.beginning? "2,10".toList = some 2 := by decide +kernel
  obtain ⟨listed, hresult, -, -, hunique, hshared⟩ :=
    (readProcessorCaches_once [] (hdirectory false)).1 orderly_pair fun _ _ _ => soundIndex_pair
  refine ⟨⟨listed, hresult, ?_, ?_⟩, ?_⟩
  · exact hunique 2 0 (pairIndex 2) (indexAt_pair.2 (by simp)) (carries_pair (.inr rfl) hbegins)
  · refine hshared (fun cpu k => (cpu = 10 ∨ cpu = 2) ∧ k = 0) "2,10".toList 2 hbegins
      (fun cpu k hplace => ?_) ⟨0, by decide, fun k hk => by simpa using hk⟩
    obtain ⟨hcpu, rfl⟩ := of_decide_eq_true hplace
    exact ⟨pairIndex cpu, indexAt_pair.2 ⟨hcpu, rfl, rfl⟩, carries_pair hcpu rfl⟩
  · refine (readProcessorCaches_once [] (hdirectory true)).2
      ⟨10, 0, pairIndex 10, indexAt_pair.2 (by simp), fun hsound => ?_⟩
    obtain ⟨found, hfound⟩ : ∃ found,
        result (readIndex (pair true).files [] 10 (pairIndex 10)) = .ok found :=
      exists_readIndex_iff.2 hsound
    have hnone : (result (readIndex (pair true).files [] 10 (pairIndex 10))).toOption.isSome
        = false := by decide +kernel
    rw [hfound] at hnone
    cases hnone

end Pair

end Sysfs

end ComputeTopology
