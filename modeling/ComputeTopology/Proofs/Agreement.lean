import ComputeTopology.Proofs.Exposed

/-!
# What a reader of files depends on

A reader of a file depends on that file only, and a reader of a directory on what is below it: it
goes down by plain names, a name of a listing among them (`Below`). So two file systems that agree
below a directory (`AgreeBelow`) have the same records, the same processors and the same caches
there.
-/

namespace ComputeTopology.Sysfs

variable {fs fs' : Files Id} {layout : Layout} {root path directory lead name : String}

/-- At the path both file systems have the same. Opening a file is another matter. -/
structure AgreeAt (fs fs' : Files Id) (path : String) : Prop where
  kind : fs'.kind path = fs.kind path
  readText : fs'.readText path = fs.readText path
  list : fs'.list path = fs.list path

/-- The path is the root, or leads down from it by plain names. -/
inductive Below (root : String) : String → Prop
  | root : Below root root
  | step {path name : String} (h : Below root path) (hname : Plain name) :
    Below root (joinPath path name)

theorem Below.trans (h : Below root directory) (hpath : Below directory path) :
    Below root path := by
  induction hpath with
  | root => exact h
  | step _ hname ih => exact ih.step hname

def AgreeBelow (fs fs' : Files Id) (root : String) : Prop :=
  ∀ path, Below root path → AgreeAt fs fs' path

theorem AgreeBelow.here (h : AgreeBelow fs fs' root) : AgreeAt fs fs' root :=
  h root .root

theorem AgreeBelow.step (h : AgreeBelow fs fs' root) (hname : Plain name) :
    AgreeBelow fs fs' (joinPath root name) := fun path hpath =>
  h path (Below.trans (.step .root hname) hpath)

section Content

theorem isDirectory_congr (h : fs'.kind path = fs.kind path) :
    fs'.isDirectory path = fs.isDirectory path := by
  simp only [Files.isDirectory, h]

theorem readContent_congr (h : AgreeAt fs fs' path) :
    readContent fs' path = readContent fs path := by
  simp only [readContent, h.kind, h.readText]

theorem readUInt64_congr (h : AgreeAt fs fs' path) :
    readUInt64 fs' path = readUInt64 fs path := by
  simp only [readUInt64, readContent_congr h]

theorem readUInt32_congr (h : AgreeAt fs fs' path) :
    readUInt32 fs' path = readUInt32 fs path := by
  simp only [readUInt32, readContent_congr h]

theorem readWith_congr {α : Type} {what : String} {parse : List Char → Option α}
    (h : AgreeAt fs fs' path) : readWith fs' path what parse = readWith fs path what parse := by
  simp only [readWith, readContent_congr h]

theorem readSheet_congr {α : Type} {record : PropertySheet → Except FileFault α}
    (h : AgreeAt fs fs' path) : readSheet fs' path record = readSheet fs path record := by
  simp only [readSheet, PropertySheet.read, readContent_congr h]

theorem propertySheet_congr (h : AgreeAt fs fs' path) :
    PropertySheet.read fs' path = PropertySheet.read fs path := by
  simp only [PropertySheet.read, readContent_congr h]

theorem processorTable_congr (h : AgreeAt fs fs' path) :
    ProcessorTable.read fs' path = ProcessorTable.read fs path := by
  simp only [ProcessorTable.read, readContent_congr h]

end Content

section Directories

/-- The numbered directories of a directory lead down from it. -/
theorem exists_of_mem_numberedDirectories {l : List (UInt32 × String)}
    (h : result (numberedDirectories fs directory lead) = .ok l) (hlead : '/' ∉ lead.toList)
    {d : UInt32 × String} (hd : d ∈ l) : ∃ name, Plain name ∧ d.2 = joinPath directory name := by
  obtain ⟨names, -, rfl⟩ := numberedDirectories_eq_ok h
  obtain ⟨name, -, hn, -, hpath⟩ := mem_numberedNames.1 (List.mem_mergeSort.1 hd)
  exact ⟨name, plain_of_numberIn? hn hlead, hpath⟩

theorem pickNumbered_congr (hlead : '/' ∉ lead.toList)
    (hkind : ∀ name, Plain name →
      fs'.kind (joinPath directory name) = fs.kind (joinPath directory name)) :
    ∀ names : List (Except OsError String),
      pickNumbered fs' directory lead names = pickNumbered fs directory lead names
  | [] => rfl
  | .error _ :: _ => rfl
  | .ok name :: names => by
    rw [pickNumbered, pickNumbered, pickNumbered_congr hlead hkind names]
    rcases hn : numberIn? lead name with _ | n
    · rfl
    · simp only [isDirectory_congr (hkind name (plain_of_numberIn? hn hlead))]

theorem numberedDirectories_congr (hlead : '/' ∉ lead.toList)
    (hlist : fs'.list directory = fs.list directory)
    (hkind : ∀ name, Plain name →
      fs'.kind (joinPath directory name) = fs.kind (joinPath directory name)) :
    numberedDirectories fs' directory lead = numberedDirectories fs directory lead := by
  simp only [numberedDirectories, numberedEntries, hlist, pickNumbered_congr hlead hkind]

theorem AgreeBelow.numberedDirectories (h : AgreeBelow fs fs' directory)
    (hlead : '/' ∉ lead.toList) : numberedDirectories fs' directory lead
      = Sysfs.numberedDirectories fs directory lead :=
  numberedDirectories_congr hlead h.here.list fun _ hname => (h.step hname).here.kind

end Directories

section Processors

variable {table : List Processor}

theorem readIndex_congr (h : AgreeBelow fs fs' directory) (cpu : UInt32) :
    readIndex fs' table cpu directory = readIndex fs table cpu directory := by
  have hfile : ∀ name, Plain name → AgreeAt fs fs' (joinPath directory name) :=
    fun _ hname => (h.step hname).here
  simp only [readIndex, readWith_congr (hfile "shared_cpu_list" (by decide +kernel)),
    readContent_congr (hfile "type" (by decide +kernel)),
    readWith_congr (hfile "size" (by decide +kernel)),
    readWith_congr (hfile "shared_cpu_map" (by decide +kernel)),
    readUInt32_congr (hfile "level" (by decide +kernel)),
    readUInt32_congr (hfile "coherency_line_size" (by decide +kernel)),
    readUInt32_congr (hfile "physical_line_partition" (by decide +kernel)),
    readUInt32_congr (hfile "ways_of_associativity" (by decide +kernel))]

theorem readProcessor_congr (h : AgreeBelow fs fs' directory) (cpu : UInt32) :
    readProcessor fs' table cpu directory = readProcessor fs table cpu directory := by
  have hcaches : AgreeBelow fs fs' (joinPath directory "cache") := h.step (by decide +kernel)
  have hlead : '/' ∉ "index".toList := by decide +kernel
  simp only [readProcessor, isDirectory_congr hcaches.here.kind,
    hcaches.numberedDirectories hlead]
  refine bind_congr fun isDirectory => ?_
  split_ifs
  · refine bind_congr_of_ok fun indices hindices => ?_
    rw [mapM_congr_of_mem fun d hd => ?_]
    obtain ⟨name, hname, hd⟩ := exists_of_mem_numberedDirectories hindices hlead hd
    exact readIndex_congr (hd ▸ hcaches.step hname) cpu
  · rfl

theorem processorDirectory_congr (hnodes : AgreeBelow fs fs' layout.memoryNodes) (i : UInt32) :
    processorDirectory fs' layout i = processorDirectory fs layout i := by
  have hname : Plain ("node" ++ Text.decimal i.toNat) := plain_append_decimal (by decide +kernel) i
  simp only [processorDirectory, isDirectory_congr (hnodes.step hname).here.kind]

theorem below_of_processorDirectory {i : UInt32}
    (h : (processorDirectory fs layout i).run = some directory) :
    Below layout.memoryNodes directory ∨ directory = layout.processors := by
  rw [processorDirectory, Id.run_bind] at h
  split_ifs at h
  · cases h
    exact .inl (.step .root (plain_append_decimal (by decide +kernel) i))
  · cases h
    exact .inr rfl
  · cases h

theorem readProcessorCaches_congr (hnodes : AgreeBelow fs fs' layout.memoryNodes)
    (hprocessors : AgreeBelow fs fs' layout.processors) (i : UInt32) :
    readProcessorCaches fs' layout i table = readProcessorCaches fs layout i table := by
  have hlead : '/' ∉ "cpu".toList := by decide +kernel
  rw [readProcessorCaches, readProcessorCaches, processorDirectory_congr hnodes]
  -- both find the same directory, and it lies in one of the two trees
  refine bind_congr_of_ok fun found hfound => ?_
  rcases found with _ | directory
  · rfl
  · have hdirectory : AgreeBelow fs fs' directory := by
      rcases below_of_processorDirectory (Except.ok.inj hfound) with hbelow | rfl
      · exact fun path hpath => hnodes path (hbelow.trans hpath)
      · exact hprocessors
    simp only [hdirectory.numberedDirectories hlead]
    refine bind_congr_of_ok fun cpus hcpus => ?_
    rw [mapM_congr_of_mem fun d hd => ?_]
    obtain ⟨name, hname, hd⟩ := exists_of_mem_numberedDirectories hcpus hlead hd
    exact readProcessor_congr (hd ▸ hdirectory.step hname) d.1

end Processors

section Nodes

variable {id : UInt32}

/-- What belongs to the node is the same in both file systems. -/
def AgreeOnNode (fs fs' : Files Id) (layout : Layout) (id : UInt32) : Prop :=
  AgreeBelow fs fs' (joinPath layout.nodes (Text.decimal id.toNat))

theorem AgreeOnNode.nodeFile (h : AgreeOnNode fs fs' layout id) (hname : Plain name) :
    AgreeAt fs fs' (nodeFile layout id name) :=
  (AgreeBelow.step h hname).here

theorem AgreeOnNode.entryFile (h : AgreeOnNode fs fs' layout id) (hname : Plain name) (k : UInt32) :
    AgreeAt fs fs' (entryFile layout id name k) :=
  (((AgreeBelow.step h hname).step (plain_decimal k)).step (by decide +kernel)).here

theorem readGpuId_congr (h : AgreeAt fs fs' (nodeFile layout id "gpu_id")) :
    readGpuId fs' layout id = readGpuId fs layout id := by
  simp only [readGpuId, readUInt64_congr h]

theorem readReport_congr (h : AgreeOnNode fs fs' layout id) :
    readReport fs' layout id = readReport fs layout id := by
  simp only [readReport, propertySheet_congr (h.nodeFile (by decide +kernel : Plain "properties")),
    readGpuId_congr (h.nodeFile (by decide +kernel))]

structure AgreeOnProcessors (fs fs' : Files Id) (layout : Layout) : Prop where
  memoryNodes : AgreeBelow fs fs' layout.memoryNodes
  processors : AgreeBelow fs fs' layout.processors
  processorTable : AgreeAt fs fs' layout.processorTable

end Nodes

end ComputeTopology.Sysfs
