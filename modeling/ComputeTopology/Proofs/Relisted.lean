import ComputeTopology.Proofs.ListedOnce
import ComputeTopology.Proofs.Numerals
import ComputeTopology.Proofs.Unseen

/-!
# Listings in any order

A name carries a number if it is the lead and then a numeral (`Sysfs.numberIn?_eq_some_iff`), and a
list that is sorted by distinct numbers is all that its members leave open
(`Sysfs.eq_of_perm_of_numbers`). So the numbered directories of a listing do not depend on its
order, and neither do the exposure and the caches of processors, which are read from nothing else
(`Sysfs.numberedEntries_relisted`).
-/

namespace ComputeTopology

/-- What a file system says in place of a listing, or the listing in any order. -/
inductive Reordered : Except OsError (List (Except OsError String)) →
    Except OsError (List (Except OsError String)) → Prop
  | failed (cause : OsError) : Reordered (.error cause) (.error cause)
  | listed {listing listing' : List (Except OsError String)} (h : listing'.Perm listing) :
    Reordered (.ok listing) (.ok listing')

/-- The same files, with other listings. -/
def Files.relist (fs : Files Id)
    (list : String → Id (Except OsError (List (Except OsError String)))) : Files Id :=
  { fs with list }

namespace Sysfs

variable {fs : Files Id} {layout : Layout} {directory lead name path : String} {n node : UInt32}
  {listing listing' : List (Except OsError String)} {table : List Processor}

/-- The name is that of a directory, and is `lead` and then a numeral. -/
def HasNumber (fs : Files Id) (directory lead name : String) (n : UInt32) : Prop :=
  (∃ numeral, name = lead ++ String.ofList numeral ∧ Text.Numeral numeral n.toNat)
    ∧ (fs.isDirectory (joinPath directory name)).run = true

/-- Every name could be read, and no two of them are directories with the same number. -/
structure Distinct (fs : Files Id) (directory lead : String)
    (listing : List (Except OsError String)) : Prop where
  readable : ∀ cause, .error cause ∉ listing
  distinct : listing.Pairwise fun a b => ∀ name name' n n', a = .ok name → b = .ok name' →
    HasNumber fs directory lead name n → HasNumber fs directory lead name' n' → n ≠ n'

def DistinctAt (fs : Files Id) (directory lead : String) : Prop :=
  ∀ listing, (fs.list directory).run = .ok listing → Distinct fs directory lead listing

/-- The processors in the directory are distinct, and so are the caches of each. -/
structure DistinctProcessors (fs : Files Id) (directory : String) : Prop where
  processors : DistinctAt fs directory "cpu"
  indices : ∀ cpu path, Numbered fs directory "cpu" cpu path → HasCaches fs path →
    DistinctAt fs (joinPath path "cache") "index"

section Names

theorem numberIn?_eq_some_iff : numberIn? lead name = some n ↔
    ∃ numeral, name = lead ++ String.ofList numeral ∧ Text.Numeral numeral n.toNat := by
  rw [numberIn?, Option.bind_eq_some_iff]
  constructor
  · rintro ⟨numeral, hnumeral, hn⟩
    refine ⟨numeral, String.toList_injective ?_, Text.readUInt32?_eq_some_iff.1 hn⟩
    rw [String.toList_append, String.toList_ofList, eq_append_of_afterLead? hnumeral]
  · rintro ⟨numeral, rfl, hn⟩
    refine ⟨numeral, ?_, Text.readUInt32?_eq_some_iff.2 hn⟩
    rw [String.toList_append, String.toList_ofList, afterLead?_append]

theorem numberedName?_eq_some_iff {d : UInt32 × String} :
    numberedName? fs directory lead (.ok name) = some d
      ↔ HasNumber fs directory lead name d.1 ∧ d.2 = joinPath directory name := by
  obtain ⟨n, path⟩ := d
  rw [numberedName?, Option.bind_eq_some_iff, HasNumber, ← numberIn?_eq_some_iff]
  constructor
  · rintro ⟨m, hm, h⟩
    split_ifs at h with hdir
    cases h
    exact ⟨⟨hm, hdir⟩, rfl⟩
  · rintro ⟨⟨hn, hdir⟩, rfl⟩
    exact ⟨n, hn, if_pos hdir⟩

theorem mem_numberedNames_iff : (n, path) ∈ listing.filterMap (numberedName? fs directory lead) ↔
    ∃ name, .ok name ∈ listing ∧ HasNumber fs directory lead name n
      ∧ path = joinPath directory name := by
  simp only [mem_numberedNames, HasNumber, ← numberIn?_eq_some_iff]
  constructor
  · rintro ⟨name, hname, hn, hdir, rfl⟩
    exact ⟨name, hname, ⟨hn, hdir⟩, rfl⟩
  · rintro ⟨name, hname, ⟨hn, hdir⟩, rfl⟩
    exact ⟨name, hname, hn, hdir, rfl⟩

/-- Entries are distinct exactly if what they stand for has each number once. -/
theorem distinct_iff : Distinct fs directory lead listing ↔ (∀ cause, .error cause ∉ listing)
    ∧ ((listing.filterMap (numberedName? fs directory lead)).map (·.1)).Nodup := by
  rw [List.nodup_iff_pairwise_ne, List.pairwise_map, List.pairwise_filterMap]
  refine ⟨fun h => ⟨h.readable, h.distinct.imp ?_⟩, fun h => ⟨h.1, h.2.imp ?_⟩⟩
  · rintro (cause | name) (cause' | name') hne d hd d' hd'
    · cases hd
    · cases hd
    · cases hd'
    · exact hne name name' d.1 d'.1 rfl rfl (numberedName?_eq_some_iff.1 hd).1
        (numberedName?_eq_some_iff.1 hd').1
  · rintro _ _ hne name name' n n' rfl rfl hn hn'
    exact hne (n, joinPath directory name) (numberedName?_eq_some_iff.2 ⟨hn, rfl⟩)
      (n', joinPath directory name') (numberedName?_eq_some_iff.2 ⟨hn', rfl⟩)

theorem Distinct.perm (h : Distinct fs directory lead listing) (hperm : listing'.Perm listing) :
    Distinct fs directory lead listing' := by
  obtain ⟨hreadable, hnodup⟩ := distinct_iff.1 h
  refine distinct_iff.2 ⟨fun cause hcause => hreadable cause (hperm.mem_iff.1 hcause), ?_⟩
  exact (((hperm.filterMap _).map _).nodup_iff).2 hnodup

theorem DecimalNames.distinctAt (h : DecimalNames fs directory lead) :
    DistinctAt fs directory lead := by
  obtain ⟨names, hlist, hnodup, hdecimal⟩ := h
  intro listing hlisting
  cases hlist.symm.trans hlisting
  refine distinct_iff.2 ⟨by simp, ?_⟩
  refine nodup_numbers (List.Nodup.map (fun _ _ => Except.ok.inj) hnodup) fun name n hname => ?_
  obtain ⟨_, hname, ⟨⟩⟩ := List.mem_map.1 hname
  exact hdecimal name hname n

theorem Orderly.distinctProcessors (h : Orderly fs directory) :
    DistinctProcessors fs directory where
  processors := h.processors.distinctAt
  indices cpu path hpath hcaches := (h.indices cpu path hpath hcaches).distinctAt

theorem Canonical.distinctAt (h : Canonical fs layout) (hreadable : ∀ listing,
    (fs.list layout.nodes).run = .ok listing → ∀ cause, .error cause ∉ listing) :
    DistinctAt fs layout.nodes "" := fun listing hlisting =>
  distinct_iff.2 ⟨hreadable listing hlisting, nodup_numbers (h.nodup listing hlisting)
    fun name n hname hn hdir => by
      rw [h.decimal listing hlisting name n hname hn hdir, String.empty_append]⟩

end Names

section Entries

variable {l l' : List (UInt32 × String)}

theorem eq_of_perm_of_numbers (h : (l.map (·.1)).Pairwise (· < ·))
    (h' : (l'.map (·.1)).Pairwise (· < ·)) (hperm : l.Perm l') : l = l' := by
  rw [List.pairwise_map] at h h'
  exact List.Perm.eq_of_pairwise (fun _ _ _ _ hlt hgt => absurd hgt (UInt32.lt_asymm hlt)) h h'
    hperm

theorem exists_names : ∀ {listing : List (Except OsError String)},
    (∀ cause, .error cause ∉ listing) → ∃ names : List String, listing = names.map .ok
  | [], _ => ⟨[], rfl⟩
  | .error cause :: _, h => absurd List.mem_cons_self (h cause)
  | .ok name :: listing, h => by
    obtain ⟨names, rfl⟩ := exists_names fun cause hcause => h cause (List.mem_cons_of_mem _ hcause)
    exact ⟨name :: names, rfl⟩

theorem Distinct.numberedEntries_eq (h : Distinct fs directory lead listing) :
    result (numberedEntries fs directory lead listing)
      = .ok ((listing.filterMap (numberedName? fs directory lead)).mergeSort
        fun a b => a.1 ≤ b.1) := by
  obtain ⟨names, rfl⟩ := exists_names h.readable
  rw [numberedEntries, result_bind, result_pickNumbered_names, ok_bind, result_pure]

theorem Distinct.pairwise (h : Distinct fs directory lead listing) :
    (((listing.filterMap (numberedName? fs directory lead)).mergeSort
      fun a b => a.1 ≤ b.1).map (·.1)).Pairwise (· < ·) :=
  pairwise_lt_of_sorted (distinct_iff.1 h).2

theorem Distinct.numberedEntries_congr (h : Distinct fs directory lead listing)
    (hperm : listing'.Perm listing) : result (numberedEntries fs directory lead listing')
      = result (numberedEntries fs directory lead listing) := by
  rw [h.numberedEntries_eq, (h.perm hperm).numberedEntries_eq]
  refine congrArg _ (eq_of_perm_of_numbers (h.perm hperm).pairwise h.pairwise ?_)
  exact (List.mergeSort_perm _ _).trans ((hperm.filterMap _).trans (List.mergeSort_perm _ _).symm)

/-- The walk over a listing ends at the first name that could not be read. -/
theorem result_pickNumbered_error (fs : Files Id) (directory lead : String) :
    ∀ {listing : List (Except OsError String)} {cause : OsError}, .error cause ∈ listing →
      ∃ cause', .error cause' ∈ listing
        ∧ result (pickNumbered fs directory lead listing) = .error (.unreadable directory cause')
  | [], _, h => absurd h List.not_mem_nil
  | .error cause :: _, _, _ => ⟨cause, List.mem_cons_self, rfl⟩
  | .ok name :: listing, cause, h => by
    have hcause : .error cause ∈ listing := (List.mem_cons.1 h).resolve_left nofun
    obtain ⟨cause', hcause', hresult⟩ := result_pickNumbered_error fs directory lead hcause
    refine ⟨cause', List.mem_cons_of_mem _ hcause', ?_⟩
    rw [result_pickNumbered_cons, hresult]
    rcases numberedName? fs directory lead (.ok name) with _ | d <;> rfl

theorem result_numberedEntries_error {cause : OsError} (h : .error cause ∈ listing) :
    ∃ cause', .error cause' ∈ listing ∧ result (numberedEntries fs directory lead listing)
      = .error (.unreadable directory cause') := by
  obtain ⟨cause', hcause', hresult⟩ := result_pickNumbered_error fs directory lead h
  exact ⟨cause', hcause', by rw [numberedEntries, result_bind, hresult, error_bind]⟩

end Entries

section Relisted

variable {list : String → Id (Except OsError (List (Except OsError String)))}

theorem pickNumbered_relist : ∀ listing : List (Except OsError String),
    pickNumbered (fs.relist list) directory lead listing = pickNumbered fs directory lead listing
  | [] => rfl
  | .error _ :: _ => rfl
  | .ok name :: listing => by
    rw [pickNumbered, pickNumbered, pickNumbered_relist listing]
    rfl

theorem numberedDirectories_of_failed {cause : OsError}
    (h : (fs.list directory).run = .error cause) :
    result (numberedDirectories fs directory lead) = .error (.unreadable directory cause) := by
  rw [numberedDirectories, result_bind, result_lift, ok_bind, h]
  rfl

theorem numberedDirectories_of_listed (h : (fs.list directory).run = .ok listing) :
    result (numberedDirectories fs directory lead)
      = result (numberedEntries fs directory lead listing) := by
  rw [numberedDirectories, result_bind, result_lift, ok_bind, h]

variable (hlist : ∀ directory, Reordered (fs.list directory).run (list directory).run)

include hlist

theorem DistinctAt.numberedDirectories_relist (h : DistinctAt fs directory lead) :
    numberedDirectories (fs.relist list) directory lead
      = numberedDirectories fs directory lead := by
  have hreordered := hlist directory
  change result (numberedDirectories (fs.relist list) directory lead)
    = result (numberedDirectories fs directory lead)
  generalize hlisting : (fs.list directory).run = found at hreordered
  generalize hlisting' : (list directory).run = found' at hreordered
  cases hreordered with
  | failed cause =>
    rw [numberedDirectories_of_failed hlisting, numberedDirectories_of_failed hlisting']
  | @listed listing listing' hperm =>
    rw [numberedDirectories_of_listed hlisting, numberedDirectories_of_listed hlisting',
      ← (h listing hlisting).numberedEntries_congr hperm, numberedEntries, numberedEntries,
      pickNumbered_relist]

theorem DistinctAt.readExposure_relist (h : DistinctAt fs layout.nodes "") :
    readExposure (fs.relist list) layout = readExposure fs layout := by
  rw [readExposure, readExposure, h.numberedDirectories_relist hlist]
  rfl

theorem readProcessor_relist {cpu : UInt32}
    (h : HasCaches fs path → DistinctAt fs (joinPath path "cache") "index") :
    readProcessor (fs.relist list) table cpu path = readProcessor fs table cpu path := by
  rw [readProcessor, readProcessor]
  refine bind_congr_of_ok fun held hheld => ?_
  cases Except.ok.inj hheld
  split_ifs with hcaches
  · rw [(h hcaches).numberedDirectories_relist hlist]
    rfl
  · rfl

theorem readProcessorCaches_relist
    (h : ∀ directory, ProcessorsAt fs layout node directory → DistinctProcessors fs directory) :
    readProcessorCaches (fs.relist list) layout node table
      = readProcessorCaches fs layout node table := by
  rw [readProcessorCaches, readProcessorCaches]
  refine bind_congr_of_ok fun found hfound => ?_
  rcases found with _ | directory
  · rfl
  · have hdirectory := h directory (processorDirectory_eq_some.1 (Except.ok.inj hfound))
    change (_ >>= _) = (_ >>= _)
    rw [hdirectory.processors.numberedDirectories_relist hlist]
    refine bind_congr_of_ok fun cpus hcpus => ?_
    rw [mapM_congr_of_mem fun d hd => readProcessor_relist hlist
      (hdirectory.indices d.1 d.2 ((mem_numberedDirectories hcpus).1 hd))]

end Relisted

/-- Listings with the same distinct entries give the same directories, by increasing number and
exactly those with a number; a name that could not be read leaves an error and nothing else. So
neither the exposure nor the caches of processors depend on the order of the listings. -/
theorem numberedEntries_relisted (fs : Files Id) :
    (∀ directory lead listing, Distinct fs directory lead listing → ∃ dirs,
      (∀ listing', listing'.Perm listing →
        result (numberedEntries fs directory lead listing') = .ok dirs)
      ∧ (dirs.map (·.1)).Pairwise (· < ·)
      ∧ ∀ n path, (n, path) ∈ dirs ↔ ∃ name, .ok name ∈ listing
        ∧ HasNumber fs directory lead name n ∧ path = joinPath directory name)
    ∧ (∀ directory lead listing cause, .error cause ∈ listing → ∃ cause', .error cause' ∈ listing
      ∧ result (numberedEntries fs directory lead listing)
        = .error (.unreadable directory cause'))
    ∧ ∀ list, (∀ directory, Reordered (fs.list directory).run (list directory).run) →
      (∀ layout, DistinctAt fs layout.nodes "" →
        result (readExposure (fs.relist list) layout) = result (readExposure fs layout))
      ∧ ∀ layout node table,
        (∀ directory, ProcessorsAt fs layout node directory → DistinctProcessors fs directory) →
        result (readProcessorCaches (fs.relist list) layout node table)
          = result (readProcessorCaches fs layout node table) := by
  refine ⟨fun directory lead listing h => ?_, fun directory lead listing cause hcause =>
    result_numberedEntries_error hcause, fun list hlist => ⟨fun layout h => ?_,
      fun layout node table h => ?_⟩⟩
  · refine ⟨_, fun listing' hperm => (h.numberedEntries_congr hperm).trans h.numberedEntries_eq,
      h.pairwise, fun n path => ?_⟩
    rw [(List.mergeSort_perm _ _).mem_iff, mem_numberedNames_iff]
  · rw [h.readExposure_relist hlist]
  · rw [readProcessorCaches_relist hlist h]

section Backwards

/-- Directories of processors among other names; `cpu3` is a file. -/
def mixedFiles : Files Id :=
  { FileTree.files (.directory []) with
    kind := fun path => some (if path = "d/cpu3" then .file else .directory) }

def mixedListing : List (Except OsError String) :=
  [.ok "cpu10", .ok "cpufreq", .ok "cpu2", .ok "cpu3", .ok "cpu+0"]

/-- Every listing backwards. -/
def backwards (fs : Files Id) (directory : String) :
    Id (Except OsError (List (Except OsError String))) :=
  (fs.list directory).run.map List.reverse

theorem reordered_backwards (fs : Files Id) (directory : String) :
    Reordered (fs.list directory).run (backwards fs directory).run := by
  change Reordered _ ((fs.list directory).run.map List.reverse)
  rcases (fs.list directory).run with cause | listing
  · exact .failed cause
  · exact .listed (List.reverse_perm listing)

theorem distinct_mixedListing : Distinct mixedFiles "d" "cpu" mixedListing :=
  distinct_iff.2 ⟨by simp [mixedListing], by decide +kernel⟩

theorem distinctAt_gapped : DistinctAt (gappedFiles true) gappedLayout.nodes "" := by
  refine (canonical_gapped true).distinctAt fun listing hlisting => ?_
  have hlist : ((gappedFiles true).list gappedLayout.nodes).run = .ok [.ok "0", .ok "1", .ok "2"] :=
    toOption_eq_some (by decide +kernel)
  cases hlist.symm.trans hlisting
  simp

theorem processorsAt_pair : ProcessorsAt (pair false).files gappedLayout 0 "node/node0" :=
  processorDirectory_eq_some.1 (by decide +kernel)

/-- Processors 0, 2 and 10 are found in any order, and a tree listed backwards has the same
exposure and the same caches. -/
theorem numberedEntries_relisted_backwards :
    (∃ dirs, result (numberedEntries mixedFiles "d" "cpu" mixedListing) = .ok dirs
      ∧ result (numberedEntries mixedFiles "d" "cpu" mixedListing.reverse) = .ok dirs
      ∧ (10, "d/cpu10") ∈ dirs ∧ ∀ path, (3, path) ∉ dirs)
    ∧ result (numberedEntries mixedFiles "d" "cpu" [.ok "cpu0", .error .notText, .ok "cpu1"])
      = .error (.unreadable "d" .notText)
    ∧ result (readExposure ((gappedFiles true).relist (backwards (gappedFiles true))) gappedLayout)
      = .ok (gappedExposure true)
    ∧ ∃ caches, result (readProcessorCaches ((pair false).files.relist
        (backwards (pair false).files)) gappedLayout 0 []) = .ok caches := by
  refine ⟨?_, ?_, ?_, ?_⟩
  · obtain ⟨dirs, hdirs, -, hmem⟩ :=
      (numberedEntries_relisted mixedFiles).1 "d" "cpu" mixedListing distinct_mixedListing
    refine ⟨dirs, hdirs _ (.refl _), hdirs _ (List.reverse_perm _), ?_, fun path hpath => ?_⟩
    · exact (hmem _ _).2 ⟨"cpu10", by decide, ⟨numberIn?_eq_some_iff.1 (by decide +kernel), rfl⟩,
        by decide +kernel⟩
    · obtain ⟨name, hname, ⟨hn, hdir⟩, -⟩ := (hmem _ _).1 hpath
      have hothers : ∀ name ∈ ["cpu10", "cpufreq", "cpu2", "cpu3", "cpu+0"],
          numberIn? "cpu" name = some 3 →
            (mixedFiles.isDirectory (joinPath "d" name)).run = false := by
        decide +kernel
      have hname : name ∈ ["cpu10", "cpufreq", "cpu2", "cpu3", "cpu+0"] := by
        simpa [mixedListing] using hname
      exact absurd hdir (Bool.eq_false_iff.1 (hothers name hname (numberIn?_eq_some_iff.2 hn)))
  · obtain ⟨cause, hcause, hresult⟩ := (numberedEntries_relisted mixedFiles).2.1 "d" "cpu"
      [.ok "cpu0", .error .notText, .ok "cpu1"] .notText (by decide)
    obtain rfl : cause = .notText := by simpa using hcause
    exact hresult
  · rw [((numberedEntries_relisted (gappedFiles true)).2.2 _ (reordered_backwards _)).1 gappedLayout
      distinctAt_gapped, readExposure_gapped]
  · obtain ⟨listed, hlisted, -⟩ :=
      exists_listed [] processorsAt_pair orderly_pair fun _ _ _ => soundIndex_pair
    refine ⟨_, (((numberedEntries_relisted (pair false).files).2.2 _ (reordered_backwards _)).2
      gappedLayout 0 [] fun directory hdirectory => ?_).trans hlisted⟩
    obtain rfl := Option.some.inj ((processorDirectory_eq_some.2 processorsAt_pair).symm.trans
      (processorDirectory_eq_some.2 hdirectory))
    exact orderly_pair.distinctProcessors

end Backwards

end Sysfs

end ComputeTopology
