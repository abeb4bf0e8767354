import ComputeTopology.Proofs.LeftOut
import ComputeTopology.Proofs.Restored
import ComputeTopology.Settings
import Mathlib.Algebra.Order.Group.Nat

/-!
# Settings files, whole and in part

Settings whose paths hold no control characters can be written if both delays have 63 bits, and come
back from their text. Any lines of keys, and any of the two tables, may be left out of the text;
then it is read as the settings with the usual values there (`Settings.without`,
`Settings.ofToml_withoutLines`).
-/

namespace ComputeTopology

section Without

variable (D : Omission)

def Layout.without (l : Layout) : Layout where
  topology := D.keep "kfd_topology" "/sys/devices/virtual/kfd/kfd/topology" l.topology
  memoryNodes := D.keep "system_nodes" "/sys/devices/system/node" l.memoryNodes
  processors := D.keep "system_cpus" "/sys/devices/system/cpu" l.processors
  processorTable := D.keep "cpuinfo" "/proc/cpuinfo" l.processorTable
  renderDevices := D.keep "dri" "/dev/dri" l.renderDevices

def Backoff.without (b : Backoff) : Backoff where
  maxAttempts := D.keep "max_attempts" 16 b.maxAttempts
  initialDelay := D.keep "initial_backoff_ms" 1 b.initialDelay
  maxDelay := D.keep "max_backoff_ms" 64 b.maxDelay

/-- The settings with the usual value in place of every field that is left out. -/
def Settings.without (s : Settings) : Settings where
  layout := D.keep "paths" {} (s.layout.without (D.inside "paths"))
  backoff := D.keep "retry" {} (s.backoff.without (D.inside "retry"))

end Without

/-- The paths hold no control characters. -/
def Layout.Printable (l : Layout) : Prop :=
  ∀ path ∈ [l.topology, l.memoryNodes, l.processors, l.processorTable, l.renderDevices],
    ∀ c ∈ path.toList, ¬Toml.IsControl c

instance (l : Layout) : Decidable l.Printable :=
  @List.decidableBAll String (fun path => ∀ c ∈ path.toList, ¬Toml.IsControl c)
    (fun path => List.decidableBAll _ path.toList) _

open Codec

section Restores

variable {D : Omission}

theorem Layout.restores : Layout.codec.Restores D (Layout.without D) := by
  apply Restores.record
  · iterate 5 apply List.Forall₂.cons (.of restores_string fun _ => rfl)
    exact .nil
  · decide
  · exact nofun
  · exact fun _ => rfl

theorem Backoff.restores : Backoff.codec.Restores D (Backoff.without D) := by
  apply Restores.record
  · apply List.Forall₂.cons (.of restores_uint32 fun _ => rfl)
    iterate 2 apply List.Forall₂.cons (.of restores_uint64 fun _ => rfl)
    exact .nil
  · decide
  · exact nofun
  · exact fun _ => rfl

theorem Settings.restores : Settings.codec.Restores D (Settings.without D) := by
  apply Restores.record
  · apply List.Forall₂.cons (.of Layout.restores fun _ => rfl)
    apply List.Forall₂.cons (.of Backoff.restores fun _ => rfl)
    exact .nil
  · decide
  · exact nofun
  · exact fun _ => rfl

end Restores

namespace Toml

variable {D : Omission}

/-- The tables as a JSON document. -/
def jsonOf (tables : List NamedTable) : Json :=
  .object (tables.map fun t => (some t.1, .object (t.2.map fun e => (some e.1, e.2.value.toJson))))

theorem entriesToJson_eq : ∀ entries : List (String × Toml),
    entriesToJson entries = entries.map fun e => (some e.1, e.2.toJson)
  | [] => rfl
  | (name, v) :: entries => by rw [entriesToJson, entriesToJson_eq entries]; rfl

theorem Entry.toJson_without (e : Entry) : e.value.toJson.without D = e.value.toJson := by
  cases e <;> rfl

theorem withoutMembers_entries (D : Omission) : ∀ es : List (String × Entry),
    Json.withoutMembers D (es.map fun e => (some e.1, e.2.value.toJson))
      = (es.filter fun e => !D.omits e.1).map fun e => (some e.1, e.2.value.toJson)
  | [] => rfl
  | e :: es => by
    rw [List.map_cons, Json.withoutMembers, withoutMembers_entries D es, Entry.toJson_without,
      List.filter_cons]
    cases D.omits e.1 <;> rfl

theorem withoutMembers_tables (D : Omission) : ∀ tables : List NamedTable,
    Json.withoutMembers D (tables.map fun t =>
        (some t.1, .object (t.2.map fun e => (some e.1, e.2.value.toJson))))
      = (keptTables D tables).map fun t =>
        (some t.1, .object (t.2.map fun e => (some e.1, e.2.value.toJson)))
  | [] => rfl
  | t :: tables => by
    rw [List.map_cons, Json.withoutMembers, withoutMembers_tables D tables, Json.without,
      withoutMembers_entries, keptTables_cons]
    cases D.omits t.1 <;> rfl

theorem jsonOf_keptTables (D : Omission) (tables : List NamedTable) :
    jsonOf (keptTables D tables) = (jsonOf tables).without D := by
  rw [jsonOf, jsonOf, Json.without, withoutMembers_tables]

theorem toJson_documentOf (tables : List NamedTable) :
    (documentOf tables).toJson = jsonOf tables := by
  simp only [documentOf, jsonOf, toJson, entriesToJson_eq, List.map_map, Function.comp_def]

end Toml

namespace Settings

variable {D : Omission} {s : Settings} {text : String}

theorem jsonOf_tables (s : Settings) : Toml.jsonOf s.tables = codec.write s := rfl

/-- An object has no surplus to be cut. -/
theorem ofDocument_documentOf (tables : List Toml.NamedTable) :
    ofDocument (Toml.documentOf tables) = codec.read (Toml.jsonOf tables) := by
  rw [ofDocument, Toml.toJson_documentOf, Toml.jsonOf]
  simp only [List.map_map]
  congr 2
  refine List.map_congr_left fun t _ => ?_
  simp only [Function.comp_apply]
  split_ifs <;> rfl

theorem ofDocument_keptTables (D : Omission) (s : Settings) :
    ofDocument (Toml.documentOf (Toml.keptTables D s.tables)) = some (s.without D) := by
  rw [ofDocument_documentOf, Toml.jsonOf_keptTables, jsonOf_tables, Settings.restores s]

theorem fits_tables_iff : (∀ t ∈ s.tables, ∀ e ∈ t.2, e.2.Fits)
    ↔ s.backoff.initialDelay.toNat ≤ 2 ^ 63 - 1 ∧ s.backoff.maxDelay.toNat ≤ 2 ^ 63 - 1 := by
  have hmax : Int64.maxValue.toInt = 2 ^ 63 - 1 := by decide
  have hattempts := s.backoff.maxAttempts.toNat_lt
  simp only [tables, List.forall_mem_cons, List.not_mem_nil, false_imp_iff, implies_true,
    Toml.Entry.Fits, hmax, true_and, and_true]
  omega

theorem printable_tables (hpaths : s.layout.Printable) :
    ∀ t ∈ s.tables, ∀ e ∈ t.2, e.2.Printable := by
  simp only [Layout.Printable, List.forall_mem_cons, List.not_mem_nil, false_imp_iff, implies_true,
    and_true] at hpaths
  simpa only [tables, List.forall_mem_cons, List.not_mem_nil, false_imp_iff, implies_true,
    Toml.Entry.Printable, and_true] using hpaths

theorem writable_tables (hpaths : s.layout.Printable)
    (hfits : ∀ t ∈ s.tables, ∀ e ∈ t.2, e.2.Fits) : ∀ t ∈ s.tables, Toml.Writable t := by
  -- the names do not depend on the settings
  have hnames : ∀ t ∈ s.tables.map fun t => (t.1, t.2.map (·.1)),
      Toml.Bare t.1 ∧ t.2.Nodup ∧ ∀ name ∈ t.2, Toml.Bare name := by
    change ∀ t ∈ ({} : Settings).tables.map fun t => (t.1, t.2.map (·.1)), _
    decide
  intro t ht
  obtain ⟨hbare, hnodup, hentries⟩ := hnames _ (List.mem_map_of_mem ht)
  exact ⟨hbare, hnodup, fun e he =>
    ⟨hentries e.1 (List.mem_map_of_mem he), hfits t ht e he, printable_tables hpaths t ht e he⟩⟩

theorem toToml_eq_ok : s.toToml = .ok text ↔ Toml.render s.tables = some text := by
  rw [toToml]
  rcases Toml.render s.tables with _ | t <;> simp

theorem ofToml_of_toToml (hpaths : s.layout.Printable) (htext : s.toToml = .ok text)
    (D : Omission) : ofToml (Toml.withoutLines D text) = .ok (s.without D) := by
  have hrender := toToml_eq_ok.1 htext
  have hfits : ∀ t ∈ s.tables, ∀ e ∈ t.2, e.2.Fits := by
    by_contra hfits
    rw [Toml.render_eq, if_neg hfits] at hrender
    cases hrender
  have hnames : (s.tables.map (·.1)).Nodup := by
    change (({} : Settings).tables.map (·.1)).Nodup
    decide
  rw [ofToml, Toml.parse?_withoutLines (writable_tables hpaths hfits) hnames hrender,
    Option.bind_some, ofDocument_keptTables]

/-- Settings are written if both delays have 63 bits, and then come back from their text; what is
left out of the text gets its usual value. -/
theorem ofToml_withoutLines (s : Settings) (hpaths : s.layout.Printable) :
    ((∃ text, s.toToml = .ok text)
        ↔ s.backoff.initialDelay.toNat ≤ 2 ^ 63 - 1 ∧ s.backoff.maxDelay.toNat ≤ 2 ^ 63 - 1)
      ∧ ∀ text, s.toToml = .ok text → ofToml text = .ok s
        ∧ ∀ D : Omission, ofToml (Toml.withoutLines D text) = .ok (s.without D) := by
  refine ⟨?_, fun text htext => ⟨?_, ofToml_of_toToml hpaths htext⟩⟩
  · simp only [toToml_eq_ok, Toml.render_eq, ← fits_tables_iff]
    split_ifs with hfits
    · exact ⟨fun _ => hfits, fun _ => ⟨_, rfl⟩⟩
    · exact ⟨nofun, fun h => absurd h hfits⟩
  · have hwhole := ofToml_of_toToml hpaths htext .none
    rwa [Toml.withoutLines_none] at hwhole

/-- Paths that need different notations, and a delay that is just small enough. -/
def quotedSettings : Settings where
  layout :=
    { topology := "a\\b", memoryNodes := "it's", processors := "'C:\\'"
      processorTable := "'''\"\"\"\\", renderDevices := "" }
  backoff := { maxAttempts := 0, initialDelay := 9223372036854775807, maxDelay := 0 }

/-- A path is left out, and the whole other table. -/
def withoutRetry : Omission := fun path =>
  path = [.field "paths", .field "cpuinfo"] ∨ path = [.field "retry"]

theorem ofToml_withoutLines_quoted : quotedSettings.layout.Printable
    ∧ ∃ text, quotedSettings.toToml = .ok text ∧ ofToml text = .ok quotedSettings
      ∧ ofToml (Toml.withoutLines withoutRetry text) = .ok
        { layout := { quotedSettings.layout with processorTable := "/proc/cpuinfo" } } := by
  have hpaths : quotedSettings.layout.Printable := by decide +kernel
  obtain ⟨hwritten, hread⟩ := ofToml_withoutLines quotedSettings hpaths
  obtain ⟨text, htext⟩ := hwritten.2 (by decide)
  exact ⟨hpaths, text, htext, (hread text htext).1,
    ((hread text htext).2 withoutRetry).trans (by decide +kernel)⟩

end Settings

end ComputeTopology
