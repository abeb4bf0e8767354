import ComputeTopology.Proofs.Unseen

/-!
# A failed reading of the platform

A probe for the platform fails because its sheet cannot be read, because the nodes cannot be looked
through, or because one of the platform's own numbers is malformed (`Sysfs.PlatformFails`). In the
first two cases the exposure stays as it was. In the third it does not: the exposure is there before
the numbers are looked at, and is kept though the probe fails. So a failed probe leaves an exposure
alone exactly if it does not come so far, or builds that same exposure again
(`Sysfs.platform_failure_keeps_iff`); in the tree `Sysfs.misnumbered` it moves the indices of nodes
that were surveyed before.
-/

namespace ComputeTopology

namespace PropertySheet

variable {s : PropertySheet} {n : UInt32}

/-- The numbers that the platform says of itself. -/
def platformKeys : List String :=
  ["platform_oem", "platform_id", "platform_rev"]

/-- The sheet has words where a number is to be for this key. -/
def Malformed (s : PropertySheet) (key : String) : Prop :=
  ∃ value, s.raw? key = some value ∧ Text.readUInt64? value.toList = none

/-- What is said of a key that is malformed. -/
theorem uint32_eq_error_iff {key : String} {f : FileFault} : s.uint32 key = .error f ↔
    ∃ value, s.raw? key = some value ∧ Text.readUInt64? value.toList = none
      ∧ f = .malformed s.path (key ++ ": expected integer, got '" ++ value ++ "'") := by
  unfold uint32 uint64 get
  rcases hraw : s.raw? key with _ | value
  · simp [Except.map]
  · rcases hread : Text.readUInt64? value.toList with _ | m
    · simp [Except.map, hread, eq_comm]
    · simp [Except.map, hread]

theorem exists_uint32_error_iff {key : String} :
    (∃ f, s.uint32 key = .error f) ↔ s.Malformed key := by
  simp only [uint32_eq_error_iff, Malformed]
  exact ⟨fun ⟨_, value, hraw, hread, _⟩ => ⟨value, hraw, hread⟩,
    fun ⟨value, hraw, hread⟩ => ⟨_, value, hraw, hread, rfl⟩⟩

/-- The platform cannot be made of the sheet exactly if one of its numbers is malformed. -/
theorem exists_platform_error_iff :
    (∃ f, s.platform n = .error f) ↔ ∃ key ∈ platformKeys, s.Malformed key := by
  simp only [platformKeys, List.mem_cons, List.not_mem_nil, or_false, exists_eq_or_imp,
    exists_eq_left, ← exists_uint32_error_iff]
  unfold platform
  rcases s.uint32 "platform_oem" with f | oem
  · simp
  · rcases s.uint32 "platform_id" with f | id
    · simp
    · rcases s.uint32 "platform_rev" with f | revision
      · simp
      · simp [pure, Except.pure]

end PropertySheet

namespace Sysfs

variable {fs : Files Id} {layout : Layout} {wait : UInt64 → Id Unit} {e X Y : Exposure}

/-- How a probe for the platform comes to fail, and what is exposed then. -/
inductive PlatformFails (fs : Files Id) (layout : Layout) (e : Exposure) :
    FileFault → Exposure → Prop
  | sheet {f : FileFault}
    (fault : result (PropertySheet.read fs (joinPath layout.topology "system_properties")) = .error f) :
    PlatformFails fs layout e f e
  | nodes {sheet : PropertySheet} {f : FileFault}
    (read : result (PropertySheet.read fs (joinPath layout.topology "system_properties")) = .ok sheet)
    (fault : result (readExposure fs layout) = .error f) : PlatformFails fs layout e f e
  | numbers {sheet : PropertySheet} {X : Exposure} {f : FileFault}
    (read : result (PropertySheet.read fs (joinPath layout.topology "system_properties")) = .ok sheet)
    (built : result (readExposure fs layout) = .ok X)
    (fault : sheet.platform (.ofNat X.length) = .error f) : PlatformFails fs layout e f X

/-- The sheet and the nodes are read, with exposure `X`, and then a number of the platform proves
malformed. -/
def Misnumbered (fs : Files Id) (layout : Layout) (X : Exposure) : Prop :=
  ∃ sheet, result (PropertySheet.read fs (joinPath layout.topology "system_properties")) = .ok sheet
    ∧ (∃ key ∈ PropertySheet.platformKeys, sheet.Malformed key)
    ∧ result (readExposure fs layout) = .ok X

theorem answer_platform_error_iff {f : Fault} :
    (machine fs layout wait).answer .platform e = (.error f, Y)
      ↔ ∃ g, f = g.toFault ∧ PlatformFails fs layout e g Y := by
  rw [answer_platform, platformParts]
  constructor
  · intro h
    rcases hsheet : result (PropertySheet.read fs (joinPath layout.topology "system_properties"))
      with g | sheet <;> rw [hsheet] at h
    · cases h
      exact ⟨g, rfl, .sheet hsheet⟩
    · rcases hX : result (readExposure fs layout) with g | X <;> rw [hX] at h
      · cases h
        exact ⟨g, rfl, .nodes hsheet hX⟩
      · obtain ⟨hplatform, rfl⟩ := Prod.mk.inj h
        rcases hnumbers : sheet.platform (.ofNat X.length) with g | platform
          <;> rw [hnumbers] at hplatform <;> cases hplatform
        exact ⟨g, rfl, .numbers hsheet hX hnumbers⟩
  · rintro ⟨g, rfl, hfails⟩
    cases hfails with
    | sheet fault => rw [fault]; rfl
    | nodes read fault => rw [read, fault]; rfl
    | numbers read built fault =>
      rw [read, built]
      exact Prod.ext (congrArg (Except.mapError FileFault.toFault) fault) rfl

/-- Only a failure at the platform's own numbers brings another exposure. -/
theorem PlatformFails.misnumbered {g : FileFault} (h : PlatformFails fs layout e g Y)
    (hne : Y ≠ e) : Misnumbered fs layout Y := by
  cases h with
  | sheet fault => exact absurd rfl hne
  | nodes read fault => exact absurd rfl hne
  | numbers read built fault =>
    exact ⟨_, read, PropertySheet.exists_platform_error_iff.1 ⟨g, fault⟩, built⟩

theorem Misnumbered.exists_fails (h : Misnumbered fs layout X) (e : Exposure) :
    ∃ g, PlatformFails fs layout e g X := by
  obtain ⟨sheet, hread, hmalformed, hX⟩ := h
  obtain ⟨g, hg⟩ := PropertySheet.exists_platform_error_iff.2 hmalformed
  exact ⟨g, .numbers hread hX hg⟩

/-- What a failed probe for the platform is answered with, and what is exposed then. It leaves the
exposure `e` alone exactly if every exposure that is built before a malformed number is met is `e`
itself; so it leaves every exposure alone exactly if it never fails at these numbers. -/
theorem platform_failure_keeps_iff (fs : Files Id) (layout : Layout) (wait : UInt64 → Id Unit) :
    (∀ e f Y, (machine fs layout wait).answer .platform e = (.error f, Y)
        ↔ ∃ g, f = g.toFault ∧ PlatformFails fs layout e g Y)
      ∧ (∀ e, (∀ f Y, (machine fs layout wait).answer .platform e = (.error f, Y) → Y = e)
        ↔ ∀ X, Misnumbered fs layout X → X = e)
      ∧ ((∀ e f Y, (machine fs layout wait).answer .platform e = (.error f, Y) → Y = e)
        ↔ ∀ X, ¬ Misnumbered fs layout X) := by
  have hkeeps : ∀ e,
      (∀ f Y, (machine fs layout wait).answer .platform e = (.error f, Y) → Y = e)
        ↔ ∀ X, Misnumbered fs layout X → X = e := by
    intro e
    constructor
    · intro h X hX
      obtain ⟨g, hg⟩ := hX.exists_fails e
      exact h _ _ (answer_platform_error_iff.2 ⟨g, rfl, hg⟩)
    · intro h f Y hanswer
      obtain ⟨g, -, hg⟩ := answer_platform_error_iff.1 hanswer
      by_contra hne
      exact hne (h Y (hg.misnumbered hne))
  refine ⟨fun _ _ _ => answer_platform_error_iff, hkeeps, fun h X hX => ?_, fun h e => ?_⟩
  · -- the exposure that is built cannot be both of two prior ones
    exact absurd ((hkeeps [] |>.1 (h []) X hX).symm.trans (hkeeps [0] |>.1 (h [0]) X hX)) nofun
  · exact (hkeeps e).2 fun X hX => absurd hX (h X)

/-- The two hosts, the render device of the GPU between them gone and the platform's first number
spoilt. -/
def misnumbered : Files Id :=
  { gappedFiles false with
    readText path :=
      if path = "kfd/system_properties" then .ok "platform_oem many" else gapped.readText path }

theorem readExposure_misnumbered :
    result (readExposure misnumbered gappedLayout) = .ok (gappedExposure false) := by
  have hnumbered : numberedDirectories misnumbered gappedLayout.nodes ""
      = numberedDirectories (gappedFiles false) gappedLayout.nodes "" :=
    numberedDirectories_congr (by decide +kernel) rfl fun _ _ => rfl
  have hall : [0, 1, 2].all (fun id =>
      (result (isExposed misnumbered gappedLayout id)).toOption = some (id ≠ 1 || false))
        = true := by
    decide +kernel
  refine readExposure_eq_ok.2 ⟨by decide +kernel, _, fun id => id ≠ 1 || false,
    hnumbered ▸ numberedDirectories_gapped false, rfl, fun id hid => toOption_eq_some ?_⟩
  exact of_decide_eq_true (List.all_eq_true.1 hall id hid)

theorem answer_platform_misnumbered :
    (machine misnumbered gappedLayout wait).answer .platform e = (.error (.unavailable
        "kfd/system_properties" ("failed to parse value from kfd/system_properties: "
          ++ "platform_oem: expected integer, got 'many'")), [0, 2]) := by
  rw [answer_platform_error_iff]
  refine ⟨.malformed "kfd/system_properties" "platform_oem: expected integer, got 'many'",
    by decide +kernel, ?_⟩
  have hsheet : result (PropertySheet.read misnumbered
      (joinPath gappedLayout.topology "system_properties"))
        = .ok ⟨"kfd/system_properties", [("platform_oem", "many")]⟩ := by
    rfl
  exact .numbers hsheet readExposure_misnumbered rfl

/-- Index 1 stands for the GPU before the failed probe, and for the second host after it. -/
theorem platform_failure_moves :
    ¬ ∀ (fs : Files Id) (layout : Layout) (wait : UInt64 → Id Unit) (e Y : Exposure) (f : Fault),
      (machine fs layout wait).answer .platform e = (.error f, Y) →
        Y = e ∧ ∀ i, Y.number i = e.number i := fun h =>
  absurd ((h misnumbered gappedLayout (fun _ => ()) [0, 1, 2] _ _ answer_platform_misnumbered).2 1)
    nofun

end Sysfs

end ComputeTopology
