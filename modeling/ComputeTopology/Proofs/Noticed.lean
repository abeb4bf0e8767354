import ComputeTopology.Files.Tree
import ComputeTopology.Proofs.Bounded
import ComputeTopology.Proofs.Candid
import Mathlib.Algebra.Order.Group.Nat

/-!
# Which changes of the generation are noticed

The driver's generation is a number of 64 bits, and of these a survey of the driver's tree compares
the low 32. So what an attempt has read between two readings of the file is published exactly if
the two numbers agree in these bits (`Sysfs.take_noticed_iff`). Of numbers that fit in 32 bits every
change is noticed; from any number on, 2 ^ 32 changes in one attempt are not
(`Sysfs.turning_unnoticed`).
-/

namespace ComputeTopology

namespace Survey

variable {σ : Type} {M : Machine (StateM σ)} {b : Backoff} {s u u' t t' : σ} {k : Nat}
  {before before' : List (Exchange × σ)}

theorem Torn.unique (h : Torn M k u t) (h' : Torn M k u t') : t = t' :=
  (Prod.mk.inj ((run_eq_none_iff_torn.2 h).symm.trans (run_eq_none_iff_torn.2 h'))).2

theorem Begins.pos (h : Begins M b s k u before) : 1 ≤ k := by
  cases h <;> omega

/-- There is one state in which a survey begins an attempt. -/
theorem Begins.unique (h : Begins M b s k u before) (h' : Begins M b s k u' before') : u = u' := by
  induction h generalizing u' before' with
  | first =>
    cases h' with
    | first => rfl
    | next begins torn => exact absurd begins.pos (by omega)
  | @next k u t before begins torn ih =>
    cases h' with
    | first => exact absurd begins.pos (by omega)
    | next begins' torn' =>
      obtain rfl := ih begins'
      rw [torn.unique torn']

end Survey

namespace Publisher

variable {σ : Type} {M : Machine (StateM σ)} {p : Publisher} {s u : σ} {k : Nat}
  {before : List (Exchange × σ)}

/-- The survey publishes what its attempt `k` found. -/
def PublishedBy (p : Publisher) (M : Machine (StateM σ)) (s : σ) (k : Nat) : Prop :=
  ∃ S tally t, tally.attempts.toNat = k ∧ p.take M s = ((.ok (), p.publish S tally), t)

/-- A survey publishes what its attempt `k` finds, and under this number nothing else. -/
theorem take_numbered_iff (hbegins : Survey.Begins M p.backoff s k u before)
    (hle : k ≤ p.backoff.attempts.toNat) {S : Snapshot} {tally : Tally} {t : σ}
    (hnumber : tally.attempts.toNat = k) :
    p.take M s = ((.ok (), p.publish S tally), t)
      ↔ (Survey.attempt (.ofNat k)).run M u = (.ok (some (S, tally)), t) := by
  constructor
  · intro h
    obtain ⟨S', tally', hrun, hpublish⟩ := take_ok h
    cases hpublish
    obtain ⟨k', u', before', hends⟩ := Survey.exists_ends M p.backoff s
    rw [hends.run_eq] at hrun
    have hfound := found_of_run (Nat.lt_of_le_of_lt hends.le (UInt32.toNat_lt_size _)) hrun
    obtain rfl : k = k' := hnumber.symm.trans hfound.number
    rwa [hbegins.unique hends.begins]
  · intro h
    have hends := hbegins.ends hle fun htorn => by
      rw [Survey.run_eq_none_iff_torn.2 htorn] at h
      cases h
    rw [take_of_ends hends, h]
    rfl

end Publisher

namespace Sysfs

open Survey

variable {τ : Type} {fs : Files (StateM τ)} {layout : Layout} {wait : UInt64 → StateM τ Unit}
  {e : Exposure} {k : Nat} {first last : UInt64} {u s : Exposure × τ}
  {c : Platform × List Node × Tally} {before : List (Exchange × (Exposure × τ))}

/-- The number in the driver's generation file. -/
def readGeneration (fs : Files (StateM τ)) (layout : Layout) : ExceptT FileFault (StateM τ) UInt64 :=
  readUInt64 fs (joinPath layout.topology "generation_id")

/-- An attempt that begins in state `u` reads the content `c` between the generations `first` and
`last`, whatever becomes of the files meanwhile. -/
def Passes (fs : Files (StateM τ)) (layout : Layout) (wait : UInt64 → StateM τ Unit)
    (u : Exposure × τ) (first : UInt64) (c : Platform × List Node × Tally) (last : UInt64)
    (t : Exposure × τ) : Prop :=
  ∃ v w, (readGeneration fs layout).run u.2 = (.ok first, v)
    ∧ content.run (machine fs layout wait).flat (u.1, v) = (.ok c, w)
    ∧ (readGeneration fs layout).run w.2 = (.ok last, t.2) ∧ t.1 = w.1

theorem answer_generation_flat {v : τ} {g : UInt64}
    (h : (readGeneration fs layout).run u.2 = (.ok g, v)) :
    (machine fs layout wait).flat.answer .generation u = (.ok g.toUInt32, (u.1, v)) := by
  unfold readGeneration at h
  simp only [Machine.flat, machine, answer, ofTree, Bind.bind, StateT.bind, h]
  rfl

theorem Passes.run_attempt {t : Exposure × τ} (h : Passes fs layout wait u first c last t)
    (number : UInt32) : (attempt number).run (machine fs layout wait).flat u
      = (.ok (verdict number first.toUInt32 last.toUInt32 c), t) := by
  obtain ⟨v, w, hfirst, hcontent, hlast, ht⟩ := h
  rw [attempt_eq, run_ask_ok (answer_generation_flat hfirst), run_bind, hcontent]
  simp only
  rw [run_ask_ok (answer_generation_flat hlast), run_done, ← ht]

theorem toUInt32_eq_iff {a b : UInt64} :
    a.toUInt32 = b.toUInt32 ↔ a.toNat % 2 ^ 32 = b.toNat % 2 ^ 32 := by
  rw [← UInt32.toNat_inj, UInt64.toNat_toUInt32, UInt64.toNat_toUInt32]

theorem Passes.torn_iff {t : Exposure × τ} (h : Passes fs layout wait u first c last t) :
    Torn (machine fs layout wait).flat k u t ↔ first.toUInt32 ≠ last.toUInt32 := by
  rw [← run_eq_none_iff_torn, h.run_attempt, ← verdict_eq_none_iff (c := c)]
  exact ⟨fun heq => Except.ok.inj (Prod.mk.inj heq).1, fun heq => by rw [heq]⟩

section Attempt

variable {p : Publisher} {t : Exposure × τ}
  (hbegins : Begins (machine fs layout wait).flat p.backoff s k u before)
  (hle : k ≤ p.backoff.attempts.toNat) (hpasses : Passes fs layout wait u first c last t)

include hbegins hle hpasses

theorem Passes.take_eq (heq : first.toUInt32 = last.toUInt32) :
    p.take (machine fs layout wait).flat s
      = ((.ok (), p.publish ⟨c.1, c.2.1, last.toUInt32⟩ { c.2.2 with attempts := .ofNat k }), t) := by
  have hk : (UInt32.ofNat k).toNat = k :=
    UInt32.toNat_ofNat_of_lt' (Nat.lt_of_le_of_lt hle (UInt32.toNat_lt_size _))
  rw [Publisher.take_numbered_iff hbegins hle hk, hpasses.run_attempt, verdict, if_pos heq]

theorem Passes.publishedBy_iff :
    p.PublishedBy (machine fs layout wait).flat s k ↔ first.toUInt32 = last.toUInt32 := by
  constructor
  · rintro ⟨S, tally, t', hnumber, hpublished⟩
    rw [Publisher.take_numbered_iff hbegins hle hnumber, hpasses.run_attempt] at hpublished
    by_contra hne
    rw [verdict_eq_none_iff.2 hne] at hpublished
    cases hpublished
  · exact fun heq => ⟨_, _, _, UInt32.toNat_ofNat_of_lt'
      (Nat.lt_of_le_of_lt hle (UInt32.toNat_lt_size _)), hpasses.take_eq hbegins hle heq⟩

/-- What attempt `k` has read between two readings of the generation is published exactly if these
have the same low 32 bits. So of two numbers below 2 ^ 32 a change is always noticed. -/
theorem take_noticed_iff :
    (p.PublishedBy (machine fs layout wait).flat s k
        ↔ first.toNat % 2 ^ 32 = last.toNat % 2 ^ 32)
      ∧ (first.toNat % 2 ^ 32 = last.toNat % 2 ^ 32 → p.take (machine fs layout wait).flat s
        = ((.ok (), p.publish ⟨c.1, c.2.1, last.toUInt32⟩ { c.2.2 with attempts := .ofNat k }), t))
      ∧ (Torn (machine fs layout wait).flat k u t
        ↔ first.toNat % 2 ^ 32 ≠ last.toNat % 2 ^ 32) := by
  simp only [Ne, ← toUInt32_eq_iff]
  exact ⟨hpasses.publishedBy_iff hbegins hle, hpasses.take_eq hbegins hle, hpasses.torn_iff⟩

end Attempt

/-- A tree without nodes. -/
def nodeless (generation : String) : FileTree :=
  .directory [
    ("kfd", .directory [
      ("generation_id", .file generation),
      ("system_properties", .file "platform_oem 2"),
      ("nodes", .directory [])])]

/-- Files that change 2 ^ 32 times while the platform's sheet is read. -/
def turning : Files (StateM FileTree) :=
  { FileTree.liveFiles with
    readText path := do
      let text ← FileTree.liveFiles.readText path
      if path = "kfd/system_properties" then set (nodeless "4294967297")
      return text }

def turningLayout : Layout where
  topology := "kfd"

/-- The content that is read is that of the tree before the changes. -/
theorem exists_passes_turning : ∃ t, Passes turning turningLayout (fun _ => return ())
    ([], nodeless "1") 1 (⟨0, 2, 0, 0⟩, [], {}) 4294967297 t :=
  ⟨(_, _), _, _, Prod.ext (toOption_eq_some (by decide +kernel)) rfl,
    Prod.ext (toOption_eq_some (by decide +kernel)) rfl,
    Prod.ext (toOption_eq_some (by decide +kernel)) rfl, rfl⟩

theorem take_noticed_iff_turning : ∃ t,
    Passes turning turningLayout (fun _ => return ()) ([], nodeless "1") 1 (⟨0, 2, 0, 0⟩, [], {})
        4294967297 t
      ∧ Publisher.PublishedBy {} (machine turning turningLayout fun _ => return ()).flat
        ([], nodeless "1") 1 :=
  exists_passes_turning.imp fun _ h =>
    ⟨h, (take_noticed_iff (p := {}) .first (by decide +kernel) h).1.2 (by decide +kernel)⟩

theorem turning_unnoticed :
    ¬ ∀ (fs : Files (StateM FileTree)) (layout : Layout) (wait : UInt64 → StateM FileTree Unit)
      (p : Publisher) (s u t : Exposure × FileTree) (k : Nat)
      (before : List (Exchange × (Exposure × FileTree))) (first last : UInt64)
      (c : Platform × List Node × Tally),
      Begins (machine fs layout wait).flat p.backoff s k u before → k ≤ p.backoff.attempts.toNat →
        Passes fs layout wait u first c last t → first ≠ last →
          ¬ p.PublishedBy (machine fs layout wait).flat s k := by
  intro h
  obtain ⟨t, hpasses⟩ := exists_passes_turning
  exact h _ _ _ {} _ _ _ 1 [] _ _ _ .first (by decide +kernel) hpasses (by decide)
    ((hpasses.publishedBy_iff .first (by decide +kernel)).2 rfl)

end Sysfs

end ComputeTopology
