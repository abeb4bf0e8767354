import ComputeTopology.Sysfs.Fault
import Mathlib.Data.List.Basic
import Mathlib.Tactic.Common

/-!
# What readers find in fixed files

In files that do not change a reader is a value or a fault (`Sysfs.result`), and a sequence of
readers finds a value if each of them does (`bind_eq_ok`). So loops of readers are maps and filters
(`Sysfs.result_mapM`, `Sysfs.exists_of_filterM`).
-/

namespace ComputeTopology

section Except

variable {α β ε ε' : Type}

@[simp]
theorem ok_bind (a : α) (f : α → Except ε β) : (Except.ok a >>= f) = f a := rfl

@[simp]
theorem error_bind (e : ε) (f : α → Except ε β) : (Except.error e >>= f) = .error e := rfl

theorem bind_eq_ok {x : Except ε α} {f : α → Except ε β} {b : β} :
    (x >>= f) = .ok b ↔ ∃ a, x = .ok a ∧ f a = .ok b := by
  rcases x with e | a
  · exact ⟨nofun, fun ⟨_, h, _⟩ => nomatch h⟩
  · refine ⟨fun h => ⟨a, rfl, h⟩, ?_⟩
    rintro ⟨_, ha, h⟩
    cases ha
    exact h

theorem mapError_eq_ok {x : Except ε α} {f : ε → ε'} {a : α} :
    x.mapError f = .ok a ↔ x = .ok a := by
  rcases x with e | b
  · exact ⟨nofun, nofun⟩
  · exact ⟨fun h => congrArg _ (Except.ok.inj h), fun h => congrArg _ (Except.ok.inj h)⟩

theorem toOption_eq_some {x : Except ε α} {a : α} (h : x.toOption = some a) : x = .ok a := by
  rcases x with e | b <;> cases h
  rfl

/-- Whatever comes of it has the property. -/
def Ensures (P : β → Prop) (x : Except ε β) : Prop :=
  ∀ b, x = .ok b → P b

theorem ensures_pure {P : β → Prop} {b : β} (h : P b) : Ensures P (pure b : Except ε β) :=
  fun _ hb => Except.ok.inj hb ▸ h

theorem ensures_bind {P : β → Prop} {x : Except ε α} {f : α → Except ε β}
    (hf : ∀ a, x = .ok a → Ensures P (f a)) : Ensures P (x >>= f) := fun b hb => by
  obtain ⟨a, ha, hb⟩ := bind_eq_ok.1 hb
  exact hf a ha b hb

/-- It comes to something exactly if `p` holds, and what it comes to has the property. -/
def Settles (p : Prop) (P : α → Prop) : Except ε α → Prop
  | .ok a => p ∧ P a
  | .error _ => ¬p

section Settles

variable {p q : Prop} {P : α → Prop} {Q : β → Prop} {x : Except ε α}

theorem settles_iff : Settles p P x ↔ ((∃ a, x = .ok a) ↔ p) ∧ ∀ a, x = .ok a → P a := by
  rcases x with e | a
  · exact ⟨fun h => ⟨⟨nofun, fun hp => absurd hp h⟩, nofun⟩,
      fun h hp => nomatch (h.1.2 hp).choose_spec⟩
  · refine ⟨fun h => ⟨⟨fun _ => h.1, fun _ => ⟨a, rfl⟩⟩, ?_⟩, fun h => ⟨h.1.1 ⟨a, rfl⟩, h.2 a rfl⟩⟩
    rintro _ ⟨⟩
    exact h.2

theorem Settles.imp (h : Settles p P x) (hpq : p ↔ q) {P' : α → Prop} (hP : ∀ a, P a → P' a) :
    Settles q P' x := by
  rcases x with e | a
  · exact fun hq => h (hpq.2 hq)
  · exact ⟨hpq.1 h.1, hP a h.2⟩

theorem Settles.bind {f : α → Except ε β} (hx : Settles p P x)
    (hf : ∀ a, P a → Settles q Q (f a)) : Settles (p ∧ q) Q (x >>= f) := by
  rcases x with e | a
  · exact fun h => hx h.1
  · have h := hf a hx.2
    rw [ok_bind]
    rcases hb : f a with e | b <;> rw [hb] at h
    · exact fun hpq => h hpq.2
    · exact ⟨⟨hx.1, h.1⟩, h.2⟩

theorem Settles.map {g : α → β} (hx : Settles p P x) (hg : ∀ a, P a → Q (g a)) :
    Settles p Q (x.map g) := by
  rcases x with e | a
  · exact hx
  · exact ⟨hx.1, hg a hx.2⟩

end Settles

end Except

namespace Sysfs

variable {α β : Type}

/-- What a reader finds in files that do not change. -/
def result (x : ExceptT FileFault Id α) : Except FileFault α :=
  x.run.run

@[simp]
theorem result_pure (a : α) : result (pure a) = .ok a := rfl

@[simp]
theorem result_throw (e : FileFault) : result (throw e : ExceptT FileFault Id α) = .error e := rfl

@[simp]
theorem result_lift (x : Id α) :
    result (@liftM Id (ExceptT FileFault Id) (instMonadLiftTOfMonadLift Id Id _) α x)
      = .ok x.run := rfl

@[simp]
theorem result_mk (x : Id (Except FileFault α)) : result (ExceptT.mk x) = x.run := rfl

@[simp]
theorem result_bind (x : ExceptT FileFault Id α) (f : α → ExceptT FileFault Id β) :
    result (x >>= f) = result x >>= fun a => result (f a) := by
  unfold result
  rw [ExceptT.run_bind, Id.run_bind]
  rcases x.run.run with e | a <;> rfl

/-- What comes after a reader depends only on what can come of it. -/
theorem bind_congr_of_ok {x : ExceptT FileFault Id α} {f g : α → ExceptT FileFault Id β}
    (h : ∀ a, result x = .ok a → f a = g a) : x >>= f = x >>= g := by
  change result (x >>= f) = result (x >>= g)
  rw [result_bind, result_bind]
  rcases hx : result x with e | a
  · rfl
  · rw [ok_bind, ok_bind, h a hx]

theorem mapM_congr_of_mem {f g : α → ExceptT FileFault Id β} :
    ∀ {l : List α}, (∀ a ∈ l, f a = g a) → l.mapM f = l.mapM g
  | [], _ => rfl
  | a :: l, h => by
    rw [List.mapM_cons, List.mapM_cons, h a List.mem_cons_self,
      mapM_congr_of_mem fun b hb => h b (List.mem_cons_of_mem _ hb)]

theorem result_mapM {f : α → ExceptT FileFault Id β} {g : α → β} :
    ∀ {l : List α}, (∀ a ∈ l, result (f a) = .ok (g a)) → result (l.mapM f) = .ok (l.map g)
  | [], _ => rfl
  | a :: l, h => by
    rw [List.mapM_cons, result_bind, h a List.mem_cons_self, ok_bind, result_bind,
      result_mapM fun b hb => h b (List.mem_cons_of_mem _ hb)]
    rfl

theorem exists_of_mapM {f : α → ExceptT FileFault Id β} :
    ∀ {l : List α} {bs : List β}, result (l.mapM f) = .ok bs → ∀ a ∈ l, ∃ b, result (f a) = .ok b
  | [], _, _, _, ha => absurd ha List.not_mem_nil
  | a :: l, bs, h, c, hc => by
    rw [List.mapM_cons, result_bind, bind_eq_ok] at h
    obtain ⟨b, hb, h⟩ := h
    rcases List.mem_cons.1 hc with rfl | hc
    · exact ⟨b, hb⟩
    · rw [result_bind, bind_eq_ok] at h
      obtain ⟨bs', hbs, -⟩ := h
      exact exists_of_mapM hbs c hc

section Filter

variable {p : α → ExceptT FileFault Id Bool} {g : α → Bool}

theorem result_filterAuxM :
    ∀ {l acc : List α}, (∀ a ∈ l, result (p a) = .ok (g a)) →
      result (l.filterAuxM p acc) = .ok ((l.filter g).reverse ++ acc)
  | [], _, _ => rfl
  | a :: l, acc, h => by
    have ha := h a List.mem_cons_self
    rw [List.filterAuxM, result_bind, ha]
    change result (l.filterAuxM p (cond (g a) (a :: acc) acc)) = _
    rw [result_filterAuxM fun b hb => h b (List.mem_cons_of_mem _ hb), List.filter_cons]
    cases g a <;> simp

theorem exists_of_filterAuxM :
    ∀ {l acc kept : List α}, result (l.filterAuxM p acc) = .ok kept →
      ∀ a ∈ l, ∃ b, result (p a) = .ok b
  | [], _, _, _, _, ha => absurd ha List.not_mem_nil
  | a :: l, acc, kept, h, b, hb => by
    rw [List.filterAuxM, result_bind, bind_eq_ok] at h
    obtain ⟨v, hv, h⟩ := h
    rcases List.mem_cons.1 hb with rfl | hb
    · exact ⟨v, hv⟩
    · exact exists_of_filterAuxM h b hb

theorem result_filterM {l : List α} (h : ∀ a ∈ l, result (p a) = .ok (g a)) :
    result (l.filterM p) = .ok (l.filter g) := by
  rw [List.filterM, result_bind, result_filterAuxM h]
  change Except.ok ((l.filter g).reverse ++ []).reverse = _
  simp

/-- A filter that may fail keeps what it is told to keep. -/
theorem exists_of_filterM {l kept : List α} (h : result (l.filterM p) = .ok kept) :
    ∃ g : α → Bool, kept = l.filter g ∧ ∀ a ∈ l, result (p a) = .ok (g a) := by
  have hall : ∀ a ∈ l, ∃ b, result (p a) = .ok b := by
    rw [List.filterM, result_bind, bind_eq_ok] at h
    obtain ⟨_, haux, -⟩ := h
    exact exists_of_filterAuxM haux
  have hg : ∀ a ∈ l, result (p a) = .ok ((result (p a)).toOption.getD false) := fun a ha => by
    obtain ⟨b, hb⟩ := hall a ha
    rw [hb]
    rfl
  rw [result_filterM hg] at h
  exact ⟨_, (Except.ok.inj h).symm, hg⟩

end Filter

end Sysfs

end ComputeTopology
