import ComputeTopology.Proofs.Omission

/-!
# Values that come back from their documents

A codec restores a value if it reads what it wrote, and goes on to do so when members are left
out: then it reads what is left of the value (`Codec.Restores`). Each way to build a codec has a
lemma that says what its parts have to restore. For a record these are the fields
(`Field.Restores`), whose names must be distinct; a field that is left out keeps what the record
begins with (`Codec.Restores.record`).
-/

namespace ComputeTopology

variable {α ρ : Type} {D : Omission}

namespace Codec

/-- What the codec writes of `a`, it reads as `rest a` when the members of `D` are left out. -/
def Restores (D : Omission) (c : Codec α) (rest : α → α) : Prop :=
  ∀ a, c.read ((c.write a).without D) = some (rest a)

theorem Restores.congr {c : Codec α} {rest rest' : α → α} (h : c.Restores D rest)
    (heq : ∀ a, rest a = rest' a) : c.Restores D rest' := fun a => by
  rw [h a, heq a]

theorem Restores.read_write {c : Codec α} (h : c.Restores .none id) (a : α) :
    c.read (c.write a) = some a := by
  have := h a
  rwa [Json.without_of_idle Omission.idle_none] at this

/-- Where nothing is left out, it makes no difference how the members are named. -/
theorem Restores.of_idle {c : Codec α} (h : c.Restores .none id) (hD : D.Idle) :
    c.Restores D id := fun a => by
  rw [Json.without_of_idle hD]
  exact h.read_write a

section Scalar

/-- A number is written as it is, and read if it is below the bound. -/
theorem restores_below {bound : Nat} {toNat : α → Nat} {ofNat : Nat → α}
    (hlt : ∀ a, toNat a < bound) (hof : ∀ a, ofNat (toNat a) = a) :
    Restores D ⟨fun a => .integer (toNat a), fun j => (readBelow bound j).map ofNat⟩ id := by
  intro a
  have hread : readBelow bound (.integer (toNat a)) = some (toNat a) := if_pos (hlt a)
  change (readBelow bound (.integer (toNat a))).map ofNat = some a
  rw [hread, Option.map_some, hof]

theorem restores_bool : bool.Restores D id := fun _ => rfl

theorem restores_string : string.Restores D id := fun _ => rfl

theorem restores_uint8 : uint8.Restores D id :=
  restores_below UInt8.toNat_lt_size fun _ => UInt8.ofNat_toNat

theorem restores_uint16 : uint16.Restores D id :=
  restores_below UInt16.toNat_lt_size fun _ => UInt16.ofNat_toNat

theorem restores_uint32 : uint32.Restores D id :=
  restores_below UInt32.toNat_lt_size fun _ => UInt32.ofNat_toNat

theorem restores_uint64 : uint64.Restores D id :=
  restores_below UInt64.toNat_lt_size fun _ => UInt64.ofNat_toNat

theorem restores_int32 : int32.Restores D id := fun n => by
  change (if _ then _ else _) = _
  rw [if_pos ⟨n.minValue_le_toInt, n.toInt_le⟩, Int32.ofInt_toInt]
  rfl

theorem restores_choice {names : List (String × α)} {nameOf : α → String}
    (h : ∀ a, names.lookup (nameOf a) = some a) : (choice names nameOf).Restores D id :=
  h

/-- A number without a name is written as an object, and its tag must not be left out. -/
theorem restores_choiceOrNumber {names : List (String × α)} {nameOf : α → String ⊕ UInt32}
    {unknown : UInt32 → α} (hname : ∀ a name, nameOf a = .inl name → names.lookup name = some a)
    (hnumber : ∀ a n, nameOf a = .inr n → unknown n = a) (htag : D.omits "Unknown" = false) :
    (choiceOrNumber names nameOf unknown).Restores D id := fun a => by
  rcases h : nameOf a with name | n
  · simp only [choiceOrNumber, h]
    exact hname a name h
  · simp only [choiceOrNumber, h, Json.ofMembers, List.map_cons, List.map_nil, Json.without,
      Json.withoutMembers, htag, Bool.false_eq_true, if_false]
    rw [restores_uint32 n, Option.map_some]
    exact congrArg some (hnumber a n h)

end Scalar

theorem Restores.list {c : Codec α} {rest : Nat → α → α}
    (h : ∀ i, c.Restores (D.item i) (rest i)) : (list c).Restores D (·.mapIdx rest) := by
  have key : ∀ (xs : List α) (index : Nat),
      (Json.withoutItems D index (xs.map c.write)).mapM c.read
        = some ((xs.zipIdx index).map fun x => rest x.2 x.1) := by
    intro xs
    induction xs with
    | nil => intro _; rfl
    | cons x xs ih =>
      intro index
      rw [List.map_cons, Json.withoutItems, List.mapM_cons, h index x, ih]
      rfl
  exact fun xs => (key xs 0).trans (by simp only [List.mapIdx_eq_zipIdx_map])

theorem Restores.list_id {c : Codec α} (h : ∀ i, c.Restores (D.item i) id) :
    (Codec.list c).Restores D id :=
  (Restores.list h).congr fun xs => by simp [List.mapIdx_eq_zipIdx_map]

theorem read_option {c : Codec α} {j : Json} (h : j ≠ .null) :
    (Codec.option c).read j = (c.read j).map some := by
  cases j with
  | null => exact absurd rfl h
  | _ => rfl

/-- A value that is there must not be written as if it were missing. -/
theorem Restores.option {c : Codec α} {rest : α → α} (h : c.Restores D rest)
    (hnull : ∀ a, (c.write a).without D ≠ .null) : (option c).Restores D (·.map rest) := by
  rintro (_ | a)
  · rfl
  · change (Codec.option c).read ((c.write a).without D) = _
    rw [read_option (hnull a), h a]
    rfl

end Codec

namespace Field

/-- The field is put into a record as it was in `r`, as far as it is not left out. A field that is
left out stays as it is. -/
structure Restores (D : Omission) (f : Field ρ) (put : ρ → ρ → ρ) : Prop where
  omitted : D.omits f.name = true → ∀ r onto, put r onto = onto
  kept : D.omits f.name = false → ∀ r onto,
    f.read ((f.write r).without (D.inside f.name)) onto = some (put r onto)

theorem Restores.of {name : String} {c : Codec α} {get : ρ → α} {set : α → ρ → ρ} {rest : α → α}
    (h : c.Restores (D.inside name) rest) (hset : ∀ r, set (get r) r = r) :
    Restores D (.of name c get set) fun r onto =>
      set (D.keep name (get onto) (rest (get r))) onto where
  omitted homits r onto := by
    change D.omits name = true at homits
    rw [Omission.keep, homits]
    exact hset onto
  kept hkept r onto := by
    change D.omits name = false at hkept
    change (c.read ((c.write (get r)).without (D.inside name))).map (set · onto) = _
    rw [h (get r), Omission.keep, hkept]
    rfl

variable {strict : Bool} {fields : List (Field ρ)} {puts : List (ρ → ρ → ρ)}

theorem withoutMembers_cons (f : Field ρ) (r : ρ) :
    Json.withoutMembers D ((f :: fields).map fun g => (some g.name, g.write r))
      = (if D.omits f.name then [] else [(some f.name, (f.write r).without (D.inside f.name))])
        ++ Json.withoutMembers D (fields.map fun g => (some g.name, g.write r)) := by
  rw [List.map_cons, Json.withoutMembers]
  split_ifs <;> rfl

theorem exists_field_of_mem {r : ρ} {m : Option String × Json} :
    ∀ {fields : List (Field ρ)},
      m ∈ Json.withoutMembers D (fields.map fun g => (some g.name, g.write r)) →
        ∃ f ∈ fields, m.1 = some f.name
  | f :: fields, h => by
    rw [withoutMembers_cons, List.mem_append] at h
    rcases h with h | h
    · split_ifs at h
      · cases h
      · exact ⟨f, List.mem_cons_self, by rw [List.mem_singleton.1 h]⟩
    · obtain ⟨g, hg, hm⟩ := exists_field_of_mem h
      exact ⟨g, List.mem_cons_of_mem _ hg, hm⟩

/-- Of the members that are left of a record, at most one has the name of the field. -/
theorem filter_withoutMembers {f : Field ρ} {r : ρ} :
    ∀ {fields : List (Field ρ)}, (fields.map (·.name)).Nodup → f ∈ fields →
      (Json.withoutMembers D (fields.map fun g => (some g.name, g.write r))).filter
          (·.1 == some f.name)
        = if D.omits f.name then []
          else [(some f.name, (f.write r).without (D.inside f.name))]
  | g :: fields, hnames, hf => by
    rw [List.map_cons, List.nodup_cons] at hnames
    have hother : ∀ h ∈ fields, h.name ≠ g.name := fun h hh heq =>
      hnames.1 (List.mem_map.2 ⟨h, hh, heq⟩)
    rw [withoutMembers_cons, List.filter_append]
    rcases List.mem_cons.1 hf with rfl | hf
    · have hrest : (Json.withoutMembers D (fields.map fun g => (some g.name, g.write r))).filter
          (·.1 == some f.name) = [] := by
        refine List.filter_eq_nil_iff.2 fun m hm => ?_
        obtain ⟨h, hh, hname⟩ := exists_field_of_mem hm
        simpa [hname] using hother h hh
      rw [hrest, List.append_nil]
      split_ifs <;> simp
    · have hfirst : (if D.omits g.name then []
          else [(some g.name, (g.write r).without (D.inside g.name))]).filter
            (fun m => m.1 == some f.name) = [] := by
        split_ifs
        · rfl
        · simpa using (hother f hf).symm
      rw [hfirst, List.nil_append, filter_withoutMembers hnames.2 hf]

theorem readMembers_restores {members : List (Option String × Json)} {r : ρ}
    (hfields : List.Forall₂ (Restores D) fields puts)
    (hmembers : ∀ f ∈ fields, members.filter (·.1 == some f.name)
      = if D.omits f.name then [] else [(some f.name, (f.write r).without (D.inside f.name))])
    (hstrict : strict = true → ∀ f ∈ fields, D.omits f.name = false) (onto : ρ) :
    readMembers strict members fields onto
      = some (puts.foldl (fun onto put => put r onto) onto) := by
  induction hfields generalizing onto with
  | nil => rfl
  | @cons f put fields puts hf _ ih =>
    have hmember := hmembers f List.mem_cons_self
    have ih := ih (fun g hg => hmembers g (List.mem_cons_of_mem _ hg))
      fun hs g hg => hstrict hs g (List.mem_cons_of_mem _ hg)
    rw [readMembers, hmember, List.foldl_cons]
    rcases homits : D.omits f.name with _ | _
    · simp only [Bool.false_eq_true, if_false]
      rw [hf.kept homits, Option.bind_some, ih]
    · have hlax : strict = false := by
        rw [Bool.eq_false_iff]
        intro hs
        rw [hstrict hs f List.mem_cons_self] at homits
        cases homits
      simp only [if_true, hlax, Bool.false_eq_true, if_false]
      rw [← hlax, ih, hf.omitted homits]

end Field

/-- A record is put together from what its fields restore, beginning with `start`. -/
theorem Codec.Restores.record {fields : List (Field ρ)} {puts : List (ρ → ρ → ρ)} {start : ρ}
    {strict : Bool} {rest : ρ → ρ} (hfields : List.Forall₂ (Field.Restores D) fields puts)
    (hnames : (fields.map (·.name)).Nodup)
    (hstrict : strict = true → ∀ f ∈ fields, D.omits f.name = false)
    (hrest : ∀ r, puts.foldl (fun onto put => put r onto) start = rest r) :
    (Codec.record fields start strict).Restores D rest := by
  intro r
  have hread := Field.readMembers_restores hfields
    (fun f hf => Field.filter_withoutMembers (r := r) hnames hf) hstrict start
  have hnamed : (Json.withoutMembers D (fields.map fun f => (some f.name, f.write r))).all
      (·.1.isSome) = true := by
    refine List.all_eq_true.2 fun m hm => ?_
    obtain ⟨f, -, hname⟩ := Field.exists_field_of_mem hm
    rw [hname]
    rfl
  have hmembers : (Codec.record fields start strict).write r
      = .object (fields.map fun f => (some f.name, f.write r)) := by
    simp [Codec.record, Json.ofMembers]
  rw [hmembers, Json.without]
  change (if _ then _ else _) = _
  rw [if_pos hnamed, hread, hrest]

end ComputeTopology
