import ComputeTopology.Route
import Mathlib.Algebra.GroupWithZero.Nat
import Mathlib.Tactic.Common

/-!
# Routes are walks

A walk between two nodes (`Route.Walk`) runs over direct links alone: from the source to its host,
on to the host of the target where that is another node, and to the target. Its hosts and its hops
are the first links of their kind, so there is one walk at most (`Route.Walk.unique`). The search
for a route goes through the nodes and gives up at the first hop that is not there; it finds the
walk with its fabric and its weight, whenever there is one between two nodes that may be joined and
the weights of its hops have a sum of 32 bits (`Route.find?_eq_some_iff`).
-/

namespace ComputeTopology.Route

/-- `l` is the first one of the links for which `P` holds. -/
def First (P : Link → Prop) (links : List Link) (l : Link) : Prop :=
  ∃ before after, links = before ++ l :: after ∧ P l ∧ ∀ k ∈ before, ¬ P k

theorem find?_eq_some_iff_first {P : Link → Prop} {p : Link → Bool} (hp : ∀ l, p l = true ↔ P l)
    {links : List Link} {l : Link} : links.find? p = some l ↔ First P links l := by
  rw [List.find?_eq_some_iff_append]
  constructor
  · rintro ⟨hl, before, after, hlinks, hbefore⟩
    refine ⟨before, after, hlinks, (hp l).1 hl, fun k hk hP => ?_⟩
    simpa [(hp k).2 hP] using hbefore k hk
  · rintro ⟨before, after, hlinks, hl, hbefore⟩
    refine ⟨(hp l).2 hl, before, after, hlinks, fun k hk => ?_⟩
    have hk' := mt (hp k).1 (hbefore k hk)
    simpa using hk'

theorem First.unique {P : Link → Prop} {links : List Link} {l l' : Link} (h : First P links l)
    (h' : First P links l') : l = l' := by
  classical
  have hp : ∀ k, decide (P k) = true ↔ P k := fun k => decide_eq_true_iff
  exact Option.some.inj
    (((find?_eq_some_iff_first hp).2 h).symm.trans ((find?_eq_some_iff_first hp).2 h'))

theorem First.exists {P : Link → Prop} {links : List Link} {l : Link} (hl : l ∈ links) (h : P l) :
    ∃ k, First P links k := by
  classical
  have hsome : (links.find? fun k => P k).isSome := List.find?_isSome.2 ⟨l, hl, by simpa using h⟩
  obtain ⟨k, hk⟩ := Option.isSome_iff_exists.1 hsome
  exact ⟨k, (find?_eq_some_iff_first fun k => decide_eq_true_iff).1 hk⟩

theorem First.mem {P : Link → Prop} {links : List Link} {l : Link} (h : First P links l) :
    l ∈ links := by
  obtain ⟨before, after, rfl, -⟩ := h
  simp

theorem First.prop {P : Link → Prop} {links : List Link} {l : Link} (h : First P links l) :
    P l := by
  obtain ⟨-, -, -, hl, -⟩ := h
  exact hl

/-- A PCI Express link that stays within the socket. -/
def Near (l : Link) : Prop :=
  l.kind = .direct ∧ l.fabric = .pciExpress ∧ l.weight ≤ socketWeight

instance : DecidablePred Near := fun l =>
  inferInstanceAs (Decidable (l.kind = .direct ∧ l.fabric = .pciExpress ∧ l.weight ≤ socketWeight))

/-- Node `host` is the host of the GPU node `gpu`. -/
def Host (nodes : List Node) (gpu host : UInt32) : Prop :=
  ∃ n l, nodes[gpu.toNat]? = some n ∧ n.isGpu = true ∧ First Near n.links l ∧ l.target = host

/-- `l` is the first direct link from node `source` to node `target`. -/
def Hop (nodes : List Node) (source target : UInt32) (l : Link) : Prop :=
  ∃ n, nodes[source.toNat]? = some n
    ∧ First (fun k => k.kind = .direct ∧ k.target = target) n.links l

/-- The hops that lead from `source` to `target`, and the fabric of the middle one. -/
inductive Walk (nodes : List Node) (source target : UInt32) : List Link → Fabric → Prop
  | overSharedHost {host : UInt32} {a b : Link} :
    Host nodes source host → Host nodes target host →
    Hop nodes source host a → Hop nodes host target b →
    Walk nodes source target [a, b] b.fabric
  /-- GPUs behind different sockets do not reach each other over QPI. -/
  | overHosts {host₁ host₂ : UInt32} {a b c : Link} :
    Host nodes source host₁ → Host nodes target host₂ → host₁ ≠ host₂ →
    Hop nodes source host₁ a → Hop nodes host₁ host₂ b → Hop nodes host₂ target c →
    ¬ (b.fabric = .qpi ∧ socketWeight < b.weight) →
    Walk nodes source target [a, b, c] b.fabric
  | overSourceHost {host : UInt32} {a b : Link} :
    Host nodes source host → (∀ h, ¬ Host nodes target h) →
    Hop nodes source host a → Hop nodes host target b →
    Walk nodes source target [a, b] b.fabric
  | overTargetHost {host : UInt32} {a b : Link} :
    (∀ h, ¬ Host nodes source h) → Host nodes target host →
    Hop nodes source host a → Hop nodes host target b →
    Walk nodes source target [a, b] a.fabric

/-- The sum of the weights, of any size. -/
def weightOf (hops : List Link) : Nat :=
  (hops.map (·.weight.toNat)).sum

/-- Nodes `n` and `m`, numbered `source` and `target`, may be joined by a route from `n` to `m`. -/
structure Joinable (source target : UInt32) (n m : Node) : Prop where
  ne : source ≠ target
  gpu : n.isGpu = true ∨ m.isGpu = true
  hive : n.profile.hiveId = 0 ∨ n.profile.hiveId ≠ m.profile.hiveId
  frame : m.isGpu = true → ∃ b ∈ m.banks, b.heap = .framePublic

variable {nodes : List Node} {source target : UInt32}

theorem Host.unique {gpu host host' : UInt32} (h : Host nodes gpu host)
    (h' : Host nodes gpu host') : host = host' := by
  obtain ⟨n, l, hn, -, hl, rfl⟩ := h
  obtain ⟨n', l', hn', -, hl', rfl⟩ := h'
  obtain rfl : n = n' := Option.some.inj (hn.symm.trans hn')
  rw [hl.unique hl']

theorem Hop.unique {l l' : Link} (h : Hop nodes source target l) (h' : Hop nodes source target l') :
    l = l' := by
  obtain ⟨n, hn, hl⟩ := h
  obtain ⟨n', hn', hl'⟩ := h'
  obtain rfl : n = n' := Option.some.inj (hn.symm.trans hn')
  exact hl.unique hl'

theorem Walk.unique {hops hops' : List Link} {f f' : Fabric} (h : Walk nodes source target hops f)
    (h' : Walk nodes source target hops' f') : hops = hops' ∧ f = f' := by
  cases h <;> cases h' <;> grind [Host.unique, Hop.unique]

theorem addWeights?_eq_some_iff {a b w : UInt32} :
    addWeights? a b = some w ↔ w.toNat = a.toNat + b.toNat := by
  unfold addWeights?
  have hw := w.toNat_lt_size
  split_ifs with h
  · rw [Option.some.injEq, ← UInt32.toNat_inj, UInt32.toNat_add, Nat.mod_eq_of_lt h, eq_comm]
  · simp only [false_iff]
    omega

theorem host?_eq_some_iff {gpu host : UInt32} :
    host? nodes gpu = some host ↔ Host nodes gpu host := by
  have hnear : ∀ l : Link, (l.isDirect && decide (l.fabric = .pciExpress)
      && decide (l.weight ≤ socketWeight)) = true ↔ Near l := by
    intro l
    simp [Near, Link.isDirect, and_assoc]
  simp only [host?, Option.bind_eq_bind, Option.bind_eq_some_iff]
  constructor
  · rintro ⟨n, hn, h⟩
    split_ifs at h with hgpu
    obtain ⟨l, hl, h⟩ := Option.bind_eq_some_iff.1 h
    exact ⟨n, l, hn, hgpu, (find?_eq_some_iff_first hnear).1 hl, Option.some.inj h⟩
  · rintro ⟨n, l, hn, hgpu, hl, rfl⟩
    refine ⟨n, hn, ?_⟩
    rw [if_pos hgpu, (find?_eq_some_iff_first hnear).2 hl]
    rfl

theorem host?_eq_none_iff {gpu : UInt32} : host? nodes gpu = none ↔ ∀ h, ¬ Host nodes gpu h := by
  simp only [Option.eq_none_iff_forall_ne_some, ne_eq, host?_eq_some_iff]

theorem hop?_eq_some_iff {f : Fabric} {w : UInt32} :
    hop? nodes source target = some (f, w)
      ↔ ∃ l, Hop nodes source target l ∧ l.fabric = f ∧ l.weight = w := by
  have hdirect : ∀ l : Link, (l.isDirect && decide (l.target = target)) = true
      ↔ l.kind = .direct ∧ l.target = target := by
    intro l
    simp [Link.isDirect]
  simp only [hop?, Option.bind_eq_bind, Option.bind_eq_some_iff]
  constructor
  · rintro ⟨n, hn, l, hl, h⟩
    obtain ⟨rfl, rfl⟩ := Prod.mk.inj (Option.some.inj h)
    exact ⟨l, ⟨n, hn, (find?_eq_some_iff_first hdirect).1 hl⟩, rfl, rfl⟩
  · rintro ⟨l, ⟨n, hn, hl⟩, rfl, rfl⟩
    exact ⟨n, hn, l, (find?_eq_some_iff_first hdirect).2 hl, rfl⟩

theorem overOne?_eq_some_iff {via : UInt32} {middle : Fabric → Fabric → Fabric} {f : Fabric}
    {w : UInt32} : overOne? nodes source via target middle = some (f, w)
      ↔ ∃ a b, Hop nodes source via a ∧ Hop nodes via target b ∧ middle a.fabric b.fabric = f
        ∧ w.toNat = weightOf [a, b] := by
  simp only [overOne?, Option.bind_eq_bind, Option.bind_eq_some_iff, Prod.exists,
    hop?_eq_some_iff, addWeights?_eq_some_iff]
  constructor
  · rintro ⟨_, _, ⟨a, ha, rfl, rfl⟩, _, _, ⟨b, hb, rfl, rfl⟩, w', hw, h⟩
    obtain ⟨rfl, rfl⟩ := Prod.mk.inj (Option.some.inj h)
    exact ⟨a, b, ha, hb, rfl, by simpa [weightOf] using hw⟩
  · rintro ⟨a, b, ha, hb, rfl, hw⟩
    exact ⟨_, _, ⟨a, ha, rfl, rfl⟩, _, _, ⟨b, hb, rfl, rfl⟩, w, by simpa [weightOf] using hw, rfl⟩

theorem overTwo?_eq_some_iff {via₁ via₂ : UInt32} {f : Fabric} {w : UInt32} :
    overTwo? nodes source via₁ via₂ target = some (f, w)
      ↔ ∃ a b c, Hop nodes source via₁ a ∧ Hop nodes via₁ via₂ b ∧ Hop nodes via₂ target c
        ∧ ¬ (b.fabric = .qpi ∧ socketWeight < b.weight) ∧ b.fabric = f
        ∧ w.toNat = weightOf [a, b, c] := by
  simp only [overTwo?, Option.bind_eq_bind, Option.bind_eq_some_iff, Prod.exists,
    hop?_eq_some_iff]
  constructor
  · rintro ⟨_, _, ⟨a, ha, rfl, rfl⟩, _, _, ⟨b, hb, rfl, rfl⟩, h⟩
    split_ifs at h with hqpi
    simp only [Option.bind_eq_some_iff, Prod.exists, hop?_eq_some_iff,
      addWeights?_eq_some_iff] at h
    obtain ⟨_, _, ⟨c, hc, rfl, rfl⟩, w₁, hw₁, w₂, hw₂, h⟩ := h
    obtain ⟨rfl, rfl⟩ := Prod.mk.inj (Option.some.inj h)
    refine ⟨a, b, c, ha, hb, hc, by simpa using hqpi, rfl, ?_⟩
    simp only [weightOf, List.map_cons, List.map_nil, List.sum_cons, List.sum_nil]
    omega
  · rintro ⟨a, b, c, ha, hb, hc, hqpi, rfl, hw⟩
    refine ⟨_, _, ⟨a, ha, rfl, rfl⟩, _, _, ⟨b, hb, rfl, rfl⟩, ?_⟩
    rw [if_neg (by simpa using hqpi)]
    simp only [Option.bind_eq_some_iff, Prod.exists, hop?_eq_some_iff, addWeights?_eq_some_iff]
    simp only [weightOf, List.map_cons, List.map_nil, List.sum_cons, List.sum_nil] at hw
    have hlt := w.toNat_lt_size
    -- the first two weights alone do not exceed 32 bits either
    have hab : (UInt32.ofNat (a.weight.toNat + b.weight.toNat)).toNat
        = a.weight.toNat + b.weight.toNat := UInt32.toNat_ofNat_of_lt' (by omega)
    exact ⟨_, _, ⟨c, hc, rfl, rfl⟩, _, hab, w, by omega, rfl⟩

theorem eligible_iff {n m : Node} :
    source ≠ target ∧ eligible n m = true ↔ Joinable source target n m := by
  simp only [eligible, hasPublicFrame, Bool.and_eq_true, Bool.or_eq_true, Bool.not_eq_true',
    decide_eq_true_eq, List.any_eq_true]
  constructor
  · rintro ⟨hne, ⟨hgpu, hhive⟩, hframe⟩
    refine ⟨hne, hgpu, hhive, fun hm => hframe.resolve_left ?_⟩
    simp [hm]
  · rintro ⟨hne, hgpu, hhive, hframe⟩
    refine ⟨hne, ⟨hgpu, hhive⟩, ?_⟩
    rcases hm : m.isGpu
    · exact .inl rfl
    · exact .inr (hframe hm)

theorem find?_eq_some_iff {f : Fabric} {w : UInt32} :
    find? nodes source target = some (f, w)
      ↔ ∃ n m hops, nodes[source.toNat]? = some n ∧ nodes[target.toNat]? = some m
        ∧ Joinable source target n m ∧ Walk nodes source target hops f
        ∧ w.toNat = weightOf hops := by
  simp only [find?, Option.bind_eq_bind, Option.bind_eq_some_iff]
  constructor
  · rintro ⟨n, hn, m, hm, h⟩
    split_ifs at h with hno
    have hjoin : Joinable source target n m := eligible_iff.1 (by simpa using hno)
    rcases hs : host? nodes source with _ | h₁ <;> rcases ht : host? nodes target with _ | h₂ <;>
      simp only [hs, ht, reduceCtorEq] at h
    case none.some =>
      obtain ⟨a, b, ha, hb, rfl, hw⟩ := overOne?_eq_some_iff.1 h
      exact ⟨n, m, _, hn, hm, hjoin,
        .overTargetHost (host?_eq_none_iff.1 hs) (host?_eq_some_iff.1 ht) ha hb, hw⟩
    case some.none =>
      obtain ⟨a, b, ha, hb, rfl, hw⟩ := overOne?_eq_some_iff.1 h
      exact ⟨n, m, _, hn, hm, hjoin,
        .overSourceHost (host?_eq_some_iff.1 hs) (host?_eq_none_iff.1 ht) ha hb, hw⟩
    case some.some =>
      split_ifs at h with hsame
      · subst hsame
        obtain ⟨a, b, ha, hb, rfl, hw⟩ := overOne?_eq_some_iff.1 h
        exact ⟨n, m, _, hn, hm, hjoin,
          .overSharedHost (host?_eq_some_iff.1 hs) (host?_eq_some_iff.1 ht) ha hb, hw⟩
      · obtain ⟨a, b, c, ha, hb, hc, hqpi, rfl, hw⟩ := overTwo?_eq_some_iff.1 h
        exact ⟨n, m, _, hn, hm, hjoin, .overHosts (host?_eq_some_iff.1 hs)
          (host?_eq_some_iff.1 ht) hsame ha hb hc hqpi, hw⟩
  · rintro ⟨n, m, hops, hn, hm, hjoin, hwalk, hw⟩
    refine ⟨n, hn, m, hm, ?_⟩
    rw [if_neg (by simpa using eligible_iff.2 hjoin)]
    cases hwalk with
    | overSharedHost hs ht ha hb =>
      simp only [host?_eq_some_iff.2 hs, host?_eq_some_iff.2 ht, if_true]
      exact overOne?_eq_some_iff.2 ⟨_, _, ha, hb, rfl, hw⟩
    | overHosts hs ht hne ha hb hc hqpi =>
      simp only [host?_eq_some_iff.2 hs, host?_eq_some_iff.2 ht, if_neg hne]
      exact overTwo?_eq_some_iff.2 ⟨_, _, _, ha, hb, hc, hqpi, rfl, hw⟩
    | overSourceHost hs ht ha hb =>
      simp only [host?_eq_some_iff.2 hs, host?_eq_none_iff.2 ht]
      exact overOne?_eq_some_iff.2 ⟨_, _, ha, hb, rfl, hw⟩
    | overTargetHost hs ht ha hb =>
      simp only [host?_eq_none_iff.2 hs, host?_eq_some_iff.2 ht]
      exact overOne?_eq_some_iff.2 ⟨_, _, ha, hb, rfl, hw⟩

end ComputeTopology.Route
