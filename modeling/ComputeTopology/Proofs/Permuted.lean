import ComputeTopology.Proofs.Tidy
import Mathlib.Data.List.FinRange
import Mathlib.Data.List.Perm.Basic

/-!
# The numbers of the nodes do not matter

The nodes of a list may be put into another order and every link be led to the new number of its
node (`Route.permute`). What is looked up for two nodes is then found for their new numbers: hosts,
hops and routes (`Route.find?_permute`). On a tidy list, where there is room for every route, the same
nodes are joined by routes of the same fabrics and weights (`Route.complete_permute`), although the
routes are looked for and added in another order.
-/

namespace ComputeTopology

namespace Route

section Move

variable {count : Nat} (hsize : count < UInt32.size) (p : Equiv.Perm (Fin count))

/-- The new number of a node. What is not the number of a node stays as it is. -/
def move (x : UInt32) : UInt32 :=
  if h : x.toNat < count then .ofNat (p ⟨x.toNat, h⟩) else x

include hsize

theorem toNat_move_of_lt {x : UInt32} (h : x.toNat < count) :
    (move p x).toNat = p ⟨x.toNat, h⟩ := by
  rw [move, dif_pos h]
  exact UInt32.toNat_ofNat_of_lt' (Nat.lt_trans (p _).2 hsize)

theorem move_ofNat (i : Fin count) : move p (.ofNat i) = .ofNat (p i) := by
  have hi : (UInt32.ofNat i).toNat = i := UInt32.toNat_ofNat_of_lt' (Nat.lt_trans i.2 hsize)
  have hlt : (UInt32.ofNat i).toNat < count := by
    rw [hi]
    exact i.2
  have heq : (⟨_, hlt⟩ : Fin count) = i := Fin.ext hi
  rw [move, dif_pos hlt, heq]

theorem toNat_move_lt_iff {x : UInt32} : (move p x).toNat < count ↔ x.toNat < count := by
  by_cases h : x.toNat < count
  · rw [toNat_move_of_lt hsize p h]
    exact iff_of_true (p _).2 h
  · rw [move, dif_neg h]

theorem move_injective : Function.Injective (move p) := by
  intro x y heq
  by_cases hx : x.toNat < count
  · have hy := (toNat_move_lt_iff hsize p).1 (heq ▸ (toNat_move_lt_iff hsize p).2 hx)
    have htoNat := congrArg UInt32.toNat heq
    rw [toNat_move_of_lt hsize p hx, toNat_move_of_lt hsize p hy] at htoNat
    exact UInt32.toNat_inj.1 (Fin.mk.inj (p.injective (Fin.ext htoNat)))
  · have hy : ¬ y.toNat < count := fun hy =>
      hx ((toNat_move_lt_iff hsize p).1 (heq ▸ (toNat_move_lt_iff hsize p).2 hy))
    rwa [move, dif_neg hx, move, dif_neg hy] at heq

end Move

end Route

namespace Link

variable {count : Nat} (l : Link) (p : Equiv.Perm (Fin count))

def permute : Link :=
  { l with source := Route.move p l.source, target := Route.move p l.target }

@[simp] theorem isDirect_permute : (l.permute p).isDirect = l.isDirect := rfl

@[simp] theorem target_permute : (l.permute p).target = Route.move p l.target := rfl

theorem permute_injective (hsize : count < UInt32.size) :
    Function.Injective fun l : Link => l.permute p := by
  intro k l h
  have hsource := Route.move_injective hsize p (congrArg Link.source h)
  have htarget := Route.move_injective hsize p (congrArg Link.target h)
  cases k
  cases l
  simp_all [permute]

end Link

namespace Node

variable {count : Nat} (n : Node) (p : Equiv.Perm (Fin count))

/-- The node with its links led to the new numbers, in the same order. -/
def permute : Node :=
  { n with links := n.links.map (·.permute p) }

theorem find?_links_permute {q r : Link → Bool} (h : ∀ l, r (l.permute p) = q l) :
    (n.permute p).links.find? r = (n.links.find? q).map (·.permute p) := by
  have hq : (r ∘ fun l => l.permute p) = q := funext h
  rw [permute, List.find?_map, hq]

end Node

namespace Route

theorem candidates_eq_finRange {ns : List Node} {count : Nat} (hlength : ns.length = count) :
    candidates ns = (List.finRange count).flatMap fun a : Fin count =>
      (List.finRange count).filterMap fun b : Fin count =>
        candidate? ns (.ofNat a) (.ofNat b) := by
  rw [candidates, hlength, ← List.map_coe_finRange_eq_range, List.flatMap_map]
  refine List.flatMap_congr fun a _ => ?_
  rw [List.filterMap_map]
  rfl

/-- Node `i` goes to place `p i`. -/
def permute (nodes : List Node) (p : Equiv.Perm (Fin nodes.length)) : List Node :=
  List.ofFn fun i => (nodes.get (p.symm i)).permute p

variable {nodes : List Node} (hsize : nodes.length < UInt32.size)
  (p : Equiv.Perm (Fin nodes.length))

theorem length_permute : (permute nodes p).length = nodes.length :=
  List.length_ofFn

section Found

include hsize

theorem getElem?_permute (x : UInt32) :
    (permute nodes p)[(move p x).toNat]? = nodes[x.toNat]?.map (·.permute p) := by
  by_cases hx : x.toNat < nodes.length
  · rw [toNat_move_of_lt hsize p hx, permute, List.getElem?_ofFn, dif_pos (p _).2]
    simp [hx]
  · have hmove := mt (toNat_move_lt_iff hsize p).1 hx
    rw [List.getElem?_eq_none (Nat.le_of_not_lt hx), List.getElem?_eq_none]
    · rfl
    · rw [length_permute]
      exact Nat.le_of_not_lt hmove

theorem host?_permute (gpu : UInt32) :
    host? (permute nodes p) (move p gpu) = (host? nodes gpu).map (move p) := by
  simp only [host?, getElem?_permute hsize]
  rcases nodes[gpu.toNat]? with _ | n
  · rfl
  · have hgpu : (n.permute p).isGpu = n.isGpu := rfl
    have hnear := n.find?_links_permute p
      (q := fun l => l.isDirect && l.fabric = .pciExpress && l.weight ≤ socketWeight)
      (r := fun l => l.isDirect && l.fabric = .pciExpress && l.weight ≤ socketWeight) fun _ => rfl
    simp only [Option.map_some, Option.bind_eq_bind, Option.bind_some, hgpu, hnear]
    split_ifs
    · rcases n.links.find? _ with _ | l <;> rfl
    · rfl

theorem hop?_permute (source target : UInt32) :
    hop? (permute nodes p) (move p source) (move p target) = hop? nodes source target := by
  simp only [hop?, getElem?_permute hsize]
  rcases nodes[source.toNat]? with _ | n
  · rfl
  · have hlink := n.find?_links_permute p (q := fun l => l.isDirect && l.target = target)
      (r := fun l => l.isDirect && l.target = move p target) fun l => by
        simp only [Link.isDirect_permute, Link.target_permute, (move_injective hsize p).eq_iff]
    simp only [Option.map_some, Option.bind_eq_bind, Option.bind_some, hlink]
    rcases n.links.find? _ with _ | l <;> rfl

/-- The route between two nodes is the same under their new numbers. -/
theorem find?_permute (source target : UInt32) :
    find? (permute nodes p) (move p source) (move p target) = find? nodes source target := by
  have hinj := move_injective hsize p
  simp only [find?, getElem?_permute hsize, host?_permute hsize]
  rcases nodes[source.toNat]? with _ | n
  · rfl
  rcases nodes[target.toNat]? with _ | m
  · rfl
  have heligible : eligible (n.permute p) (m.permute p) = eligible n m := rfl
  simp only [Option.map_some, Option.bind_eq_bind, Option.bind_some, hinj.eq_iff, heligible]
  rcases host? nodes source with _ | h₁ <;> rcases host? nodes target with _ | h₂ <;>
    simp only [Option.map_none, Option.map_some, hinj.eq_iff, overOne?, overTwo?,
      hop?_permute hsize]

theorem candidate?_permute (source target : UInt32) :
    candidate? (permute nodes p) (move p source) (move p target)
      = (candidate? nodes source target).map (·.permute p) := by
  simp only [candidate?, getElem?_permute hsize, find?_permute hsize]
  rcases nodes[source.toNat]? with _ | n
  · rfl
  · have hlink : (n.permute p).linkTo? (move p target) = (n.linkTo? target).map (·.permute p) :=
      n.find?_links_permute p fun l => by
        simp only [Link.target_permute, (move_injective hsize p).eq_iff]
    simp only [Option.map_some, Option.bind_eq_bind, Option.bind_some]
    rw [hlink]
    rcases n.linkTo? target with _ | l
    · rcases find? nodes source target with _ | route <;> rfl
    · rfl

/-- The routes of the permuted list are those of the list, in another order. -/
theorem candidates_permute :
    (candidates (permute nodes p)).Perm ((candidates nodes).map (·.permute p)) := by
  have hrow : ∀ a : Fin nodes.length,
      ((List.finRange nodes.length).filterMap fun b : Fin nodes.length =>
        candidate? (permute nodes p) (.ofNat (p a)) (.ofNat b)).Perm
      (((List.finRange nodes.length).filterMap fun b : Fin nodes.length =>
        candidate? nodes (.ofNat a) (.ofNat b)).map (·.permute p)) := by
    intro a
    refine ((Equiv.Perm.map_finRange_perm p).filterMap _).symm.trans (.of_eq ?_)
    rw [List.filterMap_map, List.map_filterMap]
    refine List.filterMap_congr fun b _ => ?_
    rw [Function.comp_apply, ← move_ofNat hsize p, ← move_ofNat hsize p,
      candidate?_permute hsize]
  rw [candidates_eq_finRange (length_permute p), candidates_eq_finRange (rfl : nodes.length = _),
    List.map_flatMap]
  refine ((Equiv.Perm.map_finRange_perm p).flatMap_right _).symm.trans ?_
  rw [List.flatMap_map]
  exact List.Perm.flatMap_left _ fun a _ => hrow a

end Found

theorem exists_of_getElem?_permute {k : Nat} {n' : Node} (h : (permute nodes p)[k]? = some n') :
    ∃ i : Fin nodes.length, k = p i ∧ n' = (nodes.get i).permute p := by
  rw [permute, List.getElem?_ofFn] at h
  split_ifs at h with hk
  exact ⟨p.symm ⟨k, hk⟩, by simp, (Option.some.inj h).symm⟩

theorem Tidy.permute (h : Tidy nodes) : Tidy (permute nodes p) where
  size := by
    rw [length_permute]
    exact h.size
  direct := by
    intro n' hn' l hl
    obtain ⟨k, hk⟩ := List.getElem?_of_mem hn'
    obtain ⟨i, -, rfl⟩ := exists_of_getElem?_permute p hk
    obtain ⟨k, hk, rfl⟩ := List.mem_map.1 hl
    exact h.direct _ (List.get_mem nodes i) k hk
  placed := by
    intro k n' hn'
    obtain ⟨i, rfl, rfl⟩ := exists_of_getElem?_permute p hn'
    have hplaced := h.placed (List.getElem?_eq_getElem i.2)
    have htarget : ∀ l ∈ ((nodes.get i).permute p).links, ∃ j : Fin nodes.length,
        j ≠ i ∧ l.target.toNat = p j := by
      intro l hl
      obtain ⟨k, hk, rfl⟩ := List.mem_map.1 hl
      have hlt := hplaced.target_lt k hk
      refine ⟨⟨_, hlt⟩, fun heq => hplaced.target_ne k hk (congrArg Fin.val heq), ?_⟩
      exact toNat_move_of_lt h.size p hlt
    refine ⟨?_, fun l hl => ?_, fun l hl => ?_⟩
    · have hnodup := hplaced.distinct.map (move_injective h.size p)
      rw [List.map_map] at hnodup
      rw [Node.permute, List.map_map]
      exact hnodup
    · obtain ⟨j, -, hj⟩ := htarget l hl
      rw [hj, length_permute]
      exact (p j).2
    · obtain ⟨j, hne, hj⟩ := htarget l hl
      rw [hj]
      exact fun heq => hne (p.injective (Fin.ext heq))

theorem joins_permute_iff (h : Tidy nodes) (tally : Tally) (i j : Fin nodes.length) (f : Fabric)
    (w : UInt32) : Joins (complete (permute nodes p) tally).1 (p i) (p j) f w
      ↔ Joins (complete nodes tally).1 i j f w := by
  have hroute : Link.route (.ofNat (p i)) (.ofNat (p j)) f w
      = (Link.route (.ofNat i) (.ofNat j) f w).permute p := by
    rw [← move_ofNat h.size, ← move_ofNat h.size]
    rfl
  have hinj := Option.map_injective (Link.permute_injective p h.size)
  have hcandidate : candidate? (permute nodes p) (.ofNat (p i)) (.ofNat (p j))
        = some (Link.route (.ofNat (p i)) (.ofNat (p j)) f w)
      ↔ candidate? nodes (.ofNat i) (.ofNat j) = some (Link.route (.ofNat i) (.ofNat j) f w) := by
    rw [hroute, ← move_ofNat h.size, ← move_ofNat h.size, candidate?_permute h.size]
    exact hinj.eq_iff (b := some (Link.route (.ofNat i) (.ofNat j) f w))
  rw [(h.permute p).joins_complete_iff tally, h.joins_complete_iff tally, length_permute,
    hcandidate]
  simp only [Fin.is_lt, true_and]

/-- Renumbering the nodes of a tidy list renumbers the indirect links and changes neither their
fabrics and weights nor their count. -/
theorem complete_permute (h : Tidy nodes) (tally : Tally) :
    (∀ i j f w, Joins (complete (permute nodes p) tally).1 (p i) (p j) f w
      ↔ Joins (complete nodes tally).1 i j f w)
    ∧ (complete (permute nodes p) tally).2 = (complete nodes tally).2 := by
  refine ⟨joins_permute_iff p h tally, ?_⟩
  have hlength := (candidates_permute h.size p).length_eq
  rw [List.length_map] at hlength
  have hpermuted := (h.permute p).complete_countsMore tally
  rw [hlength] at hpermuted
  exact Eq.trans hpermuted (h.complete_countsMore tally).symm

def reversed : Equiv.Perm (Fin sockets.length) :=
  Fin.revPerm

/-- Backwards the GPUs come first and their links lead to later nodes. -/
theorem complete_permute_sockets : Tidy sockets
    ∧ (permute sockets reversed).map (·.links.map (·.target)) = [[2], [3], [3, 0], [2, 1]]
    ∧ (complete (permute sockets reversed) {}).2.indirectLinks = 6
    ∧ (∀ i j f w, Joins (complete (permute sockets reversed) {}).1 (reversed i) (reversed j) f w
      ↔ Joins (complete sockets {}).1 i j f w)
    ∧ (complete (permute sockets reversed) {}).2 = (complete sockets {}).2 :=
  ⟨by decide, by decide +kernel, by decide +kernel, complete_permute reversed (by decide) {}⟩

end Route

end ComputeTopology
