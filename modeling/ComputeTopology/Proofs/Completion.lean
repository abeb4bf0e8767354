import ComputeTopology.Route
import Mathlib.Tactic.Common

/-!
# Routes leave the rest alone

Completing a node list puts indirect links behind those that a node has and changes nothing else
(`Route.complete_extends`). So the links that the machine reported can be told from the others, and
a completed node without its indirect links is the node it was before (`Node.Extends.direct_eq`).
Which links come does not depend on the tally (`Route.complete_fst`).
-/

namespace ComputeTopology

namespace Node

/-- `n'` is `n` with indirect links behind its own. -/
def Extends (n' n : Node) : Prop :=
  ∃ routes : List Link, (∀ l ∈ routes, l.kind = .indirect ∧ l.peer = false) ∧
    n' = { n with
      links := n.links ++ routes
      profile := { n.profile with links := n.profile.links + .ofNat routes.length } }

/-- The node without its indirect links. -/
def direct (n : Node) : Node :=
  let links := n.links.filter (·.isDirect)
  { n with links, profile := { n.profile with links := .ofNat links.length } }

theorem Extends.refl (n : Node) : n.Extends n :=
  ⟨[], by simp, by simp⟩

theorem Extends.addLink {n' n : Node} {l : Link} (h : n'.Extends n) (hkind : l.kind = .indirect)
    (hpeer : l.peer = false) : (Route.addLink n' l).Extends n := by
  obtain ⟨routes, hroutes, rfl⟩ := h
  refine ⟨routes ++ [l], fun k hk => ?_, ?_⟩
  · rcases List.mem_append.1 hk with hk | hk
    · exact hroutes k hk
    · obtain rfl := List.mem_singleton.1 hk
      exact ⟨hkind, hpeer⟩
  · simp [Route.addLink, UInt32.add_assoc]

theorem direct_of_isDirect {n : Node} (hdirect : ∀ l ∈ n.links, l.kind = .direct)
    (hlinks : n.profile.links = .ofNat n.links.length) : n.direct = n := by
  have hfilter : n.links.filter (·.isDirect) = n.links :=
    List.filter_eq_self.2 fun l hl => by simp [Link.isDirect, hdirect l hl]
  simp only [direct, hfilter, ← hlinks]

theorem Extends.filter_direct {n' n : Node} (h : n'.Extends n) :
    n'.links.filter (·.isDirect) = n.links.filter (·.isDirect) := by
  obtain ⟨routes, hroutes, rfl⟩ := h
  have hnone : routes.filter (·.isDirect) = [] :=
    List.filter_eq_nil_iff.2 fun l hl => by simp [Link.isDirect, (hroutes l hl).1]
  rw [List.filter_append, hnone, List.append_nil]

/-- A node does not show which indirect links were added once they are taken away. -/
theorem Extends.direct_eq {n' n : Node} (h : n'.Extends n) : n'.direct = n.direct := by
  have hfilter := h.filter_direct
  obtain ⟨routes, hroutes, rfl⟩ := h
  simp only [direct, hfilter]

end Node

/-- Node by node, `ns'` extends `ns`. -/
structure NodesExtend (ns' ns : List Node) : Prop where
  length_eq : ns'.length = ns.length
  extend : ∀ {i : Nat} {n' n : Node}, ns'[i]? = some n' → ns[i]? = some n → n'.Extends n

theorem NodesExtend.refl (ns : List Node) : NodesExtend ns ns where
  length_eq := rfl
  extend h' h := by
    cases h.symm.trans h'
    exact .refl _

theorem NodesExtend.map_direct {ns' ns : List Node} (h : NodesExtend ns' ns) :
    ns'.map (·.direct) = ns.map (·.direct) := by
  refine List.ext_getElem (by simp [h.length_eq]) fun i h₁ h₂ => ?_
  rw [List.length_map] at h₁ h₂
  simpa using (h.extend (List.getElem?_eq_getElem h₁) (List.getElem?_eq_getElem h₂)).direct_eq

namespace Route

theorem of_mem_candidates {nodes : List Node} {l : Link} (h : l ∈ candidates nodes) :
    l.kind = .indirect ∧ l.peer = false := by
  obtain ⟨source, -, hs⟩ := List.mem_flatMap.1 h
  obtain ⟨target, -, ht⟩ := List.mem_filterMap.1 hs
  obtain ⟨node, -, hnode⟩ := Option.bind_eq_some_iff.1 ht
  split_ifs at hnode
  obtain ⟨⟨fabric, weight⟩, -, hl⟩ := Option.bind_eq_some_iff.1 hnode
  cases hl
  exact ⟨rfl, rfl⟩

theorem insert_extends {capacity : Nat} {state : List Node × Tally} {nodes : List Node} {l : Link}
    (h : NodesExtend state.1 nodes) (hkind : l.kind = .indirect) (hpeer : l.peer = false) :
    NodesExtend (insert capacity state l).1 nodes := by
  unfold insert
  split
  · exact h
  · rename_i n hn
    split_ifs
    · exact h
    refine ⟨by simpa using h.length_eq, fun {i n' m} hn' hm => ?_⟩
    have hlt := (List.getElem?_eq_some_iff.1 hn).1
    rcases Nat.decEq l.source.toNat i with hne | rfl
    · rw [List.getElem?_set_ne hne] at hn'
      exact h.extend hn' hm
    · rw [List.getElem?_set_self hlt] at hn'
      cases hn'
      exact (h.extend hn hm).addLink hkind hpeer

theorem complete_extends (nodes : List Node) (tally : Tally) :
    NodesExtend (complete nodes tally).1 nodes :=
  List.foldlRecOn (motive := fun s : List Node × Tally => NodesExtend s.1 nodes) _ _ (.refl nodes)
    fun _ h _ hl => insert_extends h (of_mem_candidates hl).1 (of_mem_candidates hl).2

theorem insert_fst (capacity : Nat) (nodes : List Node) (t t' : Tally) (l : Link) :
    (insert capacity (nodes, t) l).1 = (insert capacity (nodes, t') l).1 := by
  simp only [insert]
  split
  · rfl
  · split_ifs <;> rfl

theorem complete_fst (nodes : List Node) (t t' : Tally) :
    (complete nodes t).1 = (complete nodes t').1 := by
  have key : ∀ t, (complete nodes t).1 = (candidates nodes).foldl
      (fun ns l => (insert (nodes.length - 1) (ns, {}) l).1) nodes := fun t =>
    (List.foldl_hom Prod.fst fun state l => insert_fst _ (Prod.fst state) _ _ l).symm
  rw [key t, key t']

end Route

end ComputeTopology
