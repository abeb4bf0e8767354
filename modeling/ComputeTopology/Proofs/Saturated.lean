import ComputeTopology.Proofs.AtOnce

/-!
# A completed list stays as it is

Every route that was looked for either became a link of its node or found the node full, and a full
node stays full (`Route.mem_links_or_full`). Completing the list again looks for no other routes
(`Route.candidate?_of_complete`): those that became links are not looked for any more, and those
left out are left out again. So nothing changes (`Route.complete_complete`).
-/

namespace ComputeTopology.Route

variable {nodes : List Node} {capacity : Nat} {n : Node} {l : Link} {ls : List Link}

theorem mem_links_fill_or_full (hl : l ∈ ls) : l ∈ (fill capacity n ls).links
    ∨ capacity ≤ (fill capacity n ls).links.length := by
  rcases Nat.le_total ls.length (capacity - n.links.length) with hroom | hcut
  · refine .inl (List.mem_append_right _ ?_)
    rwa [List.take_of_length_le hroom]
  · right
    simp only [fill, List.length_append, List.length_take]
    omega

/-- Of the links that were to be inserted none is missing on a node with room. -/
theorem mem_links_or_full {state : List Node × Tally} (hl : l ∈ ls)
    (hn : (ls.foldl (insert capacity) state).1[l.source.toNat]? = some n) :
    l ∈ n.links ∨ capacity ≤ n.links.length := by
  rw [foldl_insert_getElem?] at hn
  obtain ⟨m, -, rfl⟩ := Option.map_eq_some_iff.1 hn
  exact mem_links_fill_or_full (List.mem_filter.2 ⟨hl, by simp⟩)

theorem insert_of_full {state : List Node × Tally} (hn : state.1[l.source.toNat]? = some n)
    (hfull : capacity ≤ n.links.length) : insert capacity state l = state := by
  simp only [insert, hn, if_pos hfull]

theorem length_complete (nodes : List Node) (tally : Tally) :
    (complete nodes tally).1.length = nodes.length :=
  (complete_extends nodes tally).length_eq

theorem find?_complete (tally : Tally) (source target : UInt32) :
    find? (complete nodes tally).1 source target = find? nodes source target := by
  rw [← find?_map_direct, (complete_extends nodes tally).map_direct, find?_map_direct]

/-- What is looked for in a completed list was looked for before it was completed. -/
theorem candidate?_of_complete {tally : Tally} {source target : UInt32}
    (h : candidate? (complete nodes tally).1 source target = some l) :
    candidate? nodes source target = some l := by
  obtain ⟨n', route, hn', hunlinked, hroute, rfl⟩ := candidate?_eq_some_iff.1 h
  rw [find?_complete] at hroute
  have hlt := (List.getElem?_eq_some_iff.1 hn').1
  rw [length_complete] at hlt
  have hn := List.getElem?_eq_getElem hlt
  obtain ⟨routes, -, rfl⟩ := (complete_extends nodes tally).extend hn' hn
  exact candidate?_eq_some_iff.2 ⟨_, route, hn,
    fun k hk => hunlinked k (List.mem_append_left _ hk), hroute, rfl⟩

theorem mem_candidates_iff : l ∈ candidates nodes ↔ ∃ source target, source < nodes.length
    ∧ target < nodes.length ∧ candidate? nodes (.ofNat source) (.ofNat target) = some l := by
  simp only [candidates, List.mem_flatMap, List.mem_filterMap, List.mem_range]
  constructor
  · rintro ⟨source, hsource, target, htarget, h⟩
    exact ⟨source, target, hsource, htarget, h⟩
  · rintro ⟨source, target, hsource, htarget, h⟩
    exact ⟨source, hsource, target, htarget, h⟩

/-- The node of a route that is still looked for has no room for it. -/
theorem full_of_mem_candidates_complete {tally : Tally}
    (hl : l ∈ candidates (complete nodes tally).1) : ∃ n,
      (complete nodes tally).1[l.source.toNat]? = some n ∧ nodes.length - 1 ≤ n.links.length := by
  obtain ⟨source, target, hsource, htarget, h⟩ := mem_candidates_iff.1 hl
  rw [length_complete] at hsource htarget
  have hmem : l ∈ candidates nodes :=
    mem_candidates_iff.2 ⟨source, target, hsource, htarget, candidate?_of_complete h⟩
  obtain ⟨n, route, hn, hunlinked, -, rfl⟩ := candidate?_eq_some_iff.1 h
  refine ⟨n, hn, (mem_links_or_full hmem hn).resolve_left fun hlinked => ?_⟩
  exact hunlinked _ hlinked rfl

/-- Completing a completed list changes none of its nodes and counts nothing. -/
theorem complete_complete (nodes : List Node) (tally later : Tally) :
    complete (complete nodes tally).1 later = ((complete nodes tally).1, later) := by
  rw [complete, length_complete]
  refine List.foldlRecOn (motive := fun state => state = ((complete nodes tally).1, later))
    _ _ rfl fun _ hstate l hl => ?_
  subst hstate
  obtain ⟨n, hn, hfull⟩ := full_of_mem_candidates_complete hl
  exact insert_of_full hn hfull

end ComputeTopology.Route
