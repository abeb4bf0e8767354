import ComputeTopology.Proofs.Reading
import Mathlib.Algebra.GroupWithZero.Nat

/-!
# Counters

Each number of a tally is a counter: it begins at zero and grows by an amount that depends on the
single answer about a link, or on the single node, that is counted (`Tally.Counter`). So over one
node it grows by what the answers and the node are worth (`Tally.Counter.value_count`), and over a
chain of nodes by their sum, as far as 32 bits can tell (`NodeReading.ChainAlong.value_eq`).
-/

namespace ComputeTopology

/-- The link is direct, from a table of peer links or from a standard table. -/
def Link.isFrom (peer : Bool) (l : Link) : Bool :=
  l.isDirect && l.peer = peer

namespace Tally

/-- Counts one answer from a link table. -/
def countAnswer (peer : Bool) (a : Option Link) (t : Tally) : Tally :=
  if a.isSome then t.countLink peer else t.countSkipped

/-- A number of the tally, with the answers that it counts and what it grows by with a node. -/
structure Counter where
  value : Tally → UInt32
  counts : (peer : Bool) → Option Link → Bool
  node : (banks caches : Nat) → Nat
  value_empty : value {} = 0
  value_answer : ∀ peer a t,
    value (t.countAnswer peer a) = value t + if counts peer a then 1 else 0
  value_node : ∀ banks caches t,
    value (t.countNode banks caches) = value t + .ofNat (node banks caches)

namespace Counter

variable (k : Counter)

/-- A number that answers about links leave as it is. -/
def ofNodes (value : Tally → UInt32) (node : (banks caches : Nat) → Nat) (empty : value {} = 0)
    (answer : ∀ peer a t, value (t.countAnswer peer a) = value t)
    (grows : ∀ banks caches t,
      value (t.countNode banks caches) = value t + .ofNat (node banks caches)) : Counter where
  value := value
  counts _ _ := false
  node := node
  value_empty := empty
  value_answer peer a t := (answer peer a t).trans (UInt32.add_zero _).symm
  value_node := grows

def nodes : Counter :=
  ofNodes (·.nodes) (fun _ _ => 1) rfl (fun peer a _ => by cases peer <;> cases a <;> rfl)
    fun _ _ _ => rfl

def banks : Counter :=
  ofNodes (·.banks) (fun banks _ => banks) rfl
    (fun peer a _ => by cases peer <;> cases a <;> rfl) fun _ _ _ => rfl

def caches : Counter :=
  ofNodes (·.caches) (fun _ caches => caches) rfl
    (fun peer a _ => by cases peer <;> cases a <;> rfl) fun _ _ _ => rfl

/-- The routes, of which neither answers nor nodes count any. -/
def routes : Counter :=
  ofNodes (·.indirectLinks) (fun _ _ => 0) rfl
    (fun peer a _ => by cases peer <;> cases a <;> rfl) fun _ _ _ => (UInt32.add_zero _).symm

/-- The links from the tables of peer links, or those from the standard tables. -/
def links (table : Bool) : Counter where
  value t := if table then t.peerLinks else t.directLinks
  counts peer a := peer = table && a.isSome
  node _ _ := 0
  value_empty := by cases table <;> rfl
  value_answer peer a t := by
    cases table <;> cases peer <;> cases a <;> first | rfl | exact (UInt32.add_zero _).symm
  value_node _ _ t := by cases table <;> exact (UInt32.add_zero _).symm

/-- The entries that are not supported. -/
def skipped : Counter where
  value := (·.skippedLinks)
  counts _ a := a.isNone
  node _ _ := 0
  value_empty := rfl
  value_answer peer a t := by
    cases peer <;> cases a <;> first | rfl | exact (UInt32.add_zero _).symm
  value_node _ _ _ := (UInt32.add_zero _).symm

/-- What the counter grows by when the node is counted. -/
def amount (rn : NodeReading) : Nat :=
  rn.standard.countP (k.counts false) + rn.peers.countP (k.counts true)
    + k.node rn.banks.length rn.caches.length

theorem value_countAnswers {peer : Bool} : ∀ {answers : List (Option Link)} {t : Tally},
    k.value (t.countAnswers peer answers) = k.value t + .ofNat (answers.countP (k.counts peer))
  | [], t => (UInt32.add_zero _).symm
  | a :: answers, t => by
    have ih : k.value ((t.countAnswer peer a).countAnswers peer answers) = _ := value_countAnswers
    rw [k.value_answer] at ih
    refine ih.trans ?_
    rw [List.countP_cons, Nat.add_comm, UInt32.ofNat_add, UInt32.add_assoc]
    cases k.counts peer a <;> rfl

theorem value_count (rn : NodeReading) (t : Tally) :
    k.value (rn.count t) = k.value t + .ofNat (k.amount rn) := by
  rw [NodeReading.count, k.value_node, k.value_countAnswers, k.value_countAnswers, amount,
    UInt32.ofNat_add, UInt32.ofNat_add, UInt32.add_assoc, UInt32.add_assoc, UInt32.add_assoc]

theorem amount_ofNodes {value : Tally → UInt32} {node : (banks caches : Nat) → Nat}
    {empty answer grows} (rn : NodeReading) : (ofNodes value node empty answer grows).amount rn
      = node rn.banks.length rn.caches.length := by
  simp [amount, ofNodes]

theorem amount_nodes (rn : NodeReading) : nodes.amount rn = 1 :=
  amount_ofNodes rn

theorem amount_banks (rn : NodeReading) : banks.amount rn = rn.banks.length :=
  amount_ofNodes rn

theorem amount_caches (rn : NodeReading) : caches.amount rn = rn.caches.length :=
  amount_ofNodes rn

theorem amount_routes (rn : NodeReading) : routes.amount rn = 0 :=
  amount_ofNodes rn

/-- The links of a table that are counted are those that the node has from it. -/
theorem amount_links (table : Bool) (rn : NodeReading) :
    (links table).amount rn = rn.links.countP (·.isFrom table) := by
  have hfound : ∀ peer answers, (found peer answers).countP (·.isFrom table)
      = answers.countP fun a => peer = table && a.isSome := by
    intro peer answers
    have hfrom : ∀ l ∈ found peer answers, l.isFrom table = decide (peer = table) := by
      intro l hl
      obtain ⟨hkind, rfl⟩ := of_mem_found hl
      simp [Link.isFrom, Link.isDirect, hkind]
    rw [List.countP_congr fun l hl => by rw [hfrom l hl]]
    by_cases h : peer = table
    · simp [h, length_found]
    · simp [h]
  rw [NodeReading.links, List.countP_append, hfound, hfound]
  rfl

end Counter

end Tally

section Course

variable {s s' : Progress} {es : List Exchange} {i nodes : UInt32}

theorem Course.tally_named {p p' : Profile} (h : (named p).Reads s es p' s') :
    s'.tally = s.tally := by
  rcases reads_named h with ⟨-, -, -, rfl⟩ | ⟨-, table, htable, -⟩
  · rfl
  · exact (reads_processors htable).2.1

theorem Course.tally_caches {p : Profile} {l : List Cache} (h : (caches i p).Reads s es l s') :
    s'.tally = s.tally := by
  rcases reads_caches h with ⟨-, -, rfl, -⟩ | ⟨-, -, -, -, rfl⟩ | ⟨-, -, es', table, htable, -⟩
  · rfl
  · rfl
  · exact (reads_processors htable).2.1

theorem NodeReading.Along.tally_eq {rn : NodeReading} (h : rn.Along nodes i s es s') :
    s'.tally = rn.count s.tally := by
  obtain ⟨_, _, s₁, s₂, hnamed, hcaches, -, htally, -⟩ := h.exchanges
  rw [htally, Course.tally_caches hcaches, Course.tally_named hnamed]

/-- Over a chain of readings a counter grows by what each of them is worth. -/
theorem NodeReading.ChainAlong.value_eq (k : Tally.Counter) :
    ∀ {rs : List NodeReading} {index : Nat} {s : Progress} {es : List Exchange},
      ChainAlong nodes index s es rs s' →
        k.value s'.tally = k.value s.tally + .ofNat (rs.map k.amount).sum
  | [], _, _, _, ⟨_, rfl⟩ => (UInt32.add_zero _).symm
  | rn :: rs, _, _, _, ⟨_, _, _, hr, hrs, _⟩ => by
    rw [hrs.value_eq k, hr.tally_eq, k.value_count, List.map_cons, List.sum_cons, UInt32.ofNat_add,
      UInt32.add_assoc]

theorem Reading.Along.value_eq {r : Reading} (h : r.Along es s) (k : Tally.Counter) :
    k.value s.tally = .ofNat (r.nodes.map k.amount).sum := by
  obtain ⟨_, -, hchain⟩ := h.exchanges
  rw [hchain.value_eq k]
  change k.value {} + _ = _
  rw [k.value_empty, UInt32.zero_add]

end Course

end ComputeTopology
