import Mathlib.Data.Finset.Card
import Mathlib.Data.Finset.Dedup
import Mathlib.Order.Bounds.Defs
import ShapeRules.Proofs.ScanOrder

/-!
# Chains of cells

From a head the smallest values of one property lead from cell to cell. The sequence of cells goes
on as long as there is a next one, and whether a list can be read off it is a matter of the sequence
alone: it must come to the end of lists through nodes that have a member and a next cell. The walk
that reads the list sees such a sequence up to the first point where it cannot go on. Until then it
has passed different nodes, all of which have a member, so it is short; a sequence that comes back
to a node that was passed never gets out of what was passed.

## Main definitions

* `Rdf.Graph.cell?`: the sequence of cells from a head
* `Rdf.Graph.ReachesNil`, `Rdf.Graph.ComesBack`: what can become of the sequence
* `Rdf.Graph.Leads`: the part of the sequence between two cells, with its members
* `Rdf.Graph.Walk`: a whole walk, and how it stops
* `Rdf.Graph.membersWithin`: the walk with a bound on the cells that it looks at
* `Rdf.Graph.HasList`: a list that is written on cells of its own

## Main results

* `Rdf.Graph.exists_walk`: every walk stops
* `Rdf.Graph.Walk.membersFrom_eq`, `Rdf.Graph.Walk.membersWithin_eq`: what a walk gives
* `Rdf.Graph.members_eq_ok_iff`: the members are those on the way to the end of lists
* `Shacl.list_read_off_cells`: when a list can be read, and which faults it has otherwise
-/

namespace ShapeRules

open Rdf Shacl

namespace Rdf.Graph

variable {g : Graph} {s n : Node} {p : String} {o head c : Term} {passed : List Node}
  {path : List (Node × Term)} {r : Except ListFault (List Term)}

/-! ## Smallest values -/

/-- **A smallest value of a property:** no value of it comes before this one in the order of the
line forms. -/
structure IsSmallest (g : Graph) (s : Node) (p : String) (o : Term) : Prop where
  mem : (⟨s, p, o⟩ : Triple) ∈ g
  le : ∀ o', (⟨s, p, o'⟩ : Triple) ∈ g → TextLE o o'

theorem isSmallest_of_value? (h : g.value? s p = some o) : g.IsSmallest s p o := by
  refine ⟨mem_of_value? h, ?_⟩
  intro o' ho'
  have hsorted : (g.values s p).Pairwise TextLE := pairwise_sortByText _
  obtain ⟨others, hvalues⟩ := List.head?_eq_some_iff.1 h
  rw [hvalues, List.pairwise_cons] at hsorted
  rw [← mem_values, hvalues] at ho'
  rcases List.mem_cons.1 ho' with rfl | ho'
  · exact Std.ReflCmp.isLE_rfl
  · exact hsorted.1 o' ho'

theorem value?_eq_none_iff : g.value? s p = none ↔ ∀ o, (⟨s, p, o⟩ : Triple) ∉ g := by
  rw [value?, List.head?_eq_none_iff, List.eq_nil_iff_forall_not_mem]
  simp only [mem_values]

theorem exists_value?_iff : (∃ o, g.value? s p = some o) ↔ ∃ o, (⟨s, p, o⟩ : Triple) ∈ g := by
  constructor
  · rintro ⟨o, ho⟩
    exact ⟨o, mem_of_value? ho⟩
  · rintro ⟨o, ho⟩
    cases hv : g.value? s p with
    | none => exact absurd ho (value?_eq_none_iff.1 hv o)
    | some o' => exact ⟨o', rfl⟩

/-- The only value of a property is the smallest one. -/
theorem value?_eq_of_unique (h : ∀ o', (⟨s, p, o'⟩ : Triple) ∈ g ↔ o' = o) :
    g.value? s p = some o := by
  obtain ⟨o', ho'⟩ := exists_value?_iff.2 ⟨o, (h o).2 rfl⟩
  obtain rfl := (h o').1 (mem_of_value? ho')
  exact ho'

/-! ## The sequence of cells -/

/-- The smallest value of a property of a term; only nodes have properties. -/
def valueOf? (g : Graph) (p : String) : Term → Option Term
  | .node n => g.value? n p
  | _ => none

/-- **The sequence of cells from a head:** each cell leads to its smallest `rdf:rest` value. -/
def cell? (g : Graph) (head : Term) : Nat → Option Term
  | 0 => some head
  | i + 1 => (g.cell? head i).bind (g.valueOf? rdfRest)

/-- A node with a member and a next cell. -/
def IsCell (g : Graph) (c : Term) : Prop :=
  ∃ n, c = .node n ∧ (∃ o, (⟨n, rdfFirst, o⟩ : Triple) ∈ g) ∧ ∃ o, (⟨n, rdfRest, o⟩ : Triple) ∈ g

/-- The sequence goes through cells up to an index. -/
def CellsBelow (g : Graph) (head : Term) (k : Nat) : Prop :=
  ∀ i < k, ∃ c, g.cell? head i = some c ∧ g.IsCell c

/-- **The sequence reaches the end of lists** at an index. -/
def ReachesNil (g : Graph) (head : Term) (k : Nat) : Prop :=
  g.cell? head k = some (.iri rdfNil) ∧ g.CellsBelow head k

/-- **The sequence comes back** to a term that it has passed. -/
def ComesBack (g : Graph) (head : Term) : Prop :=
  ∃ j k, j < k ∧ g.cell? head k = g.cell? head j ∧ g.CellsBelow head k

theorem isCell_node_iff : g.IsCell (.node n) ↔
    (∃ first, g.value? n rdfFirst = some first) ∧ ∃ rest, g.value? n rdfRest = some rest := by
  simp only [IsCell, Term.node.injEq, exists_value?_iff]
  constructor
  · rintro ⟨_, rfl, h⟩
    exact h
  · intro h
    exact ⟨n, rfl, h⟩

/-- The sequence from a cell on is the sequence from that cell. -/
theorem cell?_add (g : Graph) (head : Term) (i j : Nat) :
    g.cell? head (i + j) = (g.cell? head i).bind (g.cell? · j) := by
  induction j with
  | zero => simp [cell?]
  | succ j ih => rw [← Nat.add_assoc, cell?, ih, Option.bind_assoc]; rfl

theorem cell?_succ_of_rest {rest : Term} (h : g.value? n rdfRest = some rest) (i : Nat) :
    g.cell? (.node n) (i + 1) = g.cell? rest i := by
  have hone : g.cell? (.node n) 1 = some rest := h
  rw [Nat.add_comm, cell?_add, hone, Option.bind_some]

/-- A term that is no cell ends the cells of the sequence. -/
theorem le_of_cellsBelow {m k : Nat} (hm : g.cell? head m = some c) (hc : ¬ g.IsCell c)
    (h : g.CellsBelow head k) : k ≤ m := by
  by_contra hk
  obtain ⟨c', hc', hcell⟩ := h m (by omega)
  obtain rfl := Option.some.inj (hm.symm.trans hc')
  exact hc hcell

/-- **The part of the sequence between two cells,** with the member of each cell that is passed. -/
inductive Leads (g : Graph) : Term → List (Node × Term) → Term → Prop
  | here (c : Term) : g.Leads c [] c
  | step {n : Node} {first rest c : Term} {path : List (Node × Term)} (hnil : n ≠ .iri rdfNil)
      (hfirst : g.value? n rdfFirst = some first) (hrest : g.value? n rdfRest = some rest)
      (h : g.Leads rest path c) : g.Leads (.node n) ((n, first) :: path) c

namespace Leads

theorem cell?_of_lt (h : g.Leads head path c) {i : Nat} (hi : i < path.length) :
    g.cell? head i = some (.node path[i].1) := by
  induction h generalizing i with
  | here c => cases hi
  | step hnil hfirst hrest h ih =>
    cases i with
    | zero => rfl
    | succ i =>
      rw [cell?_succ_of_rest hrest]
      exact ih (Nat.lt_of_succ_lt_succ hi)

theorem cell?_length (h : g.Leads head path c) : g.cell? head path.length = some c := by
  induction h with
  | here c => rfl
  | step hnil hfirst hrest h ih => rw [List.length_cons, cell?_succ_of_rest hrest, ih]

theorem member_of_lt (h : g.Leads head path c) {i : Nat} (hi : i < path.length) :
    g.value? path[i].1 rdfFirst = some path[i].2 := by
  induction h generalizing i with
  | here c => cases hi
  | step hnil hfirst hrest h ih =>
    cases i with
    | zero => exact hfirst
    | succ i => exact ih (Nat.lt_of_succ_lt_succ hi)

theorem isCell_of_mem (h : g.Leads head path c) (hn : n ∈ path.map Prod.fst) :
    n ≠ .iri rdfNil ∧ g.IsCell (.node n) := by
  induction h with
  | here c => cases hn
  | step hnil hfirst hrest h ih =>
    rcases List.mem_cons.1 hn with rfl | hn
    · exact ⟨hnil, isCell_node_iff.2 ⟨⟨_, hfirst⟩, ⟨_, hrest⟩⟩⟩
    · exact ih hn

theorem cellsBelow (h : g.Leads head path c) : g.CellsBelow head path.length := by
  intro i hi
  refine ⟨_, h.cell?_of_lt hi, (h.isCell_of_mem ?_).2⟩
  exact List.mem_map_of_mem (List.getElem_mem hi)

theorem cell?_ne_nil (h : g.Leads head path c) {i : Nat} (hi : i < path.length) :
    g.cell? head i ≠ some (.iri rdfNil) := by
  rw [h.cell?_of_lt hi]
  intro he
  have hmem : path[i].1 ∈ path.map Prod.fst := List.mem_map_of_mem (List.getElem_mem hi)
  exact (h.isCell_of_mem hmem).1 (Term.node.inj (Option.some.inj he))

theorem reachesNil (h : g.Leads head path (.iri rdfNil)) : g.ReachesNil head path.length :=
  ⟨h.cell?_length, h.cellsBelow⟩

/-- There is one way to the end of lists. -/
theorem unique {path' : List (Node × Term)} (h : g.Leads head path (.iri rdfNil))
    (h' : g.Leads head path' (.iri rdfNil)) : path = path' := by
  -- induction along one way; the end of lists has no step, so the other one stops with it
  generalize hc : Term.iri rdfNil = c at h
  induction h generalizing path' with
  | here c =>
    subst hc
    cases h' with
    | here => rfl
    | step hnil => exact absurd rfl hnil
  | step hnil hfirst hrest h ih =>
    cases h' with
    | here => exact absurd rfl hnil
    | step hnil' hfirst' hrest' h' =>
      obtain rfl := Option.some.inj (hfirst.symm.trans hfirst')
      obtain rfl := Option.some.inj (hrest.symm.trans hrest')
      rw [ih h' hc]

/-- **A sequence that comes back stays** on the nodes that it has passed. -/
theorem mem_of_back (h : g.Leads head path (.node n)) (hn : n ∈ path.map Prod.fst) (i : Nat) :
    ∃ n' ∈ path.map Prod.fst, g.cell? head i = some (.node n') := by
  have hmem : ∀ {j} (hj : j < path.length), path[j].1 ∈ path.map Prod.fst :=
    fun hj => List.mem_map_of_mem (List.getElem_mem hj)
  induction i with
  | zero =>
    have hpos : 0 < path.length := by
      rw [← List.length_map Prod.fst]
      exact List.length_pos_of_mem hn
    exact ⟨_, hmem hpos, h.cell?_of_lt hpos⟩
  | succ i ih =>
    obtain ⟨n', hn', hi⟩ := ih
    obtain ⟨j, hj, rfl⟩ := List.mem_iff_getElem.1 hn'
    rw [List.length_map] at hj
    rw [List.getElem_map] at hi
    -- the next cell after this one is the next one on the path, or the one it came back to
    have hnext : g.cell? head (i + 1) = g.cell? head (j + 1) := by
      rw [cell?, cell?, hi, h.cell?_of_lt hj]
    rw [hnext]
    by_cases hlast : j + 1 < path.length
    · exact ⟨_, hmem hlast, h.cell?_of_lt hlast⟩
    · have hend : j + 1 = path.length := by omega
      exact ⟨n, hn, hend ▸ h.cell?_length⟩

theorem not_reachesNil_of_back (h : g.Leads head path (.node n)) (hn : n ∈ path.map Prod.fst)
    (k : Nat) : ¬ g.ReachesNil head k := by
  rintro ⟨hk, -⟩
  obtain ⟨n', hn', hk'⟩ := h.mem_of_back hn k
  exact (h.isCell_of_mem hn').1 (Term.node.inj (Option.some.inj (hk'.symm.trans hk)))

theorem comesBack (h : g.Leads head path (.node n)) (hn : n ∈ path.map Prod.fst) :
    g.ComesBack head := by
  obtain ⟨j, hj, rfl⟩ := List.mem_iff_getElem.1 hn
  rw [List.length_map] at hj
  refine ⟨j, path.length, hj, ?_, h.cellsBelow⟩
  rw [h.cell?_length, h.cell?_of_lt hj, List.getElem_map]

theorem not_reachesNil_of_stuck (h : g.Leads head path c) (hnil : c ≠ .iri rdfNil)
    (hc : ¬ g.IsCell c) (k : Nat) : ¬ g.ReachesNil head k := by
  rintro ⟨hk, hcells⟩
  have hle := le_of_cellsBelow h.cell?_length hc hcells
  rcases Nat.lt_or_eq_of_le hle with hlt | rfl
  · exact h.cell?_ne_nil hlt hk
  · exact hnil (Option.some.inj (h.cell?_length.symm.trans hk))

theorem not_comesBack_of_stuck (h : g.Leads head path c) (hnodup : (path.map Prod.fst).Nodup)
    (hc : ¬ g.IsCell c) : ¬ g.ComesBack head := by
  rintro ⟨j, k, hjk, he, hcells⟩
  have hle := le_of_cellsBelow h.cell?_length hc hcells
  have hj : j < path.length := by omega
  rw [h.cell?_of_lt hj] at he
  rcases Nat.lt_or_eq_of_le hle with hk | rfl
  · -- two places on the path have different nodes
    have hj' : j < (path.map Prod.fst).length := by simpa using hj
    have hk' : k < (path.map Prod.fst).length := by simpa using hk
    have hnode : (path.map Prod.fst)[k] = (path.map Prod.fst)[j] := by
      rw [h.cell?_of_lt hk] at he
      simpa using he
    have hkj : k = j := (List.Nodup.getElem_inj_iff hnodup).1 hnode
    omega
  · -- the term at the end of the path is no cell, but the nodes on the path are
    rw [h.cell?_length] at he
    obtain rfl := Option.some.inj he
    exact hc (h.isCell_of_mem (List.mem_map_of_mem (List.getElem_mem hj))).2

end Leads

/-! ## Walks -/

/-- **How a walk stops** that has passed some nodes: at the end of lists, at a node that was passed,
or at a term that is no cell. -/
inductive Stops (g : Graph) (passed : List Node) : Term → Except ListFault (List Term) → Prop
  | nil : g.Stops passed (.iri rdfNil) (.ok [])
  | loops {n : Node} (hnil : n ≠ .iri rdfNil) (hn : n ∈ passed) :
    g.Stops passed (.node n) (.error .loops)
  | missingFirst {c : Term} (hnil : c ≠ .iri rdfNil) (hfresh : ∀ n ∈ passed, c ≠ .node n)
      (hfirst : g.valueOf? rdfFirst c = none) : g.Stops passed c (.error .missingFirst)
  | missingRest {c first : Term} (hnil : c ≠ .iri rdfNil) (hfresh : ∀ n ∈ passed, c ≠ .node n)
      (hfirst : g.valueOf? rdfFirst c = some first) (hrest : g.valueOf? rdfRest c = none) :
    g.Stops passed c (.error .missingRest)

/-- **A walk:** it passes nodes that it has not passed before until it stops. -/
inductive Walk (g : Graph) :
    List Node → Term → List (Node × Term) → Term → Except ListFault (List Term) → Prop
  | stop {passed : List Node} {c : Term} {r : Except ListFault (List Term)}
      (h : g.Stops passed c r) : g.Walk passed c [] c r
  | step {passed : List Node} {n : Node} {first rest c : Term} {path : List (Node × Term)}
      {r : Except ListFault (List Term)} (hnil : n ≠ .iri rdfNil) (hn : n ∉ passed)
      (hfirst : g.value? n rdfFirst = some first) (hrest : g.value? n rdfRest = some rest)
      (h : g.Walk (n :: passed) rest path c r) : g.Walk passed (.node n) ((n, first) :: path) c r

/-- **Every walk stops.** -/
theorem exists_walk (g : Graph) (passed : List Node) (head : Term) :
    ∃ path c r, g.Walk passed head path c r := by
  -- the branches of the function that reads are the ways to stop, and the step
  fun_induction membersFrom g passed head with
  | case1 => exact ⟨_, _, _, .stop .nil⟩
  | case2 passed n hpassed hnil =>
    exact ⟨_, _, _, .stop (.loops (fun he => hnil (congrArg _ he)) hpassed)⟩
  | case3 passed n hpassed hfirst hnil =>
    refine ⟨_, _, _, .stop (.missingFirst hnil ?_ hfirst)⟩
    intro m hm he
    exact hpassed (Term.node.inj he ▸ hm)
  | case4 passed n hpassed first hfirst hrest hnil =>
    refine ⟨_, _, _, .stop (.missingRest hnil ?_ hfirst hrest)⟩
    intro m hm he
    exact hpassed (Term.node.inj he ▸ hm)
  | case5 passed n hpassed first hfirst rest hrest hnil ih =>
    obtain ⟨path, c, r, h⟩ := ih
    exact ⟨_, _, _, .step (fun he => hnil (congrArg _ he)) hpassed hfirst hrest h⟩
  | case6 passed cell hnil hnode =>
    cases cell with
    | node n => exact absurd rfl (hnode n)
    | literal l => exact ⟨_, _, _, .stop (.missingFirst hnil (by simp) rfl)⟩
    | triple s p o => exact ⟨_, _, _, .stop (.missingFirst hnil (by simp) rfl)⟩

theorem membersFrom_of_stops (h : g.Stops passed c r) : g.membersFrom passed c = r := by
  cases h with
  | nil => rw [membersFrom, if_pos rfl]
  | loops hnil hn =>
    rw [membersFrom_node g passed (fun he => hnil (Term.node.inj he)), if_pos hn]
  | missingFirst hnil hfresh hfirst =>
    cases c with
    | node n =>
      have hvalue : g.value? n rdfFirst = none := hfirst
      rw [membersFrom_node g passed hnil, if_neg fun hn => hfresh n hn rfl, hvalue]
      rfl
    | literal l => simp [membersFrom]
    | triple s p o => simp [membersFrom]
  | missingRest hnil hfresh hfirst hrest =>
    cases c with
    | node n =>
      have hmember : g.value? n rdfFirst = some _ := hfirst
      have hnext : g.value? n rdfRest = none := hrest
      rw [membersFrom_node g passed hnil, if_neg fun hn => hfresh n hn rfl, hmember, hnext]
      rfl
    | literal l => cases hfirst
    | triple s p o => cases hfirst

/-- **The walk with a bound** on the cells that it looks at. It gives nothing if the bound is
reached before it stops. -/
def membersWithin (g : Graph) : Nat → List Term → Term → Option (Except ListFault (List Term))
  | 0, _, _ => none
  | budget + 1, passed, cell =>
    if cell = .iri rdfNil then some (.ok [])
    else if cell ∈ passed then some (.error .loops)
    else
      match g.valueOf? rdfFirst cell with
      | none => some (.error .missingFirst)
      | some first =>
        match g.valueOf? rdfRest cell with
        | none => some (.error .missingRest)
        | some rest => (g.membersWithin budget (cell :: passed) rest).map (·.map (first :: ·))

theorem membersWithin_of_stops (h : g.Stops passed c r) (budget : Nat) :
    g.membersWithin (budget + 1) (passed.map .node) c = some r := by
  have hmem : (∀ n ∈ passed, c ≠ .node n) → c ∉ passed.map Term.node := by
    intro hfresh hc
    obtain ⟨n, hn, rfl⟩ := List.mem_map.1 hc
    exact hfresh n hn rfl
  unfold membersWithin
  cases h with
  | nil => rw [if_pos rfl]
  | loops hnil hn =>
    rw [if_neg fun he => hnil (Term.node.inj he), if_pos (List.mem_map_of_mem hn)]
  | missingFirst hnil hfresh hfirst => rw [if_neg hnil, if_neg (hmem hfresh), hfirst]
  | missingRest hnil hfresh hfirst hrest =>
    rw [if_neg hnil, if_neg (hmem hfresh), hfirst, hrest]

namespace Walk

theorem leads (h : g.Walk passed head path c r) : g.Leads head path c := by
  induction h with
  | stop h => exact .here _
  | step hnil hn hfirst hrest h ih => exact .step hnil hfirst hrest ih

theorem nodup (h : g.Walk passed head path c r) :
    (path.map Prod.fst).Nodup ∧ ∀ n ∈ path.map Prod.fst, n ∉ passed := by
  induction h with
  | stop h => simp
  | step hnil hn hfirst hrest h ih =>
    obtain ⟨hnodup, hfresh⟩ := ih
    refine ⟨List.nodup_cons.2 ⟨fun hmem => hfresh _ hmem List.mem_cons_self, hnodup⟩, ?_⟩
    intro n' hn'
    rcases List.mem_cons.1 hn' with rfl | hn'
    · exact hn
    · exact fun hmem => hfresh n' hn' (List.mem_cons_of_mem _ hmem)

/-- Where a walk stops, it has passed the nodes on its path. -/
theorem stops (h : g.Walk passed head path c r) :
    g.Stops ((path.map Prod.fst).reverse ++ passed) c r := by
  induction h with
  | stop h => exact h
  | step hnil hn hfirst hrest h ih => simpa using ih

/-- **What a walk gives:** the members on its path, if it stops at the end of lists. -/
theorem membersFrom_eq (h : g.Walk passed head path c r) :
    g.membersFrom passed head = r.map (path.map Prod.snd ++ ·) := by
  induction h with
  | stop h =>
    rw [membersFrom_of_stops h]
    cases h <;> rfl
  | @step passed n first rest c path r hnil hn hfirst hrest h ih =>
    rw [membersFrom_node g passed (fun he => hnil (Term.node.inj he)), if_neg hn, hfirst, hrest,
      Option.elim_some, Option.elim_some, ih]
    cases r <;> rfl

/-- **How far a walk looks:** one cell beyond those on its path. -/
theorem membersWithin_eq (h : g.Walk passed head path c r) (budget : Nat) :
    g.membersWithin budget (passed.map .node) head =
      if path.length < budget then some (g.membersFrom passed head) else none := by
  rw [h.membersFrom_eq]
  induction h generalizing budget with
  | stop h =>
    cases budget with
    | zero => rfl
    | succ budget =>
      have hpos : ([] : List (Node × Term)).length < budget + 1 := Nat.succ_pos budget
      rw [membersWithin_of_stops h, if_pos hpos]
      cases h <;> rfl
  | @step passed n first rest c path r hnil hn hfirst hrest h ih =>
    cases budget with
    | zero => rfl
    | succ budget =>
      have hmem : Term.node n ∉ passed.map Term.node := by simpa using hn
      have hmember : g.valueOf? rdfFirst (.node n) = some first := hfirst
      have hnext : g.valueOf? rdfRest (.node n) = some rest := hrest
      -- one cell of the bound is used up for the first node on the path
      have hstep := ih budget
      rw [List.map_cons] at hstep
      rw [membersWithin, if_neg fun he => hnil (Term.node.inj he), if_neg hmem, hmember, hnext,
        List.length_cons]
      dsimp only
      rw [hstep]
      by_cases hlt : path.length < budget
      · rw [if_pos hlt, if_pos (Nat.succ_lt_succ hlt)]
        cases r <;> rfl
      · rw [if_neg hlt, if_neg fun h => hlt (Nat.lt_of_succ_lt_succ h)]
        rfl

end Walk

/-- The subjects that have a member. -/
def listNodes (g : Graph) : Finset Node := ((g.withPredicate rdfFirst).map Triple.subject).toFinset

/-- **A walk is short:** it passes different nodes that have a member. -/
theorem Walk.length_le (h : g.Walk passed head path c r) : path.length ≤ g.listNodes.card := by
  have hsubset : (path.map Prod.fst).toFinset ⊆ g.listNodes := by
    intro n hn
    obtain ⟨m, hm, ⟨o, ho⟩, -⟩ := (h.leads.isCell_of_mem (List.mem_toFinset.1 hn)).2
    obtain rfl := Term.node.inj hm
    exact List.mem_toFinset.2 (List.mem_map.2 ⟨_, mem_withPredicate.2 ⟨ho, rfl⟩, rfl⟩)
  calc
    path.length = (path.map Prod.fst).toFinset.card := by
      rw [List.toFinset_card_of_nodup h.nodup.1, List.length_map]
    _ ≤ g.listNodes.card := Finset.card_le_card hsubset

/-! ## Members -/

theorem not_isCell_of_valueOf? (h : g.valueOf? rdfFirst c = none ∨ g.valueOf? rdfRest c = none) :
    ¬ g.IsCell c := by
  rintro ⟨n, rfl, ⟨first, hfirst⟩, ⟨rest, hrest⟩⟩
  rcases h with h | h
  · exact value?_eq_none_iff.1 h first hfirst
  · exact value?_eq_none_iff.1 h rest hrest

/-- **The ways in which reading a list can end,** told by the sequence of its cells. -/
theorem members_cases (g : Graph) (head : Term) :
    (∃ path, g.Leads head path (.iri rdfNil) ∧ g.members head = .ok (path.map Prod.snd)) ∨
    (∀ k, ¬ g.ReachesNil head k) ∧
      ∃ f, g.members head = .error f ∧ (f = .loops ↔ g.ComesBack head) := by
  obtain ⟨path, c, r, h⟩ := g.exists_walk [] head
  have hmembers : g.members head = r.map (path.map Prod.snd ++ ·) := h.membersFrom_eq
  have hleads := h.leads
  have hnodup := h.nodup.1
  cases h.stops with
  | nil =>
    refine .inl ⟨path, hleads, ?_⟩
    rw [hmembers]
    exact congrArg _ (List.append_nil _)
  | loops hnil hn =>
    -- nothing was passed before the head, so the node it comes back to is on the path
    rw [List.append_nil, List.mem_reverse] at hn
    exact .inr ⟨hleads.not_reachesNil_of_back hn, _, hmembers, by simp [hleads.comesBack hn]⟩
  | missingFirst hnil hfresh hfirst =>
    have hc := not_isCell_of_valueOf? (.inl hfirst)
    refine .inr ⟨hleads.not_reachesNil_of_stuck hnil hc, _, hmembers, ?_⟩
    simp [hleads.not_comesBack_of_stuck hnodup hc]
  | missingRest hnil hfresh hfirst hrest =>
    have hc := not_isCell_of_valueOf? (.inr hrest)
    refine .inr ⟨hleads.not_reachesNil_of_stuck hnil hc, _, hmembers, ?_⟩
    simp [hleads.not_comesBack_of_stuck hnodup hc]

/-- **The members of a list are those on the way to the end of lists.** -/
theorem members_eq_ok_iff {members : List Term} :
    g.members head = .ok members ↔
      ∃ path, g.Leads head path (.iri rdfNil) ∧ members = path.map Prod.snd := by
  rcases g.members_cases head with ⟨path, hpath, hok⟩ | ⟨hnever, f, hf, -⟩
  · rw [hok]
    constructor
    · intro h
      exact ⟨path, hpath, (Except.ok.inj h).symm⟩
    · rintro ⟨path', hpath', rfl⟩
      rw [hpath.unique hpath']
  · rw [hf]
    constructor
    · intro h
      cases h
    · rintro ⟨path, hpath, -⟩
      exact absurd hpath.reachesNil (hnever _)

/-- Of the indices at which the sequence reaches the end of lists, the length of the path is the
first. -/
theorem Leads.isLeast (h : g.Leads head path (.iri rdfNil)) :
    IsLeast {k | g.ReachesNil head k} path.length := by
  refine ⟨h.reachesNil, ?_⟩
  rintro k ⟨hk, -⟩
  by_contra hlt
  exact h.cell?_ne_nil (by omega) hk

/-! ## Lists on cells of their own -/

/-- The head of a list that is written on some cells. -/
def listHead : List (Node × Term) → Term
  | [] => .iri rdfNil
  | (n, _) :: _ => .node n

/-- The triples of a list that is written on some cells. -/
def listTriples : List (Node × Term) → List Triple
  | [] => []
  | (n, t) :: l => ⟨n, rdfFirst, t⟩ :: ⟨n, rdfRest, listHead l⟩ :: listTriples l

/-- **A list that is written on cells of its own:** different nodes, none of them the end of lists,
without any other member or next cell. -/
structure HasList (g : Graph) (l : List (Node × Term)) : Prop where
  nodup : (l.map Prod.fst).Nodup
  nil_not_mem : .iri rdfNil ∉ l.map Prod.fst
  mem_iff : ∀ t : Triple, t.subject ∈ l.map Prod.fst → t.predicate = rdfFirst ∨
    t.predicate = rdfRest → (t ∈ g ↔ t ∈ listTriples l)

theorem subject_mem_of_mem_listTriples {l : List (Node × Term)} {t : Triple}
    (h : t ∈ listTriples l) : t.subject ∈ l.map Prod.fst := by
  induction l with
  | nil => cases h
  | cons cell l ih =>
    rw [listTriples, List.mem_cons, List.mem_cons] at h
    rcases h with rfl | rfl | h
    · exact List.mem_cons_self
    · exact List.mem_cons_self
    · exact List.mem_cons_of_mem _ (ih h)

theorem rdfFirst_ne_rdfRest : rdfFirst ≠ rdfRest := by decide

theorem HasList.tail {t : Term} {l : List (Node × Term)} (h : g.HasList ((n, t) :: l)) :
    g.HasList l := by
  obtain ⟨hn, hnodup⟩ := List.nodup_cons.1 h.nodup
  refine ⟨hnodup, fun hmem => h.nil_not_mem (List.mem_cons_of_mem _ hmem), ?_⟩
  intro u hu hp
  rw [h.mem_iff u (List.mem_cons_of_mem _ hu) hp, listTriples, List.mem_cons, List.mem_cons]
  -- the triples of the first cell have another subject
  constructor
  · rintro (rfl | rfl | hmem)
    · exact absurd hu hn
    · exact absurd hu hn
    · exact hmem
  · exact fun hmem => .inr (.inr hmem)

/-- A list on cells of its own leads to the end of lists. -/
theorem HasList.leads {l : List (Node × Term)} (h : g.HasList l) :
    g.Leads (listHead l) l (.iri rdfNil) := by
  induction l with
  | nil => exact .here _
  | cons cell l ih =>
    obtain ⟨n, t⟩ := cell
    have hn : n ∉ l.map Prod.fst := (List.nodup_cons.1 h.nodup).1
    -- the first cell has no triple among those of the other cells, so its values are unique
    have htail : ∀ p o, (⟨n, p, o⟩ : Triple) ∉ listTriples l :=
      fun p o hmem => hn (subject_mem_of_mem_listTriples hmem)
    have hfirst : g.value? n rdfFirst = some t := by
      refine value?_eq_of_unique fun o => ?_
      rw [h.mem_iff _ List.mem_cons_self (.inl rfl)]
      simp [listTriples, htail, rdfFirst_ne_rdfRest]
    have hrest : g.value? n rdfRest = some (listHead l) := by
      refine value?_eq_of_unique fun o => ?_
      rw [h.mem_iff _ List.mem_cons_self (.inr rfl)]
      simp [listTriples, htail, rdfFirst_ne_rdfRest.symm]
    exact .step (fun he => h.nil_not_mem (he ▸ List.mem_cons_self)) hfirst hrest (ih h.tail)

end Rdf.Graph

/-! ## Lists of shapes -/

open Rdf.Graph

theorem Rdf.ListFault.message_eq_loops_iff {f : ListFault} :
    f.message = "The list loops on itself" ↔ f = .loops := by
  cases f <;> decide

/-- **A list is read off the sequence of its cells.** The smallest values of a property lead from
cell to cell, and reading looks at no more than one cell beyond the number of nodes that have a
member. It succeeds exactly if the sequence reaches the end of lists through nodes that have a
member and a next cell, and the list has the smallest member of each of them up to the first time it
does so. Otherwise the fault names the owner of the list, and its message is about loops exactly if
the sequence comes back to a node. In particular, a list that is written on cells of its own is read
back. -/
theorem Shacl.list_read_off_cells (g : Graph) (owner : Node) (head : Term) :
    (∀ n p, (∀ o, g.value? n p = some o → g.IsSmallest n p o) ∧
      (g.value? n p = none ↔ ∀ o, (⟨n, p, o⟩ : Triple) ∉ g)) ∧
    (∃ visits ≤ g.listNodes.card + 1, ∀ budget, g.membersWithin budget [] head =
      if visits ≤ budget then some (g.members head) else none) ∧
    ((∃ members, listOf g owner head = .ok members) ↔ ∃ k, g.ReachesNil head k) ∧
    (∀ members, listOf g owner head = .ok members → ∃ k, IsLeast {k | g.ReachesNil head k} k ∧
      members.length = k ∧ ∀ i < k, ∃ n first, g.cell? head i = some (.node n) ∧
        members[i]? = some first ∧ g.value? n rdfFirst = some first) ∧
    ((∀ k, ¬ g.ReachesNil head k) → ∃ f, listOf g owner head = .error (.invalidList owner f) ∧
      (f.message = "The list loops on itself" ↔ g.ComesBack head)) ∧
    ∀ l, g.HasList l → head = listHead l → listOf g owner head = .ok (l.map Prod.snd) := by
  have hok : ∀ members, listOf g owner head = .ok members ↔ g.members head = .ok members :=
    fun members => Except.mapError_eq_ok_iff
  refine ⟨fun n p => ⟨fun o => isSmallest_of_value?, value?_eq_none_iff⟩, ?_, ?_, ?_, ?_, ?_⟩
  · obtain ⟨path, c, r, h⟩ := g.exists_walk [] head
    exact ⟨path.length + 1, Nat.succ_le_succ h.length_le, h.membersWithin_eq⟩
  · simp only [hok]
    rcases g.members_cases head with ⟨path, hpath, hmembers⟩ | ⟨hnever, f, hf, -⟩
    · exact ⟨fun _ => ⟨_, hpath.reachesNil⟩, fun _ => ⟨_, hmembers⟩⟩
    · simp [hf, hnever]
  · intro members h
    obtain ⟨path, hpath, rfl⟩ := members_eq_ok_iff.1 ((hok members).1 h)
    refine ⟨path.length, hpath.isLeast, List.length_map _, ?_⟩
    intro i hi
    refine ⟨_, path[i].2, hpath.cell?_of_lt hi, ?_, hpath.member_of_lt hi⟩
    rw [List.getElem?_map, List.getElem?_eq_getElem hi, Option.map_some]
  · intro hnever
    rcases g.members_cases head with ⟨path, hpath, -⟩ | ⟨-, f, hf, hloops⟩
    · exact absurd hpath.reachesNil (hnever _)
    · refine ⟨f, ?_, ListFault.message_eq_loops_iff.trans hloops⟩
      rw [listOf, hf]
      rfl
  · rintro l hl rfl
    exact (hok _).2 (members_eq_ok_iff.2 ⟨l, hl.leads, rfl⟩)

/-- A list of three members on cells of its own. -/
def writtenList : List (Node × Term) :=
  [(.blank "c", .iri "x"), (.iri "c", .literal (.typed "y" xsdString)), (.iri "d", .iri "x")]

/-- What stands beside it: the end of lists has a member and a next cell too, and of the next cells
of `r` the smallest one leads back to it. -/
def ringTriples : List Triple :=
  [⟨.iri rdfNil, rdfFirst, .iri "x"⟩, ⟨.iri rdfNil, rdfRest, .blank "c"⟩,
    ⟨.iri "a", rdfFirst, .iri "x"⟩, ⟨.iri "a", rdfRest, .iri "r"⟩,
    ⟨.iri "r", rdfFirst, .iri "x"⟩, ⟨.iri "r", rdfRest, .iri rdfNil⟩,
    ⟨.iri "r", rdfRest, .blank "c"⟩, ⟨.iri "r", rdfRest, .iri "a"⟩]

/-- The two in one graph. -/
def tangled : Graph := .ofList (listTriples writtenList ++ ringTriples)

/-- Its triples, scanned as they stand. -/
def tangledScan : Graph := ⟨listTriples writtenList ++ ringTriples, by decide +kernel⟩

theorem members_tangled (head : Term) : tangled.members head = tangledScan.members head := by
  have hfirst : IsIriText rdfFirst := by decide +kernel
  have hrest : IsIriText rdfRest := by decide +kernel
  have hparts : ∀ t ∈ listTriples writtenList ++ ringTriples, t.subject.WellFormed ∧
      (t.predicate = rdfFirst ∨ t.predicate = rdfRest) ∧ t.object.WellFormed := by decide +kernel
  have hwf : ∀ t ∈ listTriples writtenList ++ ringTriples, t.WellFormed := by
    intro t ht
    obtain ⟨hsubject, hpredicate, hobject⟩ := hparts t ht
    refine ⟨hsubject, ?_, hobject⟩
    rcases hpredicate with h | h
    · exact h ▸ hfirst
    · exact h ▸ hrest
  have hsame : tangled.SameTriples tangledScan := fun t => Graph.mem_ofList
  exact (sameValues_of_sameTriples hsame fun t ht => hwf t (Graph.mem_ofList.1 ht)).members_eq head

theorem Shacl.list_read_off_cells_tangled :
    tangled.HasList writtenList ∧
    listOf tangled (.iri "s") (.blank "c") = .ok (writtenList.map Prod.snd) ∧
    tangled.ReachesNil (.blank "c") 3 ∧
    listOf tangled (.iri "s") (.iri "r") = .error (.invalidList (.iri "s") .loops) ∧
    (∀ k, ¬ tangled.ReachesNil (.iri "r") k) ∧ tangled.ComesBack (.iri "r") := by
  have hlist : tangled.HasList writtenList := by
    have hstray : ∀ t ∈ ringTriples, t.subject ∉ writtenList.map Prod.fst := by decide
    refine ⟨by decide, by decide, ?_⟩
    intro t ht _
    rw [tangled, Graph.mem_ofList, List.mem_append]
    exact or_iff_left fun hmem => hstray t hmem ht
  obtain ⟨-, -, -, hmembers, -, hread⟩ :=
    list_read_off_cells tangled (.iri "s") (.blank "c")
  have hok := hread writtenList hlist rfl
  obtain ⟨k, ⟨hreaches, -⟩, hlength, -⟩ := hmembers _ hok
  obtain rfl : 3 = k := hlength
  obtain ⟨-, -, hiff, -, hfault, -⟩ := list_read_off_cells tangled (.iri "s") (.iri "r")
  have hloops : listOf tangled (.iri "s") (.iri "r") = .error (.invalidList (.iri "s") .loops) := by
    rw [listOf, members_tangled]
    decide +kernel
  have hnever : ∀ k, ¬ tangled.ReachesNil (.iri "r") k := by
    intro k hk
    obtain ⟨members, h⟩ := hiff.2 ⟨k, hk⟩
    cases hloops.symm.trans h
  obtain ⟨f, hf, hback⟩ := hfault hnever
  cases hloops.symm.trans hf
  exact ⟨hlist, hok, hreaches, hloops, hnever, hback.1 rfl⟩

end ShapeRules
