import LinearProgram.Proofs.Document.DeclarationOrder
import LinearProgram.Proofs.Document.Summation

/-!
# Counting down what is still in front

The order of declaration can be found without searching the waiting variables again and
again: each variable is given by its place of first appearance, with a counter of the
neighbours in sections that still wait in front of it.  A variable is ready when its
counter is zero; placing it takes one from the counter of every neighbour behind it.
The search here stops with nothing when a variable has no place or when a counter would
go below zero, and the main statement, `Document.countedOrder?_eq`, is that it always
finds the order of declaration.
-/

namespace LinearProgram

/-- How much is left in front of every rank, and the ranks with nothing in front. -/
structure Countdown where
  pending : List Nat
  ready : List Nat

namespace Countdown

variable {state after : Countdown} {edges : List (Nat × Nat)} {bound rank next : Nat}
  {waiting targets : List Nat}

/-- One less in front of a rank, which there must have been. -/
def release? (state : Countdown) (rank : Nat) : Option Countdown :=
  match state.pending[rank]? with
  | some (count + 1) =>
    some ⟨state.pending.set rank count,
      if count = 0 then rank :: state.ready else state.ready⟩
  | _ => none

/-- The ranks behind a rank, each as often as an edge leads there. -/
def successors (edges : List (Nat × Nat)) (rank : Nat) : List Nat :=
  (edges.filter fun edge => edge.1 = rank).map Prod.snd

/-- What is left when a ready rank is placed. -/
def take (state : Countdown) (rank : Nat) : Countdown :=
  { state with ready := state.ready.erase rank }

/-- What bounds the number of ranks that can still be placed. -/
def size (state : Countdown) : Nat :=
  state.ready.length + state.pending.foldr (· + ·) 0

theorem foldr_set_add_one
    {xs : List Nat} {i count : Nat} (h : xs[i]? = some (count + 1)) :
    (xs.set i count).foldr (· + ·) 0 + 1 = xs.foldr (· + ·) 0 := by
  induction xs generalizing i with
  | nil => cases h
  | cons x xs ih =>
      cases i with
      | zero =>
          obtain rfl : x = count + 1 := Option.some.inj h
          rw [List.set_cons_zero, List.foldr_cons, List.foldr_cons]
          omega
      | succ i =>
          have hlater := ih h
          rw [List.set_cons_succ, List.foldr_cons, List.foldr_cons]
          omega

theorem size_le_of_release? (h : state.release? rank = some after) : after.size ≤ state.size := by
  rw [release?] at h
  split at h
  · next count hcount =>
      have hsum := foldr_set_add_one hcount
      rw [← Option.some.inj h, size, size, ← hsum]
      dsimp only
      split
      · rw [List.length_cons]
        omega
      · omega
  · exact nomatch h

theorem size_le_of_foldlM {ranks : List Nat} (h : ranks.foldlM release? state = some after) :
    after.size ≤ state.size := by
  induction ranks generalizing state with
  | nil => exact Nat.le_of_eq (congrArg size (Option.some.inj h)).symm
  | cons rank ranks ih =>
      rw [List.foldlM_cons] at h
      obtain ⟨middle, hrelease, hlater⟩ := Option.bind_eq_some_iff.mp h
      exact (ih hlater).trans (size_le_of_release? hrelease)

theorem size_take_lt (h : rank ∈ state.ready) : (state.take rank).size < state.size := by
  have hpos := List.length_pos_of_mem h
  have hlength := List.length_erase_of_mem h
  rw [size, size]
  dsimp only [take]
  omega

/-- The ranks in the order in which they become ready, the least one first. -/
def order? (edges : List (Nat × Nat)) (state : Countdown) : Option (List Nat) :=
  match _hleast : state.ready.min? with
  | none => some []
  | some rank =>
    match _hafter : (successors edges rank).foldlM release? (state.take rank) with
    | none => none
    | some after => (order? edges after).map (rank :: ·)
termination_by state.size
decreasing_by exact (size_le_of_foldlM _hafter).trans_lt (size_take_lt (List.min?_mem _hleast))

/-- Every rank with the number of edges that lead to it. -/
def start (bound : Nat) (edges : List (Nat × Nat)) : Countdown :=
  let pending := (List.range bound).map fun rank => (edges.map Prod.snd).count rank
  ⟨pending, (List.range bound).filter fun rank => pending[rank]? = some 0⟩

/-! ## One step -/

/-- Whether a countdown shows how often each rank is still a target of what waits. -/
structure Counts (bound : Nat) (waiting targets : List Nat) (state : Countdown) : Prop where
  pending : state.pending = (List.range bound).map fun rank => targets.count rank
  nodup : state.ready.Nodup
  mem_ready : ∀ rank, rank ∈ state.ready ↔ rank ∈ waiting ∧ rank ∉ targets

theorem Counts.perm {other : List Nat} (h : Counts bound waiting targets state)
    (hperm : targets.Perm other) : Counts bound waiting other state where
  pending := by
    rw [h.pending]
    exact List.map_congr_left fun rank _ => hperm.count_eq rank
  nodup := h.nodup
  mem_ready rank := by rw [h.mem_ready, hperm.mem_iff]

/-- A target can be released, and it is ready when it was the last of its kind. -/
theorem Counts.exists_release? (h : Counts bound waiting (rank :: targets) state)
    (hrank : rank ∈ waiting) (hlt : rank < bound) :
    ∃ after, state.release? rank = some after ∧ Counts bound waiting targets after := by
  have hcount : state.pending[rank]? = some (targets.count rank + 1) := by
    rw [h.pending, List.getElem?_map, List.getElem?_range hlt, Option.map_some,
      List.count_cons_self]
  -- What still has a target in front is not ready yet, so nothing becomes ready twice.
  have hnot : rank ∉ state.ready := fun hmem => ((h.mem_ready rank).mp hmem).2 List.mem_cons_self
  refine ⟨_, by rw [release?, hcount], ?_, ?_, ?_⟩
  · rw [h.pending]
    refine List.ext_getElem (by simp) fun place _ _ => ?_
    rw [List.getElem_set, List.getElem_map, List.getElem_map, List.getElem_range]
    split
    · next heq => rw [heq]
    · next hne => rw [List.count_cons_of_ne hne]
  · dsimp only
    split
    · exact List.nodup_cons.mpr ⟨hnot, h.nodup⟩
    · exact h.nodup
  · intro other
    dsimp only
    split
    · next hzero =>
        have hlast : rank ∉ targets := List.count_eq_zero.mp hzero
        by_cases hother : other = rank
        · simp [hother, hrank, hlast]
        · simp [h.mem_ready, hother]
    · next hpositive =>
        have hagain : rank ∈ targets := by
          by_contra hlast
          exact hpositive (List.count_eq_zero.mpr hlast)
        rw [h.mem_ready, List.mem_cons, or_iff_right_of_imp fun heq => heq ▸ hagain]

theorem Counts.exists_foldlM {ranks : List Nat} (h : Counts bound waiting (ranks ++ targets) state)
    (hranks : ∀ rank ∈ ranks, rank ∈ waiting ∧ rank < bound) :
    ∃ after, ranks.foldlM release? state = some after ∧ Counts bound waiting targets after := by
  induction ranks generalizing state with
  | nil => exact ⟨state, rfl, h⟩
  | cons rank ranks ih =>
      obtain ⟨⟨hrank, hlt⟩, hlater⟩ := List.forall_mem_cons.mp hranks
      obtain ⟨middle, hrelease, hmiddle⟩ := Counts.exists_release? h hrank hlt
      obtain ⟨after, hfold, hafter⟩ := ih hmiddle hlater
      exact ⟨after, by rw [List.foldlM_cons, hrelease]; exact hfold, hafter⟩

/-! ## All steps -/

/-- The ranks that edges from waiting ranks lead to. -/
def targetsOf (edges : List (Nat × Nat)) (waiting : List Nat) : List Nat :=
  (edges.filter fun edge => edge.1 ∈ waiting).map Prod.snd

theorem not_mem_targetsOf_iff :
    rank ∉ targetsOf edges waiting ↔ isFirstOf edges waiting rank = true := by
  rw [isFirstOf_iff, targetsOf]
  simp only [List.mem_map, List.mem_filter, decide_eq_true_eq, Prod.exists, exists_eq_right,
    not_exists, not_and]
  refine forall_congr' fun other => ⟨fun h hmem hedge => h hedge hmem, ?_⟩
  exact fun h hedge hmem => h hmem hedge

theorem targetsOf_perm (hrank : rank ∈ waiting) (hnodup : waiting.Nodup) :
    (targetsOf edges waiting).Perm
      (successors edges rank ++ targetsOf edges (waiting.erase rank)) := by
  rw [targetsOf, successors, targetsOf, ← List.map_append]
  refine List.Perm.map Prod.snd ?_
  have hparts := (edges.filter fun edge => edge.1 ∈ waiting).filter_append_perm fun edge =>
    edge.1 = rank
  rw [List.filter_filter, List.filter_filter] at hparts
  refine hparts.symm.trans (.of_eq (congrArg₂ _ ?_ ?_)) <;>
    refine List.filter_congr fun edge _ => ?_
  · by_cases hedge : edge.1 = rank <;> simp [hedge, hrank]
  · simp [hnodup.mem_erase_iff]

/-- A countdown over waiting ranks in order, where edges from waiting ranks stay among them. -/
structure Runs (bound : Nat) (edges : List (Nat × Nat)) (waiting : List Nat)
    (state : Countdown) : Prop where
  counts : Counts bound waiting (targetsOf edges waiting) state
  sorted : waiting.Pairwise (· < ·)
  bounded : ∀ rank ∈ waiting, rank < bound
  closed : ∀ edge ∈ edges, edge.1 ∈ waiting → edge.2 ∈ waiting

theorem Runs.mem_ready (h : Runs bound edges waiting state) :
    rank ∈ state.ready ↔ rank ∈ waiting ∧ isFirstOf edges waiting rank = true := by
  rw [h.counts.mem_ready, not_mem_targetsOf_iff]

theorem Runs.nodup (h : Runs bound edges waiting state) : waiting.Nodup :=
  h.sorted.imp Nat.ne_of_lt

/-- The least rank that is ready is the first one that is held back by none. -/
theorem Runs.find?_eq_min? (h : Runs bound edges waiting state) :
    waiting.find? (isFirstOf edges waiting) = state.ready.min? := by
  cases hleast : state.ready.min? with
  | none =>
      refine List.find?_eq_none.mpr fun rank hrank hfirst => ?_
      have hready := h.mem_ready.mpr ⟨hrank, hfirst⟩
      rw [List.min?_eq_none_iff.mp hleast] at hready
      exact nomatch hready
  | some least =>
      obtain ⟨hready, hle⟩ := List.min?_eq_some_iff.mp hleast
      obtain ⟨hwaiting, hfirst⟩ := h.mem_ready.mp hready
      cases hfind : waiting.find? (isFirstOf edges waiting) with
      | none => exact absurd hfirst (List.find?_eq_none.mp hfind least hwaiting)
      | some found =>
          have hfound := hle found (h.mem_ready.mpr
            ⟨List.mem_of_find?_eq_some hfind, List.find?_some hfind⟩)
          rcases @rank_lt_or_eq_of_find? _ _ _ _ _ id h.sorted hfind hwaiting hfirst with
            hlt | heq
          · exact absurd hlt (Nat.not_lt.mpr hfound)
          · rw [heq]

/-- Placing a rank takes every edge from it away. -/
theorem Runs.exists_foldlM (h : Runs bound edges waiting state) (hready : rank ∈ state.ready) :
    ∃ after, (successors edges rank).foldlM release? (state.take rank) = some after ∧
      Runs bound edges (waiting.erase rank) after := by
  obtain ⟨hwaiting, hfirst⟩ := h.mem_ready.mp hready
  have hclosed : ∀ edge ∈ edges, edge.1 ∈ waiting → edge.2 ∈ waiting.erase rank := by
    intro edge hedge hbefore
    refine h.nodup.mem_erase_iff.mpr ⟨?_, h.closed edge hedge hbefore⟩
    rintro rfl
    exact isFirstOf_iff.mp hfirst edge.1 hbefore hedge
  -- The rank is gone from what waits, but its own edges are counted until they are released.
  have htaken : Counts bound (waiting.erase rank) (targetsOf edges waiting) (state.take rank) := by
    refine ⟨h.counts.pending, h.counts.nodup.erase rank, fun other => ?_⟩
    rw [take, h.counts.nodup.mem_erase_iff, h.nodup.mem_erase_iff, h.counts.mem_ready, and_assoc]
  obtain ⟨after, hafter, hcounts⟩ :=
    (htaken.perm (targetsOf_perm hwaiting h.nodup)).exists_foldlM fun other hother => by
      obtain ⟨edge, hedge, rfl⟩ := List.mem_map.mp hother
      obtain ⟨hmem, hbefore⟩ := List.mem_filter.mp hedge
      have hlater := hclosed edge hmem (of_decide_eq_true hbefore ▸ hwaiting)
      exact ⟨hlater, h.bounded _ (List.mem_of_mem_erase hlater)⟩
  exact ⟨after, hafter, hcounts, h.sorted.sublist List.erase_sublist,
    fun other hother => h.bounded other (List.mem_of_mem_erase hother),
    fun edge hedge hbefore => hclosed edge hedge (List.mem_of_mem_erase hbefore)⟩

/-- A countdown places what a merge places, and what it leaves is what is held back. -/
theorem Runs.exists_order? (h : Runs bound edges waiting state) :
    ∃ placed, order? edges state = some placed ∧
      leastMerge edges waiting = placed ++ waiting.filter fun rank => rank ∉ placed := by
  fun_induction order? edges state generalizing waiting with
  | case1 state hleast =>
      refine ⟨[], rfl, ?_⟩
      rw [leastMerge_of_find?_eq_none (h.find?_eq_min?.trans hleast), List.nil_append,
        List.filter_eq_self.mpr fun rank _ => decide_eq_true List.not_mem_nil]
  -- No release fails: this is the case in which a counter would go below zero.
  | case2 state rank hleast hnone =>
      obtain ⟨after, hafter, -⟩ := h.exists_foldlM (List.min?_mem hleast)
      exact nomatch hnone.symm.trans hafter
  | case3 state rank hleast after hafter ih =>
      obtain ⟨after', hafter', hruns⟩ := h.exists_foldlM (List.min?_mem hleast)
      obtain rfl : after = after' := Option.some.inj (hafter.symm.trans hafter')
      obtain ⟨placed, horder, hmerge⟩ := ih hruns
      refine ⟨rank :: placed, by rw [horder]; rfl, ?_⟩
      rw [leastMerge_of_find?_eq_some (h.find?_eq_min?.trans hleast), hmerge, List.cons_append,
        h.nodup.erase_eq_filter, List.filter_filter]
      refine congrArg (rank :: placed ++ ·) (List.filter_congr fun other _ => ?_)
      by_cases hother : other = rank <;> simp [hother]

/-- At the start everything waits, and the ranks without an edge to them are ready. -/
theorem runs_start (hedges : ∀ edge ∈ edges, edge.1 < bound ∧ edge.2 < bound) :
    Runs bound edges (List.range bound) (start bound edges) := by
  have hall : targetsOf edges (List.range bound) = edges.map Prod.snd := by
    rw [targetsOf, List.filter_eq_self.mpr fun edge hedge =>
      decide_eq_true (List.mem_range.mpr (hedges edge hedge).1)]
  refine ⟨⟨?_, List.nodup_range.filter _, fun rank => ?_⟩, List.pairwise_lt_range,
    fun rank => List.mem_range.mp, fun edge hedge _ => List.mem_range.mpr (hedges edge hedge).2⟩
  · rw [hall, start]
  · rw [hall, start, List.mem_filter, decide_eq_true_eq]
    refine and_congr_right fun hrank => ?_
    rw [List.getElem?_map, List.getElem?_range (List.mem_range.mp hrank), Option.map_some,
      Option.some.injEq, List.count_eq_zero]

end Countdown

/-! ## Variables by rank -/

theorem mapM_eq_some_map
    {α β : Type} {f : α → Option β} {g : α → β} {xs : List α} (h : ∀ x ∈ xs, f x = some (g x)) :
    xs.mapM f = some (xs.map g) := by
  induction xs with
  | nil => rfl
  | cons x xs ih =>
      obtain ⟨hx, hlater⟩ := List.forall_mem_cons.mp h
      rw [List.mapM_cons, hx, ih hlater]
      rfl

theorem map_idxOf_eq_range
    {α : Type} [DecidableEq α] {xs : List α} (h : xs.Nodup) :
    xs.map (fun x => xs.idxOf x) = List.range xs.length := by
  refine List.ext_getElem (by simp) fun place hplace _ => ?_
  rw [List.getElem_map, List.getElem_range, h.idxOf_getElem]

namespace Document

variable (document : Document)

/-- The place of a variable in the order of first appearance. -/
def rank (name : String) : Nat :=
  document.variableNames.idxOf name

/-- The pairs of the sections by rank, if every variable has one. -/
def rankPairs? : Option (List (Nat × Nat)) :=
  document.sectionPairs.mapM fun pair => do
    return (← document.variableNames.idxOf? pair.1, ← document.variableNames.idxOf? pair.2)

/-- The order of declaration by counting down, the ranks that are never ready at the end. -/
def countedOrder? : Option (List String) := do
  let edges ← document.rankPairs?
  let ranks := List.range document.variableNames.length
  let placed ← Countdown.order? edges (Countdown.start document.variableNames.length edges)
  (placed ++ ranks.filter fun rank => rank ∉ placed).mapM fun rank => document.variableNames[rank]?

theorem rank_injOn : Set.InjOn document.rank {name | name ∈ document.variableNames} :=
  fun _ hx _ _ heq => (List.idxOf_inj hx).mp heq

def rankPairs : List (Nat × Nat) :=
  document.sectionPairs.map (Prod.map document.rank document.rank)

theorem rankPairs?_eq : document.rankPairs? = some document.rankPairs := by
  refine mapM_eq_some_map fun pair hpair => ?_
  obtain ⟨hfirst, hsecond⟩ := document.mem_variableNames_of_mem_sectionPairs hpair
  rw [idxOf?_of_mem hfirst, idxOf?_of_mem hsecond]
  rfl

theorem lt_of_mem_rankPairs
    {edge : Nat × Nat} (hedge : edge ∈ document.rankPairs) :
    edge.1 < document.variableNames.length ∧ edge.2 < document.variableNames.length := by
  obtain ⟨pair, hpair, rfl⟩ := List.mem_map.mp hedge
  obtain ⟨hfirst, hsecond⟩ := document.mem_variableNames_of_mem_sectionPairs hpair
  exact ⟨List.idxOf_lt_length_of_mem hfirst, List.idxOf_lt_length_of_mem hsecond⟩

/-- The merge of the ranks is the order of declaration by rank. -/
theorem leastMerge_rankPairs :
    leastMerge document.rankPairs (List.range document.variableNames.length) =
      document.declarationOrder.map document.rank := by
  rw [← map_idxOf_eq_range document.nodup_variableNames, declarationOrder_eq]
  exact leastMerge_map document.rank_injOn
    (fun _ hpair => document.mem_variableNames_of_mem_sectionPairs hpair) fun _ hname => hname

/-- Counting down always finds the order of declaration. -/
theorem countedOrder?_eq : document.countedOrder? = some document.declarationOrder := by
  obtain ⟨placed, horder, hmerge⟩ :=
    (Countdown.runs_start fun _ hedge => document.lt_of_mem_rankPairs hedge).exists_order?
  rw [leastMerge_rankPairs] at hmerge
  have hname : ∀ name ∈ document.declarationOrder,
      document.variableNames[document.rank name]? = some name := by
    intro name hname
    have hmem := (leastMerge_perm _ _).subset hname
    rw [rank, List.getElem?_eq_getElem (List.idxOf_lt_length_of_mem hmem), List.getElem_idxOf]
  rw [countedOrder?, rankPairs?_eq]
  simp only [Option.bind_eq_bind, Option.bind_some, horder]
  rw [← hmerge, List.mapM_map]
  exact (mapM_eq_some_map hname).trans (congrArg some (List.map_id' _))

end Document

end LinearProgram
