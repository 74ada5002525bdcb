import LinearProgram.Proofs.Document.Countdown
import Mathlib.Data.Fintype.Card
import Mathlib.Data.List.Perm.Basic
import Mathlib.Data.Set.Finite.Basic
import Mathlib.Logic.Relation
import Mathlib.Order.WellFounded

/-!
# The least order along the sections

A merge splits into elements that are placed one after the other and elements that hold
each other back.  What is placed has everything that the pairs put before it at an
earlier place; each element that is held back has another one before it, so following
the pairs backwards ends in a cycle.  An order that respects the pairs places an element
that is held back by none at every step, and the merge places the first of them, so no
such order comes before it.
-/

namespace LinearProgram

section Merge

variable {α : Type} [DecidableEq α] {pairs : List (α × α)} {waiting placed behind : List α}
  {x y : α}

/-- Elements that are placed in order before elements that hold each other back. -/
structure Splits (pairs : List (α × α)) (placed behind : List α) : Prop where
  ordered : placed.Pairwise fun x y => (y, x) ∉ pairs
  irrefl : ∀ x ∈ placed, (x, x) ∉ pairs
  separate : ∀ x ∈ placed, ∀ y ∈ behind, (y, x) ∉ pairs
  blocked : ∀ y ∈ behind, ∃ x ∈ behind, (x, y) ∈ pairs

omit [DecidableEq α] in
theorem Splits.cons (h : Splits pairs placed behind)
    (hplaced : ∀ y ∈ placed, (y, x) ∉ pairs) (hself : (x, x) ∉ pairs)
    (hbehind : ∀ y ∈ behind, (y, x) ∉ pairs) :
    Splits pairs (x :: placed) behind where
  ordered := List.pairwise_cons.mpr ⟨hplaced, h.ordered⟩
  irrefl := List.forall_mem_cons.mpr ⟨hself, h.irrefl⟩
  separate := List.forall_mem_cons.mpr ⟨hbehind, h.separate⟩
  blocked := h.blocked

/-- A merge splits, and what is held back keeps its order. -/
theorem exists_leastMerge_eq_append (pairs : List (α × α)) (waiting : List α) :
    ∃ placed behind, leastMerge pairs waiting = placed ++ behind ∧ behind.Sublist waiting ∧
      Splits pairs placed behind := by
  fun_induction leastMerge pairs waiting with
  | case1 waiting x hnext ih =>
      obtain ⟨placed, behind, heq, hsublist, hsplits⟩ := ih
      have hfirst := isFirstOf_iff.mp (List.find?_some hnext)
      have hx : x ∈ waiting := List.mem_of_find?_eq_some hnext
      have hlater : ∀ y ∈ placed ++ behind, (y, x) ∉ pairs := by
        intro y hy
        rw [← heq, (leastMerge_perm _ _).mem_iff] at hy
        exact hfirst y (List.mem_of_mem_erase hy)
      rw [List.forall_mem_append] at hlater
      refine ⟨x :: placed, behind, by rw [heq, List.cons_append],
        hsublist.trans List.erase_sublist, ?_⟩
      exact hsplits.cons hlater.1 (hfirst x hx) hlater.2
  | case2 waiting hnext =>
      refine ⟨[], waiting, rfl, List.Sublist.refl waiting, List.Pairwise.nil, ?_, ?_, ?_⟩
      · exact fun x hx => absurd hx List.not_mem_nil
      · exact fun x hx => absurd hx List.not_mem_nil
      · intro y hy
        have hheld := List.find?_eq_none.mp hnext y hy
        rw [isFirstOf_iff] at hheld
        push Not at hheld
        exact hheld

/-! ## Cycles -/

/-- Whether an element lies on a cycle of a relation or after one. -/
def AfterCycle {α : Type} (r : α → α → Prop) (x : α) : Prop :=
  ∃ y, Relation.TransGen r y y ∧ Relation.ReflTransGen r y x

/-- The relation that some pairs list. -/
def Listed {α : Type} (pairs : List (α × α)) (x y : α) : Prop :=
  (x, y) ∈ pairs

omit [DecidableEq α] in
theorem AfterCycle.of_transGen {r s : α → α → Prop}
    (h : ∀ x y, r x y → Relation.TransGen s x y) (hx : AfterCycle r x) : AfterCycle s x := by
  obtain ⟨y, hcycle, hreach⟩ := hx
  have hclosed {x y : α} (hxy : Relation.TransGen r x y) : Relation.TransGen s x y :=
    Relation.TransGen.closed h x y hxy
  refine ⟨y, hclosed hcycle, ?_⟩
  rcases Relation.reflTransGen_iff_eq_or_transGen.mp hreach with rfl | htrans
  · exact .refl
  · exact (hclosed htrans).to_reflTransGen

/-- What leads to a placed element is placed before it. -/
theorem Splits.mem_of_transGen (h : Splits pairs placed behind)
    (hnames : ∀ pair ∈ pairs, pair.1 ∈ placed ++ behind)
    (hxy : Relation.TransGen (Listed pairs) x y) (hy : y ∈ placed) :
    x ∈ placed ∧ placed.idxOf x < placed.idxOf y := by
  have hstep {x y : α} (hpair : Listed pairs x y) (hy : y ∈ placed) :
      x ∈ placed ∧ placed.idxOf x < placed.idxOf y := by
    have hx : x ∈ placed := by
      rcases List.mem_append.mp (hnames _ hpair) with hx | hx
      · exact hx
      · exact absurd hpair (h.separate y hy x hx)
    have hne : x ≠ y := by
      rintro rfl
      exact h.irrefl x hx hpair
    exact ⟨hx, idxOf_lt_of_pairwise h.ordered hx hy hne hpair⟩
  -- From the front, so that the induction ends at the element known to be placed.
  induction hxy using Relation.TransGen.head_induction_on with
  | single hpair => exact hstep hpair hy
  | head hpair _ ih =>
      obtain ⟨hx, hlt⟩ := hstep hpair ih.1
      exact ⟨hx, hlt.trans ih.2⟩

/-- In a finite set that is closed under going backwards, going backwards meets a cycle. -/
theorem exists_cycle_of_forall_exists
    {α : Type} {r : α → α → Prop} {xs : List α}
    (hback : ∀ y ∈ xs, ∃ x ∈ xs, r x y) {start : α} (hstart : start ∈ xs) :
    AfterCycle r start := by
  by_contra hnone
  -- Without a cycle above the start, leading to it is well-founded on finitely many elements,
  -- and a first one among them would still have another one before it.
  let Above : Set α := {x | x ∈ xs ∧ Relation.ReflTransGen r x start}
  let before : Above → Above → Prop := fun x y => Relation.TransGen r x.1 y.1
  have : Finite Above := (xs.finite_toSet.subset fun x hx => hx.1).to_subtype
  have : IsTrans Above before := ⟨fun _ _ _ => Relation.TransGen.trans⟩
  have : Std.Irrefl before := ⟨fun x hcycle => hnone ⟨x.1, hcycle, x.2.2⟩⟩
  obtain ⟨least, -, hleast⟩ := (Finite.wellFounded_of_trans_of_irrefl before).has_min Set.univ
    ⟨⟨start, hstart, .refl⟩, trivial⟩
  obtain ⟨x, hx, hstep⟩ := hback least.1 least.2.1
  exact hleast ⟨x, hx, .head hstep least.2.2⟩ trivial (.single hstep)

/-- What is held back is what lies on a cycle or after one. -/
theorem Splits.mem_behind_iff (h : Splits pairs placed behind)
    (hnames : ∀ pair ∈ pairs, pair.1 ∈ placed ++ behind) (hx : x ∈ placed ++ behind) :
    x ∈ behind ↔ AfterCycle (Listed pairs) x := by
  refine ⟨exists_cycle_of_forall_exists h.blocked, ?_⟩
  rintro ⟨y, hcycle, hreach⟩
  by_contra hnot
  have hplaced : x ∈ placed := (List.mem_append.mp hx).resolve_right hnot
  have hy : y ∈ placed := by
    rcases Relation.reflTransGen_iff_eq_or_transGen.mp hreach with rfl | htrans
    · exact hplaced
    · exact (h.mem_of_transGen hnames htrans hplaced).1
  exact Nat.lt_irrefl _ (h.mem_of_transGen hnames hcycle hy).2

/-! ## Leastness -/

/-- An order that respects the pairs begins with an element that is held back by none. -/
theorem isFirstOf_of_perm_cons {order : List α} (hperm : (x :: order).Perm waiting)
    (horder : (x :: order).Pairwise fun x y => (y, x) ∉ pairs) (hself : (x, x) ∉ pairs) :
    isFirstOf pairs waiting x = true := by
  refine isFirstOf_iff.mpr fun y hy => ?_
  rcases List.mem_cons.mp (hperm.mem_iff.mpr hy) with rfl | hlater
  · exact hself
  · exact (List.pairwise_cons.mp horder).1 y hlater

/-- An order that respects the pairs is the merge or comes later, by the first other rank. -/
theorem leastMerge_eq_or_lex {rank : α → Nat}
    (hrank : waiting.Pairwise fun x y => rank x < rank y) {order : List α}
    (hperm : order.Perm waiting) (horder : order.Pairwise fun x y => (y, x) ∉ pairs)
    (hself : ∀ x ∈ order, (x, x) ∉ pairs) :
    leastMerge pairs waiting = order ∨
      List.Lex (· < ·) ((leastMerge pairs waiting).map rank) (order.map rank) := by
  fun_induction leastMerge pairs waiting generalizing order with
  | case1 waiting x hnext ih =>
      cases order with
      | nil =>
          have hx : x ∈ waiting := List.mem_of_find?_eq_some hnext
          exact absurd (hperm.mem_iff.mpr hx) List.not_mem_nil
      | cons z order =>
          obtain ⟨hz, hlater⟩ := List.forall_mem_cons.mp hself
          have hfirst := isFirstOf_of_perm_cons hperm horder hz
          -- The merge takes the first element that is free to come next, and `z` is one of them.
          rcases rank_lt_or_eq_of_find? hrank hnext (hperm.subset List.mem_cons_self) hfirst with
            hlt | rfl
          · exact .inr (.rel hlt)
          · have hrest : order.Perm (waiting.erase x) := (List.cons_perm_iff_perm_erase.mp hperm).2
            rcases ih (hrank.sublist List.erase_sublist) hrest (List.pairwise_cons.mp horder).2
              hlater with heq | hlex
            · exact .inl (congrArg (x :: ·) heq)
            · exact .inr (.cons hlex)
  | case2 waiting hnext =>
      cases order with
      | nil => exact .inl (List.nil_perm.mp hperm)
      | cons z order =>
          have hfirst := isFirstOf_of_perm_cons hperm horder (hself z List.mem_cons_self)
          exact absurd hfirst (List.find?_eq_none.mp hnext z (hperm.subset List.mem_cons_self))

/-- An order that respects the pairs already is the merge of its elements. -/
theorem leastMerge_eq_self (horder : waiting.Pairwise fun x y => (y, x) ∉ pairs)
    (hself : ∀ x ∈ waiting, (x, x) ∉ pairs) : leastMerge pairs waiting = waiting := by
  induction waiting with
  | nil => exact leastMerge_of_find?_eq_none rfl
  | cons x waiting ih =>
      obtain ⟨hx, hlater⟩ := List.forall_mem_cons.mp hself
      have hfirst := isFirstOf_of_perm_cons (List.Perm.refl _) horder hx
      rw [leastMerge_of_find?_eq_some (List.find?_cons_of_pos hfirst), List.erase_cons_head,
        ih (List.pairwise_cons.mp horder).2 hlater]

end Merge

/-! ## Sections -/

namespace Document

variable (document : Document) {x y name : String} {names order : List String}

/-- Whether a section lists one variable somewhere before another one. -/
def ListsBefore (x y : String) : Prop :=
  ∃ names ∈ document.listings, [x, y].Sublist names

/-- Whether a variable lies on a cycle of what the sections ask for, or after one. -/
def HeldBack (name : String) : Prop :=
  AfterCycle document.ListsBefore name

/-- An order of all variables in which every section is as it is listed. -/
structure Agrees (order : List String) : Prop where
  perm : order.Perm document.variableNames
  sublist : ∀ names ∈ document.listings, names.Sublist order

/-- The places that the variables of an order have in the order of first appearance. -/
def ranks (order : List String) : List Nat :=
  order.map document.rank

theorem nodup_of_mem_listings (hnames : names ∈ document.listings) : names.Nodup := by
  simp only [listings, List.mem_cons, List.not_mem_nil, or_false] at hnames
  rcases hnames with rfl | rfl | rfl <;> exact nodup_eraseDups _

theorem pairwise_listsBefore (hnames : names ∈ document.listings) :
    names.Pairwise document.ListsBefore :=
  List.pairwise_iff_forall_sublist.mpr fun hsublist => ⟨names, hnames, hsublist⟩

theorem listsBefore_of_mem_sectionPairs : ∀ pair ∈ document.sectionPairs,
    document.ListsBefore pair.1 pair.2 :=
  document.forall_mem_sectionPairs_iff.mpr fun _ hnames =>
    (document.pairwise_listsBefore hnames).isChain

theorem irrefl_sectionPairs (name : String) : (name, name) ∉ document.sectionPairs := by
  have hne : ∀ pair ∈ document.sectionPairs, pair.1 ≠ pair.2 :=
    document.forall_mem_sectionPairs_iff.mpr fun _ hnames =>
      (document.nodup_of_mem_listings hnames).isChain
  exact fun hpair => hne _ hpair rfl

/-- What a section lists before a variable leads to it along neighbours in the section. -/
theorem transGen_of_listsBefore (h : document.ListsBefore x y) :
    Relation.TransGen (Listed document.sectionPairs) x y := by
  obtain ⟨names, hnames, hsublist⟩ := h
  have hsingle : ∀ pair ∈ document.sectionPairs,
      Relation.TransGen (Listed document.sectionPairs) pair.1 pair.2 :=
    fun _ hpair => .single hpair
  have : IsTrans String (Relation.TransGen (Listed document.sectionPairs)) :=
    ⟨fun _ _ _ => Relation.TransGen.trans⟩
  have hchain := document.forall_mem_sectionPairs_iff.mp hsingle names hnames
  exact List.pairwise_iff_forall_sublist.mp hchain.pairwise hsublist

theorem heldBack_iff :
    document.HeldBack name ↔ AfterCycle (Listed document.sectionPairs) name :=
  ⟨AfterCycle.of_transGen fun _ _ => document.transGen_of_listsBefore,
    AfterCycle.of_transGen fun x y hpair =>
      .single (document.listsBefore_of_mem_sectionPairs (x, y) hpair)⟩

variable {document}

/-! ## Orders that agree with the sections -/

theorem Agrees.nodup (h : document.Agrees order) : order.Nodup :=
  h.perm.nodup_iff.mpr document.nodup_variableNames

theorem Agrees.idxOf_lt (h : document.Agrees order) (hxy : document.ListsBefore x y) :
    order.idxOf x < order.idxOf y := by
  obtain ⟨names, hnames, hsublist⟩ := hxy
  exact List.pairwise_iff_forall_sublist.mp (pairwise_idxOf h.nodup)
    (hsublist.trans (h.sublist names hnames))

theorem Agrees.pairwise (h : document.Agrees order) :
    order.Pairwise fun x y => (y, x) ∉ document.sectionPairs := by
  refine (pairwise_idxOf h.nodup).imp fun {x y} hlt hpair => ?_
  exact Nat.lt_asymm hlt (h.idxOf_lt (document.listsBefore_of_mem_sectionPairs (y, x) hpair))

theorem Agrees.not_heldBack (h : document.Agrees order) (name : String) :
    ¬document.HeldBack name := by
  rintro ⟨cycle, hcycle, -⟩
  have hlt {x y : String} (hxy : Relation.TransGen document.ListsBefore x y) :
      order.idxOf x < order.idxOf y := by
    induction hxy with
    | single hxy => exact h.idxOf_lt hxy
    | tail _ hyz ih => exact ih.trans (h.idxOf_lt hyz)
  exact Nat.lt_irrefl _ (hlt hcycle)

theorem Agrees.declarationOrder_eq_or_lex (h : document.Agrees order) :
    document.declarationOrder = order ∨
      List.Lex (· < ·) (document.ranks document.declarationOrder) (document.ranks order) :=
  leastMerge_eq_or_lex (pairwise_idxOf document.nodup_variableNames) h.perm h.pairwise
    fun name _ => document.irrefl_sectionPairs name

theorem Agrees.declarationOrder_eq (h : document.Agrees document.variableNames) :
    document.declarationOrder = document.variableNames :=
  leastMerge_eq_self h.pairwise fun name _ => document.irrefl_sectionPairs name

variable (document)

/-- The order of declaration, split into what is placed and what is held back. -/
theorem exists_declarationOrder_eq_append :
    ∃ placed behind, document.declarationOrder = placed ++ behind ∧
      behind.Sublist document.variableNames ∧
      (∀ name ∈ document.variableNames, name ∈ behind ↔ document.HeldBack name) ∧
      ∀ names ∈ document.listings, (names.filter fun name => name ∈ placed).Sublist placed := by
  obtain ⟨placed, behind, heq, hsublist, hsplits⟩ :=
    exists_leastMerge_eq_append document.sectionPairs document.variableNames
  have hmem {name : String} : name ∈ placed ++ behind ↔ name ∈ document.variableNames := by
    rw [← heq, (leastMerge_perm _ _).mem_iff]
  have hnodup : (placed ++ behind).Nodup := by
    rw [← heq, (leastMerge_perm _ _).nodup_iff]
    exact document.nodup_variableNames
  have hnames : ∀ pair ∈ document.sectionPairs, pair.1 ∈ placed ++ behind := fun pair hpair =>
    hmem.mpr (document.mem_variableNames_of_mem_sectionPairs hpair).1
  refine ⟨placed, behind, heq, hsublist, fun name hname => ?_, fun names hlisting => ?_⟩
  · rw [hsplits.mem_behind_iff hnames (hmem.mpr hname), heldBack_iff]
  · have hbefore : (names.filter fun name => name ∈ placed).Pairwise fun x y =>
        placed.idxOf x < placed.idxOf y := by
      refine List.pairwise_filter.mpr ((document.pairwise_listsBefore hlisting).imp ?_)
      intro x y hxy _ hy
      have htrans := document.transGen_of_listsBefore hxy
      exact (hsplits.mem_of_transGen hnames htrans (of_decide_eq_true hy)).2
    rw [← filter_mem_eq_self (List.nodup_append.mp hnodup).1
      (fun x hx => of_decide_eq_true (List.mem_filter.mp hx).2) hbefore]
    exact List.filter_sublist

/-- The sections agree with some order unless they contradict each other. -/
theorem agrees_declarationOrder (h : ∀ name ∈ document.variableNames, ¬document.HeldBack name) :
    document.Agrees document.declarationOrder := by
  obtain ⟨placed, behind, heq, hsublist, hbehind, hplaced⟩ :=
    document.exists_declarationOrder_eq_append
  have hperm : document.declarationOrder.Perm document.variableNames := leastMerge_perm _ _
  obtain rfl : behind = [] := by
    refine List.eq_nil_iff_forall_not_mem.mpr fun name hname => ?_
    have hmem := hsublist.subset hname
    exact h name hmem ((hbehind name hmem).mp hname)
  rw [List.append_nil] at heq
  refine ⟨hperm, fun names hnames => ?_⟩
  have hall : (names.filter fun name => name ∈ placed) = names := by
    refine List.filter_eq_self.mpr fun name hname => decide_eq_true ?_
    rw [← heq, mem_declarationOrder]
    exact document.mem_mentions_of_mem_listings hnames hname
  rw [heq, ← hall]
  exact hplaced names hnames

/--
The order of declaration has every variable once, and counting down finds it: no variable
is without a rank and no counter goes below zero.  Some order agrees with the sections
just when none of them contradict each other.  The order of declaration agrees with them
then, and every other order that does comes later by the first rank that differs; in
particular it is the order of first appearance when that agrees.  In any case the
variables on a cycle or after one come last, in the order of first appearance, and the
others have every section as it is listed.
-/
theorem declarationOrder_least :
    document.countedOrder? = some document.declarationOrder ∧
      document.declarationOrder.Perm document.variableNames ∧
      ((∃ order, document.Agrees order) ↔
        ∀ name ∈ document.variableNames, ¬document.HeldBack name) ∧
      (∀ order, document.Agrees order → document.Agrees document.declarationOrder ∧
        (document.declarationOrder = order ∨
          List.Lex (· < ·) (document.ranks document.declarationOrder) (document.ranks order))) ∧
      (document.Agrees document.variableNames →
        document.declarationOrder = document.variableNames) ∧
      ∃ placed behind, document.declarationOrder = placed ++ behind ∧
        behind.Sublist document.variableNames ∧
        (∀ name ∈ document.variableNames, name ∈ behind ↔ document.HeldBack name) ∧
        ∀ names ∈ document.listings,
          (names.filter fun name => name ∈ placed).Sublist placed := by
  refine ⟨document.countedOrder?_eq, leastMerge_perm _ _, ⟨?_, ?_⟩, fun order h => ⟨?_, ?_⟩,
    Agrees.declarationOrder_eq, document.exists_declarationOrder_eq_append⟩
  · rintro ⟨order, h⟩ name -
    exact h.not_heldBack name
  · exact fun h => ⟨_, document.agrees_declarationOrder h⟩
  · exact document.agrees_declarationOrder fun name _ => h.not_heldBack name
  · exact h.declarationOrder_eq_or_lex

/-- A document whose sections put `q` before `p`, `p` before `r`, and `s` before `t`. -/
def merging : Document where
  signature := none
  objective := ⟨⟨1, 1⟩, .minimize, none,
    ⟨["t", "s", "r", "p", "q"].map fun name => ⟨⟨2, 2⟩, .one, name⟩, .zero⟩⟩
  rows := []
  bounds := ["q", "p"].map fun name => ⟨⟨3, 3⟩, name, none, some .one⟩
  generals := ["p", "r"]
  binaries := ["s", "t"]

theorem declarationOrder_least_merging :
    merging.Agrees ["q", "p", "r", "s", "t"] ∧ merging.Agrees merging.declarationOrder ∧
      merging.declarationOrder = ["s", "t", "q", "p", "r"] ∧
      List.Lex (· < ·) (merging.ranks merging.declarationOrder)
        (merging.ranks ["q", "p", "r", "s", "t"]) := by
  have hagrees : merging.Agrees ["q", "p", "r", "s", "t"] := ⟨by decide +kernel, by decide +kernel⟩
  have horder : merging.declarationOrder = ["s", "t", "q", "p", "r"] := by decide +kernel
  obtain ⟨-, -, -, hleast, -, -⟩ := merging.declarationOrder_least
  obtain ⟨hdeclared, hlater⟩ := hleast _ hagrees
  refine ⟨hagrees, hdeclared, horder, hlater.resolve_left fun heq => ?_⟩
  exact absurd (horder.symm.trans heq) (by decide)

end Document

end LinearProgram
