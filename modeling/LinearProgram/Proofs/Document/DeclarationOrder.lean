import LinearProgram.Document.DeclarationOrder
import Mathlib.Data.List.Basic
import Mathlib.Data.List.Find
import Mathlib.Data.List.Nodup
import Mathlib.Data.Set.Function

/-!
# Sections and the order of declaration

The order of declaration is a permutation of the variables that a document mentions.
When the sections agree with some rank of the variables, nothing is held back, and no
variable is declared before one that a section puts in front of it.  Each section is
then what remains of the order of declaration when all other variables are left out.
The order does not depend on how variables are named as long as names tell them apart.
The main statements are `Document.filter_declarationOrder` and
`Document.declarationOrder_map`.
-/

namespace LinearProgram

variable {α : Type} [DecidableEq α]

theorem isFirstOf_iff
    {pairs : List (α × α)} {waiting : List α} {x : α} :
    isFirstOf pairs waiting x = true ↔ ∀ y ∈ waiting, (y, x) ∉ pairs := by
  rw [isFirstOf, Bool.not_eq_true', List.any_eq_false]
  constructor
  · intro hnone y hy hpair
    apply hnone (y, x) hpair
    rw [Bool.and_eq_true, decide_eq_true_eq, List.contains_iff_mem]
    exact ⟨rfl, hy⟩
  · rintro hfirst ⟨y, z⟩ hpair hboth
    rw [Bool.and_eq_true, decide_eq_true_eq, List.contains_iff_mem] at hboth
    obtain ⟨rfl, hy⟩ := hboth
    exact hfirst y hy hpair

/-- The element that is found first has the least rank. -/
theorem rank_lt_or_eq_of_find?
    {α : Type} {waiting : List α} {x y : α} {p : α → Bool} {rank : α → Nat}
    (hrank : waiting.Pairwise fun x y => rank x < rank y) (hfind : waiting.find? p = some x)
    (hy : y ∈ waiting) (hp : p y = true) : rank x < rank y ∨ x = y := by
  obtain ⟨-, front, back, rfl, hfront⟩ := List.find?_eq_some_iff_append.mp hfind
  rcases List.mem_append.mp hy with hmem | hmem
  · have hnot := hfront y hmem
    rw [hp] at hnot
    exact nomatch hnot
  · rcases List.mem_cons.mp hmem with rfl | hback
    · exact .inr rfl
    · exact .inl ((List.pairwise_cons.mp (List.pairwise_append.mp hrank).2.1).1 y hback)

theorem leastMerge_of_find?_eq_some
    {pairs : List (α × α)} {waiting : List α} {x : α}
    (hnext : waiting.find? (isFirstOf pairs waiting) = some x) :
    leastMerge pairs waiting = x :: leastMerge pairs (waiting.erase x) := by
  rw [leastMerge]
  split
  · next y hy =>
      obtain rfl : x = y := Option.some.inj (hnext.symm.trans hy)
      rfl
  · next hnone => exact absurd (hnext.symm.trans hnone) (Option.some_ne_none x)

theorem leastMerge_of_find?_eq_none
    {pairs : List (α × α)} {waiting : List α}
    (hnext : waiting.find? (isFirstOf pairs waiting) = none) :
    leastMerge pairs waiting = waiting := by
  rw [leastMerge]
  split
  · next y hy => exact absurd (hy.symm.trans hnext) (Option.some_ne_none y)
  · rfl

theorem leastMerge_perm
    (pairs : List (α × α)) (waiting : List α) :
    (leastMerge pairs waiting).Perm waiting := by
  fun_induction leastMerge pairs waiting with
  | case1 waiting x hnext ih =>
      have hmem : x ∈ waiting := List.mem_of_find?_eq_some hnext
      exact (ih.cons x).trans (List.perm_cons_erase hmem).symm
  | case2 waiting hnext => exact List.Perm.refl waiting

/-- Among waiting elements that the pairs rank, one of least rank is held back by none. -/
theorem eq_nil_of_find?_isFirstOf
    {pairs : List (α × α)} {waiting : List α} {rank : α → Nat}
    (hrank : ∀ pair ∈ pairs, rank pair.1 < rank pair.2)
    (hnext : waiting.find? (isFirstOf pairs waiting) = none) :
    waiting = [] := by
  have hnone (n : Nat) : ∀ x ∈ waiting, rank x ≠ n := by
    induction n using Nat.strongRecOn with
    | ind n ih =>
        intro x hx hxn
        have hheld := List.find?_eq_none.mp hnext x hx
        rw [isFirstOf_iff] at hheld
        push Not at hheld
        obtain ⟨y, hy, hpair⟩ := hheld
        have hlt : rank y < n := hxn ▸ hrank _ hpair
        exact ih (rank y) hlt y hy rfl
  exact List.eq_nil_iff_forall_not_mem.mpr fun x hx => hnone (rank x) x hx rfl

/-- Pairs that a rank explains are respected. -/
theorem leastMerge_pairwise
    {pairs : List (α × α)} (waiting : List α) {rank : α → Nat}
    (hrank : ∀ pair ∈ pairs, rank pair.1 < rank pair.2) :
    (leastMerge pairs waiting).Pairwise fun x y => (y, x) ∉ pairs := by
  fun_induction leastMerge pairs waiting with
  | case1 waiting x hnext ih =>
      refine List.pairwise_cons.mpr ⟨fun y hy hpair => ?_, ih⟩
      have hwaiting : y ∈ waiting :=
        List.mem_of_mem_erase ((leastMerge_perm pairs (waiting.erase x)).subset hy)
      exact isFirstOf_iff.mp (List.find?_some hnext) y hwaiting hpair
  | case2 waiting hnext =>
      rw [eq_nil_of_find?_isFirstOf hrank hnext]
      exact List.Pairwise.nil

/-! ## Lists along an order -/

theorem forall_mem_consecutivePairs_iff
    {α : Type} {xs : List α} {r : α → α → Prop} :
    (∀ pair ∈ consecutivePairs xs, r pair.1 pair.2) ↔ xs.IsChain r := by
  induction xs with
  | nil => simp [consecutivePairs]
  | cons x xs ih =>
      cases xs with
      | nil => simp [consecutivePairs]
      | cons y xs =>
          rw [List.isChain_cons_cons, ← ih]
          simp [consecutivePairs]

/-- An element is at a later place than another one if it is not before it. -/
theorem idxOf_lt_of_pairwise
    {order : List α} {pairs : List (α × α)}
    (hpairs : order.Pairwise fun x y => (y, x) ∉ pairs)
    {x y : α} (hx : x ∈ order) (hy : y ∈ order) (hne : x ≠ y) (hpair : (x, y) ∈ pairs) :
    order.idxOf x < order.idxOf y := by
  have hxlt : order.idxOf x < order.length := List.idxOf_lt_length_of_mem hx
  have hylt : order.idxOf y < order.length := List.idxOf_lt_length_of_mem hy
  rcases Nat.lt_trichotomy (order.idxOf x) (order.idxOf y) with hlt | heq | hgt
  · exact hlt
  · exact absurd ((List.idxOf_inj hx).mp heq) hne
  · have hnot := List.pairwise_iff_getElem.mp hpairs _ _ hylt hxlt hgt
    rw [List.getElem_idxOf, List.getElem_idxOf] at hnot
    exact absurd hpair hnot

theorem pairwise_idxOf
    {order : List α} (hnodup : order.Nodup) :
    order.Pairwise fun x y => order.idxOf x < order.idxOf y := by
  apply List.pairwise_iff_getElem.mpr
  intro i j hi hj hij
  rw [hnodup.idxOf_getElem i hi, hnodup.idxOf_getElem j hj]
  exact hij

/-- A list along an order is what the order leaves of its elements. -/
theorem filter_mem_eq_self
    {order xs : List α} (hnodup : order.Nodup) (hsubset : ∀ x ∈ xs, x ∈ order)
    (hxs : xs.Pairwise fun x y => order.idxOf x < order.idxOf y) :
    (order.filter fun x => x ∈ xs) = xs := by
  have hfilter := (pairwise_idxOf hnodup).filter fun x => decide (x ∈ xs)
  refine List.Perm.eq_of_pairwise ?_ hfilter hxs ?_
  · intro x y _ _ hxy hyx
    exact absurd hyx (Nat.lt_asymm hxy)
  · have hdistinct : xs.Nodup :=
      hxs.imp fun hlt heq => Nat.ne_of_lt hlt (congrArg order.idxOf heq)
    apply (List.perm_ext_iff_of_nodup (hnodup.filter _) hdistinct).mpr
    intro x
    rw [List.mem_filter, decide_eq_true_eq]
    exact ⟨And.right, fun hx => ⟨hsubset x hx, hx⟩⟩

theorem eraseDups_eq_self
    {xs : List α} (h : xs.Nodup) : xs.eraseDups = xs := by
  induction xs with
  | nil => rfl
  | cons x xs ih =>
      obtain ⟨hfresh, hlater⟩ := List.nodup_cons.mp h
      have hkeep : (xs.filter fun y => !y == x) = xs := by
        apply List.filter_eq_self.mpr
        intro y hy
        have hne : y ≠ x := fun heq => hfresh (heq ▸ hy)
        simp [hne]
      rw [List.eraseDups_cons, hkeep, ih hlater]

theorem nodup_eraseDups
    (xs : List α) : xs.eraseDups.Nodup := by
  match xs with
  | [] => exact List.nodup_nil
  | x :: xs =>
      rw [List.eraseDups_cons, List.nodup_cons]
      constructor
      · rw [List.mem_eraseDups, List.mem_filter]
        simp
      · exact nodup_eraseDups (xs.filter fun y => !y == x)
termination_by xs.length
decreasing_by
  have hle := List.length_filter_le (fun y => !y == x) xs
  rw [List.length_cons]
  omega

/-! ## Renaming -/

section Renaming

variable {β : Type} [DecidableEq β] {f : α → β} {elements : Set α}

theorem map_erase_of_injOn
    (hf : Set.InjOn f elements) {xs : List α} (hxs : ∀ y ∈ xs, y ∈ elements) {x : α}
    (hx : x ∈ elements) :
    (xs.map f).erase (f x) = (xs.erase x).map f := by
  induction xs with
  | nil => rfl
  | cons y xs ih =>
      have hlater := ih fun z hz => hxs z (List.mem_cons_of_mem y hz)
      by_cases hsame : y = x
      · rw [hsame, List.map_cons, List.erase_cons_head, List.erase_cons_head]
      · have hne : f y ≠ f x := hf.ne (hxs y List.mem_cons_self) hx hsame
        rw [List.map_cons, List.erase_cons_tail (by simpa using hne),
          List.erase_cons_tail (by simpa using hsame), hlater, List.map_cons]

theorem eraseDups_map_of_injOn
    (hf : Set.InjOn f elements) (xs : List α) (hxs : ∀ y ∈ xs, y ∈ elements) :
    (xs.map f).eraseDups = xs.eraseDups.map f := by
  match xs with
  | [] => rfl
  | x :: xs =>
      have hmem : ∀ y ∈ xs, y ∈ elements := fun y hy => hxs y (List.mem_cons_of_mem x hy)
      have hfilter : (xs.map f).filter (fun y => !y == f x) =
          (xs.filter fun y => !y == x).map f := by
        rw [List.filter_map]
        refine congrArg (List.map f) (List.filter_congr fun y hy => ?_)
        simp [hf.eq_iff (hmem y hy) (hxs x List.mem_cons_self)]
      have hlater := eraseDups_map_of_injOn hf (xs.filter fun y => !y == x) fun y hy =>
        hmem y (List.mem_of_mem_filter hy)
      rw [List.map_cons, List.eraseDups_cons, List.eraseDups_cons, hfilter, hlater, List.map_cons]
termination_by xs.length
decreasing_by
  have hle := List.length_filter_le (fun y => !y == x) xs
  rw [List.length_cons]
  omega

theorem consecutivePairs_map
    {α β : Type} (f : α → β) (xs : List α) :
    consecutivePairs (xs.map f) = (consecutivePairs xs).map (Prod.map f f) := by
  rw [consecutivePairs, consecutivePairs, ← List.map_tail, List.zip_map]

theorem isFirstOf_map
    (hf : Set.InjOn f elements) {pairs : List (α × α)}
    (hpairs : ∀ pair ∈ pairs, pair.1 ∈ elements ∧ pair.2 ∈ elements)
    {waiting : List α} (hwaiting : ∀ y ∈ waiting, y ∈ elements) {x : α} (hx : x ∈ elements) :
    isFirstOf (pairs.map (Prod.map f f)) (waiting.map f) (f x) = isFirstOf pairs waiting x := by
  rw [isFirstOf, isFirstOf, List.any_map, Bool.eq_iff_iff]
  simp only [Bool.not_eq_true', List.any_eq_false, Function.comp_apply, Prod.map, Bool.and_eq_true,
    decide_eq_true_eq, List.contains_iff_mem]
  refine forall₂_congr fun pair hpair => not_congr (and_congr ?_ ?_)
  · exact hf.eq_iff (hpairs pair hpair).2 hx
  · constructor
    · intro hmem
      obtain ⟨y, hy, heq⟩ := List.mem_map.mp hmem
      rwa [hf (hwaiting y hy) (hpairs pair hpair).1 heq] at hy
    · exact List.mem_map_of_mem

theorem find?_isFirstOf_map
    (hf : Set.InjOn f elements) {pairs : List (α × α)}
    (hpairs : ∀ pair ∈ pairs, pair.1 ∈ elements ∧ pair.2 ∈ elements)
    {waiting : List α} (hwaiting : ∀ y ∈ waiting, y ∈ elements) :
    (waiting.map f).find? (isFirstOf (pairs.map (Prod.map f f)) (waiting.map f)) =
      (waiting.find? (isFirstOf pairs waiting)).map f := by
  rw [List.find?_map]
  refine congrArg (Option.map f) (List.find?_congr fun x hx => ?_)
  exact isFirstOf_map hf hpairs hwaiting (hwaiting x hx)

/-- Renaming the elements of a merge renames its result. -/
theorem leastMerge_map
    (hf : Set.InjOn f elements) {pairs : List (α × α)}
    (hpairs : ∀ pair ∈ pairs, pair.1 ∈ elements ∧ pair.2 ∈ elements)
    {waiting : List α} (hwaiting : ∀ y ∈ waiting, y ∈ elements) :
    leastMerge (pairs.map (Prod.map f f)) (waiting.map f) = (leastMerge pairs waiting).map f := by
  fun_induction leastMerge pairs waiting with
  | case1 waiting x hnext ih =>
      have hfound := find?_isFirstOf_map hf hpairs hwaiting
      rw [hnext, Option.map_some] at hfound
      have hx : x ∈ elements := hwaiting x (List.mem_of_find?_eq_some hnext)
      have hlater := ih fun y hy => hwaiting y (List.mem_of_mem_erase hy)
      rw [leastMerge_of_find?_eq_some hfound, map_erase_of_injOn hf hwaiting hx, hlater,
        List.map_cons]
  | case2 waiting hnext =>
      have hfound := find?_isFirstOf_map hf hpairs hwaiting
      rw [hnext, Option.map_none] at hfound
      exact leastMerge_of_find?_eq_none hfound

end Renaming

/-! ## Sections -/

namespace Document

variable (document : Document)

/-- Each variable of a section before the next one. -/
def sectionPairs : List (String × String) :=
  document.listings.flatMap consecutivePairs

theorem declarationOrder_eq :
    document.declarationOrder = leastMerge document.sectionPairs document.variableNames :=
  rfl

theorem forall_mem_sectionPairs_iff
    {r : String → String → Prop} :
    (∀ pair ∈ document.sectionPairs, r pair.1 pair.2) ↔
      ∀ names ∈ document.listings, names.IsChain r := by
  rw [sectionPairs, List.forall_mem_flatMap]
  exact forall₂_congr fun names _ => forall_mem_consecutivePairs_iff

theorem nodup_variableNames : document.variableNames.Nodup :=
  nodup_eraseDups document.mentions

theorem mem_declarationOrder
    {name : String} : name ∈ document.declarationOrder ↔ name ∈ document.mentions := by
  rw [declarationOrder, (leastMerge_perm _ _).mem_iff, variableNames, List.mem_eraseDups]

theorem nodup_declarationOrder : document.declarationOrder.Nodup :=
  (leastMerge_perm _ _).nodup_iff.mpr (nodup_eraseDups document.mentions)

theorem mem_mentions_of_mem_listings
    {names : List String} (hnames : names ∈ document.listings)
    {name : String} (hname : name ∈ names) :
    name ∈ document.mentions := by
  simp only [listings, List.mem_cons, List.not_mem_nil, or_false] at hnames
  rw [mentions, List.mem_append, List.mem_append, List.mem_append]
  rcases hnames with rfl | rfl | rfl
  · exact .inl (.inl (.inr (List.mem_eraseDups.mp hname)))
  · exact .inl (.inr (List.mem_eraseDups.mp hname))
  · exact .inr (List.mem_eraseDups.mp hname)

theorem mem_variableNames_of_mem_sectionPairs
    {pair : String × String}
    (hpair : pair ∈ document.sectionPairs) :
    pair.1 ∈ document.variableNames ∧ pair.2 ∈ document.variableNames := by
  obtain ⟨names, hnames, hmem⟩ := List.mem_flatMap.mp hpair
  obtain ⟨hfirst, hsecond⟩ := List.of_mem_zip hmem
  rw [variableNames, List.mem_eraseDups, List.mem_eraseDups]
  exact ⟨document.mem_mentions_of_mem_listings hnames hfirst,
    document.mem_mentions_of_mem_listings hnames (List.mem_of_mem_tail hsecond)⟩

/-- If the sections agree with a rank, the order of declaration has each as it is listed. -/
theorem filter_declarationOrder
    (rank : String → Nat)
    (hrank : ∀ names ∈ document.listings, names.Pairwise fun x y => rank x < rank y)
    {names : List String} (hnames : names ∈ document.listings) :
    (document.declarationOrder.filter fun name => name ∈ names) = names := by
  have hpairs : ∀ pair ∈ document.sectionPairs, rank pair.1 < rank pair.2 :=
    document.forall_mem_sectionPairs_iff.mpr fun listing hlisting =>
      (hrank listing hlisting).isChain
  have horder := leastMerge_pairwise document.variableNames hpairs
  have hsubset : ∀ name ∈ names, name ∈ document.declarationOrder := fun name hname =>
    document.mem_declarationOrder.mpr (document.mem_mentions_of_mem_listings hnames hname)
  refine filter_mem_eq_self document.nodup_declarationOrder hsubset ?_
  have htrans : IsTrans String
      fun x y => document.declarationOrder.idxOf x < document.declarationOrder.idxOf y :=
    ⟨fun _ _ _ => Nat.lt_trans⟩
  refine List.isChain_iff_pairwise.mp (forall_mem_consecutivePairs_iff.mp fun pair hpair => ?_)
  have hin : pair ∈ document.sectionPairs :=
    List.mem_flatMap.mpr ⟨names, hnames, hpair⟩
  have hfirst : pair.1 ∈ names := (List.of_mem_zip hpair).1
  have hsecond : pair.2 ∈ names := List.mem_of_mem_tail (List.of_mem_zip hpair).2
  have hne : pair.1 ≠ pair.2 := fun heq => Nat.ne_of_lt (hpairs pair hin) (congrArg rank heq)
  exact idxOf_lt_of_pairwise horder (hsubset _ hfirst) (hsubset _ hsecond) hne hin

/-- A document whose variables are renamed has the same order of declaration, renamed. -/
theorem declarationOrder_map
    {renamed : Document} {f : String → String}
    (hf : Set.InjOn f {name | name ∈ document.mentions})
    (hmentions : renamed.mentions = document.mentions.map f)
    (hlistings : renamed.listings = document.listings.map (List.map f)) :
    renamed.declarationOrder = document.declarationOrder.map f := by
  have hpairs : renamed.sectionPairs = document.sectionPairs.map (Prod.map f f) := by
    rw [sectionPairs, sectionPairs, hlistings, List.flatMap_map, List.map_flatMap]
    simp only [consecutivePairs_map]
  have hnames : renamed.variableNames = document.variableNames.map f := by
    rw [variableNames, hmentions, eraseDups_map_of_injOn hf _ fun _ hname => hname]
    rfl
  have hmem : ∀ name ∈ document.variableNames, name ∈ document.mentions :=
    fun name hname => List.mem_eraseDups.mp hname
  rw [declarationOrder_eq, hpairs, hnames, leastMerge_map hf (fun pair hpair => ?_) hmem]
  · rfl
  · have hboth := document.mem_variableNames_of_mem_sectionPairs hpair
    exact ⟨hmem _ hboth.1, hmem _ hboth.2⟩

end Document

end LinearProgram
