import LinearProgram.Proofs.Token.Tiling

/-!
# Spans along tokens

Tokens of a text come in the order of their places.  A span covers a run of such tokens if
it begins where the first of them begins and ends where the last one ends.  Spans that
cover runs one behind another are in order themselves, and a span that covers a run has
those of shorter runs in it.  The main statements are `Along.pairwise` and
`Token.InOrder.within`.
-/

namespace LinearProgram

namespace Span

/-- A span that ends where another one begins, or earlier. -/
structure Before (span later : Span) : Prop where
  start_lt : span.start < later.start
  stop_le : span.stop ≤ later.start

structure Within (inner outer : Span) : Prop where
  start_le : outer.start ≤ inner.start
  stop_le : inner.stop ≤ outer.stop

/-- A span from the first byte of the first of some tokens to the last byte of the last. -/
structure Covers (span : Span) (run : List Token) : Prop where
  start : ∃ first ∈ run.head?, span.start = first.span.start
  stop : ∃ last ∈ run.getLast?, span.stop = last.span.stop

end Span

namespace Token

/-- Tokens whose spans are in order and do not overlap. -/
structure InOrder (tokens : List Token) : Prop where
  ordered : ∀ token ∈ tokens, token.span.start ≤ token.span.stop
  pairwise : tokens.Pairwise fun token later => token.span.Before later.span

namespace InOrder

variable {tokens run run' : List Token} {span span' : Span}

theorem sublist (h : InOrder tokens) (hsub : run.Sublist tokens) : InOrder run :=
  ⟨fun token hmem => h.ordered token (hsub.subset hmem), h.pairwise.sublist hsub⟩

/-- No token begins before the first one. -/
theorem start_le (h : InOrder tokens) {first token : Token} (hfirst : first ∈ tokens.head?)
    (hmem : token ∈ tokens) : first.span.start ≤ token.span.start := by
  obtain ⟨later, rfl⟩ := List.head?_eq_some_iff.mp hfirst
  rcases List.mem_cons.mp hmem with rfl | hlater
  · exact Nat.le_refl _
  · exact Nat.le_of_lt ((List.pairwise_cons.mp h.pairwise).1 token hlater).start_lt

/-- No token ends behind the last one. -/
theorem stop_le (h : InOrder tokens) {last token : Token} (hlast : last ∈ tokens.getLast?)
    (hmem : token ∈ tokens) : token.span.stop ≤ last.span.stop := by
  obtain ⟨front, rfl⟩ := List.getLast?_eq_some_iff.mp hlast
  rcases List.mem_append.mp hmem with hfront | hsame
  · have hbefore := (List.pairwise_append.mp h.pairwise).2.2 token hfront last
      (List.mem_singleton_self last)
    exact Nat.le_trans hbefore.stop_le (h.ordered last (by simp))
  · rw [List.mem_singleton.mp hsame]

/-- The least span over the first and the last of some tokens covers them. -/
theorem covers_merge (h : InOrder run) {first last : Token} (hfirst : first ∈ run.head?)
    (hlast : last ∈ run.getLast?) : (first.span.merge last.span).Covers run := by
  have hstart := h.start_le hfirst (List.mem_of_getLast? hlast)
  have hstop := h.stop_le hlast (List.mem_of_head? hfirst)
  exact ⟨⟨first, hfirst, Nat.min_eq_left hstart⟩, ⟨last, hlast, Nat.max_eq_right hstop⟩⟩

/-- A span that covers tokens has those in it that cover some adjacent ones of them. -/
theorem within (h : InOrder tokens) (hspan : span.Covers tokens) (hspan' : span'.Covers run)
    (hrun : run <:+: tokens) : span'.Within span := by
  obtain ⟨⟨first, hfirst, hstart⟩, last, hlast, hstop⟩ := hspan
  obtain ⟨⟨first', hfirst', hstart'⟩, last', hlast', hstop'⟩ := hspan'
  constructor
  · rw [hstart, hstart']
    exact h.start_le hfirst (hrun.subset (List.mem_of_head? hfirst'))
  · rw [hstop, hstop']
    exact h.stop_le hlast (hrun.subset (List.mem_of_getLast? hlast'))

theorem ordered_of_covers (h : InOrder run) (hspan : span.Covers run) :
    span.start ≤ span.stop := by
  obtain ⟨⟨first, hfirst, hstart⟩, last, hlast, hstop⟩ := hspan
  have hmem := List.mem_of_head? hfirst
  rw [hstart, hstop]
  exact Nat.le_trans (h.ordered first hmem) (h.stop_le hlast hmem)

/-- Spans of tokens one behind another are one behind another. -/
theorem before (h : InOrder (run ++ run')) (hspan : span.Covers run)
    (hspan' : span'.Covers run') : span.Before span' := by
  obtain ⟨⟨first, hfirst, hstart⟩, last, hlast, hstop⟩ := hspan
  obtain ⟨⟨first', hfirst', hstart'⟩, -⟩ := hspan'
  have hbefore := (List.pairwise_append.mp h.pairwise).2.2
  have hmem' := List.mem_of_head? hfirst'
  constructor
  · rw [hstart, hstart']
    exact (hbefore first (List.mem_of_head? hfirst) first' hmem').start_lt
  · rw [hstop, hstart']
    exact (hbefore last (List.mem_of_getLast? hlast) first' hmem').stop_le

end InOrder

theorem inOrder_scan (source : String) : InOrder (scan source) := by
  have htiles := tiles_scanFrom 0 source.toList [] rfl
  constructor
  · exact fun token hmem => (htiles.slice_eq token hmem).1.ordered
  · exact htiles.pairwise.2.imp fun hboth => ⟨hboth.1, hboth.2⟩

theorem fallsOn_of_mem_scan {source : String} {token : Token} (hmem : token ∈ scan source) :
    token.span.FallsOn source := by
  have hfalls := ((tiles_scanFrom 0 source.toList [] rfl).slice_eq token hmem).1
  rwa [List.nil_append, String.ofList_toList] at hfalls

end Token

/-! ## Spans one behind another -/

/-- Spans that cover runs of adjacent tokens, one behind another. -/
inductive Along : List Token → List Span → Prop
  | done (tokens : List Token) : Along tokens []
  | cover {run tokens : List Token} {span : Span} {spans : List Span} (gap : List Token)
      (hcovers : span.Covers run) (hlater : Along tokens spans) :
      Along (gap ++ (run ++ tokens)) (span :: spans)

namespace Along

variable {tokens tokens' : List Token} {spans spans' : List Span}

theorem prepend (front : List Token) (h : Along tokens spans) : Along (front ++ tokens) spans := by
  cases h with
  | done => exact .done _
  | cover gap hcovers hlater =>
      rw [← List.append_assoc]
      exact .cover (front ++ gap) hcovers hlater

theorem append (h : Along tokens spans) (h' : Along tokens' spans') :
    Along (tokens ++ tokens') (spans ++ spans') := by
  induction h with
  | done tokens => exact h'.prepend tokens
  | cover gap hcovers _ ih =>
      rw [List.append_assoc, List.append_assoc]
      exact .cover gap hcovers ih

theorem single {span : Span} (h : span.Covers tokens) : Along tokens [span] := by
  have hcover := Along.cover [] h (.done [])
  rwa [List.nil_append, List.append_nil] at hcover

theorem exists_covers (h : Along tokens spans) :
    ∀ span ∈ spans, ∃ run, run <:+: tokens ∧ span.Covers run := by
  induction h with
  | done => exact fun span hmem => absurd hmem List.not_mem_nil
  | @cover run tokens span spans gap hcovers _ ih =>
      refine List.forall_mem_cons.mpr ⟨⟨run, ⟨gap, tokens, ?_⟩, hcovers⟩, fun other hmem => ?_⟩
      · rw [List.append_assoc]
      · obtain ⟨run', hpart, hcovers'⟩ := ih other hmem
        refine ⟨run', hpart.trans ?_, hcovers'⟩
        exact ⟨gap ++ run, [], by rw [List.append_nil, List.append_assoc]⟩

/-- Spans along tokens in order are in order. -/
theorem pairwise (h : Along tokens spans) (horder : Token.InOrder tokens) :
    spans.Pairwise Span.Before := by
  induction h with
  | done => exact .nil
  | @cover run tokens span spans gap hcovers hlater ih =>
      have hbehind : Token.InOrder (run ++ tokens) :=
        horder.sublist (List.sublist_append_right gap _)
      have htokens : Token.InOrder tokens := hbehind.sublist (List.sublist_append_right run _)
      refine List.pairwise_cons.mpr ⟨fun other hmem => ?_, ih htokens⟩
      obtain ⟨run', hpart, hcovers'⟩ := hlater.exists_covers other hmem
      have hsub : (run ++ run').Sublist (run ++ tokens) :=
        (List.Sublist.refl run).append hpart.sublist
      exact (hbehind.sublist hsub).before hcovers hcovers'

end Along

end LinearProgram
