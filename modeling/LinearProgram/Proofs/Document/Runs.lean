import LinearProgram.Proofs.Document.Derivation

/-!
# Runs of tokens

What is read between two positions is a run of adjacent tokens, and the last of them is the
token just read at the second position.  A position reaches another one if there is a run
between them.  Every form ends at a position that its beginning reaches, so every parser
that recognises a form does.  The main statement is `Reader.exists_of_mem_manyUntil`, which
finds the positions between which an item of a list is read.
-/

namespace LinearProgram

namespace Cursor

/-- The tokens between two positions. -/
structure Reads (c : Cursor) (run : List Token) (d : Cursor) : Prop where
  rest : c.rest = run ++ d.rest
  previous : d.previous = run.getLast?.or c.previous

/-- There is a run of tokens from one position to another. -/
def Reaches (c d : Cursor) : Prop :=
  ∃ run, c.Reads run d

section Reads

variable {c d e : Cursor} {run run' : List Token}

theorem Reads.refl (c : Cursor) : c.Reads [] c :=
  ⟨rfl, rfl⟩

theorem Reads.token (previous : Option Token) (token : Token) (tokens : List Token) :
    (Cursor.mk previous (token :: tokens)).Reads [token] ⟨some token, tokens⟩ :=
  ⟨rfl, rfl⟩

theorem Reads.trans (h : c.Reads run d) (h' : d.Reads run' e) : c.Reads (run ++ run') e := by
  constructor
  · rw [h.rest, h'.rest, List.append_assoc]
  · rw [h'.previous, h.previous, List.getLast?_append, Option.or_assoc]

theorem Reads.ne_nil (h : c.Reads run d) (hlt : d.rest.length < c.rest.length) : run ≠ [] := by
  rintro rfl
  rw [h.rest, List.nil_append] at hlt
  exact Nat.lt_irrefl _ hlt

/-- A run that is not empty begins at the next token. -/
theorem Reads.exists_head (h : c.Reads run d) (hne : run ≠ []) :
    ∃ first ∈ run.head?, c.span = first.span := by
  obtain ⟨first, later, rfl⟩ := List.exists_cons_of_ne_nil hne
  refine ⟨first, rfl, ?_⟩
  rw [Cursor.span, h.rest]
  rfl

/-- A run that is not empty ends at the token just read. -/
theorem Reads.exists_last (h : c.Reads run d) (hne : run ≠ []) :
    ∃ last ∈ run.getLast?, d.lastStop = last.span.stop := by
  have hlast := List.getLast?_eq_some_getLast hne
  refine ⟨_, hlast, ?_⟩
  rw [Cursor.lastStop, h.previous, hlast]
  rfl

theorem Reaches.refl (c : Cursor) : c.Reaches c :=
  ⟨[], .refl c⟩

theorem Reaches.token (previous : Option Token) (token : Token) (tokens : List Token) :
    (Cursor.mk previous (token :: tokens)).Reaches ⟨some token, tokens⟩ :=
  ⟨[token], .token previous token tokens⟩

theorem Reaches.trans (h : c.Reaches d) (h' : d.Reaches e) : c.Reaches e := by
  obtain ⟨run, hrun⟩ := h
  obtain ⟨run', hrun'⟩ := h'
  exact ⟨run ++ run', hrun.trans hrun'⟩

/-- What is left over is the end of what there was. -/
theorem Reaches.rest_suffix (h : c.Reaches d) : d.rest <:+ c.rest := by
  obtain ⟨run, hrun⟩ := h
  exact ⟨run, hrun.rest.symm⟩

end Reads

end Cursor

open Cursor (Reaches)

namespace Grammar

open Reader

section Forms

variable {c d : Cursor}

theorem Breaks.reaches (h : Breaks c d) : c.Reaches d := by
  induction h with
  | stay _ => exact .refl _
  | line _ _ ih => exact (Reaches.token _ _ _).trans ih

theorem KeywordAt.reaches {keyword : SectionKeyword} (h : KeywordAt c keyword d) :
    c.Reaches d := by
  cases h with
  | oneWord _ _ _ _ => exact .token _ _ _
  | twoWords _ _ _ _ => exact (Reaches.token _ _ _).trans (.token _ _ _)

theorem NameAt.reaches {name : String} (h : NameAt c name d) : c.Reaches d := by
  obtain ⟨hbreaks, -⟩ := h
  exact hbreaks.reaches.trans (.token _ _ _)

theorem LabelAt.reaches {label : Option String} (h : LabelAt c label d) : c.Reaches d := by
  cases h with
  | absent => exact .refl c
  | named hbreaks _ _ =>
      exact hbreaks.reaches.trans ((Reaches.token _ _ _).trans (.token _ _ _))

theorem RelationAt.reaches {relation : Relation} (h : RelationAt c relation d) :
    c.Reaches d := by
  obtain ⟨hbreaks, -⟩ := h
  exact hbreaks.reaches.trans (.token _ _ _)

theorem SignsAt.reaches {gap : Cursor → Cursor → Prop} {negative : Bool}
    (hgap : ∀ ⦃c d⦄, gap c d → c.Reaches d) (h : SignsAt gap c negative d) : c.Reaches d := by
  induction h with
  | none => exact .refl _
  | plus _ hpass _ ih => exact (Reaches.token _ _ _).trans ((hgap hpass).trans ih)
  | minus _ hpass _ ih => exact (Reaches.token _ _ _).trans ((hgap hpass).trans ih)

theorem ValueAt.reaches {value : Binary64} (h : ValueAt c value d) : c.Reaches d := by
  obtain ⟨hbreaks, hsigns, -⟩ := h
  have hgap : ∀ ⦃c d : Cursor⦄, c = d → c.Reaches d := by
    rintro c d rfl
    exact .refl c
  exact hbreaks.reaches.trans ((hsigns.reaches hgap).trans (.token _ _ _))

theorem OperandAt.reaches {negative : Bool} {summand : Summand}
    (h : OperandAt negative c summand d) : c.Reaches d := by
  cases h with
  | scaled _ _ => exact (Reaches.token _ _ _).trans (.token _ _ _)
  | lone _ _ => exact .token _ _ _
  | plain _ => exact .token _ _ _

theorem TermAt.reaches {mustSign : Bool} {summand : Summand} (h : TermAt mustSign c summand d) :
    c.Reaches d := by
  obtain ⟨-, hsigns, hoperand⟩ := h
  exact (hsigns.reaches fun _ _ hbreaks => hbreaks.reaches).trans hoperand.reaches

theorem Many.reaches {stops : Cursor → Prop} {item : Form α} {xs : List α}
    (hitem : ∀ ⦃c x d⦄, item c x d → c.Reaches d) (h : Many stops item c xs d) :
    c.Reaches d := by
  induction h with
  | done hbreaks _ => exact hbreaks.reaches
  | step hbreaks _ hfirst _ ih => exact hbreaks.reaches.trans ((hitem hfirst).trans ih)

theorem ExprAt.reaches {written : WrittenExpr} (h : ExprAt c written d) : c.Reaches d := by
  cases h with
  | empty hbreaks _ => exact hbreaks.reaches
  | terms hbreaks _ hfirst hlater =>
      exact hbreaks.reaches.trans
        (hfirst.reaches.trans (hlater.reaches fun _ _ _ hterm => hterm.reaches))

theorem RowAt.reaches {written : Row} (h : RowAt c written d) : c.Reaches d := by
  obtain ⟨hlabel, hexpr, hrelation, hrhs⟩ := h
  exact hlabel.reaches.trans (hexpr.reaches.trans (hrelation.reaches.trans hrhs.reaches))

theorem BoundAt.reaches {written : BoundStatement} (h : BoundAt c written d) :
    c.Reaches d := by
  cases h with
  | oneSided _ hvalue hrelation hname _ =>
      exact hvalue.reaches.trans (hrelation.reaches.trans hname.reaches)
  | twoSided _ hvalue hrelation hname _ hrelation' hvalue' =>
      exact hvalue.reaches.trans (hrelation.reaches.trans
        (hname.reaches.trans (hrelation'.reaches.trans hvalue'.reaches)))
  | free _ _ hname hfree =>
      obtain ⟨word, hword⟩ := NameAt.of_freeAt hfree
      exact hname.reaches.trans hword.reaches
  | nameFirst _ _ hname hrelation hvalue =>
      exact hname.reaches.trans (hrelation.reaches.trans hvalue.reaches)

theorem SectionAt.reaches {part : Part} (h : SectionAt c part d) : c.Reaches d := by
  cases h with
  | rows hkeyword hrows =>
      exact hkeyword.reaches.trans (hrows.reaches fun _ _ _ hrow => hrow.reaches)
  | bounds hkeyword hbounds =>
      exact hkeyword.reaches.trans (hbounds.reaches fun _ _ _ hbound => hbound.reaches)
  | generals hkeyword hnames =>
      exact hkeyword.reaches.trans (hnames.reaches fun _ _ _ hname => hname.reaches)
  | binaries hkeyword hnames =>
      exact hkeyword.reaches.trans (hnames.reaches fun _ _ _ hname => hname.reaches)

theorem ObjectiveAt.reaches {objective : ObjectiveSection} (h : ObjectiveAt c objective d) :
    c.Reaches d := by
  obtain ⟨hbreaks, hkeyword, hlabel, hexpr⟩ := h
  exact hbreaks.reaches.trans
    (hkeyword.reaches.trans (hlabel.reaches.trans hexpr.reaches))

/-- What a parser reads is derived by the form that it recognises. -/
theorem Recognises.of_eq_ok {p : Reader α} {f : α → β} {form : Form β}
    (hp : Recognises p f form c) {x : α} (h : p c = .ok (x, d)) : form c (f x) d :=
  (hp _ _).mp ⟨x, h, rfl⟩

end Forms

end Grammar

namespace Reader

theorem signsFrom_reaches (overNewlines negative : Bool) (previous : Option Token)
    (tokens : List Token) :
    (Cursor.mk previous tokens).Reaches
      (signsFrom overNewlines negative previous tokens).2 := by
  induction tokens generalizing negative previous with
  | nil => exact .refl _
  | cons token tokens ih =>
      have hlater (negative : Bool) := (Reaches.token previous token tokens).trans
        (ih negative (some token))
      unfold signsFrom
      split
      · exact hlater negative
      · split
        · exact hlater (!negative)
        · split
          · exact hlater negative
          · exact .refl _

theorem signs_reaches (overNewlines : Bool) (c : Cursor) :
    c.Reaches (signs overNewlines c).2 :=
  signsFrom_reaches overNewlines false c.previous c.rest

theorem skipNewlines_reaches (c : Cursor) : c.Reaches c.skipNewlines :=
  (Grammar.breaks_skipNewlines c).reaches

theorem label?_reaches (c : Cursor) : c.Reaches (label? c).2 := by
  rcases Grammar.label?_cases c with ⟨name, d, hlabel, heq⟩ | heq
  · rw [heq]
    exact hlabel.reaches
  · rw [heq]
    exact skipNewlines_reaches c

theorem token_reaches {kind : TokenKind} {c d : Cursor} {x : Token}
    (h : token kind c = .ok (x, d)) : c.Reaches d := by
  obtain ⟨previous, first, tokens, hbreaks, -, rfl⟩ :=
    (Grammar.takesOne_eq_ok_iff (takesOne_token kind) (skips_token kind)).mp h
  exact hbreaks.reaches.trans (.token _ _ _)

theorem relation_reaches {c d : Cursor} {x : Relation} (h : relation c = .ok (x, d)) :
    c.Reaches d :=
  (Grammar.relation_eq_ok_iff.mp h).reaches

theorem value_reaches {c d : Cursor} {x : Binary64} (h : value c = .ok (x, d)) :
    c.Reaches d :=
  (Grammar.value_eq_ok_iff.mp h).reaches

theorem summand_reaches {mustSign : Bool} {c d : Cursor} {x : Summand}
    (h : summand mustSign c = .ok (x, d)) : c.Reaches d :=
  ((Grammar.recognises_summand mustSign c).of_eq_ok h).reaches

theorem expr_reaches {c d : Cursor} {x : WrittenExpr} (h : expr c = .ok (x, d)) :
    c.Reaches d :=
  ((Grammar.recognises_expr c).of_eq_ok h).reaches

theorem row_reaches {c d : Cursor} {x : Row} (h : row c = .ok (x, d)) : c.Reaches d :=
  ((Grammar.recognises_row c).of_eq_ok h).reaches

theorem boundStatement_reaches {c d : Cursor} {x : BoundStatement}
    (h : boundStatement c = .ok (x, d)) : c.Reaches d :=
  ((Grammar.recognises_boundStatement c).of_eq_ok h).reaches

theorem names_reaches {c d : Cursor} {x : List String} (h : names c = .ok (x, d)) :
    c.Reaches d :=
  ((Grammar.recognises_names c).of_eq_ok h).reaches fun _ _ _ hname => hname.reaches

theorem part_reaches {c d : Cursor} {x : Part} (hgoes : atDocumentEnd c = false)
    (h : part c = .ok (x, d)) : c.Reaches d := by
  have hnot : ¬Grammar.EndsDocument c := fun hends =>
    Bool.eq_false_iff.mp hgoes (Grammar.endsDocument_iff.mp hends)
  exact ((Grammar.recognises_part hnot).of_eq_ok h).reaches

theorem objectiveSection_reaches {c d : Cursor} {x : ObjectiveSection}
    (h : objectiveSection c = .ok (x, d)) : c.Reaches d :=
  ((Grammar.recognises_objectiveSection c).of_eq_ok h).reaches

/-- An item of a list is read where the list has come to it, behind line breaks. -/
theorem exists_of_mem_manyUntil {stop : Cursor → Bool} {item : Reader α} {h : Shortens item}
    (hitem : ∀ ⦃c x d⦄, stop c = false → item c = .ok (x, d) → c.Reaches d) :
    ∀ (c d : Cursor) (xs : List α), manyUntil stop item h c = .ok (xs, d) →
      ∀ x ∈ xs, ∃ e f, c.Reaches e ∧ e.kind ≠ .newline ∧ stop e = false ∧
        item e = .ok (x, f) := by
  intro c
  fun_induction manyUntil stop item h c with
  | case1 c c₁ hstop =>
      intro d xs hok
      obtain ⟨rfl, -⟩ := Prod.mk.inj (Except.ok.inj hok)
      exact fun x hmem => absurd hmem List.not_mem_nil
  | case2 c c₁ hstop error herror =>
      intro d xs hok
      cases hok
  | case3 c c₁ hstop x next hfirst error hrest ih =>
      intro d xs hok
      cases hok
  | case4 c c₁ hstop x next hfirst later last hrest ih =>
      intro d xs hok
      obtain ⟨rfl, rfl⟩ := Prod.mk.inj (Except.ok.inj hok)
      have hgoes : stop c₁ = false := Bool.eq_false_iff.mpr hstop
      have hskip : c.Reaches c₁ := skipNewlines_reaches c
      refine List.forall_mem_cons.mpr
        ⟨⟨c₁, next, hskip, c.kind_skipNewlines_ne, hgoes, hfirst⟩, fun y hmem => ?_⟩
      obtain ⟨e, f, hreaches, hfound⟩ := ih _ _ hrest y hmem
      exact ⟨e, f, hskip.trans ((hitem hgoes hfirst).trans hreaches), hfound⟩

end Reader

end LinearProgram
