import LinearProgram.Token.Scan
import Mathlib.Data.List.TakeWhile
import Mathlib.Data.String.Basic

/-!
# Tokens tile their text

Scanning takes lexemes and skips spacing, and together these are the whole text.  The
spans of the tokens say where the lexemes stand: they fall on characters, come in order,
leave nothing but spacing between them, and the last one is the end of the text.  All of
this follows from one relation between a text and its tokens, `Token.Tiles`, which holds
step by step as a text is scanned.  The main statement is `Token.scan_tiles`.
-/

namespace LinearProgram

open String (utf8Len)

namespace Span

/-- The stretch of a text that a span covers. -/
def slice (span : Span) (source : String) : String :=
  String.Pos.Raw.extract source ⟨span.start⟩ ⟨span.stop⟩

/-- A span that begins and ends between characters of a text. -/
structure FallsOn (span : Span) (source : String) : Prop where
  ordered : span.start ≤ span.stop
  start : String.Pos.Raw.IsValid source ⟨span.start⟩
  stop : String.Pos.Raw.IsValid source ⟨span.stop⟩

theorem isValid_utf8Len (before rest : List Char) :
    String.Pos.Raw.IsValid (String.ofList (before ++ rest)) ⟨utf8Len before⟩ := by
  rw [String.Pos.Raw.isValid_iff_exists_append]
  exact ⟨String.ofList before, String.ofList rest, String.ofList_append,
    (String.rawEndPos_ofList before).symm⟩

theorem fallsOn_append (before text rest : List Char) :
    FallsOn ⟨utf8Len before, utf8Len (before ++ text)⟩
      (String.ofList (before ++ text ++ rest)) := by
  constructor
  case ordered =>
    rw [String.utf8Len_append]
    exact Nat.le_add_right _ _
  case start =>
    rw [List.append_assoc]
    exact isValid_utf8Len before (text ++ rest)
  case stop => exact isValid_utf8Len (before ++ text) rest

theorem slice_append (before text rest : List Char) :
    slice ⟨utf8Len before, utf8Len (before ++ text)⟩ (String.ofList (before ++ text ++ rest)) =
      String.ofList text := by
  rw [slice, String.utf8Len_append]
  exact String.extract_of_valid before text rest

end Span

namespace Token

/-- The stretches in front of the tokens, the first of which begins at the given place. -/
def gapsFrom (offset : Nat) : List Token → List Span
  | [] => []
  | token :: tokens => ⟨offset, token.span.start⟩ :: gapsFrom token.span.stop tokens

/-- Tokens into which the rest of a text is cut, behind what stands before it. -/
inductive Tiles : List Char → List Char → List Token → Prop
  | finish {before gap : List Char} (hgap : ∀ c ∈ gap, isSpacing c = true) :
      Tiles before gap
        [⟨.endOfInput, ⟨utf8Len (before ++ gap), utf8Len (before ++ gap)⟩, ""⟩]
  | next {before gap text rest : List Char} {kind : TokenKind} {tokens : List Token}
      (hgap : ∀ c ∈ gap, isSpacing c = true) (htext : text ≠ []) (hkind : kind ≠ .endOfInput)
      (h : Tiles (before ++ gap ++ text) rest tokens) :
      Tiles before (gap ++ text ++ rest)
        (⟨kind, ⟨utf8Len (before ++ gap), utf8Len (before ++ gap ++ text)⟩,
          String.ofList text⟩ :: tokens)

/-! ## Scanning -/

/-- A spacing character is a single byte. -/
theorem utf8Size_of_isSpacing {c : Char} (h : isSpacing c = true) : c.utf8Size = 1 := by
  simp only [isSpacing, Bool.or_eq_true, decide_eq_true_eq] at h
  rcases h with (rfl | rfl) | rfl <;> rfl

theorem utf8Len_spacing {gap : List Char} (h : ∀ c ∈ gap, isSpacing c = true) :
    utf8Len gap = gap.length := by
  induction gap with
  | nil => rfl
  | cons c gap ih =>
      obtain ⟨hc, hlater⟩ := List.forall_mem_cons.mp h
      rw [String.utf8Len_cons, ih hlater, utf8Size_of_isSpacing hc, List.length_cons]

theorem kind_ite_ne {p : Prop} [Decidable p] {found found' : TokenKind × Nat} {kind : TokenKind}
    (h : found.1 ≠ kind) (h' : found'.1 ≠ kind) : (if p then found else found').1 ≠ kind := by
  split
  · exact h
  · exact h'

/-- No lexeme is the end of the input. -/
theorem kind_lexemeOf_ne (c : Char) (cs : List Char) : (lexemeOf c cs).1 ≠ .endOfInput := by
  rw [lexemeOf]
  repeat' apply kind_ite_ne
  all_goals exact TokenKind.noConfusion

/-- Scanning cuts a text into tokens, whatever stands before it. -/
theorem tiles_scanFrom (offset : Nat) (cs : List Char) :
    ∀ before : List Char, utf8Len before = offset → Tiles before cs (scanFrom offset cs) := by
  fun_induction scanFrom offset cs with
  | case1 offset cs start hnil =>
      intro before hoffset
      have hgap : ∀ c ∈ cs, isSpacing c = true := List.dropWhile_eq_nil_iff.mp hnil
      have hstart : start = utf8Len (before ++ cs) := by
        have htake : cs.takeWhile isSpacing = cs := List.takeWhile_eq_self_iff.mpr hgap
        rw [String.utf8Len_append, hoffset, utf8Len_spacing hgap]
        exact congrArg (offset + ·.length) htake
      rw [hstart]
      exact .finish hgap
  | case2 offset cs start c rest hcons kind extent hlexeme text stop ih =>
      intro before hoffset
      have hgap : ∀ c ∈ cs.takeWhile isSpacing, isSpacing c = true :=
        fun _ hmem => List.mem_takeWhile_imp hmem
      have hcut : cs = cs.takeWhile isSpacing ++ (c :: rest.take extent) ++ rest.drop extent := by
        rw [List.append_assoc, List.cons_append, List.take_append_drop, ← hcons,
          List.takeWhile_append_dropWhile]
      have hstart : start = utf8Len (before ++ cs.takeWhile isSpacing) := by
        rw [String.utf8Len_append, hoffset, utf8Len_spacing hgap]
      have hstop : stop =
          utf8Len (before ++ cs.takeWhile isSpacing ++ (c :: rest.take extent)) := by
        rw [String.utf8Len_append, ← hstart, ← String.utf8ByteSize_ofList]
      have hkind : kind ≠ .endOfInput := by
        have hne := kind_lexemeOf_ne c rest
        rwa [hlexeme] at hne
      have htiles := Tiles.next hgap (List.cons_ne_nil c (rest.take extent)) hkind
        (ih _ hstop.symm)
      rw [← hcut, ← hstart, ← hstop] at htiles
      exact htiles

/-- A token other than the last one is the lexeme at the place where its text begins. -/
theorem exists_lexeme_of_mem_scanFrom (offset : Nat) (cs : List Char) :
    ∀ before : List Char, utf8Len before = offset → ∀ token ∈ scanFrom offset cs,
      token.kind ≠ .endOfInput → ∃ front c rest, before ++ cs = front ++ c :: rest ∧
        token = ⟨(lexemeOf c rest).1,
          ⟨utf8Len front, utf8Len (front ++ c :: rest.take (lexemeOf c rest).2)⟩,
          String.ofList (c :: rest.take (lexemeOf c rest).2)⟩ := by
  fun_induction scanFrom offset cs with
  | case1 offset cs start hnil =>
      intro before _ token hmem hkind
      rw [List.mem_singleton.mp hmem] at hkind
      exact absurd rfl hkind
  | case2 offset cs start c rest hcons kind extent hlexeme text stop ih =>
      intro before hoffset
      have hgap : ∀ c ∈ cs.takeWhile isSpacing, isSpacing c = true :=
        fun _ hmem => List.mem_takeWhile_imp hmem
      have hcut : cs = cs.takeWhile isSpacing ++ c :: rest := by
        rw [← hcons, List.takeWhile_append_dropWhile]
      obtain ⟨front, hfront⟩ : ∃ front, before ++ cs.takeWhile isSpacing = front := ⟨_, rfl⟩
      have hstart : start = utf8Len front := by
        rw [← hfront, String.utf8Len_append, hoffset, utf8Len_spacing hgap]
      have hstop : stop = utf8Len (front ++ c :: rest.take extent) := by
        rw [String.utf8Len_append, ← hstart, ← String.utf8ByteSize_ofList]
      have hall : before ++ cs = front ++ c :: rest := by
        rw [← hfront, List.append_assoc, ← hcut]
      have hrest : before ++ cs = front ++ c :: rest.take extent ++ rest.drop extent := by
        rw [hall, List.append_assoc, List.cons_append, List.take_append_drop]
      refine List.forall_mem_cons.mpr ⟨fun _ => ⟨front, c, rest, hall, ?_⟩, fun token hmem => ?_⟩
      · rw [hlexeme, ← hstart, ← hstop]
      · rw [hrest]
        exact ih _ hstop.symm token hmem

/-! ## What tiling says -/

section Tiles

/-- A text with the first token behind what stands before it. -/
theorem append_next (before gap text rest : List Char) :
    before ++ (gap ++ text ++ rest) = before ++ gap ++ text ++ rest := by
  simp only [List.append_assoc]

variable {before cs : List Char} {tokens : List Token}

/-- The span of a token falls on characters and covers the text of the token. -/
theorem Tiles.slice_eq (h : Tiles before cs tokens) :
    ∀ token ∈ tokens, token.span.FallsOn (String.ofList (before ++ cs)) ∧
      token.span.slice (String.ofList (before ++ cs)) = token.text := by
  induction h with
  | @finish before gap _ =>
      have hfalls := Span.fallsOn_append (before ++ gap) [] []
      have hslice := Span.slice_append (before ++ gap) [] []
      simp only [List.append_nil] at hfalls hslice
      intro token hmem
      rw [List.mem_singleton.mp hmem]
      exact ⟨hfalls, hslice⟩
  | @next before gap text rest kind tokens _ _ _ _ ih =>
      rw [append_next]
      exact List.forall_mem_cons.mpr ⟨⟨Span.fallsOn_append (before ++ gap) text rest,
        Span.slice_append (before ++ gap) text rest⟩, ih⟩

/-- In front of a token there is nothing but spacing. -/
theorem Tiles.isSpacing_of_mem_gap (h : Tiles before cs tokens) :
    ∀ gap ∈ gapsFrom (utf8Len before) tokens, gap.FallsOn (String.ofList (before ++ cs)) ∧
      ∀ c ∈ (gap.slice (String.ofList (before ++ cs))).toList, isSpacing c = true := by
  induction h with
  | @finish before gap hgap =>
      have hfalls := Span.fallsOn_append before gap []
      have hslice := Span.slice_append before gap []
      rw [List.append_nil] at hfalls hslice
      intro other hmem
      rw [List.mem_singleton.mp hmem, hslice, String.toList_ofList]
      exact ⟨hfalls, hgap⟩
  | @next before gap text rest kind tokens hgap _ _ _ ih =>
      refine List.forall_mem_cons.mpr ⟨?_, ?_⟩
      · rw [append_next, List.append_assoc (before ++ gap), Span.slice_append, String.toList_ofList]
        exact ⟨Span.fallsOn_append before gap (text ++ rest), hgap⟩
      · rw [append_next]
        exact ih

/-- Tokens come in order and do not overlap. -/
theorem Tiles.pairwise (h : Tiles before cs tokens) :
    (∀ token ∈ tokens, utf8Len before ≤ token.span.start) ∧
      tokens.Pairwise fun token later =>
        token.span.start < later.span.start ∧ token.span.stop ≤ later.span.start := by
  induction h with
  | @finish before gap _ =>
      refine ⟨fun token hmem => ?_, List.pairwise_singleton _ _⟩
      rw [List.mem_singleton.mp hmem, String.utf8Len_append]
      exact Nat.le_add_right _ _
  | @next before gap text rest kind tokens _ htext _ _ ih =>
      obtain ⟨hbehind, hlater⟩ := ih
      have hgap : utf8Len before ≤ utf8Len (before ++ gap) := by
        rw [String.utf8Len_append]
        exact Nat.le_add_right _ _
      have htextLen : utf8Len (before ++ gap) < utf8Len (before ++ gap ++ text) := by
        have hpos : utf8Len text ≠ 0 := fun hzero => htext (String.utf8Len_eq_zero.mp hzero)
        rw [String.utf8Len_append (before ++ gap)]
        omega
      refine ⟨List.forall_mem_cons.mpr ⟨hgap, fun token hmem => ?_⟩,
        List.pairwise_cons.mpr ⟨fun token hmem => ?_, hlater⟩⟩
      · exact Nat.le_trans hgap (Nat.le_trans (Nat.le_of_lt htextLen) (hbehind token hmem))
      · exact ⟨Nat.lt_of_lt_of_le htextLen (hbehind token hmem), hbehind token hmem⟩

/-- The last token, and no other, is the end of the input, and no other token is empty. -/
theorem Tiles.exists_eq_append (h : Tiles before cs tokens) :
    ∃ front, tokens = front ++
        [⟨.endOfInput, ⟨utf8Len (before ++ cs), utf8Len (before ++ cs)⟩, ""⟩] ∧
      ∀ token ∈ front, token.kind ≠ .endOfInput ∧ token.text ≠ "" := by
  induction h with
  | finish _ => exact ⟨[], rfl, fun token hmem => absurd hmem List.not_mem_nil⟩
  | @next before gap text rest kind tokens _ htext hkind _ ih =>
      obtain ⟨front, rfl, hfront⟩ := ih
      rw [append_next]
      exact ⟨_ :: front, rfl, List.forall_mem_cons.mpr
        ⟨⟨hkind, fun hempty => htext (String.ofList_eq_empty_iff.mp hempty)⟩, hfront⟩⟩

/-- Stretches between tokens and the texts of the tokens make up the text again. -/
theorem Tiles.join_eq (h : Tiles before cs tokens) :
    String.join (List.zipWith
        (fun gap token => gap.slice (String.ofList (before ++ cs)) ++ token.text)
        (gapsFrom (utf8Len before) tokens) tokens) = String.ofList cs := by
  induction h with
  | @finish before gap _ =>
      have hslice := Span.slice_append before gap []
      rw [List.append_nil] at hslice
      rw [gapsFrom, gapsFrom, List.zipWith_cons_cons, List.zipWith_nil_left, String.join_cons,
        hslice]
      simp
  | @next before gap text rest kind tokens _ _ _ _ ih =>
      have hslice := Span.slice_append before gap (text ++ rest)
      rw [← List.append_assoc] at hslice
      rw [gapsFrom, List.zipWith_cons_cons, String.join_cons, append_next, hslice, ih,
        String.ofList_append, String.ofList_append]

end Tiles

/-- The tokens before the last one are those that are not the end of the input. -/
theorem exists_scan_eq_append (source : String) :
    ∃ front, scan source = front ++
        [⟨.endOfInput, ⟨source.utf8ByteSize, source.utf8ByteSize⟩, ""⟩] ∧
      ∀ token ∈ front, token.kind ≠ .endOfInput ∧ token.text ≠ "" := by
  obtain ⟨front, heq, hfront⟩ :=
    (tiles_scanFrom 0 source.toList [] rfl).exists_eq_append
  have hsize : utf8Len source.toList = source.utf8ByteSize := by
    rw [← String.utf8ByteSize_ofList, String.ofList_toList]
  rw [List.nil_append, hsize] at heq
  exact ⟨front, heq, hfront⟩

/--
Tokens tile their text.  Their spans fall on characters, cover the texts of the tokens,
and come in order without an overlap.  Between them there are only spaces, tabs and
carriage returns.  The last token is the end of the input, and the others are not empty.
With what stands between them, the tokens make up the text again.
-/
theorem scan_tiles (source : String) :
    (∀ token ∈ scan source, token.span.FallsOn source ∧
        token.span.slice source = token.text) ∧
      ((scan source).Pairwise fun token later =>
        token.span.start < later.span.start ∧ token.span.stop ≤ later.span.start) ∧
      (∀ gap ∈ gapsFrom 0 (scan source), gap.FallsOn source ∧
        ∀ c ∈ (gap.slice source).toList, c = ' ' ∨ c = '\t' ∨ c = '\r') ∧
      (∃ front, scan source = front ++
          [⟨.endOfInput, ⟨source.utf8ByteSize, source.utf8ByteSize⟩, ""⟩] ∧
        ∀ token ∈ front, token.kind ≠ .endOfInput ∧ token.text ≠ "") ∧
      String.join (List.zipWith (fun gap token => gap.slice source ++ token.text)
        (gapsFrom 0 (scan source)) (scan source)) = source := by
  have htiles : Tiles [] source.toList (scan source) := tiles_scanFrom 0 source.toList [] rfl
  have hslice := htiles.slice_eq
  have hgaps := htiles.isSpacing_of_mem_gap
  have hjoin := htiles.join_eq
  rw [List.nil_append, String.ofList_toList] at hslice hgaps hjoin
  refine ⟨hslice, htiles.pairwise.2, fun gap hmem => ⟨(hgaps gap hmem).1, fun c hc => ?_⟩,
    exists_scan_eq_append source, hjoin⟩
  have hspacing := (hgaps gap hmem).2 c hc
  simpa only [isSpacing, Bool.or_eq_true, decide_eq_true_eq, or_assoc] using hspacing

end Token

end LinearProgram
