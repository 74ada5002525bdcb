import LinearProgram.Proofs.Token.Tiling
import Mathlib.Data.PFun

/-!
# Taking tokens one at a time

A text can be cut by a loop without a bound, which takes the next token until that is the end
of the input.  Every token before that is made of characters and leaves fewer of them, so the
loop ends on every text.  The main statements are `Token.takeAll_eq`, that it gives the tokens
which scanning gives, and `Token.length_scanFrom_le`, that these are at most one more than
there are characters.
-/

namespace LinearProgram

namespace Token

/-- The next token of a text that starts at an offset, and the offset and the text behind it. -/
def next (offset : Nat) (cs : List Char) : Token × Nat × List Char :=
  let start := offset + (cs.takeWhile isSpacing).length
  match cs.dropWhile isSpacing with
  | [] => (⟨.endOfInput, ⟨start, start⟩, ""⟩, start, [])
  | c :: rest =>
    let (kind, extent) := lexemeOf c rest
    let text := String.ofList (c :: rest.take extent)
    let stop := start + text.utf8ByteSize
    (⟨kind, ⟨start, stop⟩, text⟩, stop, rest.drop extent)

/-- One more token behind those that were taken; the end of the input is the last one. -/
def takeOne (taken : List Token) (rest : Nat × List Char) :
    List Token ⊕ (List Token × Nat × List Char) :=
  let (token, rest) := next rest.1 rest.2
  if token.kind = .endOfInput then .inl (taken ++ [token]) else .inr (taken ++ [token], rest)

/-- Tokens taken one after the other, behind those that were taken before. -/
def takeAllFrom : List Token × Nat × List Char →. List Token :=
  PFun.fix fun state => Part.some (takeOne state.1 state.2)

/-- The tokens of a text, which are not defined if there is no last one. -/
def takeAll (source : String) : Part (List Token) :=
  takeAllFrom ([], 0, source.toList)

/-- The next token is the last one, or it takes characters and scanning goes on behind it. -/
theorem scanFrom_next (offset : Nat) (cs : List Char) :
    ((next offset cs).1.kind = .endOfInput ∧ scanFrom offset cs = [(next offset cs).1]) ∨
      ((next offset cs).1.kind ≠ .endOfInput ∧ (next offset cs).2.2.length < cs.length ∧
        scanFrom offset cs =
          (next offset cs).1 :: scanFrom (next offset cs).2.1 (next offset cs).2.2) := by
  rw [scanFrom, next]
  split
  · next hnil =>
      rw [hnil]
      exact .inl ⟨rfl, rfl⟩
  · next c rest hcons =>
      rw [hcons]
      exact .inr ⟨kind_lexemeOf_ne c rest,
        length_drop_lt_of_dropWhile_eq_cons isSpacing _ hcons, rfl⟩

theorem takeAllFrom_eq (taken : List Token) (offset : Nat) (cs : List Char) :
    takeAllFrom (taken, offset, cs) = Part.some (taken ++ scanFrom offset cs) := by
  induction hlength : cs.length using Nat.strong_induction_on generalizing taken offset cs with
  | _ length ih =>
      rcases scanFrom_next offset cs with ⟨hkind, hscan⟩ | ⟨hkind, hlt, hscan⟩
      · have hlast : takeOne taken (offset, cs) = .inl (taken ++ scanFrom offset cs) := by
          rw [takeOne, hscan]
          exact if_pos hkind
        refine Part.eq_some_iff.mpr (PFun.fix_stop ?_)
        rw [hlast]
        exact Part.mem_some _
      · have hmore : takeOne taken (offset, cs) =
            .inr (taken ++ [(next offset cs).1], (next offset cs).2) := if_neg hkind
        have hstep : takeAllFrom (taken, offset, cs) =
            takeAllFrom (taken ++ [(next offset cs).1], (next offset cs).2) := by
          refine PFun.fix_fwd_eq ?_
          rw [hmore]
          exact Part.mem_some _
        have hlater := ih _ (hlength ▸ hlt) (taken ++ [(next offset cs).1])
          (next offset cs).2.1 (next offset cs).2.2 rfl
        rw [hstep, hlater, hscan, List.append_assoc, List.singleton_append]

theorem takeAll_eq (source : String) : takeAll source = Part.some (scan source) :=
  takeAllFrom_eq [] 0 source.toList

/-- There is at most one token for each character, besides the end of the input. -/
theorem length_scanFrom_le (offset : Nat) (cs : List Char) :
    (scanFrom offset cs).length ≤ cs.length + 1 := by
  induction hlength : cs.length using Nat.strong_induction_on generalizing offset cs with
  | _ length ih =>
      rcases scanFrom_next offset cs with ⟨-, hscan⟩ | ⟨-, hlt, hscan⟩
      · rw [hscan, List.length_singleton]
        exact Nat.le_add_left 1 length
      · have hlater := ih _ (hlength ▸ hlt) (next offset cs).2.1 (next offset cs).2.2 rfl
        rw [hscan, List.length_cons]
        omega

end Token

end LinearProgram
