import LinearProgram.Proofs.Document.Runs
import Mathlib.Data.PFun

/-!
# Walks over tokens

A walk reads a list of tokens by positions.  It may look at any position and move on by any
number of tokens, and its loops may go round without an end; a walk that never ends has no
outcome.  A journey records where a walk stands, every position at which it stood, and the
turns of its loops, and it is kept when the walk fails.

The tokens of a document are a track: the end of the input is the last of them and no other
one.  At a position of a track stands a cursor, the token before it and the tokens behind it.
`Walk.Yields` says of a walk that it ends with the result of a parser that reads from the
cursor, and that its journey stays sound: it never passes the end of the input, and every
turn of a loop that was not its last one moved on.  The main statements are the rules for
sequences, `Walk.Yields.bind`, and for loops, `Walk.yields_loop`.
-/

namespace LinearProgram

/-- A turn of a loop that another one followed: where it began and where it ended. -/
structure Turn where
  start : Nat
  stop : Nat
deriving DecidableEq

/-- Where a walk stands, every position at which it stood, and the turns of its loops. -/
structure Journey where
  position : Nat
  visited : List Nat
  turns : List Turn
deriving DecidableEq

namespace Journey

/-- The beginning of every journey. -/
def start : Journey :=
  ⟨0, [0], []⟩

def move (count : Nat) (journey : Journey) : Journey :=
  ⟨journey.position + count, (journey.position + count) :: journey.visited, journey.turns⟩

/-- The journey with a turn that began at some position and ends here. -/
def turn (start : Nat) (journey : Journey) : Journey :=
  { journey with turns := ⟨start, journey.position⟩ :: journey.turns }

end Journey

/-- A walk gives a value or fails; it may also go on for ever. -/
abbrev Walk (α : Type) :=
  ExceptT ParseError (StateT Journey Part) α

namespace Walk

/-- The outcome of a walk and the journey up to it, which are not defined if it never ends. -/
def runFrom (walk : Walk α) (journey : Journey) : Part (Except ParseError α × Journey) :=
  (ExceptT.run walk).run journey

/-- What can be told at the position. -/
def look (f : Nat → α) : Walk α :=
  ExceptT.mk fun journey => Part.some (.ok (f journey.position), journey)

def move (count : Nat) : Walk Unit :=
  ExceptT.mk fun journey => Part.some (.ok (), journey.move count)

/-- What one turn of a loop comes to: the end of the loop, or the state for the next turn. -/
def goRound (turn : σ → Walk (σ ⊕ α)) (before : σ × Journey) :
    Part ((Except ParseError α × Journey) ⊕ (σ × Journey)) :=
  ((turn before.1).runFrom before.2).map fun
    | (.ok (.inl next), journey) => .inr (next, journey.turn before.2.position)
    | (.ok (.inr x), journey) => .inl (.ok x, journey)
    | (.error error, journey) => .inl (.error error, journey)

/-- Turns one after the other, until one gives a value or fails. -/
def loop (turn : σ → Walk (σ ⊕ α)) (state : σ) : Walk α :=
  ExceptT.mk fun journey => PFun.fix (goRound turn) (state, journey)

section Run

variable (journey : Journey)

theorem runFrom_pure (x : α) :
    (pure x : Walk α).runFrom journey = Part.some (.ok x, journey) :=
  rfl

theorem runFrom_throw (error : ParseError) :
    (throw error : Walk α).runFrom journey = Part.some (.error error, journey) :=
  rfl

theorem runFrom_look (f : Nat → α) :
    (look f).runFrom journey = Part.some (.ok (f journey.position), journey) :=
  rfl

theorem runFrom_move (count : Nat) :
    (move count).runFrom journey = Part.some (.ok (), journey.move count) :=
  rfl

theorem runFrom_bind (walk : Walk α) (f : α → Walk β) :
    (walk >>= f).runFrom journey = (walk.runFrom journey).bind fun found =>
      match found.1 with
      | .ok x => (f x).runFrom found.2
      | .error error => Part.some (.error error, found.2) := by
  simp only [runFrom, ExceptT.run_bind, StateT.run_bind, Part.bind_eq_bind]
  refine congrArg (Part.bind _) (funext fun found => ?_)
  obtain ⟨_ | _, _⟩ := found <;> rfl

variable {journey} {journey' : Journey}

theorem runFrom_bind_ok {walk : Walk α} {x : α}
    (h : walk.runFrom journey = Part.some (.ok x, journey')) (f : α → Walk β) :
    (walk >>= f).runFrom journey = (f x).runFrom journey' := by
  rw [runFrom_bind, h, Part.bind_some]

theorem runFrom_bind_error {walk : Walk α} {error : ParseError}
    (h : walk.runFrom journey = Part.some (.error error, journey')) (f : α → Walk β) :
    (walk >>= f).runFrom journey = Part.some (.error error, journey') := by
  rw [runFrom_bind, h, Part.bind_some]

variable {turn : σ → Walk (σ ⊕ α)} {state : σ}

theorem runFrom_loop_leaves {x : α}
    (h : (turn state).runFrom journey = Part.some (.ok (.inr x), journey')) :
    (loop turn state).runFrom journey = Part.some (.ok x, journey') := by
  refine Part.eq_some_iff.mpr (PFun.fix_stop ?_)
  rw [goRound, h, Part.map_some]
  exact Part.mem_some _

theorem runFrom_loop_fails {error : ParseError}
    (h : (turn state).runFrom journey = Part.some (.error error, journey')) :
    (loop turn state).runFrom journey = Part.some (.error error, journey') := by
  refine Part.eq_some_iff.mpr (PFun.fix_stop ?_)
  rw [goRound, h, Part.map_some]
  exact Part.mem_some _

theorem runFrom_loop_goesOn {next : σ}
    (h : (turn state).runFrom journey = Part.some (.ok (.inl next), journey')) :
    (loop turn state).runFrom journey =
      (loop turn next).runFrom (journey'.turn journey.position) := by
  refine PFun.fix_fwd_eq ?_
  rw [goRound, h, Part.map_some]
  exact Part.mem_some _

end Run

end Walk

/-! ## Tracks -/

/-- The tokens of a document, of which the last one and no other is the end of the input. -/
structure Track where
  front : List Token
  finish : Token
  kind_finish : finish.kind = .endOfInput
  kind_front : ∀ token ∈ front, token.kind ≠ .endOfInput

namespace Track

def tokens (track : Track) : List Token :=
  track.front ++ [track.finish]

end Track

namespace Cursor

/-- A cursor stands behind the tokens that have been read. -/
def StandsAt (c : Cursor) (track : Track) (position : Nat) : Prop :=
  ∃ run, (Cursor.mk none track.front).Reads run c ∧ run.length = position

section StandsAt

variable {track : Track} {c d : Cursor} {i j : Nat}

theorem standsAt_zero (track : Track) : (Cursor.mk none track.front).StandsAt track 0 :=
  ⟨[], .refl _, rfl⟩

theorem StandsAt.reads (h : c.StandsAt track i) {run : List Token} (hreads : c.Reads run d) :
    d.StandsAt track (i + run.length) := by
  obtain ⟨before, hbefore, rfl⟩ := h
  exact ⟨before ++ run, hbefore.trans hreads, List.length_append⟩

theorem StandsAt.length_eq (h : c.StandsAt track i) :
    track.front.length = i + c.rest.length := by
  obtain ⟨run, hreads, rfl⟩ := h
  have hrest : track.front = run ++ c.rest := hreads.rest
  rw [hrest, List.length_append]

/-- No cursor stands behind the end of the input. -/
theorem StandsAt.le (h : c.StandsAt track i) : i ≤ track.front.length := by
  rw [h.length_eq]
  exact Nat.le_add_right _ _

/-- A cursor with fewer tokens to come stands farther on. -/
theorem StandsAt.lt (hc : c.StandsAt track i) (hd : d.StandsAt track j)
    (hlt : d.rest.length < c.rest.length) : i < j := by
  have hlength := hc.length_eq
  have hlength' := hd.length_eq
  omega

/-- The tokens behind a position, the end of the input included. -/
theorem StandsAt.getElem? (h : c.StandsAt track i) (offset : Nat) :
    track.tokens[i + offset]? = (c.rest ++ [track.finish])[offset]? := by
  obtain ⟨run, hreads, rfl⟩ := h
  have hrest : track.front = run ++ c.rest := hreads.rest
  rw [Track.tokens, hrest, List.append_assoc, List.getElem?_append_right (Nat.le_add_right _ _),
    Nat.add_sub_cancel_left]

theorem StandsAt.previous_eq_none_iff (h : c.StandsAt track i) : c.previous = none ↔ i = 0 := by
  obtain ⟨run, hreads, rfl⟩ := h
  rw [hreads.previous, Option.or_none, List.getLast?_eq_none_iff, List.length_eq_zero_iff]

/-- The token before a position is the one just read. -/
theorem StandsAt.getElem?_pred (h : c.StandsAt track i) (hpos : i ≠ 0) :
    track.tokens[i - 1]? = c.previous := by
  obtain ⟨run, hreads, rfl⟩ := h
  have hrest : track.front = run ++ c.rest := hreads.rest
  have hlt : run.length - 1 < run.length := by omega
  rw [hreads.previous, Option.or_none, List.getLast?_eq_getElem?, Track.tokens, hrest,
    List.append_assoc, List.getElem?_append_left hlt]

theorem StandsAt.kind_ne (h : c.StandsAt track i) :
    ∀ token ∈ c.rest, token.kind ≠ .endOfInput := by
  obtain ⟨run, hreads, -⟩ := h
  have hrest : track.front = run ++ c.rest := hreads.rest
  exact fun token hmem => track.kind_front token (hrest ▸ List.mem_append_right run hmem)

end StandsAt

end Cursor

/-! ## What walks yield -/

/-- A journey that never passed the end of the input, and whose loops moved on at every turn. -/
structure Journey.Sound (track : Track) (journey : Journey) : Prop where
  visited : ∀ position ∈ journey.visited, position ≤ track.front.length
  turns : ∀ turn ∈ journey.turns, turn.start < turn.stop

theorem Journey.sound_start (track : Track) : Journey.start.Sound track :=
  ⟨fun _ hmem => (List.mem_singleton.mp hmem).symm ▸ Nat.zero_le _,
    fun _ hmem => absurd hmem List.not_mem_nil⟩

namespace Walk

/--
From wherever the cursor stands on the track, a walk ends soundly with the result: the same
value, standing where the result does, or the same error.
-/
def Yields (track : Track) (walk : Walk α) (c : Cursor)
    (result : Except ParseError (α × Cursor)) : Prop :=
  ∀ journey : Journey, journey.Sound track → c.StandsAt track journey.position →
    ∃ outcome journey', walk.runFrom journey = Part.some (outcome, journey') ∧
      journey'.Sound track ∧ outcome = result.map Prod.fst ∧
      ∀ x d, result = .ok (x, d) → d.StandsAt track journey'.position

section Yields

variable {track : Track} {c d : Cursor}

theorem Yields.of_standsAt {walk : Walk α} {result : Except ParseError (α × Cursor)}
    (h : ∀ i, c.StandsAt track i → Yields track walk c result) : Yields track walk c result :=
  fun journey hsound hstands => h journey.position hstands journey hsound hstands

theorem yields_pure (x : α) (c : Cursor) : Yields track (pure x) c (.ok (x, c)) := by
  intro journey hsound hstands
  refine ⟨.ok x, journey, runFrom_pure journey x, hsound, rfl, ?_⟩
  rintro _ _ ⟨⟩
  exact hstands

theorem yields_throw (error : ParseError) (c : Cursor) :
    Yields track (throw error : Walk α) c (.error error) :=
  fun journey hsound _ => ⟨.error error, journey, runFrom_throw journey error, hsound, rfl,
    fun _ _ hok => nomatch hok⟩

theorem yields_look {f : Nat → α} {x : α} (h : ∀ i, c.StandsAt track i → f i = x) :
    Yields track (look f) c (.ok (x, c)) := by
  intro journey hsound hstands
  refine ⟨.ok (f journey.position), journey, runFrom_look journey f, hsound,
    congrArg Except.ok (h _ hstands), ?_⟩
  rintro _ _ ⟨⟩
  exact hstands

/-- A look gives something, whatever it is, since the cursor stands at one position only. -/
theorem exists_yields_look (track : Track) (f : Nat → α) (c : Cursor) :
    ∃ x, Yields track (look f) c (.ok (x, c)) := by
  refine ⟨f (track.front.length - c.rest.length), yields_look fun i h => ?_⟩
  rw [h.length_eq, Nat.add_sub_cancel]

/-- Moving on over tokens that are there. -/
theorem yields_move {run : List Token} (h : c.Reads run d) :
    Yields track (move run.length) c (.ok ((), d)) := by
  intro journey hsound hstands
  have hbehind := hstands.reads h
  refine ⟨.ok (), journey.move run.length, runFrom_move journey run.length,
    ⟨List.forall_mem_cons.mpr ⟨hbehind.le, hsound.visited⟩, hsound.turns⟩, rfl, ?_⟩
  rintro _ _ ⟨⟩
  exact hbehind

theorem yields_move_one (previous : Option Token) (token : Token) (tokens : List Token) :
    Yields track (move 1) ⟨previous, token :: tokens⟩ (.ok ((), ⟨some token, tokens⟩)) :=
  yields_move (.token previous token tokens)

theorem Yields.bind {walk : Walk α} {f : α → Walk β} {result : Except ParseError (α × Cursor)}
    {g : α × Cursor → Except ParseError (β × Cursor)} (hwalk : Yields track walk c result)
    (hnext : ∀ x d, result = .ok (x, d) → Yields track (f x) d (g (x, d))) :
    Yields track (walk >>= f) c (result >>= g) := by
  intro journey hsound hstands
  obtain ⟨outcome, journey₁, hrun, hsound₁, rfl, hstands₁⟩ := hwalk journey hsound hstands
  cases result with
  | error error =>
      exact ⟨.error error, journey₁, runFrom_bind_error hrun f, hsound₁, rfl,
        fun _ _ hok => nomatch hok⟩
  | ok found =>
      obtain ⟨x, d⟩ := found
      rw [runFrom_bind_ok hrun f]
      exact hnext x d rfl journey₁ hsound₁ (hstands₁ x d rfl)

/-- A walk that gives a value first, and then goes on from it. -/
theorem Yields.next {walk : Walk α} {f : α → Walk β} {x : α}
    {result : Except ParseError (β × Cursor)} (hwalk : Yields track walk c (.ok (x, d)))
    (hnext : Yields track (f x) d result) : Yields track (walk >>= f) c result := by
  refine hwalk.bind (g := fun _ => result) ?_
  rintro _ _ ⟨⟩
  exact hnext

/-- A walk that fails first. -/
theorem Yields.fails {walk : Walk α} {error : ParseError}
    (hwalk : Yields track walk c (.error error)) (f : α → Walk β) :
    Yields track (walk >>= f) c (.error error) :=
  hwalk.bind (g := fun _ => .error error) fun _ _ hok => nomatch hok

/-- A walk that moves on and gives a value or fails, and then goes on from the value. -/
theorem Yields.bind_value {walk : Walk α} {f : α → Walk β} {x : Except ParseError α}
    {g : α → Except ParseError (β × Cursor)} (hwalk : Yields track walk c (x.map (·, d)))
    (hnext : ∀ a, Yields track (f a) d (g a)) : Yields track (walk >>= f) c (x >>= g) := by
  cases x with
  | error error => exact hwalk.fails f
  | ok a => exact hwalk.next (hnext a)

/-- A walk that gives a value made of the one that is expected. -/
theorem Yields.bind_map {e : α → β} {walk : Walk β} {f : β → Walk γ}
    {result : Except ParseError (α × Cursor)} {g : α × Cursor → Except ParseError (γ × Cursor)}
    (hwalk : Yields track walk c (Prod.map e id <$> result))
    (hnext : ∀ x d, result = .ok (x, d) → Yields track (f (e x)) d (g (x, d))) :
    Yields track (walk >>= f) c (result >>= g) := by
  cases result with
  | error error => exact hwalk.fails f
  | ok found => exact hwalk.next (hnext found.1 found.2 rfl)

section Choice

variable {p : Prop} [Decidable p] {walk walk' : Walk α}
  {result result' : Except ParseError (α × Cursor)}

theorem Yields.ite (hpos : p → Yields track walk c result)
    (hneg : ¬p → Yields track walk' c result') :
    Yields track (if p then walk else walk') c (if p then result else result') := by
  by_cases h : p
  · rw [if_pos h, if_pos h]
    exact hpos h
  · rw [if_neg h, if_neg h]
    exact hneg h

theorem Yields.ite_pos (h : p) (hwalk : Yields track walk c result) :
    Yields track (if p then walk else walk') c result := by
  rwa [if_pos h]

theorem Yields.ite_neg (h : ¬p) (hwalk : Yields track walk' c result) :
    Yields track (if p then walk else walk') c result := by
  rwa [if_neg h]

end Choice

end Yields

/--
What a turn of a loop may do: leave the loop with the result that is expected, fail with
it, or read on and leave the rest of it to the next turn.
-/
inductive TurnsTo (track : Track) (turn : σ → Walk (σ ⊕ α)) (valid : σ → Cursor → Prop)
    (result : σ → Cursor → Except ParseError (α × Cursor)) (state : σ) (c : Cursor) : Prop
  | leaves {x : α} {d : Cursor} (hturn : Yields track (turn state) c (.ok (.inr x, d)))
      (hresult : result state c = .ok (x, d)) : TurnsTo track turn valid result state c
  | fails {e : ParseError} (hturn : Yields track (turn state) c (.error e))
      (hresult : result state c = .error e) : TurnsTo track turn valid result state c
  | goesOn {s : σ} {d : Cursor} (hturn : Yields track (turn state) c (.ok (.inl s, d)))
      (hlt : d.rest.length < c.rest.length) (hvalid : valid s d)
      (hresult : result state c = result s d) : TurnsTo track turn valid result state c

/-- A loop whose turns leave it, fail or read on ends, because tokens run out. -/
theorem yields_loop {track : Track} {turn : σ → Walk (σ ⊕ α)} (valid : σ → Cursor → Prop)
    (result : σ → Cursor → Except ParseError (α × Cursor))
    (hturns : ∀ state c, valid state c → TurnsTo track turn valid result state c) (state : σ)
    (c : Cursor) (hvalid : valid state c) : Yields track (loop turn state) c (result state c) := by
  induction hlength : c.rest.length using Nat.strong_induction_on generalizing state c with
  | _ length ih =>
      intro journey hsound hstands
      cases hturns state c hvalid with
      | leaves hturn hresult =>
          obtain ⟨_, journey₁, hrun, hsound₁, rfl, hstands₁⟩ := hturn journey hsound hstands
          refine ⟨_, journey₁, runFrom_loop_leaves hrun, hsound₁, by rw [hresult]; rfl, ?_⟩
          rw [hresult]
          rintro _ _ ⟨⟩
          exact hstands₁ _ _ rfl
      | fails hturn hresult =>
          obtain ⟨_, journey₁, hrun, hsound₁, rfl, -⟩ := hturn journey hsound hstands
          refine ⟨_, journey₁, runFrom_loop_fails hrun, hsound₁, by rw [hresult]; rfl, ?_⟩
          rw [hresult]
          exact fun _ _ hok => nomatch hok
      | goesOn hturn hlt hvalid' hresult =>
          obtain ⟨_, journey₁, hrun, hsound₁, rfl, hstands₁⟩ := hturn journey hsound hstands
          have hstands' := hstands₁ _ _ rfl
          -- Another turn follows, so this one is recorded, and it did read something.
          have hsound' : (journey₁.turn journey.position).Sound track :=
            ⟨hsound₁.visited,
              List.forall_mem_cons.mpr ⟨hstands.lt hstands' hlt, hsound₁.turns⟩⟩
          rw [runFrom_loop_goesOn hrun, hresult]
          exact ih _ (hlength ▸ hlt) _ _ hvalid' rfl _ hsound' hstands'

end Walk

end LinearProgram
