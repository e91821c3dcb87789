import MiniWebSrv.Common.WriteBuffQueueSends

/-! # The arena of a drained queue

`Release` starts over at the beginning of the arena when the buffer it releases ends where the free
bytes begin. This recognises the last buffer as long as the youngest static buffer ends there, and
all but one of the operations see to that: a `Commit` which takes a whole buffer back returns to
where the buffer began, which need not be where the one in front of it ends.
-/

namespace MiniWebSrv.WriteBuffQueue

open Run Word MiniWebSrv.Ring

variable {size : Nat} {q q' : WriteBuffQueue size} {opened : Option (Region WriteBlock)}

/-- Both positions are at the beginning of the arena, so that an allocation finds room in it. -/
def Reclaimed (q : WriteBuffQueue size) : Prop :=
  q.fifoFreeBegin = 0 ∧ q.fifoUsedBegin = 0 ∧
    ∀ length, 0 < length → length < size →
      ∃ q', q.allocate length = (some ⟨.arena, 0⟩, q')

/-- The youngest static buffer ends where the free bytes begin. -/
def Joined (q : WriteBuffQueue size) : Prop :=
  Gapless size q.fifoUsedBegin q.fifoFreeBegin (spans q.outBuffA)

/-- The buffers have their places. The open allocation may have been popped. -/
structure Held (q : WriteBuffQueue size) (opened : Option (Region WriteBlock)) : Prop where
  placed : Placed q
  opened : Opened q opened ∨ Opened q none

structure Tight (q : WriteBuffQueue size) (opened : Option (Region WriteBlock)) : Prop
    extends Held q opened where
  joined : q.Joined

/-- The buffers in front of the next one to pop are being written. -/
def Popped (q : WriteBuffQueue size) : Prop :=
  ∃ ws rest, q.outBuffA = ws ++ rest ∧ q.firstPendingI = ws.length ∧ ∀ b ∈ ws, b.state = .writing

/-- A static buffer which is taken back as a whole begins where the one in front of it ends, or at
    the beginning of the arena when that one ends with it. With none in front of it, it begins at
    the beginning, and nothing has been released since. -/
def Rejoins (q : WriteBuffQueue size) (length : Nat) : Prop :=
  ∀ b ∈ q.outBuffA.getLast?, b.state = .allocated → isStaticBuffer size b = true →
    b.length = q.lastAllocLength → length = 0 →
    Gapless size q.fifoUsedBegin b.buff.off (spans q.outBuffA.dropLast)

theorem reclaimed_iff (drained : q.outBuffA = []) : q.Reclaimed ↔ q.Joined := by
  constructor
  · rintro ⟨free, used, -⟩
    rw [Joined, drained]
    exact ⟨used, free⟩
  · intro joined
    rw [Joined, drained] at joined
    obtain ⟨used, free⟩ := joined
    refine ⟨free, used, ?_⟩
    intro length pos less
    have room : length ≤ size - 1 := Nat.le_sub_one_of_lt less
    have inside : ¬size ≤ length := Nat.not_le_of_lt less
    have static : ({ q with lastAllocLength := length } : WriteBuffQueue size).takeStatic length =
        some (⟨.arena, 0⟩, { q with
          lastAllocLength := length
          fifoFreeBegin := length }) := by
      simp only [takeStatic, getContinousFreeFIFOLength, if_pos less, free, used, le_refl, if_true,
        ne_eq, not_true_eq_false, if_false, Nat.sub_zero, if_pos room, Nat.zero_add, if_neg inside]
    simp only [WriteBuffQueue.allocate, if_neg (Nat.ne_of_gt pos), static]
    simp only [drained, List.getLast?_nil]
    exact ⟨_, rfl⟩

namespace Held

theorem commit (held : Held q opened) (length : Nat) : Held (q.commit length) none := by
  rcases held.opened with open_ | closed
  · obtain ⟨placed, closed⟩ := held.placed.commit open_ length
    exact ⟨placed, Or.inl closed⟩
  · obtain ⟨placed, closed⟩ := held.placed.commit closed length
    exact ⟨placed, Or.inl closed⟩

theorem opened_popped {ret : Buffer} (open_ : Opened q opened) (isOpen : opened ≠ none)
    (last : q.firstPendingI + 1 = q.outBuffA.length)
    (queue' : q'.outBuffA = q.outBuffA.set q.firstPendingI { ret with state := .writing }) :
    Opened q' none := by
  obtain ⟨r, rfl⟩ := Option.ne_none_iff_exists'.mp isOpen
  obtain ⟨front, b, queue, closed, -, -⟩ := open_
  rw [queue, List.length_append, List.length_singleton] at last
  have back : q'.outBuffA = front ++ [{ ret with state := .writing }] := by
    rw [queue', queue, Nat.add_right_cancel last,
      List.set_append_right _ _ (Nat.le_refl _), Nat.sub_self, List.set_cons_zero]
  apply Placed.opened_none closed back
  intro c member
  obtain rfl := List.mem_singleton.mp member
  exact BufferState.noConfusion

theorem pop (held : Held q opened) : Held q.pop.2 opened := by
  cases popped : q.pop with
  | mk range q' =>
      cases range with
      | none =>
          obtain ⟨rfl, -⟩ := pop_none popped
          exact held
      | some range =>
          obtain ⟨ptr, length⟩ := range
          have closed (none_ : Opened q none) : Opened q' none :=
            (held.placed.pop none_ (Or.inl rfl) popped).2.1
          obtain ⟨ret, at_, -, -, same⟩ := pop_inv popped
          refine ⟨same ▸ held.placed.set_writing at_, ?_⟩
          rcases held.opened with open_ | none_
          case inr => exact Or.inr (closed none_)
          by_cases behind : opened = none ∨ q.firstPendingI + 1 ≠ q.outBuffA.length
          · exact Or.inl (held.placed.pop open_ behind popped).2.1
          · obtain ⟨isOpen, last⟩ := not_or.mp behind
            rw [not_not] at last
            exact Or.inr (opened_popped open_ isOpen last (congrArg outBuffA same))

theorem release (held : Held q opened) : Held q.release opened := by
  rcases held.opened with open_ | closed
  · obtain ⟨placed, open_⟩ := held.placed.release open_
    exact ⟨placed, Or.inl open_⟩
  · obtain ⟨placed, closed⟩ := held.placed.release closed
    exact ⟨placed, Or.inr closed⟩

end Held

namespace Tight

/-! ## Allocate -/

theorem allocate_heap {length id : Nat} {ret : WritePtr} (placed : Placed q) (pos : 0 < length)
    (block : ret.block = .heap id) (allocates : Allocates q length ret q') :
    q'.fifoUsedBegin = q.fifoUsedBegin ∧ q'.fifoFreeBegin = q.fifoFreeBegin ∧
      spans q'.outBuffA = spans q.outBuffA := by
  have start : Placed ({ q with lastAllocLength := length } : WriteBuffQueue size) :=
    ⟨placed.layout, placed.owner, placed.known, placed.stored⟩
  cases allocates with
  | appended static =>
      obtain ⟨_, _, arena, _⟩ := takeStatic_some start.layout pos static
      cases arena.symm.trans block
  | pushed static =>
      obtain ⟨_, _, arena, _⟩ := takeStatic_some start.layout pos static
      cases arena.symm.trans block
  | dynamic taken =>
      obtain ⟨_, _, _, _, _, same, -⟩ := start.takeDynamic length
      rw [taken] at same
      cases same
      exact ⟨rfl, rfl, spans_last_heap _ block⟩

theorem allocate {length : Nat} (tight : Tight q none) (pos : 0 < length) :
    ∃ ret q', q.allocate length = (some ret, q') ∧ Tight q' (some ⟨ret, length⟩) := by
  have closed : Opened q none := tight.opened.elim id id
  obtain ⟨ret, q', run, placed, opened⟩ := tight.placed.allocate closed pos
  refine ⟨ret, q', run, ⟨placed, Or.inl opened⟩, ?_⟩
  obtain ⟨front, b, queue, -, ⟨_, _, _, ends, _⟩, region⟩ := opened
  cases block : b.buff.block with
  | arena =>
      rw [Joined, queue, spans_last _ block]
      exact Gapless.concat_iff.mpr (ends _ (span?_of_arena block))
  | heap id =>
      obtain ⟨_, _, same, allocates⟩ := allocate_allocates (q := q) pos
      rw [run] at same
      cases same
      have dynamic : ret.block = .heap id := by
        rw [← block]
        exact congrArg (fun r => r.ptr.block) region
      obtain ⟨used, free, places⟩ := allocate_heap tight.placed pos dynamic allocates
      rw [Joined, used, free, places]
      exact tight.joined

/-! ## Commit -/

theorem popBack_joined {front : List Buffer} {b : Buffer} (placed : Placed q)
    (queue : q.outBuffA = front ++ [b]) (static : isStaticBuffer size b = true)
    (ends : ∀ s, b.span? = some s → EndsAt size q.fifoFreeBegin s) :
    (q.giveBack b.length).popBack.Joined ↔
      Gapless size q.fifoUsedBegin b.buff.off (spans q.outBuffA.dropLast) := by
  have block := arena_of_static static
  have layout := placed.layout
  rw [queue, spans_last _ block] at layout
  have off := layout.youngest_off (ends _ (span?_of_arena block))
  rw [Joined, Placed.popBack_queue (q := q.giveBack _) queue, queue, List.dropLast_concat]
  simp only [popBack, giveBack, off]

theorem commit (tight : Tight q opened) {length : Nat} (rejoins : q.Rejoins length) :
    Tight (q.commit length) none := by
  refine ⟨tight.toHeld.commit length, ?_⟩
  rcases tight.opened with open_ | closed
  case inr =>
    rw [Placed.commit_closed closed]
    exact tight.joined
  cases opened with
  | none =>
      rw [Placed.commit_closed open_]
      exact tight.joined
  | some r =>
  obtain ⟨front, b, queue, -, ⟨state, pos, le, ends, -⟩, -⟩ := open_
  have last : q.outBuffA.getLast? = some b := by
    rw [queue, List.getLast?_concat]
  have layout := tight.placed.layout
  have gapless : Gapless size q.fifoUsedBegin q.fifoFreeBegin (spans q.outBuffA) := tight.joined
  rw [queue] at layout gapless
  have member : b ∈ q.outBuffA := by
    rw [queue]
    exact List.mem_concat_self
  have commits := commit_commits last state length
  generalize q.commit length = q' at commits
  cases commits with
  | kept =>
      rw [Joined, Placed.setBack_queue queue, spans_append]
      rw [spans_append] at gapless
      exact gapless
  | shrunk less static left =>
      have block := arena_of_static static
      rw [spans_last _ block] at layout gapless
      rw [Joined, Placed.setBack_queue (q := q.giveBack _) queue,
        spans_last _ (b := ⟨b.buff, b.length - (q.lastAllocLength - length), _, _⟩) block]
      exact gapless.shrink layout left
  | dropped less static nothing =>
      have whole : q.lastAllocLength - length = b.length := by omega
      rw [whole]
      exact (popBack_joined tight.placed queue static ends).mpr
        (rejoins b last state static (by omega) (by omega))
  | cut less dynamic left =>
      obtain ⟨id, block⟩ := tight.placed.heap_of_dynamic member dynamic
      rw [spans_last_heap _ block] at gapless
      rw [Joined, Placed.setBack_queue queue, spans_last_heap _ (b := ⟨b.buff, length, _, _⟩) block]
      exact gapless
  | stored less dynamic nothing =>
      obtain ⟨id, block⟩ := tight.placed.heap_of_dynamic member dynamic
      rw [spans_last_heap _ block] at gapless
      simp only [Joined, Placed.popBack_queue queue]
      exact gapless

theorem rejoins {length : Nat} (tight : Tight q opened) (joined : (q.commit length).Joined) :
    q.Rejoins length := by
  intro b last state static whole nothing
  rcases tight.opened with open_ | closed
  case inr => exact absurd state (closed b (List.mem_of_getLast? last))
  cases opened with
  | none => exact absurd state (open_ b (List.mem_of_getLast? last))
  | some r =>
  obtain ⟨front, c, queue, -, ⟨-, pos, -, ends, -⟩, -⟩ := open_
  have same : c = b := by
    rw [queue, List.getLast?_concat] at last
    exact Option.some.inj last
  subst same
  have committed : q.commit length = (q.giveBack c.length).popBack := by
    have commits := commit_commits last state length
    generalize q.commit length = q' at commits
    cases commits with
    | kept enough => omega
    | shrunk less static left => omega
    | dropped => rw [nothing, Nat.sub_zero, whole]
    | cut less dynamic => cases static.symm.trans dynamic
    | stored less dynamic => cases static.symm.trans dynamic
  rw [committed] at joined
  exact (popBack_joined tight.placed queue static ends).mp joined

/-! ## Pop and Release -/

theorem pop_joined : q.pop.2.Joined ↔ q.Joined := by
  cases popped : q.pop with
  | mk range q' =>
      cases range with
      | none =>
          obtain ⟨rfl, -⟩ := pop_none popped
          exact Iff.rfl
      | some range =>
          obtain ⟨ret, at_, -, -, rfl⟩ := pop_inv popped
          simp only [Joined, Placed.spans_set_writing at_]

theorem release_joined (placed : Placed q) : q.release.Joined ↔ q.Joined := by
  rcases release_cases q with ⟨same, -⟩ | ⟨curr, rest, queue, -, releases⟩
  · rw [same]
  have member : curr ∈ q.outBuffA := by
    rw [queue]
    exact List.mem_cons_self
  have layout := placed.layout
  rw [queue] at layout
  generalize q.release = q' at releases
  rw [Joined, Joined, queue]
  cases releases with
  | restarted static met =>
      rw [spans_cons _ (arena_of_static static)] at layout ⊢
      have joined := Gapless.of_released layout met
      have released := layout.release
      rw [met] at released
      rw [released.restart] at joined ⊢
      exact iff_of_true Gapless.empty joined
  | passed static apart =>
      rw [spans_cons _ (arena_of_static static)] at layout ⊢
      exact Gapless.tail_iff layout apart
  | stored dynamic =>
      obtain ⟨id, block⟩ := placed.heap_of_dynamic member dynamic
      rw [spans_cons_heap _ block]

theorem pop (tight : Tight q opened) : Tight q.pop.2 opened :=
  ⟨tight.toHeld.pop, pop_joined.mpr tight.joined⟩

theorem release (tight : Tight q opened) : Tight q.release opened :=
  ⟨tight.toHeld.release, (release_joined tight.placed).mpr tight.joined⟩

/-- A queue without buffers is at the beginning of its arena. -/
theorem reclaimed (tight : Tight q opened) (drained : q.outBuffA = []) : q.Reclaimed :=
  (reclaimed_iff drained).mpr tight.joined

end Tight

/-! ## The index of the next buffer -/

namespace Popped

/-- The buffers behind the index are no matter. -/
theorem push (popped : Popped q) {bs : List Buffer} (queue : q'.outBuffA = q.outBuffA ++ bs)
    (first : q'.firstPendingI = q.firstPendingI) : Popped q' := by
  obtain ⟨ws, rest, split, index, writing⟩ := popped
  refine ⟨ws, rest ++ bs, ?_, first.trans index, writing⟩
  rw [queue, split, List.append_assoc]

/-- A buffer which is not being written is behind the index. -/
theorem back {front bs : List Buffer} {b : Buffer} (popped : Popped q)
    (split : q.outBuffA = front ++ [b]) (state : b.state ≠ .writing)
    (queue : q'.outBuffA = front ++ bs) (first : q'.firstPendingI = q.firstPendingI) :
    Popped q' := by
  obtain ⟨ws, rest, split', index, writing⟩ := popped
  rcases List.eq_nil_or_concat' rest with rfl | ⟨rest, c, rfl⟩
  · rw [List.append_nil] at split'
    have member : b ∈ ws := by
      rw [← split', split]
      exact List.mem_concat_self
    exact absurd (writing b member) state
  · rw [split, ← List.append_assoc] at split'
    obtain ⟨rfl, -⟩ := List.append_inj' split' rfl
    refine ⟨ws, rest ++ bs, ?_, first.trans index, writing⟩
    rw [queue, List.append_assoc]

theorem allocate {length : Nat} {ret : WritePtr} (popped : Popped q) (placed : Placed q)
    (pos : 0 < length) (allocates : Allocates q length ret q') : Popped q' := by
  have start : Placed ({ q with lastAllocLength := length } : WriteBuffQueue size) :=
    ⟨placed.layout, placed.owner, placed.known, placed.stored⟩
  cases allocates with
  | pushed static =>
      obtain ⟨_, rfl, -⟩ := takeStatic_some start.layout pos static
      exact popped.push rfl rfl
  | dynamic taken =>
      obtain ⟨_, _, _, _, _, same, -⟩ := start.takeDynamic length
      rw [taken] at same
      cases same
      exact popped.push rfl rfl
  | @appended _ last static found pending arena adjacent =>
      obtain ⟨_, rfl, -⟩ := takeStatic_some start.layout pos static
      have split : q.outBuffA = q.outBuffA.dropLast ++ [last] :=
        (List.dropLast_append_getLast? last found).symm
      have state : last.state ≠ .writing := by
        rw [pending]
        exact BufferState.noConfusion
      exact popped.back split state rfl rfl

theorem commit (popped : Popped q) (length : Nat) : Popped (q.commit length) := by
  by_cases open_ : ∃ b, q.outBuffA.getLast? = some b ∧ b.state = .allocated
  · obtain ⟨b, last, state⟩ := open_
    have split : q.outBuffA = q.outBuffA.dropLast ++ [b] :=
      (List.dropLast_append_getLast? b last).symm
    have notWriting : b.state ≠ .writing := by
      rw [state]
      exact BufferState.noConfusion
    have commits := commit_commits last state length
    generalize q.commit length = q' at commits
    cases commits with
    | kept => exact popped.back split notWriting rfl rfl
    | shrunk => exact popped.back split notWriting rfl rfl
    | dropped => exact popped.back split notWriting (List.append_nil _).symm rfl
    | cut => exact popped.back split notWriting rfl rfl
    | stored => exact popped.back split notWriting (List.append_nil _).symm rfl
  · have same : q.commit length = q := by
      unfold WriteBuffQueue.commit
      split
      · rfl
      · rename_i b last
        rw [if_neg fun state => open_ ⟨b, last, state⟩]
    rw [same]
    exact popped

theorem pop (popped : Popped q) : Popped q.pop.2 := by
  cases run : q.pop with
  | mk range q' =>
      cases range with
      | none =>
          obtain ⟨rfl, -⟩ := pop_none run
          exact popped
      | some range =>
          obtain ⟨ret, at_, -, -, rfl⟩ := pop_inv run
          obtain ⟨ws, rest, split, index, writing⟩ := popped
          rw [split, index, List.getElem?_append_right (Nat.le_refl _), Nat.sub_self] at at_
          cases rest with
          | nil => cases at_
          | cons b rest =>
              obtain rfl := Option.some.inj at_
              refine ⟨ws ++ [{ b with state := .writing }], rest, ?_, ?_, ?_⟩
              · simp only [split, index, List.set_append_right _ _ (Nat.le_refl _), Nat.sub_self,
                  List.set_cons_zero, List.append_assoc, List.singleton_append]
              · simp only [index, List.length_append, List.length_singleton]
              · intro c member
                rcases List.mem_append.mp member with member | member
                · exact writing c member
                · obtain rfl := List.mem_singleton.mp member
                  rfl

theorem release (popped : Popped q) : Popped q.release := by
  rcases release_cases q with ⟨same, -⟩ | ⟨curr, bs, queue, -, releases⟩
  · rw [same]
    exact popped
  obtain ⟨left, first⟩ := releases.queue
  obtain ⟨ws, rest, split, index, writing⟩ := popped
  rw [queue] at split
  cases ws with
  | nil =>
      refine ⟨[], bs, left, ?_, fun b member => absurd member List.not_mem_nil⟩
      rw [first, index, List.length_nil]
  | cons w ws =>
      obtain ⟨rfl, rfl⟩ := List.cons.inj split
      refine ⟨ws, rest, left, ?_, fun b member => writing b (List.mem_cons_of_mem _ member)⟩
      rw [first, index, List.length_cons, Nat.add_sub_cancel]

theorem release_popped {b : Buffer} {bs : List Buffer} (popped : Popped q) (all : q.unpopped = 0)
    (queue : q.outBuffA = b :: bs) : q.release.outBuffA = bs ∧ q.release.unpopped = 0 := by
  obtain ⟨ws, rest, split, index, writing⟩ := popped
  rw [unpopped, index] at all
  rw [queue] at split all
  cases ws with
  | nil =>
      rw [List.length_nil, List.length_cons] at all
      omega
  | cons w ws =>
      obtain ⟨rfl, -⟩ := List.cons.inj split
      obtain ⟨left, first⟩ := (release_releases queue (writing b List.mem_cons_self)).queue
      refine ⟨left, ?_⟩
      rw [unpopped, left, first, index, List.length_cons, Nat.add_sub_cancel]
      simpa only [List.length_cons, Nat.add_sub_add_right] using all

end Popped

/-! ## A queue in use -/

namespace Usage

variable {s t : Usage size}

def Rejoins (s : Usage size) : Use → Prop
  | .commit length => s.queue.Rejoins length
  | _ => True

instance (s : Usage size) (c : Use) : Decidable (s.Rejoins c) :=
  match c with
  | .commit _ => inferInstanceAs (Decidable (∀ b ∈ s.queue.outBuffA.getLast?, _))
  | .allocate _ => .isTrue trivial
  | .pop => .isTrue trivial
  | .release => .isTrue trivial

theorem step_pop (s : Usage size) : ∃ sent, s.step .pop = some ⟨s.queue.pop.2, s.opened, sent⟩ := by
  cases popped : s.queue.pop with
  | mk range q =>
      cases range with
      | none =>
          refine ⟨s.sent, ?_⟩
          simp only [step, popped]
      | some range =>
          refine ⟨s.sent ++ [(⟨range.1, range.2⟩, s.opened)], ?_⟩
          simp only [step, popped]

theorem step_tight (s : Usage size) (c : Use) (t : Usage size) (tight : Tight s.queue s.opened)
    (rejoins : s.Rejoins c) (taken : s.step c = some t) : Tight t.queue t.opened := by
  cases c with
  | allocate length =>
      obtain ⟨free, taken⟩ := Option.ite_none_right_eq_some.mp taken
      rw [Option.isNone_iff_eq_none] at free
      rw [free] at tight
      rcases Nat.eq_zero_or_pos length with rfl | pos
      · simp only [WriteBuffQueue.allocate, if_true, Option.some.injEq] at taken
        subst taken
        exact free ▸ tight
      · obtain ⟨ret, q, run, tight⟩ := tight.allocate pos
        simp only [run, Option.some.injEq] at taken
        subst taken
        exact tight
  | commit length =>
      cases taken
      exact tight.commit rejoins
  | pop =>
      obtain ⟨sent, run⟩ := s.step_pop
      cases run.symm.trans taken
      exact tight.pop
  | release =>
      cases taken
      exact tight.release

theorem step_popped (s : Usage size) (c : Use) (t : Usage size) (tight : Tight s.queue s.opened)
    (popped : s.queue.Popped) (taken : s.step c = some t) : t.queue.Popped := by
  cases c with
  | allocate length =>
      obtain ⟨-, taken⟩ := Option.ite_none_right_eq_some.mp taken
      rcases Nat.eq_zero_or_pos length with rfl | pos
      · simp only [WriteBuffQueue.allocate, if_true, Option.some.injEq] at taken
        subst taken
        exact popped
      · obtain ⟨ret, q, run, allocates⟩ := allocate_allocates (q := s.queue) pos
        simp only [run, Option.some.injEq] at taken
        subst taken
        exact popped.allocate tight.placed pos allocates
  | commit length =>
      cases taken
      exact popped.commit length
  | pop =>
      obtain ⟨sent, run⟩ := s.step_pop
      cases run.symm.trans taken
      exact popped.pop
  | release =>
      cases taken
      exact popped.release

theorem start_tight (pos : 0 < size) (empty : Empty q) : Tight (start q).queue (start q).opened := by
  have sound := start_sound pos empty
  refine ⟨⟨sound.placed, Or.inl sound.opened⟩, ?_⟩
  simp only [Joined, start, empty.queue, empty.used, empty.free]
  exact Gapless.empty

/-- As long as every buffer which is taken back as a whole begins where the one in front of it ends,
    a `Release` which leaves no buffer leaves the whole arena. -/
theorem arena_reclaimed (pos : 0 < size) (empty : Empty q) {uses : List Use}
    (run : exec step (start q) uses = some s) (along : Along step Rejoins (start q) uses)
    (drained : s.queue.release.outBuffA = []) : s.queue.release.Reclaimed := by
  have tight : Tight s.queue s.opened :=
    along.invariant (P := fun s => Tight s.queue s.opened) step_tight (start_tight pos empty) run
  exact tight.release.reclaimed drained

/-- An allocation at the beginning of the arena, behind one at its end, is taken back first. -/
def rejoiningUses : List Use :=
  [.allocate 4, .commit max32, .pop, .allocate 4, .commit 0, .allocate 3, .commit 2, .pop, .release]

theorem arena_reclaimed_rejoining :
    ∃ s, exec step (start (init 8)) rejoiningUses = some s ∧ s.queue.release.Reclaimed := by
  obtain ⟨s, run⟩ : ∃ s, exec step (start (init 8)) rejoiningUses = some s :=
    Option.isSome_iff_exists.mp (by decide)
  have drained : (exec step (start (init 8)) rejoiningUses).map (fun s => s.queue.release.outBuffA) =
      some [] := by
    decide
  rw [run] at drained
  exact ⟨s, run, arena_reclaimed (by decide) (empty_init 8) run (by decide) (Option.some.inj drained)⟩

/-- An allocation which has wrapped around is taken back. The positions do not meet again. -/
theorem arena_stranded :
    ¬∀ (size : Nat) (q : WriteBuffQueue size) (uses : List Use) (s : Usage size), 0 < size →
      Empty q → exec step (start q) uses = some s → s.queue.release.outBuffA = [] →
      s.queue.release.Reclaimed := by
  intro all
  let uses : List Use := [.allocate 4, .commit 4, .pop, .allocate 3, .commit 3, .pop, .release,
    .allocate 2, .commit 0]
  obtain ⟨s, run⟩ : ∃ s, exec step (start (init 8)) uses = some s :=
    Option.isSome_iff_exists.mp (by decide)
  have left : (exec step (start (init 8)) uses).map
      (fun s => (s.queue.release.outBuffA, s.queue.release.fifoUsedBegin)) = some ([], 7) := by
    decide
  rw [run] at left
  obtain ⟨drained, used⟩ := Prod.mk.inj (Option.some.inj left)
  have reclaimed := all 8 (init 8) uses s (by decide) (empty_init 8) run drained
  cases used.symm.trans reclaimed.2.1

/-! ### The condition is needed -/

/-- The calls which only take buffers out of the queue. -/
def GivesBack (_ : Usage size) : Use → Prop
  | .pop => True
  | .release => True
  | _ => False

/-- However the queue is emptied, the whole arena is left. -/
def Drains (s : Usage size) : Prop :=
  ∀ uses t, Along step GivesBack s uses → exec step s uses = some t →
    t.queue.release.outBuffA = [] → t.queue.release.Reclaimed

theorem givesBack_joined {joined : Prop} (s : Usage size) (c : Use) (t : Usage size)
    (holds : Held s.queue s.opened ∧ (s.queue.Joined ↔ joined)) (gives : s.GivesBack c)
    (taken : s.step c = some t) : Held t.queue t.opened ∧ (t.queue.Joined ↔ joined) := by
  obtain ⟨held, iff⟩ := holds
  cases c with
  | allocate length => cases gives
  | commit length => cases gives
  | pop =>
      obtain ⟨sent, run⟩ := s.step_pop
      cases run.symm.trans taken
      exact ⟨held.pop, Tight.pop_joined.trans iff⟩
  | release =>
      cases taken
      exact ⟨held.release, (Tight.release_joined held.placed).trans iff⟩

/-- Buffers which have all been popped can be released one after the other. -/
theorem released (popped : s.queue.Popped) (all : s.queue.unpopped = 0) :
    ∃ uses t, Along step GivesBack s uses ∧ exec step s uses = some t ∧ t.queue.outBuffA = [] := by
  cases queue : s.queue.outBuffA with
  | nil => exact ⟨[], s, trivial, rfl, queue⟩
  | cons b bs =>
      induction bs generalizing s b with
      | nil =>
          obtain ⟨left, -⟩ := popped.release_popped all queue
          exact ⟨[.release], _, ⟨trivial, fun _ _ => trivial⟩, rfl, left⟩
      | cons c bs ih =>
          obtain ⟨left, all⟩ := popped.release_popped all queue
          obtain ⟨uses, t, along, run, nothing⟩ :=
            ih (s := { s with queue := s.queue.release }) popped.release all c left
          refine ⟨.release :: uses, t, ⟨trivial, ?_⟩, exec_cons_some.mpr ⟨_, rfl, run⟩, nothing⟩
          exact (next_iff rfl).mpr along

theorem emptied {n : Nat} (popped : s.queue.Popped) (count : s.queue.unpopped = n) :
    ∃ uses t, Along step GivesBack s uses ∧ exec step s uses = some t ∧ t.queue.outBuffA = [] := by
  induction n generalizing s with
  | zero => exact released popped count
  | succ n ih =>
      obtain ⟨sent, pop⟩ := s.step_pop
      have fewer : s.queue.pop.2.unpopped = n := by
        cases run : s.queue.pop with
        | mk range q =>
            cases range with
            | none =>
                have := (pop_none run).2
                omega
            | some range =>
                have := pop_some run
                simp only
                omega
      obtain ⟨uses, t, along, run, nothing⟩ :=
        ih (s := ⟨s.queue.pop.2, s.opened, sent⟩) popped.pop fewer
      refine ⟨.pop :: uses, t, ⟨trivial, ?_⟩, exec_cons_some.mpr ⟨_, pop, run⟩, nothing⟩
      exact (next_iff pop).mpr along

theorem drains_iff_joined (held : Held s.queue s.opened) (popped : s.queue.Popped) :
    s.Drains ↔ s.queue.Joined := by
  constructor
  · intro drains
    obtain ⟨uses, t, along, run, nothing⟩ := emptied popped rfl
    obtain ⟨held, iff⟩ := along.invariant givesBack_joined ⟨held, Iff.rfl⟩ run
    have drained : t.queue.release.outBuffA = [] := by
      simp only [WriteBuffQueue.release, nothing]
    have joined := (reclaimed_iff drained).mp (drains uses t along run drained)
    exact iff.mp ((Tight.release_joined held.placed).mp joined)
  · intro joined uses t along run drained
    obtain ⟨held, iff⟩ := along.invariant givesBack_joined ⟨held, Iff.rfl⟩ run
    exact Tight.reclaimed (Tight.release ⟨held, iff.mpr joined⟩) drained

/-- From every state of a run the queue empties to the beginning of the arena exactly if all the
    commits of the run meet the condition. -/
theorem drains_iff (pos : 0 < size) (empty : Empty q) {uses : List Use}
    (run : exec step (start q) uses = some s) :
    Always step Drains (start q) uses ↔ Along step Rejoins (start q) uses := by
  have first : (start q).queue.Popped := ⟨[], q.outBuffA, rfl, empty.first, by simp⟩
  refine always_iff_along (I := fun s => Tight s.queue s.opened ∧ s.queue.Popped) ?_ ?_ ?_
    ⟨start_tight pos empty, first⟩ run
  · rintro s ⟨tight, popped⟩
    exact (drains_iff_joined tight.toHeld popped).mpr tight.joined
  · rintro s c t ⟨tight, popped⟩ rejoins taken
    exact ⟨step_tight s c t tight rejoins taken, step_popped s c t tight popped taken⟩
  · rintro s c t ⟨tight, popped⟩ taken drains
    cases c with
    | allocate length => trivial
    | pop => trivial
    | release => trivial
    | commit length =>
        cases taken
        exact tight.rejoins
          ((drains_iff_joined (tight.toHeld.commit length) (popped.commit length)).mp drains)

end Usage

end MiniWebSrv.WriteBuffQueue
