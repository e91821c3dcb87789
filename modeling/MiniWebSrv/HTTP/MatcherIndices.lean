import MiniWebSrv.HTTP.UploadProtocol

/-! # The indices of the multipart matcher

`AppendFormMultipart` compares the bytes of a body with `BoundaryStr[BoundaryParseCounter]`, and
`AppendToCurrentPart` compares them with `"\r\n\r\n"[FMParseCounter]`. The comparisons of a whole
body are taken from its log, in their order. Those with the boundary are in range, and those with the
literal are so as long as no part goes on behind a header block which gives it no name.
-/

namespace MiniWebSrv.HTTP

open Run Word

/-! ## The comparisons -/

inductive Comparison where
  | boundaryStr (index : Nat)
  | headersEndMark (index : Nat)
  deriving DecidableEq, Repr

/-- Inside a boundary string of that length, or inside the four bytes of the literal. -/
def Comparison.InRange (length : Nat) : Comparison → Prop
  | .boundaryStr index => index < length
  | .headersEndMark index => index ≤ 3

def PartEvent.comparison : PartEvent → Option Comparison
  | .compared index => some (.headersEndMark index)
  | _ => none

/-- The comparisons of the matcher, and those which the reader makes in what is handed over. -/
def PartReader.comparisons (r : PartReader) : List HandOver → List Comparison
  | [] => []
  | .compared index :: rest => .boundaryStr index :: r.comparisons rest
  | .piece bytes :: rest =>
      (r.take (.piece bytes)).2.filterMap PartEvent.comparison ++
        (r.take (.piece bytes)).1.comparisons rest
  | .newPart :: rest => (r.take .newPart).1.comparisons rest

/-- The comparisons of a body in pieces. -/
def QueryParams.bodyComparisons {H : Type} [FileUploadHelper H] (q : QueryParams H) :
    List (List Byte) → List Comparison
  | [] => []
  | bytes :: rest =>
      q.partReader.comparisons (q.matcher.handOver q.boundaryStr bytes).2 ++
        (q.appendFormMultipart bytes).bodyComparisons rest

/-! ## Header blocks without a name -/

/-- A header block has ended, and there is no name in it. -/
def PartEvent.unnamed : PartEvent → Bool
  | .headers block => decide ((QueryParams.partHeaders block).disposition.name = [])
  | _ => false

/-- One entry more of the matcher's log goes to the reader, which is told with it whether the header
    block of the part has ended without a name. Nothing may come behind such a block but the next
    part. -/
def PartReader.takeNamed : PartReader × Bool → HandOver → Option (PartReader × Bool)
  | (r, unnamed), .compared _ => some (r, unnamed)
  | (r, _), .newPart => some ((r.take .newPart).1, false)
  | (r, unnamed), .piece bytes =>
      if bytes = [] then some (r, unnamed)
      else if unnamed then none
      else some ((r.take (.piece bytes)).1, (r.take (.piece bytes)).2.any PartEvent.unnamed)

/-- What is handed over of the pieces of a body has nothing behind a header block without a name,
    up to the next delimiter. -/
def UnnamedPartsEmpty (boundary : List Byte) (fmParseCounter : Nat) (pieces : List (List Byte)) :
    Prop :=
  (exec PartReader.takeNamed (⟨.headerStart, fmParseCounter, []⟩, false)
    (Matcher.handOvers (delimiter boundary) ⟨2, []⟩ pieces).2).isSome = true

instance (boundary : List Byte) (fmParseCounter : Nat) (pieces : List (List Byte)) :
    Decidable (UnnamedPartsEmpty boundary fmParseCounter pieces) :=
  inferInstanceAs (Decidable (_ = _))

/-! ## The reader's indices -/

namespace PartReader

variable {r : PartReader} {length : Nat}

/-- Behind a header block without a name `FMParseCounter` is left at the end of the literal, and
    before the end of the block it is inside of it. -/
def Counts (r : PartReader) (unnamed : Bool) : Prop :=
  if unnamed = true then r.state = .headersEnd ∧ r.counter = 4
  else r.state = .headersEnd → r.counter ≤ 3

/-- The comparisons of some events are in range. -/
def Compares (length : Nat) (events : List PartEvent) : Prop :=
  ∀ c ∈ events.filterMap PartEvent.comparison, c.InRange length

theorem compares_nil : Compares length [] := List.forall_mem_nil _

theorem compares_cons {index : Nat} {rest : List PartEvent} :
    Compares length (.compared index :: rest) ↔ index ≤ 3 ∧ Compares length rest :=
  List.forall_mem_cons

theorem compares_other {e : PartEvent} {rest : List PartEvent} (other : e.comparison = none) :
    Compares length (e :: rest) ↔ Compares length rest := by
  rw [Compares, List.filterMap_cons_none other]
  rfl

theorem read_counts (counts : r.Counts false) (orig bytes : List Byte) :
    Compares length (r.read orig bytes).2 ∧
      (r.read orig bytes).1.Counts ((r.read orig bytes).2.any PartEvent.unnamed) := by
  fun_induction PartReader.read r orig bytes with
  | case1 r orig state => exact ⟨(compares_other rfl).mpr compares_nil, counts⟩
  | case2 r orig state => exact ⟨compares_nil, counts⟩
  | case3 r orig notRead notHeaders => exact ⟨compares_nil, counts⟩
  | case4 r orig c rest state => exact ⟨(compares_other rfl).mpr compares_nil, counts⟩
  | case5 r orig c rest state first opens ih =>
      exact ih fun headers => FMParseState.noConfusion (state.symm.trans headers)
  | case6 r orig c rest state first opens => exact ⟨compares_nil, counts⟩
  | case7 r orig rest state later second ih => exact ih fun _ => Nat.zero_le 3
  | case8 r orig rest state later second noLF ih =>
      obtain ⟨compares, next⟩ := ih FMParseState.noConfusion
      exact ⟨(compares_other rfl).mpr compares, next⟩
  | case9 r orig c rest state later second noLF noDash => exact ⟨compares_nil, counts⟩
  | case10 r orig c rest state later third ih => exact ih counts
  | case11 r orig c rest =>
      rename_i state matches_ last headers named
      have said : [PartEvent.compared r.counter, .headers headers, .content rest].any
          PartEvent.unnamed = false := by
        simp only [List.any_cons, List.any_nil, PartEvent.unnamed, decide_eq_false named,
          Bool.or_false]
      rw [said]
      refine ⟨compares_cons.mpr ⟨counts state, ?_⟩, FMParseState.noConfusion⟩
      exact (compares_other rfl).mpr ((compares_other rfl).mpr compares_nil)
  | case12 r orig c rest =>
      rename_i state matches_ last headers unnamed
      have said : [PartEvent.compared r.counter, .headers headers].any PartEvent.unnamed = true := by
        simp only [List.any_cons, List.any_nil, PartEvent.unnamed,
          decide_eq_true (not_not.mp unnamed), Bool.true_or, Bool.false_or]
      rw [said]
      exact ⟨compares_cons.mpr ⟨counts state, (compares_other rfl).mpr compares_nil⟩, state, rfl⟩
  | case13 r orig c rest state matches_ more ih =>
      have early := counts state
      obtain ⟨compares, next⟩ := ih fun _ =>
        Nat.lt_of_le_of_ne early fun three => more (congrArg (· + 1) three)
      exact ⟨compares_cons.mpr ⟨early, compares⟩, next⟩
  | case14 r orig c rest state differs ih =>
      obtain ⟨compares, next⟩ := ih fun _ => Nat.zero_le 3
      exact ⟨compares_cons.mpr ⟨counts state, compares⟩, next⟩
  | case15 r orig c rest state => exact ⟨(compares_other rfl).mpr compares_nil, counts⟩

theorem take_counts (length : Nat) (counts : r.Counts false) (bytes : List Byte) :
    Compares length (r.take (.piece bytes)).2 ∧
      (r.take (.piece bytes)).1.Counts ((r.take (.piece bytes)).2.any PartEvent.unnamed) := by
  rw [take]
  split
  · exact ⟨compares_nil, counts⟩
  · exact read_counts counts [] bytes

/-- The first byte behind a header block without a name is compared with what is behind the
    literal. -/
theorem unnamed_out_of_range (counts : r.Counts true) {bytes : List Byte} (some_ : bytes ≠ []) :
    ¬Compares length (r.take (.piece bytes)).2 := by
  obtain ⟨state, counter⟩ := counts
  have notFinished : ¬(bytes = [] ∨ r.state = .finished) := by
    rw [state]
    exact not_or.mpr ⟨some_, FMParseState.noConfusion⟩
  rw [take, if_neg notFinished]
  cases bytes with
  | nil => exact absurd rfl some_
  | cons c rest =>
      have more : r.counter + 1 ≠ 4 := by omega
      have first : ∃ later, (r.read [] (c :: rest)).2 = .compared r.counter :: later := by
        simp only [read, state, if_neg more]
        split
        · exact ⟨_, rfl⟩
        · exact ⟨_, rfl⟩
      obtain ⟨later, first⟩ := first
      intro compares
      rw [first] at compares
      have inRange := (compares_cons.mp compares).1
      omega

/-- The comparisons of the matcher are in range. -/
def Inside (length : Nat) (handOver : HandOver) : Prop :=
  ∀ index, handOver = .compared index → index < length

theorem comparisons_iff {unnamed : Bool} (counts : r.Counts unnamed) {handOvers : List HandOver}
    (inside : ∀ handOver ∈ handOvers, Inside length handOver) :
    (∀ c ∈ r.comparisons handOvers, c.InRange length) ↔
      (exec takeNamed (r, unnamed) handOvers).isSome = true := by
  induction handOvers generalizing r unnamed with
  | nil => exact iff_of_true (List.forall_mem_nil _) rfl
  | cons handOver rest ih =>
      obtain ⟨here, later⟩ := List.forall_mem_cons.mp inside
      rw [exec_cons]
      cases handOver with
      | compared index =>
          rw [comparisons, List.forall_mem_cons]
          exact (and_iff_right (here index rfl)).trans (ih counts later)
      | newPart =>
          exact @ih (r.take .newPart).1 false FMParseState.noConfusion later
      | piece bytes =>
          rw [comparisons, List.forall_mem_append]
          by_cases nothing : bytes = []
          · have next := ih counts later
            rw [takeNamed, if_pos nothing, take, if_pos (Or.inl nothing)]
            exact (and_iff_right compares_nil).trans next
          rw [takeNamed, if_neg nothing]
          cases unnamed with
          | true =>
              exact iff_of_false (fun both => unnamed_out_of_range counts nothing both.1)
                Bool.false_ne_true
          | false =>
              obtain ⟨compares, next⟩ := take_counts length counts bytes
              exact (and_iff_right compares).trans (ih next later)

theorem comparisons_append (r : PartReader) (left right : List HandOver) :
    r.comparisons (left ++ right) =
      r.comparisons left ++ (r.takeAll left).1.comparisons right := by
  induction left generalizing r with
  | nil => rfl
  | cons handOver rest ih =>
      rw [List.cons_append]
      cases handOver with
      | compared index =>
          rw [comparisons, comparisons, ih]
          rfl
      | newPart =>
          rw [comparisons, comparisons, ih]
          rfl
      | piece bytes =>
          rw [comparisons, comparisons, ih, List.append_assoc]
          rfl

end PartReader

/-! ## The matcher's indices -/

namespace Matcher

open PartReader (Inside)

variable {d : List Byte} {m : Matcher}

theorem inside_piece (length : Nat) (bytes : List Byte) : Inside length (.piece bytes) :=
  fun _ same => HandOver.noConfusion same

theorem inside_newPart (length : Nat) : Inside length .newPart :=
  fun _ same => HandOver.noConfusion same

theorem onFullMatch_inside (length pos : Nat) (content : List Byte) :
    ∀ handOver ∈ m.onFullMatch pos content, Inside length handOver := by
  have onePart := List.forall_mem_singleton.mpr (inside_newPart length)
  unfold onFullMatch
  split
  · split
    · exact List.forall_mem_cons.mpr ⟨inside_piece _ _, onePart⟩
    · exact onePart
  split
  · exact List.forall_mem_cons.mpr ⟨inside_piece _ _, onePart⟩
  · exact onePart

theorem onMatchBroken_inside (length : Nat) (content : List Byte) :
    ∀ handOver ∈ m.onMatchBroken content, Inside length handOver := by
  have onePiece := List.forall_mem_singleton.mpr (inside_piece length content)
  unfold onMatchBroken
  split
  · exact List.forall_mem_cons.mpr ⟨inside_piece _ _, onePiece⟩
  · exact onePiece

theorem run_inside (long : 1 < d.length) (inside : m.counter < d.length) (pos : Nat)
    (content bytes : List Byte) : (m.run d pos content bytes).1.1.counter < d.length ∧
      ∀ handOver ∈ (m.run d pos content bytes).2, Inside d.length handOver := by
  have compared : ∀ {m : Matcher}, m.counter < d.length →
      Inside d.length (.compared m.counter) := fun inside _ same => HandOver.compared.inj same ▸ inside
  fun_induction Matcher.run d m pos content bytes with
  | case1 => exact ⟨inside, List.forall_mem_nil _⟩
  | case2 m pos content rest none_ ih => exact ih long
  | case3 m pos content c rest none_ noCR ih => exact ih inside
  | case4 m pos content c rest some_ matches_ next whole ih =>
      obtain ⟨counter, later⟩ := ih (Nat.zero_lt_of_lt long)
      refine ⟨counter, List.forall_mem_append.mpr ⟨?_, later⟩⟩
      exact List.forall_mem_cons.mpr ⟨compared inside, onFullMatch_inside _ _ _⟩
  | case5 m pos content c rest some_ matches_ next more ih =>
      obtain ⟨counter, later⟩ := ih (Nat.lt_of_le_of_ne ((Nat.mod_le _ _).trans inside) more)
      exact ⟨counter, List.forall_mem_cons.mpr ⟨compared inside, later⟩⟩
  | case6 m pos content rest some_ differs ih =>
      obtain ⟨counter, later⟩ := ih long
      refine ⟨counter, List.forall_mem_append.mpr ⟨?_, later⟩⟩
      exact List.forall_mem_cons.mpr ⟨compared inside, onMatchBroken_inside _ _⟩
  | case7 m pos content c rest some_ differs noCR ih =>
      obtain ⟨counter, later⟩ := ih (Nat.zero_lt_of_lt long)
      refine ⟨counter, List.forall_mem_append.mpr ⟨?_, later⟩⟩
      exact List.forall_mem_cons.mpr ⟨compared inside, onMatchBroken_inside _ _⟩

theorem handOver_inside (long : 1 < d.length) (inside : m.counter < d.length) (bytes : List Byte) :
    (m.handOver d bytes).1.counter < d.length ∧
      ∀ handOver ∈ (m.handOver d bytes).2, Inside d.length handOver := by
  obtain ⟨counter, run⟩ := run_inside long inside 0 [] bytes
  have piece : ∀ content, ∀ handOver ∈ (m.run d 0 [] bytes).2 ++ [.piece content],
      Inside d.length handOver := fun content =>
    List.forall_mem_append.mpr ⟨run, List.forall_mem_singleton.mpr (inside_piece _ content)⟩
  unfold handOver
  dsimp only
  split
  · exact ⟨counter, piece _⟩
  · split
    · exact ⟨counter, piece _⟩
    · exact ⟨counter, run⟩

theorem handOvers_inside (long : 1 < d.length) (inside : m.counter < d.length)
    (pieces : List (List Byte)) :
    ∀ handOver ∈ (m.handOvers d pieces).2, Inside d.length handOver := by
  induction pieces generalizing m with
  | nil => exact List.forall_mem_nil _
  | cons bytes rest ih =>
      obtain ⟨counter, here⟩ := handOver_inside long inside bytes
      exact List.forall_mem_append.mpr ⟨here, ih counter⟩

end Matcher

namespace QueryParams

variable {H : Type} [FileUploadHelper H]

/-- The comparisons of a body are those of its log. -/
theorem bodyComparisons_log (q : QueryParams H) (pieces : List (List Byte)) :
    q.bodyComparisons pieces =
      q.partReader.comparisons (q.matcher.handOvers q.boundaryStr pieces).2 := by
  induction pieces generalizing q with
  | nil => rfl
  | cons bytes rest ih =>
      rw [bodyComparisons, ih, Matcher.handOvers, logged_snd, PartReader.comparisons_append,
        appendFormMultipart_log, foldl_goOn_eq]
      rfl

/-! ## Whole bodies -/

/-- A fresh object with a boundary. -/
def withBoundary (helper : H) (boundary : List Byte) (fmParseCounter : Nat)
    (currFMPart : Option (List Byte)) : QueryParams H :=
  { init helper fmParseCounter currFMPart with boundaryStr := boundary }.onBoundaryParsed

/-- The indices of a body are all in range exactly where no part of it goes on behind a header block
    which gives it no name, whatever the helper does. -/
theorem indices_in_range_iff (helper : H) (boundary : List Byte) (fmParseCounter : Nat)
    (currFMPart : Option (List Byte)) (pieces : List (List Byte)) :
    (∀ c ∈ (withBoundary helper boundary fmParseCounter currFMPart).bodyComparisons pieces,
        c.InRange (withBoundary helper boundary fmParseCounter currFMPart).boundaryStr.length) ↔
      UnnamedPartsEmpty boundary fmParseCounter pieces := by
  have long : 4 ≤ (delimiter boundary).length := by
    rw [delimiter, List.length_append]
    exact Nat.le_add_right 4 boundary.length
  have early : PartReader.Counts ⟨.headerStart, fmParseCounter, []⟩ false := FMParseState.noConfusion
  have inside : 2 < (delimiter boundary).length := Nat.lt_of_succ_le (Nat.le_of_succ_le long)
  rw [bodyComparisons_log]
  exact PartReader.comparisons_iff early
    (Matcher.handOvers_inside (m := ⟨2, []⟩) (Nat.lt_of_succ_lt inside) inside pieces)

example : UnnamedPartsEmpty (text "b") 0 [fieldOnly] := by decide +kernel

/-- A form whose one part has content and no name. -/
def namelessPart : List Byte :=
  text "--b" ++ [cr, lf] ++ text "Content-Type: text/plain" ++ [cr, lf, cr, lf] ++ text "v" ++
    [cr, lf] ++ text "--b--"

theorem index_behind_literal :
    ¬∀ c ∈ (withBoundary (Caller.mk (fun _ => (.empty, true)) (fun _ => true) []) (text "b") 0
        none).bodyComparisons [namelessPart],
      c.InRange (withBoundary (Caller.mk (fun _ => (.empty, true)) (fun _ => true) []) (text "b") 0
        none).boundaryStr.length := by
  have listed : .headersEndMark 4 ∈ (withBoundary (Caller.mk (fun _ => (.empty, true))
      (fun _ => true) []) (text "b") 0 none).bodyComparisons [namelessPart] := by
    decide +kernel
  intro inRange
  exact absurd (inRange _ listed) (Nat.not_succ_le_self 3)

end QueryParams

end MiniWebSrv.HTTP
