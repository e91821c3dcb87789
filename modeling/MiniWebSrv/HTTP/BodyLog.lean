import MiniWebSrv.HTTP.QueryParams

/-! # The log of a body

`AppendFormMultipart` and `AppendToCurrentPart` once more, with a log of what they do: the
comparisons which they make, the pieces which go from the one to the other, and the header blocks,
the content and the ends which are found in these. Neither of them looks at the maps or at the
upload helper. What they leave in the object is what the log says.
-/

namespace MiniWebSrv.HTTP

open Word

/-- A result with its log, behind other entries. -/
def logged {S E : Type} (entries : List E) (result : S × List E) : S × List E :=
  (result.1, entries ++ result.2)

@[simp] theorem logged_fst {S E : Type} (entries : List E) (result : S × List E) :
    (logged entries result).1 = result.1 := rfl

@[simp] theorem logged_snd {S E : Type} (entries : List E) (result : S × List E) :
    (logged entries result).2 = entries ++ result.2 := rfl

/-! ## The matcher of the delimiters -/

/-- A byte is compared with the delimiter, a piece goes to `AppendToCurrentPart`, or
    `StartNewPart` is called. -/
inductive HandOver where
  | compared (index : Nat)
  | piece (bytes : List Byte)
  | newPart
  deriving DecidableEq, Repr

/-- `BoundaryParseCounter`, and the bytes kept in `ParseTmp`. -/
structure Matcher where
  counter : Nat
  kept : List Byte
  deriving DecidableEq, Repr

namespace Matcher

def onFullMatch (m : Matcher) (pos : Nat) (content : List Byte) : List HandOver :=
  (if u32 pos < m.counter then
    if m.counter - pos < m.kept.length then
      [.piece (m.kept.take (m.kept.length - (m.counter - pos)))]
    else
      []
  else if m.counter < content.length then
    [.piece (content.take (content.length - m.counter))]
  else
    []) ++ [.newPart]

def onMatchBroken (m : Matcher) (content : List Byte) : List HandOver :=
  (if m.kept ≠ [] then [.piece m.kept] else []) ++ [.piece content]

/-- From `Pos` on, with what is left between `ContentBegin` and `End`. -/
def run (delimiter : List Byte) (m : Matcher) (pos : Nat) (content : List Byte) :
    List Byte → (Matcher × List Byte) × List HandOver
  | [] => ((m, content), [])
  | c :: rest =>
      if m.counter = 0 then
        if c = cr then
          run delimiter { m with counter := 1 } (pos + 1) (content ++ [c]) rest
        else
          run delimiter m (pos + 1) (content ++ [c]) rest
      else if some c = (delimiter ++ [0])[m.counter]? then
        let next : Matcher := { m with counter := u32 (m.counter + 1) }
        if next.counter = delimiter.length then
          logged (.compared m.counter :: next.onFullMatch (pos + 1) (content ++ [c]))
            (run delimiter ⟨0, []⟩ (pos + 1) [] rest)
        else
          logged [.compared m.counter] (run delimiter next (pos + 1) (content ++ [c]) rest)
      else if c = cr then
        logged (.compared m.counter :: m.onMatchBroken content)
          (run delimiter ⟨1, []⟩ (pos + 1) [c] rest)
      else
        logged (.compared m.counter :: m.onMatchBroken content)
          (run delimiter ⟨0, []⟩ (pos + 1) [c] rest)

/-- One piece of the body. -/
def handOver (delimiter : List Byte) (m : Matcher) (bytes : List Byte) : Matcher × List HandOver :=
  let r := run delimiter m 0 [] bytes
  let m := r.1.1
  let content := r.1.2
  if m.counter ≠ 0 then
    ({ m with kept := m.kept ++ content.drop (content.length - m.counter) },
      r.2 ++ [.piece (content.take (content.length - m.counter))])
  else if bytes ≠ [] then
    (m, r.2 ++ [.piece content])
  else
    (m, r.2)

/-- All the pieces of the body. -/
def handOvers (delimiter : List Byte) (m : Matcher) : List (List Byte) → Matcher × List HandOver
  | [] => (m, [])
  | bytes :: rest =>
      let r := m.handOver delimiter bytes
      logged r.2 (handOvers delimiter r.1 rest)

end Matcher

/-! ## The reader of the parts -/

/-- A byte is compared with the end mark of the headers, a header block is parsed, content is added,
    the dashes behind the last delimiter are read, or something behind these in the same piece. -/
inductive PartEvent where
  | compared (index : Nat)
  | headers (block : List Byte)
  | content (bytes : List Byte)
  | close
  | behind
  deriving DecidableEq, Repr

/-- `FMParseState`, `FMParseCounter` and `HeaderParseTmp` -/
structure PartReader where
  state : FMParseState
  counter : Nat
  headers : List Byte
  deriving DecidableEq, Repr

namespace PartReader

/-- From `Begin` on, where `orig` holds the bytes between `OrigBegin` and `Begin`. -/
def read (r : PartReader) (orig : List Byte) : List Byte → PartReader × List PartEvent
  | [] =>
      match r.state with
      | .read => (r, [.content []])
      | .headersEnd => ({ r with headers := r.headers ++ orig }, [])
      | _ => (r, [])
  | c :: rest =>
      match r.state with
      | .read => (r, [.content (c :: rest)])
      | .headerStart =>
          if r.counter = 0 then
            if c = cr ∨ c = ch '-' then
              read { r with counter := 1 } (orig ++ [c]) rest
            else
              (r, [])
          else if r.counter = 1 then
            if c = lf then
              read { r with counter := 0, state := .headersEnd } [] rest
            else if c = ch '-' then
              logged [.close] (read { r with state := .finished } (orig ++ [c]) rest)
            else
              (r, [])
          else
            read r (orig ++ [c]) rest
      | .headersEnd =>
          if some c = QueryParams.headersEndMark[r.counter]? then
            if r.counter + 1 = 4 then
              let headers := if 4 < orig.length then r.headers ++ (orig ++ [c]) else r.headers
              if (QueryParams.partHeaders headers).disposition.name ≠ [] then
                (⟨.read, 4, headers⟩, [.compared r.counter, .headers headers, .content rest])
              else
                ({ r with counter := 4, headers := [] }, [.compared r.counter, .headers headers])
            else
              logged [.compared r.counter]
                (read { r with counter := r.counter + 1 } (orig ++ [c]) rest)
          else
            logged [.compared r.counter] (read { r with counter := 0 } (orig ++ [c]) rest)
      | .finished => (r, [.behind])

/-- The events which can come of a range of bytes, from the one state to the other. -/
inductive Reads : FMParseState → List PartEvent → FMParseState → Prop
  | nothing (state : FMParseState) : Reads state [] state
  | content (bytes : List Byte) : Reads .read [.content bytes] .read
  | headersBegin {events : List PartEvent} {state : FMParseState}
      (rest : Reads .headersEnd events state) : Reads .headerStart events state
  | close {events : List PartEvent} {state : FMParseState} (rest : Reads .finished events state) :
      Reads .headerStart (.close :: events) state
  | compared (index : Nat) {events : List PartEvent} {state : FMParseState}
      (rest : Reads .headersEnd events state) : Reads .headersEnd (.compared index :: events) state
  | named (index : Nat) {block : List Byte} (content : List Byte)
      (named : (QueryParams.partHeaders block).disposition.name ≠ []) :
      Reads .headersEnd [.compared index, .headers block, .content content] .read
  | unnamed (index : Nat) {block : List Byte}
      (unnamed : (QueryParams.partHeaders block).disposition.name = []) :
      Reads .headersEnd [.compared index, .headers block] .headersEnd
  | behind : Reads .finished [.behind] .finished

theorem read_reads (r : PartReader) (orig bytes : List Byte) :
    Reads r.state (r.read orig bytes).2 (r.read orig bytes).1.state := by
  fun_induction read r orig bytes with
  | case1 r orig state => exact state.symm ▸ .content []
  | case2 r orig state | case3 r orig notRead notHeaders => exact .nothing _
  | case4 r orig c rest state => exact state.symm ▸ .content (c :: rest)
  | case5 r orig c rest state first opens ih => exact ih
  | case6 r orig c rest state first opens => exact .nothing _
  | case7 r orig rest state later second ih => exact state.symm ▸ .headersBegin ih
  | case8 r orig rest state later second noLF ih => exact state.symm ▸ .close ih
  | case9 r orig c rest state later second noLF noDash => exact .nothing _
  | case10 r orig c rest state later third ih => exact ih
  | case11 r orig c rest =>
      rename_i state matches_ last headers named
      exact state.symm ▸ .named r.counter rest named
  | case12 r orig c rest =>
      rename_i state matches_ last headers unnamed
      exact state.symm ▸ .unnamed r.counter (not_not.mp unnamed)
  | case13 r orig c rest state matches_ more ih =>
      exact state.symm ▸ .compared r.counter (state ▸ ih : Reads .headersEnd _ _)
  | case14 r orig c rest state differs ih =>
      exact state.symm ▸ .compared r.counter (state ▸ ih : Reads .headersEnd _ _)
  | case15 r orig c rest state => exact state.symm ▸ .behind

def take (r : PartReader) : HandOver → PartReader × List PartEvent
  | .compared _ => (r, [])
  | .piece bytes => if bytes = [] ∨ r.state = .finished then (r, []) else r.read [] bytes
  | .newPart => (⟨.headerStart, 0, []⟩, [])

def takeAll (r : PartReader) : List HandOver → PartReader × List PartEvent
  | [] => (r, [])
  | handOver :: rest =>
      let t := r.take handOver
      logged t.2 (t.1.takeAll rest)

end PartReader

/-! ## The object -/

section

variable {H : Type} [FileUploadHelper H]

/-- What the events do to the maps and to the helper. -/
def Form.take (f : Form H) : PartEvent → Form H
  | .compared _ => f
  | .headers block => (QueryParams.parseFMHeaders f block).2
  | .content bytes => (QueryParams.addContent f bytes).2
  | .close => { f with helper := FileUploadHelper.onFileEnd f.helper }
  | .behind => { f with helper := FileUploadHelper.onFileEnd f.helper }

def Form.takeAll (f : Form H) (events : List PartEvent) : Form H := events.foldl Form.take f

theorem Form.takeAll_append (f : Form H) (left right : List PartEvent) :
    f.takeAll (left ++ right) = (f.takeAll left).takeAll right := List.foldl_append

theorem QueryParams.parseFMHeaders_accepts (f : Form H) (headers : List Byte) :
    (parseFMHeaders f headers).1 = true ↔ (partHeaders headers).disposition.name ≠ [] := by
  unfold parseFMHeaders openPart
  by_cases named : (partHeaders headers).disposition.name ≠ []
  · simp only [if_pos named]
    refine iff_of_true ?_ named
    split
    · split <;> rfl
    · rfl
  · rw [if_neg named]
    exact iff_of_false Bool.false_ne_true named

end

namespace QueryParams

variable {H : Type}

def matcher (q : QueryParams H) : Matcher := ⟨q.boundaryParseCounter, q.parseTmp⟩

def partReader (q : QueryParams H) : PartReader :=
  ⟨q.fmParseState, q.fmParseCounter, q.headerParseTmp⟩

def withMatcher (q : QueryParams H) (m : Matcher) : QueryParams H :=
  { q with boundaryParseCounter := m.counter, parseTmp := m.kept }

def withPart (q : QueryParams H) (r : PartReader) (f : Form H) : QueryParams H :=
  { q with
    toForm := f
    fmParseState := r.state
    fmParseCounter := r.counter
    headerParseTmp := r.headers }

variable [FileUploadHelper H] (q : QueryParams H)

/-- The object behind one entry of the matcher's log. -/
def goOn (handOver : HandOver) : QueryParams H :=
  q.withPart (q.partReader.take handOver).1 (q.toForm.takeAll (q.partReader.take handOver).2)

/-- `AppendToCurrentPart` does what the log of the reader says. -/
theorem appendFrom_log (orig bytes : List Byte) :
    (appendFrom q orig bytes).2 = q.withPart (q.partReader.read orig bytes).1
      (q.toForm.takeAll (q.partReader.read orig bytes).2) := by
  fun_induction appendFrom q orig bytes with
  | case1 q orig state =>
      simp only [partReader, PartReader.read, state, withPart]
      rfl
  | case2 q orig state =>
      simp only [partReader, PartReader.read, state, withPart]
      rfl
  | case3 q orig notRead notHeaders =>
      have nothing : q.partReader.read orig [] = (q.partReader, []) := by
        rw [PartReader.read]
        split
        · cases notRead ‹_›
        · cases notHeaders ‹_›
        · rfl
      rw [nothing]
      rfl
  | case4 q orig c rest state =>
      simp only [partReader, PartReader.read, state, withPart]
      rfl
  | case5 q orig c rest state first opens ih =>
      rw [ih, PartReader.read.eq_def q.partReader]
      simp only [partReader, state, first, opens, if_true]
      rfl
  | case6 q orig c rest state first opens =>
      have nothing : q.partReader.read orig (c :: rest) = (q.partReader, []) := by
        rw [PartReader.read]
        simp only [partReader, state, first, opens, if_true, if_false]
      rw [nothing]
      rfl
  | case7 q orig rest state later second ih =>
      rw [ih, PartReader.read.eq_def q.partReader]
      simp only [partReader, state, second, Nat.one_ne_zero, if_true, if_false]
      rfl
  | case8 q orig rest state later second noLF ih =>
      rw [ih, PartReader.read.eq_def q.partReader]
      simp only [partReader, endFile, state, second, Nat.one_ne_zero, if_true, if_false, noLF]
      rfl
  | case9 q orig c rest state later second noLF noDash =>
      have nothing : q.partReader.read orig (c :: rest) = (q.partReader, []) := by
        rw [PartReader.read]
        simp only [partReader, state, second, Nat.one_ne_zero, if_true, if_false, noLF, noDash]
      rw [nothing]
      rfl
  | case10 q orig c rest state later third ih =>
      have next : q.partReader.read orig (c :: rest) = q.partReader.read (orig ++ [c]) rest := by
        rw [PartReader.read]
        simp only [partReader, state, later, third, if_false]
      rw [ih, next]
  | case11 q orig c rest =>
      rename_i state matches_ last headers form parsed ih
      have named := (parseFMHeaders_accepts q.toForm headers).mp (by rw [parsed])
      have content : ∀ (r : PartReader) orig, r.state = .read →
          r.read orig rest = (r, [.content rest]) := by
        intro r orig read
        cases rest <;> simp only [PartReader.read, read]
      have found : q.partReader.read orig (c :: rest) = (⟨.read, 4, headers⟩,
          [.compared q.fmParseCounter, .headers headers, .content rest]) := by
        rw [PartReader.read]
        simp only [partReader, state, matches_, last, if_true]
        exact if_pos named
      have opened : form = (parseFMHeaders q.toForm headers).2 := by rw [parsed]
      rw [ih, content _ _ rfl, found, opened]
      rfl
  | case12 q orig c rest =>
      rename_i state matches_ last headers form parsed
      have unnamed := mt (parseFMHeaders_accepts q.toForm headers).mpr
        (by rw [parsed]; exact Bool.false_ne_true)
      have found : q.partReader.read orig (c :: rest) = ({ q.partReader with counter := 4, headers := [] },
          [.compared q.fmParseCounter, .headers headers]) := by
        rw [PartReader.read]
        simp only [partReader, state, matches_, last, if_true]
        exact if_neg unnamed
      have refused : form = (parseFMHeaders q.toForm headers).2 := by rw [parsed]
      rw [found, refused]
      rfl
  | case13 q orig c rest state matches_ more ih =>
      rw [ih, PartReader.read.eq_def q.partReader]
      simp only [partReader, state, matches_, more, if_true, if_false]
      rfl
  | case14 q orig c rest state differs ih =>
      rw [ih, PartReader.read.eq_def q.partReader]
      simp only [partReader, state, differs, if_false]
      rfl
  | case15 q orig c rest state =>
      have behind : q.partReader.read orig (c :: rest) = (q.partReader, [.behind]) := by
        rw [PartReader.read]
        simp only [partReader, state]
      rw [behind]
      rfl

theorem appendToCurrentPart_log (bytes : List Byte) :
    (q.appendToCurrentPart bytes).2 = q.goOn (.piece bytes) := by
  unfold appendToCurrentPart goOn PartReader.take
  by_cases nothing : bytes = [] ∨ q.fmParseState = .finished
  · have none_ : bytes = [] ∨ q.partReader.state = .finished := nothing
    simp only [if_pos nothing, if_pos none_]
    rfl
  · have some_ : ¬(bytes = [] ∨ q.partReader.state = .finished) := nothing
    simp only [if_neg nothing, if_neg some_]
    exact q.appendFrom_log [] bytes

theorem foldl_goOn_withMatcher (m : Matcher) (handOvers : List HandOver) :
    handOvers.foldl goOn (q.withMatcher m) = (handOvers.foldl goOn q).withMatcher m := by
  induction handOvers generalizing q with
  | nil => rfl
  | cons handOver rest ih => exact ih (q.goOn handOver)

theorem foldl_goOn_boundaryStr (handOvers : List HandOver) :
    (handOvers.foldl goOn q).boundaryStr = q.boundaryStr := by
  induction handOvers generalizing q with
  | nil => rfl
  | cons handOver rest ih => exact ih (q.goOn handOver)

theorem foldl_goOn_compared (index : Nat) (handOvers : List HandOver) :
    (.compared index :: handOvers).foldl goOn q = handOvers.foldl goOn q := rfl

theorem onFullMatch_log (pos : Nat) (content : List Byte) :
    q.onFullMatch pos content =
      ((q.matcher.onFullMatch pos content).foldl goOn q).withMatcher ⟨0, []⟩ := by
  have counter : q.matcher.counter = q.boundaryParseCounter := rfl
  have kept : q.matcher.kept = q.parseTmp := rfl
  simp only [onFullMatch, Matcher.onFullMatch, appendToCurrentPart_log, counter, kept]
  split
  · split <;> rfl
  · split <;> rfl

theorem onMatchBroken_log (content : List Byte) :
    q.onMatchBroken content =
      ((q.matcher.onMatchBroken content).foldl goOn q).withMatcher ⟨0, []⟩ := by
  have kept : q.matcher.kept = q.parseTmp := rfl
  simp only [onMatchBroken, Matcher.onMatchBroken, appendToCurrentPart_log, kept]
  split
  · rfl
  · rename_i none_
    have none_ : (q.goOn (.piece content)).parseTmp = [] := not_not.mp none_
    exact congrArg (fun kept => (q.goOn (.piece content)).withMatcher ⟨0, kept⟩) none_

/-- The object behind a log, where the matcher has come to. -/
def follow (r : (Matcher × List Byte) × List HandOver) : QueryParams H × List Byte :=
  ((r.2.foldl goOn q).withMatcher r.1.1, r.1.2)

theorem follow_run (handOvers : List HandOver) {t : QueryParams H} {m : Matcher}
    (same : t = (handOvers.foldl goOn q).withMatcher m) (pos : Nat) (content bytes : List Byte) :
    t.follow (t.matcher.run t.boundaryStr pos content bytes) =
      q.follow (logged handOvers (m.run q.boundaryStr pos content bytes)) := by
  have boundaryStr : t.boundaryStr = q.boundaryStr := by
    rw [same]
    exact q.foldl_goOn_boundaryStr handOvers
  have matcher : t.matcher = m := by rw [same]; rfl
  rw [boundaryStr, matcher, same]
  simp only [follow, foldl_goOn_withMatcher, logged_fst, logged_snd, List.foldl_append]
  rfl

/-- `AppendFormMultipart` does what the log of the matcher says. -/
theorem matchFrom_log (pos : Nat) (content bytes : List Byte) :
    q.matchFrom pos content bytes =
      q.follow (q.matcher.run q.boundaryStr pos content bytes) := by
  fun_induction matchFrom q pos content bytes with
  | case1 q pos content => rfl
  | case2 q pos content rest none_ ih =>
      have zero : q.matcher.counter = 0 := none_
      rw [ih, Matcher.run, if_pos zero, if_pos rfl]
      exact q.follow_run [] (m := ⟨1, q.parseTmp⟩) rfl _ _ _
  | case3 q pos content c rest none_ noCR ih =>
      have zero : q.matcher.counter = 0 := none_
      rw [ih, Matcher.run, if_pos zero, if_neg noCR]
  | case4 q pos content c rest some_ matches_ next full ih =>
      have counting : q.matcher.counter ≠ 0 := some_
      have byte : some c = (q.boundaryStr ++ [0])[q.matcher.counter]? := matches_
      have whole : u32 (q.matcher.counter + 1) = q.boundaryStr.length := full
      rw [ih, Matcher.run, if_neg counting, if_pos byte]
      simp only [if_pos whole]
      refine q.follow_run _ ?_ _ _ _
      have counted := q.foldl_goOn_withMatcher ⟨u32 (q.matcher.counter + 1), q.parseTmp⟩
        (next.matcher.onFullMatch (pos + 1) (content ++ [c]))
      rw [onFullMatch_log, foldl_goOn_compared]
      exact (congrArg (withMatcher · ⟨0, []⟩) counted).trans rfl
  | case5 q pos content c rest some_ matches_ next more ih =>
      have counting : q.matcher.counter ≠ 0 := some_
      have byte : some c = (q.boundaryStr ++ [0])[q.matcher.counter]? := matches_
      have notWhole : u32 (q.matcher.counter + 1) ≠ q.boundaryStr.length := more
      rw [ih, Matcher.run, if_neg counting, if_pos byte]
      simp only [if_neg notWhole]
      exact q.follow_run [.compared q.matcher.counter]
        (m := ⟨u32 (q.matcher.counter + 1), q.parseTmp⟩) rfl _ _ _
  | case6 q pos content rest some_ differs ih =>
      have counting : q.matcher.counter ≠ 0 := some_
      have other : ¬some cr = (q.boundaryStr ++ [0])[q.matcher.counter]? := differs
      rw [ih, Matcher.run, if_neg counting, if_neg other, if_pos rfl]
      refine q.follow_run _ ?_ _ _ _
      rw [onMatchBroken_log, foldl_goOn_compared]
      rfl
  | case7 q pos content c rest some_ differs noCR ih =>
      have counting : q.matcher.counter ≠ 0 := some_
      have other : ¬some c = (q.boundaryStr ++ [0])[q.matcher.counter]? := differs
      rw [ih, Matcher.run, if_neg counting, if_neg other, if_neg noCR]
      refine q.follow_run _ ?_ _ _ _
      rw [onMatchBroken_log, foldl_goOn_compared]

theorem appendFormMultipart_log (bytes : List Byte) :
    q.appendFormMultipart bytes =
      ((q.matcher.handOver q.boundaryStr bytes).2.foldl goOn q).withMatcher
        (q.matcher.handOver q.boundaryStr bytes).1 := by
  simp only [appendFormMultipart, Matcher.handOver, q.matchFrom_log 0 [] bytes, follow]
  generalize q.matcher.run q.boundaryStr 0 [] bytes = r
  have counter : ((r.2.foldl goOn q).withMatcher r.1.1).boundaryParseCounter = r.1.1.counter := rfl
  have piece : ∀ content : List Byte, (((r.2.foldl goOn q).withMatcher r.1.1).appendToCurrentPart content).2 =
      ((r.2 ++ [HandOver.piece content]).foldl goOn q).withMatcher r.1.1 := by
    intro content
    rw [appendToCurrentPart_log, List.foldl_append]
    rfl
  simp only [counter, piece]
  split
  · rfl
  · split <;> rfl

/-- The pieces which the matcher has handed over are read one behind the other. -/
theorem foldl_goOn_eq (handOvers : List HandOver) :
    handOvers.foldl goOn q = q.withPart (q.partReader.takeAll handOvers).1
      (q.toForm.takeAll (q.partReader.takeAll handOvers).2) := by
  induction handOvers generalizing q with
  | nil => rfl
  | cons handOver rest ih =>
      rw [List.foldl_cons, ih]
      simp only [PartReader.takeAll, logged_fst, logged_snd, Form.takeAll_append]
      rfl

/-- The maps and the helper change with what has been found. -/
theorem appendFormMultipart_toForm (bytes : List Byte) :
    (q.appendFormMultipart bytes).toForm = q.toForm.takeAll
      (q.partReader.takeAll (q.matcher.handOver q.boundaryStr bytes).2).2 := by
  rw [appendFormMultipart_log, foldl_goOn_eq]
  rfl

/-- All the pieces of a body. -/
theorem appendAll_log (pieces : List (List Byte)) :
    pieces.foldl appendFormMultipart q =
      ((q.matcher.handOvers q.boundaryStr pieces).2.foldl goOn q).withMatcher
        (q.matcher.handOvers q.boundaryStr pieces).1 := by
  induction pieces generalizing q with
  | nil => rfl
  | cons bytes rest ih =>
      have boundaryStr : (q.appendFormMultipart bytes).boundaryStr = q.boundaryStr := by
        rw [appendFormMultipart_log]
        exact q.foldl_goOn_boundaryStr _
      have matcher : (q.appendFormMultipart bytes).matcher =
          (q.matcher.handOver q.boundaryStr bytes).1 := by rw [appendFormMultipart_log]; rfl
      rw [List.foldl_cons, ih, boundaryStr, matcher, appendFormMultipart_log, foldl_goOn_withMatcher]
      simp only [Matcher.handOvers, logged_fst, logged_snd, List.foldl_append]
      rfl

end QueryParams

end MiniWebSrv.HTTP
