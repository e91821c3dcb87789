import MiniWebSrv.HTTP.QueryStates

/-! # Left-over members

`FMParseState` stays as an earlier body has left it, and `FMParseCounter` and `CurrFMPart` are what
the constructor finds in memory. The query string does not look at them. A body of which nothing is
handed over before the first new part does not either, because a new part sets what it looks at; and
so it is with the bodies which begin with their delimiter.
-/

namespace MiniWebSrv.HTTP

open Word

/-! ## Nothing before the first part -/

/-- No byte is handed over before the first new part. -/
def Quiet : List HandOver → Prop
  | [] => True
  | .newPart :: _ => True
  | .piece bytes :: rest => bytes = [] ∧ Quiet rest
  | .compared _ :: rest => Quiet rest

/-- A new part comes first, behind comparisons and empty pieces. -/
def PartFirst : List HandOver → Prop
  | [] => False
  | .newPart :: _ => True
  | .piece bytes :: rest => bytes = [] ∧ PartFirst rest
  | .compared _ :: rest => PartFirst rest

theorem PartFirst.quiet {handOvers : List HandOver} (first : PartFirst handOvers) :
    Quiet handOvers := by
  induction handOvers with
  | nil => trivial
  | cons handOver rest ih =>
      cases handOver with
      | compared index => exact ih first
      | piece bytes => exact ⟨first.1, ih first.2⟩
      | newPart => trivial

/-- Whatever comes behind the new part. -/
theorem PartFirst.append {left : List HandOver} (first : PartFirst left) (right : List HandOver) :
    PartFirst (left ++ right) := by
  induction left with
  | nil => cases first
  | cons handOver rest ih =>
      cases handOver with
      | compared index => exact ih first
      | piece bytes => exact ⟨first.1, ih first.2⟩
      | newPart => trivial

namespace Matcher

/-! ## A body which begins with its delimiter -/

variable {d : List Byte} {m : Matcher} {pos : Nat} {content : List Byte}

theorem next_byte {n : Nat} {c : Byte} {rest : List Byte} (front : d.drop n = c :: rest) :
    some c = (d ++ [0])[n]? ∧ d.drop (n + 1) = rest ∧ n < d.length := by
  have inside : n < d.length := by
    have length := congrArg List.length front
    rw [List.length_drop, List.length_cons] at length
    omega
  have head := congrArg List.head? front
  rw [List.head?_drop] at head
  have tail := congrArg List.tail front
  rw [List.tail_drop] at tail
  refine ⟨?_, tail, inside⟩
  rw [List.getElem?_append_left inside]
  exact head.symm

theorem run_part (short : d.length < size32) (pos : Nat) (content : List Byte) {bytes more : List Byte}
    (part : d.drop m.counter = bytes ++ more) (some_ : more ≠ []) (counting : m.counter ≠ 0) :
    (m.run d pos content bytes).1 = (⟨m.counter + bytes.length, m.kept⟩, content ++ bytes) ∧
      ∀ handOvers, PartFirst handOvers → PartFirst ((m.run d pos content bytes).2 ++ handOvers) := by
  induction bytes generalizing m pos content with
  | nil =>
      rw [run, List.append_nil, List.length_nil, Nat.add_zero]
      exact ⟨rfl, fun handOvers first => first⟩
  | cons c rest ih =>
      obtain ⟨matches_, next, inside⟩ := next_byte part
      have counted : u32 (m.counter + 1) = m.counter + 1 := u32_of_lt (by omega)
      have more : ¬m.counter + 1 = d.length := by
        intro whole
        rw [whole, List.drop_length] at next
        exact some_ (List.append_eq_nil_iff.mp next.symm).2
      obtain ⟨after, first⟩ := ih (m := ⟨m.counter + 1, m.kept⟩) (pos + 1) (content ++ [c]) next
        (Nat.succ_ne_zero _)
      simp only [run, if_neg counting, if_pos matches_, counted, if_neg more]
      refine ⟨?_, first⟩
      rw [logged_fst, after, List.append_assoc, List.singleton_append, List.length_cons,
        Nat.add_right_comm, Nat.add_assoc]

/-- At its end a new part begins. What has been kept and read are bytes of the delimiter, and so
    nothing is handed over. -/
theorem run_whole (short : d.length < size32) {front : List Byte} (rest : List Byte)
    (whole : d.drop m.counter = front) (some_ : front ≠ []) (counting : m.counter ≠ 0)
    (read : content.length ≤ pos) (few : m.kept.length + pos ≤ m.counter) :
    PartFirst (m.run d pos content (front ++ rest)).2 := by
  induction front generalizing m pos content with
  | nil => exact absurd rfl some_
  | cons c front ih =>
      obtain ⟨matches_, next, inside⟩ := next_byte whole
      have counted : u32 (m.counter + 1) = m.counter + 1 := u32_of_lt (by omega)
      have longer : (content ++ [c]).length ≤ pos + 1 := by
        rw [List.length_append]
        exact Nat.succ_le_succ read
      rw [List.cons_append]
      simp only [run, if_neg counting, if_pos matches_, counted]
      by_cases last : m.counter + 1 = d.length
      · have ahead : ¬m.counter + 1 - (pos + 1) < m.kept.length := by omega
        have behind : ¬m.counter + 1 < (content ++ [c]).length := by omega
        rw [if_pos last]
        simp only [onFullMatch, if_neg ahead, if_neg behind, ite_self, List.nil_append]
        trivial
      · rw [if_neg last]
        refine ih (m := ⟨m.counter + 1, m.kept⟩) next ?_ (Nat.succ_ne_zero _) longer
          (by simp only; omega)
        rintro rfl
        have behind := List.drop_eq_nil_iff.mp next
        omega

/-- A piece whose end is read from inside the delimiter on, and the pieces behind it. -/
theorem handOvers_piece (short : d.length < size32) {first : Matcher} {before : List HandOver}
    {piece bytes : List Byte} {rest : List (List Byte)}
    (run : first.run d 0 [] piece = logged before (m.run d pos content bytes))
    (quiet : ∀ later, PartFirst later → PartFirst (before ++ later))
    (front : d.drop m.counter <+: bytes ++ rest.flatten) (inside : m.counter < d.length)
    (counting : m.counter ≠ 0) (read : content.length ≤ pos)
    (few : m.kept.length + pos ≤ m.counter)
    (onward : ∀ m' : Matcher, d.drop m'.counter <+: rest.flatten → m'.counter < d.length →
      m'.counter ≠ 0 → m'.kept.length ≤ m'.counter → PartFirst (m'.handOvers d rest).2) :
    PartFirst (first.handOvers d (piece :: rest)).2 := by
  have whole : ∀ more, bytes = d.drop m.counter ++ more →
      PartFirst (first.handOvers d (piece :: rest)).2 := by
    rintro more rfl
    have some_ : d.drop m.counter ≠ [] := by
      intro none_
      have behind := List.drop_eq_nil_iff.mp none_
      omega
    have found := quiet _ (run_whole short more rfl some_ counting read few)
    have handed : PartFirst (first.handOver d piece).2 := by
      simp only [handOver, run, logged_fst, logged_snd]
      split
      · exact found.append _
      · split
        · exact found.append _
        · exact found
    exact handed.append _
  obtain ⟨behind, stream⟩ := front
  rcases List.append_eq_append_iff.mp stream with ⟨more, same, -⟩ | ⟨more, same, later⟩
  · exact whole more same
  · by_cases none_ : more = []
    · rw [none_, List.append_nil] at same
      exact whole [] (by rw [same, List.append_nil])
    obtain ⟨after, counted⟩ := run_part short pos content same none_ counting
    have length := congrArg List.length same
    have pos_ := List.length_pos_of_ne_nil none_
    rw [List.length_drop, List.length_append] at length
    have used : (content ++ bytes).length - (m.counter + bytes.length) = 0 := by
      rw [List.length_append]
      omega
    have handed : first.handOver d piece =
        (⟨m.counter + bytes.length, m.kept ++ (content ++ bytes)⟩,
          before ++ (m.run d pos content bytes).2 ++ [.piece []]) := by
      simp only [handOver, run, logged_fst, logged_snd, after, used, List.take_zero, List.drop_zero]
      rw [if_pos (by omega)]
    have next : d.drop (m.counter + bytes.length) = more := by
      rw [← List.drop_drop, same, List.drop_left]
    have last := onward ⟨m.counter + bytes.length, m.kept ++ (content ++ bytes)⟩
      ⟨behind, by rw [next, later]⟩ (by simp only; omega) (by simp only; omega)
      (by simp only [List.length_append]; omega)
    rw [handOvers, handed, logged_snd, List.append_assoc, List.append_assoc]
    exact quiet _ (counted _ ⟨rfl, last⟩)

/-- From inside the delimiter on, its end comes first. -/
theorem handOvers_first (short : d.length < size32) {pieces : List (List Byte)}
    (front : d.drop m.counter <+: pieces.flatten) (inside : m.counter < d.length)
    (counting : m.counter ≠ 0) (few : m.kept.length ≤ m.counter) :
    PartFirst (m.handOvers d pieces).2 := by
  induction pieces generalizing m with
  | nil =>
      have behind := List.drop_eq_nil_iff.mp (List.prefix_nil.mp front)
      omega
  | cons piece rest ih =>
      have start : m.run d 0 [] piece = logged [] (m.run d 0 [] piece) := rfl
      exact handOvers_piece short start (fun later first => first) front inside counting
        (Nat.le_refl 0) few fun m' front inside counting few => ih front inside counting few

/-- The delimiter with the line end before it breaks the match, and begins another one. -/
theorem handOvers_newLine {boundary : List Byte} (short : (delimiter boundary).length < size32)
    {pieces : List (List Byte)} (front : delimiter boundary <+: pieces.flatten) :
    PartFirst (Matcher.handOvers (delimiter boundary) ⟨2, []⟩ pieces).2 := by
  induction pieces with
  | nil => cases List.prefix_nil.mp front
  | cons piece rest ih =>
      cases piece with
      | nil => exact ⟨rfl, ih front⟩
      | cons c more =>
          obtain ⟨rfl, tail⟩ := List.cons_prefix_cons.mp front
          have long : 1 < (delimiter boundary).length :=
            Nat.succ_lt_succ (Nat.succ_pos _)
          have broken : Matcher.run (delimiter boundary) ⟨2, []⟩ 0 [] (cr :: more) =
              logged [.compared 2, .piece []]
                (Matcher.run (delimiter boundary) ⟨1, []⟩ 1 [cr] more) := rfl
          exact handOvers_piece (m := ⟨1, []⟩) short broken (fun later first => ⟨rfl, first⟩) tail
            long Nat.one_ne_zero (Nat.le_refl 1) (Nat.le_refl 1)
            fun m' front inside counting few => handOvers_first short front inside counting few

end Matcher

namespace QueryParams

variable {H : Type}

/-! ## The same place in a part -/

/-- What a reader in the state makes of the form is the same. At the current part it looks in the
    content only. -/
structure SamePlace (state : FMParseState) (f g : Form H) : Prop where
  form : g.clear = f.clear
  part : state = .read → g = f

theorem SamePlace.maps {state : FMParseState} {f g : Form H} (same : SamePlace state f g) :
    g.paramMap = f.paramMap ∧ g.fileMap = f.fileMap := by
  have form := same.form
  simp only [Form.clear, Form.mk.injEq] at form
  exact ⟨form.1, form.2.1⟩

theorem SamePlace.refl (state : FMParseState) (f : Form H) : SamePlace state f f :=
  ⟨rfl, fun _ => rfl⟩

theorem SamePlace.other {state next : FMParseState} {f g : Form H} (same : SamePlace state f g)
    (other : next ≠ .read) : SamePlace next f g := ⟨same.form, fun read => absurd read other⟩

variable [FileUploadHelper H] {f g : Form H} {r : PartReader}

/-- The headers of a part open it in both. -/
theorem SamePlace.headers {state : FMParseState} (same : SamePlace state f g) (index : Nat)
    (block : List Byte) (later : List PartEvent) :
    g.takeAll (.compared index :: .headers block :: later) =
      f.takeAll (.compared index :: .headers block :: later) := by
  have opened : parseFMHeaders g block = parseFMHeaders f block := by
    rw [parseFMHeaders, parseFMHeaders, ← Form.openPart_clear g, same.form, Form.openPart_clear]
  exact congrArg (fun result => Form.takeAll result.2 later) opened

theorem SamePlace.endFile {state next : FMParseState} (same : SamePlace state f g)
    (other : next ≠ .read) : SamePlace next { f with helper := FileUploadHelper.onFileEnd f.helper }
      { g with helper := FileUploadHelper.onFileEnd g.helper } :=
  ⟨congrArg (fun f => { f with helper := FileUploadHelper.onFileEnd f.helper }) same.form,
    fun read => absurd read other⟩

theorem SamePlace.reads {state next : FMParseState} {events : List PartEvent}
    (same : SamePlace state f g) (reads : PartReader.Reads state events next) :
    SamePlace next (f.takeAll events) (g.takeAll events) := by
  induction reads generalizing f g with
  | nothing state => exact same
  | content bytes =>
      obtain rfl := same.part rfl
      exact .refl _ _
  | headersBegin rest ih => exact ih (same.other FMParseState.noConfusion)
  | close rest ih => exact ih (same.endFile FMParseState.noConfusion)
  | compared index rest ih => exact ih same
  | named index content named => exact same.headers index _ [.content content] ▸ .refl _ _
  | unnamed index unnamed => exact same.headers index _ [] ▸ .refl _ _
  | behind => exact same.endFile FMParseState.noConfusion

theorem SamePlace.take (same : SamePlace r.state f g) (handOver : HandOver) :
    SamePlace (r.take handOver).1.state (f.takeAll (r.take handOver).2)
      (g.takeAll (r.take handOver).2) := by
  cases handOver with
  | compared index => exact same
  | newPart => exact same.other FMParseState.noConfusion
  | piece bytes =>
      rw [PartReader.take]
      split
      · exact same
      · exact same.reads (r.read_reads [] bytes)

theorem SamePlace.takeAll (same : SamePlace r.state f g) (handOvers : List HandOver) :
    SamePlace (r.takeAll handOvers).1.state (f.takeAll (r.takeAll handOvers).2)
      (g.takeAll (r.takeAll handOvers).2) := by
  induction handOvers generalizing f g r with
  | nil => exact same
  | cons handOver rest ih =>
      have next := ih (same.take handOver)
      rw [PartReader.takeAll, logged_fst, logged_snd, Form.takeAll_append, Form.takeAll_append]
      exact next

/-! ## The left-over members -/

variable {q : QueryParams H}

/-- The object with other left-over members. -/
def leftOver (q : QueryParams H) (state : FMParseState) (junk : Nat × Option (List Byte)) :
    QueryParams H :=
  { q with fmParseState := state, fmParseCounter := junk.1, currFMPart := junk.2 }

/-- The first new part makes up for them. -/
theorem foldl_leftOver {handOvers : List HandOver} (quiet : Quiet handOvers) (state : FMParseState)
    (junk : Nat × Option (List Byte)) :
    (handOvers.foldl goOn (q.leftOver state junk)).paramMap = (handOvers.foldl goOn q).paramMap ∧
      (handOvers.foldl goOn (q.leftOver state junk)).fileMap =
        (handOvers.foldl goOn q).fileMap := by
  induction handOvers with
  | nil => exact ⟨rfl, rfl⟩
  | cons handOver rest ih =>
      cases handOver with
      | compared index => exact ih quiet
      | piece bytes =>
          obtain ⟨rfl, later⟩ := quiet
          exact ih later
      | newPart =>
          have parts : SamePlace (q.goOn .newPart).fmParseState (q.goOn .newPart).toForm
              ((q.leftOver state junk).goOn .newPart).toForm := ⟨rfl, FMParseState.noConfusion⟩
          have all := SamePlace.takeAll (r := (q.goOn .newPart).partReader) parts rest
          rw [List.foldl_cons, List.foldl_cons, foldl_goOn_eq, foldl_goOn_eq]
          exact all.maps

/-- A body of which nothing is handed over before the first new part fills the maps whatever has
    been left over. -/
theorem appendAll_leftOver {pieces : List (List Byte)}
    (quiet : Quiet (q.matcher.handOvers q.boundaryStr pieces).2) (state : FMParseState)
    (junk : Nat × Option (List Byte)) :
    (pieces.foldl appendFormMultipart (q.leftOver state junk)).paramMap =
        (pieces.foldl appendFormMultipart q).paramMap ∧
      (pieces.foldl appendFormMultipart (q.leftOver state junk)).fileMap =
        (pieces.foldl appendFormMultipart q).fileMap := by
  rw [appendAll_log, appendAll_log]
  exact foldl_leftOver quiet state junk

omit [FileUploadHelper H] in
/-- The query string does not look at them. -/
theorem addURLEncoded_leftOver (q : QueryParams H) (range : List Byte) (state : FMParseState)
    (junk : Nat × Option (List Byte)) : (q.leftOver state junk).addURLEncoded range =
      (q.addURLEncoded range).map fun q => q.leftOver state junk := by
  rcases addURLEncoded_params (H := H) range q.paramMap with none_ | ⟨m, t, some_⟩
  · rw [none_, none_, Option.map_none]
  · rw [some_ q rfl, some_ (q.leftOver state junk) rfl, Option.map_some]
    rfl

end QueryParams

end MiniWebSrv.HTTP
