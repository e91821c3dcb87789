import MiniWebSrv.HTTP.Pipelining

/-! # Header blocks without a request line

`HeaderHandler` returns true at the first line which is empty or a single character, whether it
has found a request line in front of it or not.
-/

namespace MiniWebSrv.HTTP

/-- The events of `HeaderHandler`: how its reads end. -/
def Event.Reads : Event → Prop
  | .read _ | .noRoom | .readError => True
  | .go | .responded _ _ => False

namespace Connection

open Run Pipeline

variable {H : Type} {c d t : Connection H} {c₀ : Connection H} {stream : List Byte}

/-- `ParseRequestLine` returns true on the first of these lines, a proper one. -/
def BeginsRequest (c₀ : Connection H) (bytes : List Byte) : Prop :=
  ∃ line rest d, bytes = line ++ lf :: rest ∧ lf ∉ line ∧ 1 < line.length ∧
    c₀.parseRequestLine line = some (true, d)

/-- They are a single line, which is too short. -/
def IsBlank (bytes : List Byte) : Prop :=
  ∃ line, bytes = line ++ [lf] ∧ lf ∉ line ∧ line.length ≤ 1

/-- `ParseRequestLine` returns true on one of the lines. -/
def HasRequestLine (c₀ : Connection H) (bytes : List Byte) : Prop :=
  ∃ before line after d, bytes = before ++ (line ++ lf :: after) ∧ lf ∉ line ∧
    (∀ last ∈ before.getLast?, last = lf) ∧ c₀.parseRequestLine line = some (true, d)

theorem BeginsRequest.hasRequestLine {bytes : List Byte} (begins : BeginsRequest c₀ bytes) :
    HasRequestLine c₀ bytes := by
  obtain ⟨line, rest, d, rfl, free, -, found⟩ := begins
  exact ⟨[], line, rest, d, rfl, free, nofun, found⟩

theorem parseRequestLine_long {line : List Byte} (found : c₀.parseRequestLine line = some (true, d)) :
    1 < line.length := by
  match line with
  | [] => simp [parseRequestLine] at found
  | [b] =>
      simp only [parseRequestLine] at found
      by_cases blank : b = ch ' '
      · simp [blank] at found
      · simp [blank] at found
  | _ :: _ :: _ => simp

theorem IsBlank.no_request {bytes : List Byte} (blank : IsBlank bytes) :
    ¬HasRequestLine c₀ bytes := by
  obtain ⟨line', rfl, free', short⟩ := blank
  rintro ⟨before, line, after, d, same, free, ends, found⟩
  have long := parseRequestLine_long found
  have length := congrArg List.length same
  simp only [List.length_append, List.length_cons, List.length_nil] at length
  omega

theorem BeginsRequest.append {bytes : List Byte} (begins : BeginsRequest c₀ bytes)
    (more : List Byte) : BeginsRequest c₀ (bytes ++ more) := by
  obtain ⟨line, rest, d, rfl, free, long, found⟩ := begins
  exact ⟨line, rest ++ more, d, by rw [List.append_assoc, List.cons_append], free, long, found⟩

theorem BeginsRequest.take {k m : Nat} (begins : BeginsRequest c₀ (stream.take k)) (le : k ≤ m) :
    BeginsRequest c₀ (stream.take m) := by
  have more := begins.append ((stream.take m).drop k)
  rwa [show stream.take k = (stream.take m).take k by rw [List.take_take, Nat.min_eq_left le],
    List.take_append_drop] at more

theorem BeginsRequest.append_right {k : Nat} (begins : BeginsRequest c₀ (stream.take k))
    (more : List Byte) (le : k ≤ stream.length) :
    BeginsRequest c₀ ((stream ++ more).take k) := by
  rw [List.take_append_of_le_length le]
  exact begins

theorem parseRequestLine_elsewhere (c₀ : Connection H)
    (b : StreamReadBuff BuildConfig.readBuffSize) (phase : Phase)
    (line : List Byte) :
    ({ c₀ with readBuff := b, phase := phase } : Connection H).parseRequestLine line =
      (c₀.parseRequestLine line).map fun r =>
        (r.1, { r.2 with readBuff := b, phase := phase }) := by
  have versions : ∀ (e : Connection H) (bytes : List Byte),
      ({ e with readBuff := b, phase := phase } : Connection H).parseVersion bytes =
        ((e.parseVersion bytes).1,
          { (e.parseVersion bytes).2 with readBuff := b, phase := phase }) := by
    intro e bytes
    simp only [parseVersion]
    split <;> rfl
  simp only [parseRequestLine]
  split
  · rfl
  · split
    · rfl
    · split
      · split
        · rfl
        · rw [Option.map_map]
          congr 1
          funext q
          exact versions { c₀ with currMethod := _, currResource := _, currQuery := q } _
      · exact congrArg some (versions { c₀ with
          currMethod := parseMethod (line.takeWhile (· ≠ ch ' '))
          currResource := List.takeWhile (fun b => b ≠ ch ' ' ∧ b ≠ ch '?') _ } _)

theorem parseLines_found {lineStart pos n : Nat} {r : Parsed H} (le : lineStart ≤ pos)
    (run : c.parseLines true lineStart pos n = some r) :
    match r with
    | .more d found lineStart' => found = true ∧ SameBuffer c d ∧ lineStart ≤ lineStart' ∧
        lineStart' ≤ pos + n
    | .done d stop => SameBuffer c d ∧ pos ≤ stop ∧ stop < pos + n
    | .refused _ => False := by
  induction n generalizing c lineStart pos with
  | zero =>
      obtain rfl := Option.some.inj run
      exact ⟨rfl, .refl c, Nat.le_refl _, le⟩
  | succ n ih =>
      simp only [parseLines, if_true] at run
      split at run
      · split at run
        · have later := ih (Nat.le_refl _) run
          have pushed : SameBuffer c (c.pushHeader (c.readBuff.getRelevantData.1.add lineStart)
            (pos - lineStart)) := ⟨rfl, rfl⟩
          cases r with
          | more d found lineStart' =>
              obtain ⟨found, same, from_, until_⟩ := later
              exact ⟨found, pushed.trans same, by omega, by omega⟩
          | done d stop =>
              obtain ⟨same, from_, until_⟩ := later
              exact ⟨pushed.trans same, by omega, by omega⟩
          | refused d => exact later
        · obtain rfl := Option.some.inj run
          exact ⟨.refl c, Nat.le_refl _, by omega⟩
      · have later := ih (Nat.le_succ_of_le le) run
        cases r with
        | more d found lineStart' =>
            obtain ⟨found, same, from_, until_⟩ := later
            exact ⟨found, same, from_, by omega⟩
        | done d stop =>
            obtain ⟨same, from_, until_⟩ := later
            exact ⟨same, by omega, by omega⟩
        | refused d => exact later

/-! ## The handler -/

/-- Where the handler is in a stream: in its first line, behind it, or at the end of the block. -/
def Searching (c₀ : Connection H) (stream : List Byte) (c : Connection H) : Prop :=
  c.readBuff.Valid ∧
    match c.phase with
    | .headers false lineStart => lineStart = 0 ∧ c.readBuff.getAvailableDataLength = 0 ∧
        c.readBuff.held = stream ∧ lf ∉ stream ∧
        c = { c₀ with readBuff := c.readBuff, phase := c.phase }
    | .headers true lineStart => c.readBuff.getAvailableDataLength = 0 ∧
        c.readBuff.relevantLength = stream.length ∧ lineStart ≤ stream.length ∧
        BeginsRequest c₀ (stream.take lineStart)
    | .headersDone => BeginsRequest c₀ (stream.take c.readBuff.relevantLength) ∨
        IsBlank (stream.take c.readBuff.relevantLength)
    | .closed => True
    | _ => False

theorem headerHandler_later {found : Bool} {start lineStart pos n : Nat}
    (valid : c.readBuff.Valid)
    (length : c.readBuff.relevantLength + c.readBuff.getAvailableDataLength = stream.length)
    (lexes : c.parseLines found start c.readBuff.relevantLength
      c.readBuff.getAvailableDataLength = d.parseLines true lineStart pos n)
    (buffer : SameBuffer c d) (le : lineStart ≤ pos) (from_ : c.readBuff.relevantLength ≤ pos)
    (count : pos + n = stream.length) (begins : BeginsRequest c₀ (stream.take lineStart))
    (run : c.headerHandler found start = some t) : Searching c₀ stream t := by
  simp only [headerHandler, lexes] at run
  split at run
  · cases run
  · rename_i e lexed
    exact (parseLines_found le lexed).elim
  · rename_i e stop lexed
    obtain ⟨same, after, until_⟩ := parseLines_found le lexed
    obtain rfl := Option.some.inj run
    have valid' := (buffer.trans same).valid valid
    have buffer := (buffer.trans same).readBuff
    have enough : stop - e.readBuff.relevantLength + 1 ≤ e.readBuff.getAvailableDataLength := by
      rw [buffer]
      simp only [StreamReadBuff.getAvailableDataLength] at length ⊢
      omega
    refine ⟨StreamReadBuff.consume_valid valid' _ _, Or.inl (begins.take ?_)⟩
    rw [StreamReadBuff.consume_spec valid' true enough, buffer]
    simp only [if_true]
    omega
  · rename_i e found' lineStart' lexed
    obtain ⟨rfl, same, after, until_⟩ := parseLines_found le lexed
    obtain rfl := Option.some.inj run
    have valid' := (buffer.trans same).valid valid
    have buffer := (buffer.trans same).readBuff
    have all : c.readBuff.getAvailableDataLength ≤ e.readBuff.getAvailableDataLength := by
      rw [buffer]
      exact Nat.le_refl _
    refine ⟨StreamReadBuff.consume_valid valid' _ _, ?_⟩
    simp only [StreamReadBuff.consume_spec valid' true all, if_true]
    refine ⟨?_, ?_, by omega, begins.take after⟩
    · rw [buffer]
      simp only [StreamReadBuff.getAvailableDataLength]
      omega
    · rw [buffer]
      exact length

theorem headerHandler_first (valid : c.readBuff.Valid)
    (same : c = { c₀ with readBuff := c.readBuff, phase := c.phase })
    (held : c.readBuff.held = stream) (free : lf ∉ stream.take c.readBuff.relevantLength)
    (run : c.headerHandler false 0 = some t) : Searching c₀ stream t := by
  have length := StreamReadBuff.held_length valid
  rw [held] at length
  by_cases whole : lf ∈ stream
  · obtain ⟨line, tail, rfl, free'⟩ := List.eq_append_cons_of_mem whole
    have before : c.readBuff.relevantLength ≤ line.length := scanned_line free
    have all : c.readBuff.held = [] ++ (line ++ lf :: tail) := held
    have count : c.readBuff.relevantLength + c.readBuff.getAvailableDataLength =
        ([] : List Byte).length + (line ++ lf :: tail).length := by
      rw [List.length_nil, Nat.zero_add]
      exact length.symm
    rw [List.length_append, List.length_cons] at length
    by_cases short : line.length ≤ 1
    · have ended : c.parseLines false ([] : List Byte).length c.readBuff.relevantLength
          c.readBuff.getAvailableDataLength = some (.done c (([] : List Byte).length + line.length)) :=
        parseLines_end all free' (Nat.zero_le _)
          (by rw [List.length_nil, Nat.zero_add]; exact before) count short
      simp only [List.length_nil, Nat.zero_add] at ended
      simp only [headerHandler, ended, Option.some.injEq] at run
      subst run
      refine ⟨StreamReadBuff.consume_valid valid _ _, Or.inr ⟨line, ?_, free', short⟩⟩
      rw [StreamReadBuff.consume_spec valid true (by omega)]
      simp only [if_true]
      rw [show c.readBuff.relevantLength + (line.length - c.readBuff.relevantLength + 1) =
        line.length + 1 by omega, List.take_length_add_append]
      rfl
    · have long := Nat.lt_of_not_le short
      obtain ⟨skipped, newline⟩ := parseLines_scan false all free' (Nat.zero_le _)
        (by rw [List.length_nil, Nat.zero_add]; exact before) count
      have front : c.readBuff.mem.read c.relevantBuff line.length = line := (Mem.read_parts held).1
      simp only [relevantBuff] at front
      simp only [List.length_nil, Nat.zero_add] at skipped newline
      rw [parseLines, if_pos newline, Nat.sub_zero, if_pos long, if_neg Bool.false_ne_true,
        front] at skipped
      have elsewhere := parseRequestLine_elsewhere c₀ c.readBuff c.phase line
      rw [← same] at elsewhere
      cases asked : c₀.parseRequestLine line with
      | none =>
          simp only [headerHandler, skipped, elsewhere, asked, Option.map_none] at run
          cases run
      | some answer =>
          obtain ⟨found, d⟩ := answer
          rw [asked, Option.map_some] at elsewhere
          cases found with
          | false =>
              simp only [headerHandler, skipped, elsewhere, Option.some.injEq] at run
              subst run
              exact ⟨valid, trivial⟩
          | true =>
              rw [elsewhere] at skipped
              refine headerHandler_later (d := { d with readBuff := c.readBuff, phase := c.phase })
                valid (by rw [List.length_append, List.length_cons, length]) skipped ⟨rfl, ?_⟩
                (Nat.le_refl _) (by omega)
                (by rw [List.length_append, List.length_cons]; omega) ?_ run
              · obtain ⟨_, _, _, _, kept⟩ := parseRequestLine_keeps asked
                have limit := congrArg maxPostBodyLength same
                rw [limit, kept]
              · rw [List.take_length_add_append]
                exact ⟨line, [], d, rfl, free', long, asked⟩
  · have within : c.parseLines false ([] : List Byte).length c.readBuff.relevantLength
        c.readBuff.getAvailableDataLength = some (.more c false ([] : List Byte).length) :=
      parseLines_within (by rw [List.nil_append]; exact held) whole (Nat.zero_le _)
        (by rw [List.length_nil, Nat.zero_add]; exact length.symm)
    simp only [List.length_nil] at within
    simp only [headerHandler, within, Option.some.injEq] at run
    subst run
    have drained := StreamReadBuff.consume_available valid true (Nat.le_refl _)
    refine ⟨StreamReadBuff.consume_valid valid _ _, rfl, ?_,
      (StreamReadBuff.consume_held valid (Nat.le_refl _)).trans held, whole, ?_⟩
    · rw [← StreamReadBuff.available_length, drained, ← StreamReadBuff.available_length,
        List.drop_length]
      rfl
    · rw [same]

/-! ## The run -/

variable [FileUploadHelper H]

theorem step_searching {e : Event} (searching : Searching c₀ stream c) (reads : e.Reads)
    (run : c.step e = some t) : Searching c₀ (stream ++ received [e]) t := by
  obtain ⟨valid, place⟩ := searching
  cases e with
  | go | responded => exact reads.elim
  | readError =>
      simp only [step] at run
      split at run
      · obtain rfl := Option.some.inj run
        exact ⟨valid, trivial⟩
      · cases run
  | noRoom =>
      simp only [step] at run
      split at run
      · cases phase : c.phase with
        | headers found lineStart =>
            have drained : c.readBuff.getAvailableDataLength = 0 := by
              simp only [phase] at place
              cases found with
              | false => exact place.2.1
              | true => exact place.1
            simp only [afterRead, phase, drained, if_true, Option.some.injEq] at run
            subst run
            exact ⟨valid, trivial⟩
        | headersDone | closed => simp only [afterRead, phase, reduceCtorEq] at run
        | content | contentRead | multipart | multipartRead | respond =>
            simp only [phase] at place
      · cases run
  | read data =>
      rw [show received [.read data] = data from List.append_nil data]
      simp only [step] at run
      split at run
      · rename_i fits
        have valid' := StreamReadBuff.receive_valid valid fits.2
        have count := StreamReadBuff.receive_available valid fits.2
        have some_ := List.length_pos_of_ne_nil fits.1
        have more := congrArg List.length count
        rw [List.length_append, StreamReadBuff.available_length,
          StreamReadBuff.available_length] at more
        obtain ⟨_, same⟩ := StreamReadBuff.receive_spec fits.2
        have relevant : (c.readBuff.receive data).2.relevantLength = c.readBuff.relevantLength := by
          rw [same]
        cases phase : c.phase with
        | headers found lineStart =>
            simp only [afterRead, phase] at run
            rw [if_neg (by omega)] at run
            simp only [phase] at place
            cases found with
            | false =>
                obtain ⟨rfl, drained, held, free, before⟩ := place
                refine headerHandler_first valid' ?_
                  ((StreamReadBuff.receive_held valid fits.2).trans (by rw [held])) ?_ run
                · rw [before]
                · have length := StreamReadBuff.held_length valid
                  rw [held, drained, Nat.add_zero] at length
                  simp only [relevant]
                  rw [List.take_left' length]
                  exact free
            | true =>
                obtain ⟨drained, length, le, begins⟩ := place
                refine headerHandler_later valid' ?_ rfl (.refl _) ?_ (Nat.le_refl _) ?_
                  (begins.append_right data le) run
                · simp only [relevant]
                  rw [List.length_append, length, more, drained, Nat.zero_add]
                · simp only [relevant, length]
                  exact le
                · simp only [relevant]
                  rw [List.length_append, length, more, drained, Nat.zero_add]
        | headersDone | closed => simp only [afterRead, phase, reduceCtorEq] at run
        | content | contentRead | multipart | multipartRead | respond =>
            simp only [phase] at place
      · cases run

theorem exec_searching {events : List Event} (searching : Searching c₀ stream c)
    (reads : ∀ e ∈ events, e.Reads) (run : exec step c events = some t) :
    Searching c₀ (stream ++ received events) t := by
  induction events generalizing c stream with
  | nil =>
      obtain rfl := Option.some.inj run
      rw [received, List.flatMap_nil, List.append_nil]
      exact searching
  | cons e rest ih =>
      obtain ⟨mid, taken, run⟩ := exec_cons_some.mp run
      have next := step_searching searching (reads e List.mem_cons_self) taken
      rw [received_cons, ← List.append_assoc]
      exact ih next (fun e inside => reads e (List.mem_cons_of_mem _ inside)) run

theorem nextRequest_searching {junk : Junk} (valid : c.readBuff.Valid)
    (fresh : c.readBuff.relevantLength = 0) (run : c.nextRequest junk = some t) :
    Searching (c.resetRequestData junk) c.readBuff.available t := by
  have held : c.readBuff.held = c.readBuff.available := by
    rw [StreamReadBuff.held_eq valid, StreamReadBuff.relevant, StreamReadBuff.getRelevantData, fresh]
    rfl
  simp only [nextRequest] at run
  split at run
  · rename_i empty
    have none_ : c.readBuff.available = [] := by
      rw [← List.length_eq_zero_iff, StreamReadBuff.available_length]
      exact empty
    obtain rfl := Option.some.inj run
    exact ⟨valid, rfl, empty, held, by rw [none_]; exact List.not_mem_nil, rfl⟩
  · refine headerHandler_first (c := c.resetRequestData junk) valid rfl held ?_ run
    rw [show (c.resetRequestData junk).readBuff = c.readBuff from rfl, fresh]
    exact List.not_mem_nil

/-- When `HeaderHandler` returns true, `ParseRequestLine` has returned true on a line of what the
    call has consumed, exactly if the first line of the stream has more than one byte. -/
theorem request_line_found_iff {b : Connection H} {junk : Junk} {events : List Event}
    (valid : c.readBuff.Valid) (fresh : c.readBuff.relevantLength = 0)
    (begun : c.nextRequest junk = some b) (reads : ∀ e ∈ events, e.Reads)
    (run : exec step b events = some t) (returned : t.phase = .headersDone) :
    HasRequestLine (c.resetRequestData junk)
        ((c.readBuff.available ++ received events).take t.readBuff.relevantLength) ↔
      1 < ((c.readBuff.available ++ received events).takeWhile (· ≠ lf)).length := by
  have searching := exec_searching (nextRequest_searching valid fresh begun) reads run
  generalize c.readBuff.available ++ received events = stream at searching
  obtain ⟨-, ended⟩ := searching
  simp only [returned] at ended
  have first : ∀ line rest, lf ∉ line → (line ++ lf :: rest).takeWhile (· ≠ lf) = line := by
    intro line rest free
    rw [List.takeWhile_append_of_pos (fun b inside => by
        simp only [ne_eq, decide_not, Bool.not_eq_true', decide_eq_false_iff_not]
        exact fun same => free (same ▸ inside)),
      List.takeWhile_cons_of_neg (by simp), List.append_nil]
  rcases ended with begins | blank
  · constructor
    · intro _
      obtain ⟨line, rest, d, same, free, long, -⟩ := begins
      rw [← List.take_append_drop t.readBuff.relevantLength stream, same, List.append_assoc,
        List.cons_append, first line _ free]
      exact long
    · exact fun _ => begins.hasRequestLine
  · constructor
    · exact fun found => absurd found blank.no_request
    · intro long
      obtain ⟨line, same, free, short⟩ := blank
      rw [← List.take_append_drop t.readBuff.relevantLength stream, same, List.append_assoc,
        List.singleton_append, first line _ free] at long
      omega

/-- A request line in two pieces. -/
theorem request_line_found_cut : ∃ b t, started.nextRequest ⟨0, none⟩ = some b ∧
    exec step b [.read (text "GET /"), .read (text " HTTP/1.1" ++ [cr, lf, cr, lf])] = some t ∧
    HasRequestLine (started.resetRequestData ⟨0, none⟩)
      ((text "GET / HTTP/1.1" ++ [cr, lf, cr, lf]).take t.readBuff.relevantLength) := by
  have facts : ((started.nextRequest ⟨0, none⟩).bind fun b =>
      exec step b [.read (text "GET /"), .read (text " HTTP/1.1" ++ [cr, lf, cr, lf])]).map phase =
      some .headersDone := by
    decide +kernel
  obtain ⟨t, run, returned⟩ := Option.map_eq_some_iff.mp facts
  obtain ⟨b, begun, run⟩ := Option.bind_eq_some_iff.mp run
  have reads : ∀ e ∈ [Event.read (text "GET /"), .read (text " HTTP/1.1" ++ [cr, lf, cr, lf])],
      e.Reads := by
    simp only [List.forall_mem_cons, Event.Reads, List.not_mem_nil, false_implies, implies_true,
      and_self]
  exact ⟨b, t, begun, run, (request_line_found_iff (StreamReadBuff.init_valid _) rfl begun reads run
    returned).mpr (by decide +kernel)⟩

/-- An empty line in front of a request passes for its header block. -/
theorem blank_line_accepted :
    ¬∀ (c b t : Connection Recorder) (junk : Junk) (events : List Event), c.readBuff.Valid →
      c.readBuff.relevantLength = 0 → c.nextRequest junk = some b → (∀ e ∈ events, e.Reads) →
      exec step b events = some t → t.phase = .headersDone →
      HasRequestLine (c.resetRequestData junk)
        ((c.readBuff.available ++ received events).take t.readBuff.relevantLength) := by
  intro all
  have facts : ((started.nextRequest ⟨0, none⟩).bind fun b => exec step b [.read [cr, lf]]).map
      (fun t => (t.phase, t.readBuff.relevantLength)) = some (.headersDone, 2) := by
    decide +kernel
  obtain ⟨t, run, same⟩ := Option.map_eq_some_iff.mp facts
  obtain ⟨returned, length⟩ := Prod.mk.inj same
  obtain ⟨b, begun, run⟩ := Option.bind_eq_some_iff.mp run
  have found := all started b t ⟨0, none⟩ [.read [cr, lf]] (StreamReadBuff.init_valid _) rfl begun
    (by simp only [List.forall_mem_cons, Event.Reads, List.not_mem_nil, false_implies, implies_true,
      and_self]) run returned
  rw [length] at found
  exact IsBlank.no_request ⟨[cr], by decide +kernel, by decide, by decide⟩ found

end Connection

end MiniWebSrv.HTTP
