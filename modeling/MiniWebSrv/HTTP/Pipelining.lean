import MiniWebSrv.HTTP.Framing
import MiniWebSrv.HTTP.HeadersParsed

/-! # Pipelined requests

A client sends requests without bodies one behind the other, and the reads cut the stream
anywhere. A header block is parsed where the one before it ends, as long as bytes of it have come
before the response; whether it fits there is another matter than whether it fits into the buffer.
-/

namespace MiniWebSrv.HTTP

open Run

/-- No body belongs to the request. -/
def RequestHead.Bodiless (head : RequestHead) : Prop :=
  Connection.parseMethod head.method = .post → ∀ line ∈ head.lines,
    Header.parseHeader (line.name.map Header.lower) = .contentLength →
      Header.getULongLong line.value = some 0

/-- The client does not ask for the end of the connection. -/
def RequestHead.KeepsAlive (head : RequestHead) : Prop :=
  head.version = .v11 ∧ ∀ line ∈ head.lines,
    ¬(Header.parseHeader (line.name.map Header.lower) = .connection ∧
      Connection.compareLowercaseSimple line.value (text "close"))

/-- A connection and its client. -/
structure Pipeline (H : Type) where
  conn : Connection H
  /-- The requests which have not been answered, the first of which is at work. -/
  heads : List RequestHead
  /-- The bytes which have not been read yet. -/
  coming : List Byte

namespace Connection

variable {H : Type} {c d : Connection H}

/-- `HeaderHandler` is in a `ContinueRead` which has no room to read into. -/
def WantsRoom (c : Connection H) : Prop :=
  (∃ found lineStart, c.phase = .headers found lineStart) ∧ c.readBuff.freeLength = 0

/-! ## Requests without bodies -/

theorem searchHeaders_zero {headers : List Header} {found result : HeaderSearch}
    (zero : c.contentLength = 0)
    (lengths : ∀ h ∈ headers, h.intName = .contentLength →
      Header.getULongLong (c.valueOf h) = some 0)
    (search : c.searchHeaders found headers = some (d, result)) : d.contentLength = 0 := by
  fun_induction searchHeaders c found headers with
  | case1 | case2 =>
      obtain ⟨rfl, -⟩ := Prod.mk.inj (Option.some.inj search)
      exact zero
  | case3 => cases search
  | case4 c found header rest _ isLength length digits ih =>
      have same := lengths header List.mem_cons_self isLength
      rw [digits] at same
      exact ih (Option.some.inj same) (fun h inside => lengths h (List.mem_cons_of_mem _ inside))
        search
  | case5 c found header rest _ _ _ _ ih | case6 c found header rest _ _ _ ih =>
      exact ih zero (fun h inside => lengths h (List.mem_cons_of_mem _ inside)) search

theorem contentHandler_bodiless (zero : c.contentLength = 0)
    (lengths : ∀ h ∈ c.headerA, h.intName = .contentLength →
      Header.getULongLong (c.valueOf h) = some 0) :
    c.contentHandler.phase = .closed ∨
      c.contentHandler.phase = .respond ∧ c.contentHandler.readBuff = c.readBuff := by
  unfold contentHandler
  split
  · exact Or.inl rfl
  · rename_i e found search
    have readBuff : e.readBuff = c.readBuff := by rw [searchHeaders_keeps search]
    have none_ := searchHeaders_zero zero lengths search
    split
    · exact Or.inl rfl
    · exact Or.inr (by simp only [none_, if_true, readBuff, and_self])

/-- The headers of a block which has been parsed have the values of its lines. -/
theorem Complete.lengths {head : RequestHead} {c₀ : Connection H} {behind : List Byte}
    (complete : Complete head c₀ c behind) (bodiless : head.Bodiless) (post : c.currMethod = .post) :
    ∀ h ∈ c.headerA, h.intName = .contentLength →
      Header.getULongLong (c.valueOf h) = some 0 := by
  intro h inside isLength
  have method : parseMethod head.method = .post := by
    obtain ⟨q, -, same⟩ := complete.request
    rw [same] at post
    exact post
  have listed := List.mem_map_of_mem (f := fun h =>
    (c.stringAt h.name, h.value.bind c.stringAt, h.intName)) inside
  rw [complete.strings] at listed
  obtain ⟨line, there, same⟩ := List.mem_map.mp listed
  obtain ⟨-, value, name⟩ := by simpa only [Prod.mk.injEq] using same
  rw [valueOf, ← value, Option.getD_some]
  exact bodiless method line there (name.trans isLength)

end Connection

namespace Pipeline

open Connection

variable {H : Type} [FileUploadHelper H] {p t : Pipeline H}

/-- A read takes bytes off the stream, and a response is the end of a request. -/
def step (p : Pipeline H) (e : Event) : Option (Pipeline H) :=
  match e with
  | .read data =>
      if data <+: p.coming then
        (p.conn.step e).map fun c => { p with conn := c, coming := p.coming.drop data.length }
      else
        none
  | .responded _ _ => (p.conn.step e).map fun c => { p with conn := c, heads := p.heads.tail }
  | _ => (p.conn.step e).map fun c => { p with conn := c }

/-- The block fits between `ReadPos` and the end of the buffer. -/
def Fits (b : StreamReadBuff BuildConfig.readBuffSize) (head : RequestHead) : Prop :=
  b.readPos + head.bytes.length ≤ b.buffLength

instance (b : StreamReadBuff BuildConfig.readBuffSize) (head : RequestHead) :
    Decidable (Fits b head) := inferInstanceAs (Decidable (_ ≤ _))

/-- If the connection goes on with a next request, its block fits where it begins. -/
def NextFits (p : Pipeline H) : Event → Prop
  | .responded result _ => result = true →
      { p.conn with readBuff := p.conn.readBuff.resetRelevant }.isKeepAlive = true →
        ∀ head ∈ p.heads.tail.head?, Fits p.conn.readBuff.resetRelevant head
  | _ => True

/-- The stream goes on with the requests which have not been begun. -/
structure Ahead (c : Connection H) (heads : List RequestHead) (coming : List Byte) : Prop where
  valid : c.readBuff.Valid
  stream : c.readBuff.available ++ coming = heads.flatMap RequestHead.bytes

/-- What is known where the handler stops. -/
def Served (p : Pipeline H) : Prop :=
  match p.conn.phase with
  | .headers _ _ =>
      (p.heads = [] ∧ p.coming = [] ∧ 0 < p.conn.readBuff.freeLength) ∨
      ∃ head heads c junk, p.heads = head :: heads ∧ Fits c.readBuff head ∧
        Midway head (resetRequestData c junk) p.conn p.coming (heads.flatMap RequestHead.bytes)
  | .headersDone => ∃ head heads c junk behind, p.heads = head :: heads ∧
      Complete head (resetRequestData c junk) p.conn behind ∧
      behind ++ p.coming = heads.flatMap RequestHead.bytes
  | .respond => p.conn.readBuff.relevantLength ≠ 0 ∧ Ahead p.conn p.heads.tail p.coming
  | .closed => True
  | _ => False

theorem freeLength_pos {head : RequestHead} {c d : Connection H} {junk : Junk}
    {coming rest : List Byte} (fits : Fits c.readBuff head)
    (midway : Midway head (c.resetRequestData junk) d coming rest) : 0 < d.readBuff.freeLength := by
  obtain ⟨more, outstanding⟩ := midway.outstanding
  have room := midway.start.room
  simp only [Fits, resetRequestData] at fits outstanding room
  rw [StreamReadBuff.freeLength_eq]
  omega

theorem Served.room (served : p.Served) : ¬p.conn.WantsRoom := by
  rintro ⟨⟨found, lineStart, phase⟩, full⟩
  simp only [Served, phase] at served
  rcases served with ⟨-, -, room⟩ | ⟨head, heads, c, junk, -, fits, midway⟩
  · omega
  · have room := freeLength_pos fits midway
    omega

theorem served_advanced {head : RequestHead} {heads : List RequestHead} {c d : Connection H}
    {junk : Junk} {coming : List Byte} (fits : Fits c.readBuff head)
    (advanced : Advanced head (c.resetRequestData junk) d coming (heads.flatMap RequestHead.bytes)) :
    Served ⟨d, head :: heads, coming⟩ := by
  rcases advanced with midway | ⟨behind, stream, complete⟩
  · obtain ⟨found, seen, -, -, phase, -⟩ := midway.reached
    simp only [Served, phase]
    exact Or.inr ⟨head, heads, c, junk, rfl, fits, midway⟩
  · have phase : d.phase = .headersDone := by
      obtain ⟨q, -, same⟩ := complete.request
      rw [same]
    simp only [Served, phase]
    exact ⟨head, heads, c, junk, behind, rfl, complete, stream⟩

/-- The first of the requests begins. -/
theorem served_nextRequest {c : Connection H} (junk : Junk) {heads : List RequestHead}
    {coming : List Byte} (ahead : Ahead c heads coming) (fresh : c.readBuff.relevantLength = 0)
    (room : heads = [] → 0 < c.readBuff.freeLength)
    (fits : ∀ head ∈ heads.head?, Fits c.readBuff head) :
    ∃ d, c.nextRequest junk = some d ∧ Served ⟨d, heads, coming⟩ := by
  obtain ⟨valid, stream⟩ := ahead
  cases heads with
  | nil =>
      obtain ⟨none_, rfl⟩ := List.append_eq_nil_iff.mp stream
      have empty : c.readBuff.getAvailableDataLength = 0 := by
        rw [← StreamReadBuff.available_length, none_]
        rfl
      refine ⟨{ c.resetRequestData junk with phase := .headers false 0 }, ?_, Or.inl ⟨rfl, rfl, room rfl⟩⟩
      exact if_pos empty
  | cons head heads =>
      rw [List.flatMap_cons] at stream
      obtain ⟨d, begun, next⟩ := nextRequest_reached junk valid fresh stream
      exact ⟨d, begun, served_advanced (fits head rfl) next⟩

/-- Behind a response, only the bytes which have not been read are left in the buffer. -/
theorem Served.afterResponse (served : p.Served) (phase : p.conn.phase = .respond) :
    p.conn.readBuff.resetRelevant.relevantLength = 0 ∧
      Ahead { p.conn with readBuff := p.conn.readBuff.resetRelevant } p.heads.tail p.coming ∧
      (p.heads.tail = [] → 0 < p.conn.readBuff.resetRelevant.freeLength) := by
  simp only [Served, phase] at served
  obtain ⟨some_, valid, stream⟩ := served
  obtain ⟨valid', same⟩ := StreamReadBuff.resetRelevant_keeps valid
  have relevant := valid.relevant
  have reset : p.conn.readBuff.relevantLength ≠ 0 ∧ p.conn.readBuff.readPos ≠ 0 :=
    ⟨some_, by omega⟩
  refine ⟨?_, ⟨valid', by rw [← stream, ← same]⟩, ?_⟩
  · simp only [StreamReadBuff.resetRelevant, if_pos reset]
    split <;> rfl
  · intro none_
    rw [none_] at stream
    have drained := (List.append_eq_nil_iff.mp stream).1
    have length := StreamReadBuff.available_length p.conn.readBuff
    rw [drained, StreamReadBuff.getAvailableDataLength, List.length_nil] at length
    have data := valid.data
    have inside := valid.inside
    simp only [StreamReadBuff.resetRelevant, if_pos reset,
      if_pos (show p.conn.readBuff.readPos = p.conn.readBuff.dataEndPos by omega),
      StreamReadBuff.freeLength_eq]
    omega

theorem served_responded {result : Bool} {junk : Junk} {d : Connection H}
    (served : p.Served) (phase : p.conn.phase = .respond)
    (fits : p.NextFits (.responded result junk))
    (run : p.conn.responded result junk = some d) : Served ⟨d, p.heads.tail, p.coming⟩ := by
  obtain ⟨fresh, ahead, room⟩ := served.afterResponse phase
  simp only [responded] at run
  split at run
  · rename_i ok
    split at run
    · rename_i goesOn
      obtain ⟨_, begun, next⟩ := served_nextRequest junk ahead fresh room (fits ok goesOn)
      obtain rfl := Option.some.inj (begun.symm.trans run)
      exact next
    · obtain rfl := Option.some.inj run
      trivial
  · obtain rfl := Option.some.inj run
    trivial

theorem served_go {d : Connection H} (served : p.Served) (bodiless : ∀ head ∈ p.heads, head.Bodiless)
    (run : p.conn.go = some d) : Served { p with conn := d } := by
  cases phase : p.conn.phase with
  | headersDone =>
      simp only [Served, phase] at served
      obtain ⟨head, heads, c, junk, behind, same, complete, stream⟩ := served
      have ahead : p.conn.readBuff.relevantLength ≠ 0 ∧ p.conn.readBuff.Valid ∧
          p.conn.readBuff.available ++ p.coming = p.heads.tail.flatMap RequestHead.bytes := by
        refine ⟨?_, complete.valid, ?_⟩
        · have length := congrArg List.length complete.relevant
          rw [StreamReadBuff.relevant, Mem.read_length, RequestHead.parsed, List.length_append,
            List.length_cons] at length
          simp only [StreamReadBuff.getRelevantData] at length
          omega
        · rw [complete.available, same]
          exact stream
      obtain ⟨some_, valid, stream⟩ := ahead
      simp only [go, phase] at run
      obtain rfl := Option.some.inj run
      split
      · rename_i post
        have zero : p.conn.contentLength = 0 := by
          obtain ⟨q, -, whole⟩ := complete.request
          rw [whole]
          rfl
        rcases contentHandler_bodiless zero (complete.lengths (bodiless head (same ▸
          List.mem_cons_self)) post) with closed | ⟨respond, buffer⟩
        · simp only [Served, closed]
        · simp only [Served, respond, buffer]
          exact ⟨some_, buffer ▸ valid, by rw [buffer]; exact stream⟩
      · exact ⟨some_, valid, stream⟩
  | content | multipart => simp only [Served, phase] at served
  | headers | contentRead | multipartRead | respond | closed =>
      simp only [go, phase] at run
      cases run

/-- An event which the handler waits for outside the headers is impossible. -/
theorem Served.afterRead {b : StreamReadBuff BuildConfig.readBuffSize} {d : Connection H}
    (served : p.Served) (run : { p.conn with readBuff := b }.afterRead = some d) :
    ∃ found lineStart, p.conn.phase = .headers found lineStart := by
  cases phase : p.conn.phase with
  | headers found lineStart => exact ⟨found, lineStart, rfl⟩
  | contentRead | multipartRead => simp only [Served, phase] at served
  | headersDone | content | multipart | respond | closed =>
      simp only [Connection.afterRead, phase] at run
      cases run

theorem served_read {data : List Byte} {d : Connection H} (served : p.Served)
    (begins : data <+: p.coming) (run : p.conn.step (.read data) = some d) :
    Served { p with conn := d, coming := p.coming.drop data.length } := by
  have possible := run
  simp only [Connection.step] at possible
  split at possible
  · rename_i fits
    obtain ⟨found, lineStart, phase⟩ := served.afterRead possible
    simp only [Served, phase] at served
    obtain ⟨coming, stream⟩ := begins
    rcases served with ⟨-, none_, -⟩ | ⟨head, heads, c, junk, same, room, midway⟩
    · rw [none_] at stream
      exact absurd (List.append_eq_nil_iff.mp stream).1 fits.1
    · rw [← stream] at midway ⊢
      rw [List.drop_left' rfl]
      obtain ⟨_, stepped, next⟩ := midway.read rfl fits.1 fits.2
      obtain rfl := Option.some.inj (stepped.symm.trans run)
      rw [same]
      exact served_advanced room next
  · cases possible

theorem step_served {e : Event} (served : p.Served) (bodiless : ∀ head ∈ p.heads, head.Bodiless)
    (fits : p.NextFits e) (run : p.step e = some t) :
    t.Served ∧ ∀ head ∈ t.heads, head.Bodiless := by
  cases e with
  | go =>
      obtain ⟨d, stepped, rfl⟩ := Option.map_eq_some_iff.mp run
      exact ⟨served_go served bodiless stepped, bodiless⟩
  | read data =>
      simp only [step] at run
      split at run
      · rename_i begins
        obtain ⟨d, stepped, rfl⟩ := Option.map_eq_some_iff.mp run
        exact ⟨served_read served begins stepped, bodiless⟩
      · cases run
  | noRoom =>
      obtain ⟨d, stepped, rfl⟩ := Option.map_eq_some_iff.mp run
      simp only [Connection.step] at stepped
      split at stepped
      · rename_i full
        exact absurd ⟨served.afterRead (b := p.conn.readBuff) stepped, full⟩ served.room
      · cases stepped
  | readError =>
      obtain ⟨d, stepped, rfl⟩ := Option.map_eq_some_iff.mp run
      refine ⟨?_, bodiless⟩
      simp only [Connection.step] at stepped
      split at stepped
      · obtain rfl := Option.some.inj stepped
        trivial
      · cases stepped
  | responded result junk =>
      obtain ⟨d, stepped, rfl⟩ := Option.map_eq_some_iff.mp run
      refine ⟨?_, fun head inside => bodiless head (List.mem_of_mem_tail inside)⟩
      simp only [Connection.step] at stepped
      split at stepped
      · rename_i phase
        exact served_responded served phase fits stepped
      · cases stepped

/-- A block which does not fit is never complete. -/
theorem midway_of_misfit {head : RequestHead} {c d : Connection H} {junk : Junk}
    {coming rest : List Byte} (misfit : ¬Fits c.readBuff head)
    (advanced : Advanced head (c.resetRequestData junk) d coming rest) :
    Midway head (c.resetRequestData junk) d coming rest := by
  rcases advanced with midway | ⟨behind, -, complete⟩
  · exact midway
  · have length := congrArg List.length complete.relevant
    rw [StreamReadBuff.relevant, Mem.read_length, RequestHead.parsed_length] at length
    obtain ⟨-, from_, room⟩ := complete.start
    obtain ⟨before, data, inside, -⟩ := complete.valid
    simp only [StreamReadBuff.getRelevantData] at length
    simp only [resetRequestData] at from_ room
    refine absurd ?_ misfit
    simp only [Fits]
    omega

/-- One read more, and there is no room left. -/
theorem wantsRoom_of_misfit {head : RequestHead} {heads : List RequestHead} {c d : Connection H}
    {junk : Junk} {coming : List Byte} (misfit : ¬Fits c.readBuff head)
    (midway : Midway head (c.resetRequestData junk) d coming (heads.flatMap RequestHead.bytes)) :
    ∃ events t, exec step ⟨d, head :: heads, coming⟩ events = some t ∧ t.conn.WantsRoom := by
  have wants : ∀ {d : Connection H} {coming : List Byte},
      Midway head (c.resetRequestData junk) d coming (heads.flatMap RequestHead.bytes) →
      d.readBuff.freeLength = 0 → d.WantsRoom := by
    intro d coming midway full
    obtain ⟨found, seen, -, -, phase, -⟩ := midway.reached
    exact ⟨⟨found, seen.length, phase⟩, full⟩
  by_cases full : d.readBuff.freeLength = 0
  · exact ⟨[], _, rfl, wants midway full⟩
  · obtain ⟨more, outstanding⟩ := midway.outstanding
    have room := midway.start.room
    simp only [Fits, resetRequestData] at misfit outstanding room
    have enough : d.readBuff.freeLength ≤ coming.length := by
      rw [StreamReadBuff.freeLength_eq]
      omega
    generalize free : d.readBuff.freeLength = n at full enough
    have length : (coming.take n).length = n := List.length_take_of_le enough
    have stream : coming = coming.take n ++ coming.drop n := (List.take_append_drop n coming).symm
    rw [stream] at midway
    obtain ⟨e, stepped, next⟩ := midway.read rfl
      (fun none_ => full (by rw [← length, none_]; rfl)) (by rw [length, free])
    have next := midway_of_misfit misfit next
    refine ⟨[.read (coming.take n)], ⟨e, head :: heads, coming.drop n⟩, ?_, wants next ?_⟩
    · have taken : step ⟨d, head :: heads, coming⟩ (.read (coming.take n)) =
          some ⟨e, head :: heads, coming.drop n⟩ := by
        simp only [step, if_pos (List.take_prefix n coming), stepped, Option.map_some, length]
      rw [exec_cons, taken]
      rfl
    · show e.readBuff.freeLength = 0
      have behind := next.outstanding.2
      have roomBehind := next.start.room
      simp only [resetRequestData, List.length_drop] at behind roomBehind
      rw [StreamReadBuff.freeLength_eq] at free ⊢
      omega

/-- Where a block begins which does not fit, the way leads there. -/
theorem wantsRoom_of_missed {e : Event} (served : p.Served) (missed : ¬p.NextFits e)
    (run : p.step e = some t) :
    ∃ events u, exec step t events = some u ∧ u.conn.WantsRoom := by
  cases e with
  | responded result junk =>
      obtain ⟨d, stepped, rfl⟩ := Option.map_eq_some_iff.mp run
      simp only [Connection.step] at stepped
      split at stepped
      · rename_i phase
        obtain ⟨fresh, ⟨valid, stream⟩, -⟩ := served.afterResponse phase
        simp only [NextFits, not_forall] at missed
        obtain ⟨ok, goesOn, head, isHead, misfit⟩ := missed
        obtain ⟨heads, same⟩ : ∃ heads, p.heads.tail = head :: heads :=
          List.head?_eq_some_iff.mp isHead
        rw [same, List.flatMap_cons] at stream
        obtain ⟨_, begun, advanced⟩ := nextRequest_reached junk valid fresh stream
        simp only [responded, ok, goesOn, if_true] at stepped
        obtain rfl := Option.some.inj (begun.symm.trans stepped)
        rw [same]
        exact wantsRoom_of_misfit misfit (midway_of_misfit misfit advanced)
      · cases stepped
  | go | read | noRoom | readError => exact absurd trivial missed

/-- From any buffer which the requests before have left behind: `HeaderHandler` never lacks room
    for the rest of a block, in whatever pieces the stream comes, exactly if each block fits where
    it begins. -/
theorem room_for_headers_iff {c d : Connection H} {junk : Junk} {head : RequestHead}
    {heads : List RequestHead} {coming : List Byte} (valid : c.readBuff.Valid)
    (fresh : c.readBuff.relevantLength = 0) (bodiless : ∀ h ∈ head :: heads, h.Bodiless)
    (stream : c.readBuff.available ++ coming = (head :: heads).flatMap RequestHead.bytes)
    (begun : c.nextRequest junk = some d) :
    (∀ events t, exec step ⟨d, head :: heads, coming⟩ events = some t → ¬t.conn.WantsRoom) ↔
      Fits c.readBuff head ∧ ∀ events t, exec step ⟨d, head :: heads, coming⟩ events = some t →
        Along step NextFits ⟨d, head :: heads, coming⟩ events := by
  rw [List.flatMap_cons] at stream
  obtain ⟨_, same, advanced⟩ := nextRequest_reached junk valid fresh stream
  obtain rfl := Option.some.inj (same.symm.trans begun)
  have keeps : ∀ (p : Pipeline H) (e : Event) (t : Pipeline H),
      (p.Served ∧ ∀ h ∈ p.heads, h.Bodiless) → p.NextFits e → p.step e = some t →
        t.Served ∧ ∀ h ∈ t.heads, h.Bodiless :=
    fun _ _ _ holds fits run => step_served holds.1 holds.2 fits run
  constructor
  · intro safe
    have fits : Fits c.readBuff head := by
      by_contra misfit
      obtain ⟨events, t, run, lost⟩ := wantsRoom_of_misfit misfit (midway_of_misfit misfit advanced)
      exact safe events t run lost
    refine ⟨fits, fun events t run => ?_⟩
    exact along_of_safe keeps (fun _ _ _ holds missed run => by
        obtain ⟨events, u, run, wants⟩ := wantsRoom_of_missed holds.1 missed run
        exact ⟨events, u, run, not_not_intro wants⟩)
      ⟨served_advanced fits advanced, bodiless⟩ safe run
  · rintro ⟨fits, along⟩ events t run
    exact ((along events t run).invariant keeps ⟨served_advanced fits advanced, bodiless⟩ run).1.room

theorem slash_free : ∀ b ∈ text "/", ¬Ends b ∧ b ≠ ch ' ' ∧ b ≠ ch '?' := by decide +kernel

/-- A request with these header lines. -/
def getHead (lines : List HeaderLine) : RequestHead where
  method := text "GET"
  path := text "/"
  query := none
  minor := ch '1'
  lines := lines
  methodFree := Connection.get_free
  pathFree := slash_free
  queryFree _ impossible := absurd impossible (Option.not_mem_none _)
  escapes _ impossible := absurd impossible (Option.not_mem_none _)
  digit := Connection.one_digit

theorem getHead_bodiless (lines : List HeaderLine) : (getHead lines).Bodiless := by
  have get : parseMethod (text "GET") ≠ .post := by decide
  exact fun post => absurd post get

/-- A server which has just been started, with a read buffer of zeros. -/
def started : Connection Recorder :=
  start ⟨QueryParams.takesAll, []⟩ 65536 (fun _ _ => 0) (fun _ _ => 0) [] ⟨0, none⟩ ⟨0, none⟩

/-- Two short requests. -/
theorem room_for_headers_iff_two : ∃ d, started.nextRequest ⟨0, none⟩ = some d ∧
    ((∀ events t, exec step ⟨d, [getHead [], getHead []], (getHead []).bytes ++ (getHead []).bytes⟩
        events = some t → ¬t.conn.WantsRoom) ↔
      Fits started.readBuff (getHead []) ∧ ∀ events t,
        exec step ⟨d, [getHead [], getHead []], (getHead []).bytes ++ (getHead []).bytes⟩
          events = some t →
        Along step NextFits
          ⟨d, [getHead [], getHead []], (getHead []).bytes ++ (getHead []).bytes⟩ events) := by
  obtain ⟨d, begun⟩ : ∃ d, started.nextRequest ⟨0, none⟩ = some d :=
    Option.isSome_iff_exists.mp (by decide +kernel)
  refine ⟨d, begun, room_for_headers_iff (StreamReadBuff.init_valid _) rfl ?_ ?_ begun⟩
  · intro head inside
    rcases List.mem_pair.mp inside with rfl | rfl <;> exact getHead_bodiless []
  · decide +kernel

theorem manyLetters_free : ∀ b ∈ List.replicate 16362 (ch 'a'), ¬Ends b := by
  intro b inside
  rw [List.eq_of_mem_replicate inside]
  decide

theorem manyLetters_start : (List.replicate 16362 (ch 'a')).head? ≠ some (ch ' ') := by
  rw [List.head?_replicate]
  decide

/-- A header line which makes the block as long as the read buffer. -/
def longLine : HeaderLine where
  name := text "X"
  spaces := 0
  value := List.replicate 16362 (ch 'a')
  named := Connection.letter_named
  nameFree := Connection.letter_free
  valueFree := manyLetters_free
  start := manyLetters_start

theorem long_bytes : (getHead [longLine]).bytes.length = BuildConfig.readBuffSize := by
  have line : (getHead [longLine]).requestLine.length = 15 := by decide
  have value : longLine.line.length = 16365 := by
    have length : longLine.value.length = 16362 := List.length_replicate
    have name : longLine.name.length = 1 := rfl
    simp only [HeaderLine.line, List.length_append, List.length_cons, List.length_nil,
      List.length_replicate, length, name]
    rfl
  have lines : HeaderLine.join HeaderLine.line (getHead [longLine]).lines = longLine.line ++ [lf] :=
    List.append_nil _
  rw [RequestHead.bytes, lines]
  simp only [List.length_append, List.length_cons, List.length_nil, line, value]
  rfl

def shortAndLong : List RequestHead := [getHead [], getHead [longLine]]

theorem shortAndLong_small {head : RequestHead} (inside : head ∈ shortAndLong) :
    head.bytes.length ≤ BuildConfig.readBuffSize ∧ head.Bodiless ∧ head.KeepsAlive := by
  rcases List.mem_pair.mp inside with rfl | rfl
  · exact ⟨by decide, getHead_bodiless _, rfl, nofun⟩
  · refine ⟨Nat.le_of_eq long_bytes, getHead_bodiless _, rfl, fun line there => ?_⟩
    obtain rfl := List.mem_singleton.mp there
    exact fun close => absurd close.1 (by decide)

/-- The first byte of the long block comes with the short one. -/
def shortAndByte : List Byte := (getHead []).bytes ++ [ch 'G']

theorem shortAndByte_begins : shortAndByte <+: shortAndLong.flatMap RequestHead.bytes := by
  obtain ⟨rest, long⟩ : ∃ rest, (getHead [longLine]).bytes = [ch 'G'] ++ rest := ⟨_, rfl⟩
  refine ⟨rest, ?_⟩
  rw [shortAndLong, shortAndByte, List.flatMap_cons, List.flatMap_cons, List.flatMap_nil, long,
    List.append_nil, List.append_assoc]

/-- Behind the short request, the long one does not fit any more. -/
theorem no_room_behind_short : ¬∀ (c d : Connection Recorder) (junk : Junk) (heads : List RequestHead)
    (coming : List Byte), c.readBuff.Valid → c.readBuff.relevantLength = 0 →
    (∀ h ∈ heads, h.bytes.length ≤ BuildConfig.readBuffSize ∧ h.Bodiless ∧ h.KeepsAlive) →
    c.readBuff.available ++ coming = heads.flatMap RequestHead.bytes →
    c.nextRequest junk = some d →
    ∀ events t, exec step ⟨d, heads, coming⟩ events = some t → ¬t.conn.WantsRoom := by
  intro never
  have facts : ((started.nextRequest ⟨0, none⟩).bind fun d => exec Connection.step d
      [.read shortAndByte, .go]).map (fun c => (c.readBuff.resetRelevant.readPos,
        c.readBuff.resetRelevant.buffLength,
        { c with readBuff := c.readBuff.resetRelevant }.isKeepAlive,
        (c.step (.responded true ⟨0, none⟩)).isSome)) = some (18, 16384, true, true) := by
    decide +kernel
  obtain ⟨c, run, same⟩ := Option.map_eq_some_iff.mp facts
  obtain ⟨readPos, buffLength, goesOn, responds⟩ := by simpa only [Prod.mk.injEq] using same
  obtain ⟨d, begun, run⟩ := Option.bind_eq_some_iff.mp run
  obtain ⟨mid, read, rest⟩ := exec_cons_some.mp run
  obtain ⟨after, respond⟩ := Option.isSome_iff_exists.mp responds
  have go : mid.step .go = some c := by
    obtain ⟨_, go, last⟩ := exec_cons_some.mp rest
    rw [go, ← last]
    rfl
  generalize stream : shortAndLong.flatMap RequestHead.bytes = coming
  have first : Served ⟨d, shortAndLong, coming⟩ := by
    have fits : Fits started.readBuff (getHead []) := by decide
    obtain ⟨_, same, served⟩ := served_nextRequest (c := started) _
      ⟨StreamReadBuff.init_valid _, stream.symm⟩ rfl nofun
      (fun h isHead => Option.some.inj isHead ▸ fits)
    obtain rfl := Option.some.inj (same.symm.trans begun)
    exact served
  have readStep : step ⟨d, shortAndLong, coming⟩ (.read shortAndByte) =
      some ⟨mid, shortAndLong, coming.drop shortAndByte.length⟩ := by
    simp only [step, if_pos (stream ▸ shortAndByte_begins), read, Option.map_some]
  have goStep : step ⟨mid, shortAndLong, coming.drop shortAndByte.length⟩ .go =
      some ⟨c, shortAndLong, coming.drop shortAndByte.length⟩ := by
    simp only [step, go, Option.map_some]
  have respondStep : step ⟨c, shortAndLong, coming.drop shortAndByte.length⟩
      (.responded true ⟨0, none⟩) =
        some ⟨after, shortAndLong.tail, coming.drop shortAndByte.length⟩ := by
    simp only [step, respond, Option.map_some]
  have bodiless : ∀ h ∈ shortAndLong, h.Bodiless := fun h inside => (shortAndLong_small inside).2.1
  have second := (step_served (e := .read shortAndByte) first bodiless trivial readStep).1
  have third := (step_served (e := .go) second bodiless trivial goStep).1
  have missed : ¬NextFits ⟨c, shortAndLong, coming.drop shortAndByte.length⟩
      (.responded true ⟨0, none⟩) := by
    intro fits
    have fits := fits rfl goesOn (getHead [longLine]) rfl
    rw [Fits, long_bytes, readPos, buffLength] at fits
    exact absurd fits (by decide)
  obtain ⟨events, t, run, wants⟩ := wantsRoom_of_missed third missed respondStep
  refine never started d ⟨0, none⟩ shortAndLong coming (StreamReadBuff.init_valid _) rfl
    (fun h inside => shortAndLong_small inside) stream.symm begun
    (.read shortAndByte :: .go :: .responded true ⟨0, none⟩ :: events) t ?_ wants
  exact exec_cons_some.mpr ⟨_, readStep, exec_cons_some.mpr ⟨_, goStep,
    exec_cons_some.mpr ⟨_, respondStep, run⟩⟩⟩

end Pipeline

end MiniWebSrv.HTTP
