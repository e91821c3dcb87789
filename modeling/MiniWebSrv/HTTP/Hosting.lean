import MiniWebSrv.HTTP.Isolation
import MiniWebSrv.HTTP.Site

/-! # A site behind its connection

A client sends requests, the bytes of which come to the connection in any pieces, and
`ProtocolHandler` parses one, has it answered by the site, and goes on with the next. Whatever the
pieces are, the client reads one response for each request which has been answered, in their order
and each with what the site should show.
-/

namespace MiniWebSrv.HTTP

open Word Run FieldLines Connection

/-! ## Requests -/

namespace RequestHead

/-- What the version and the headers say about the connection. -/
def isKeepAlive (head : RequestHead) : Bool :=
  match head.version with
  | .v10 => false
  | .v11 => head.fields.all fun field => ¬(field.1 = .connection ∧
      compareLowercaseSimple field.2 (text "close"))

/-- The request which the client means. -/
def request (head : RequestHead) (currTime : Int) : Request :=
  ⟨parseMethod head.method, head.path, head.fields, head.isKeepAlive, currTime⟩

end RequestHead

namespace Connection

variable {H : Type}

/-- The request which `ResponseHandler` finds. -/
def request (c : Connection H) (currTime : Int) : Request :=
  ⟨c.currMethod, c.currResource, c.headerA.map fun h => (h.intName, c.valueOf h), c.isKeepAlive,
    currTime⟩

structure Asked (head : RequestHead) (c : Connection H) : Prop where
  method : c.currMethod = parseMethod head.method
  resource : c.currResource = head.path
  version : c.currVersion = head.version
  fields : c.headerA.map (fun h => (h.intName, c.valueOf h)) = head.fields

variable {c : Connection H} {head : RequestHead}

theorem Complete.asked {c₀ : Connection H} {behind : List Byte}
    (complete : Complete head c₀ c behind) : Asked head c := by
  obtain ⟨q, -, same⟩ := complete.request
  exact ⟨by rw [same]; rfl, by rw [same]; rfl, by rw [same]; rfl, complete.fields⟩

theorem isKeepAlive_fields (c : Connection H) : c.isKeepAlive =
    match c.currVersion with
    | .v10 => false
    | .v11 => (c.headerA.map fun h => (h.intName, c.valueOf h)).all fun field =>
        ¬(field.1 = .connection ∧ compareLowercaseSimple field.2 (text "close")) := by
  cases version : c.currVersion with
  | v10 => simp only [isKeepAlive, version]
  | v11 =>
      simp only [isKeepAlive, version, List.all_map]
      rfl

theorem Asked.request (asked : Asked head c) (currTime : Int) :
    c.request currTime = head.request currTime := by
  have stays : c.isKeepAlive = head.isKeepAlive := by
    rw [isKeepAlive_fields, asked.version, asked.fields, RequestHead.isKeepAlive]
  rw [Connection.request, RequestHead.request, asked.method, asked.resource, asked.fields, stays]

theorem isKeepAlive_resetRelevant (c : Connection H) :
    { c with readBuff := c.readBuff.resetRelevant }.isKeepAlive = c.isKeepAlive := by
  have same : c.readBuff.resetRelevant.mem = c.readBuff.mem ∧
      c.readBuff.resetRelevant.readBuff = c.readBuff.readBuff ∧
      c.readBuff.resetRelevant.buffLength = c.readBuff.buffLength := by
    unfold StreamReadBuff.resetRelevant
    split
    · split <;> exact ⟨rfl, rfl, rfl⟩
    · exact ⟨rfl, rfl, rfl⟩
  have strings : { c with readBuff := c.readBuff.resetRelevant }.stringAt = c.stringAt := by
    funext p
    simp only [stringAt, bytesAt, same]
  simp only [isKeepAlive_fields, valueOf, strings]

end Connection

/-! ## Connections and their clients -/

/-- A connection with its client, and the responses on their way. -/
structure Host (H : Type) where
  pipe : Pipeline H
  writeBuff : WriteBuffQueue.Session BuildConfig.writeBuffSize

/-- A step of the parser, or a response, with what is in the blocks which it is read into. -/
inductive HostEvent where
  | socket (e : Event)
  | respond (currTime : Int) (buffs : List (List Byte)) (behind : Nat → Byte) (junk : Junk)

namespace Host

variable {H : Type} [FileUploadHelper H] (env : Platform) (site : Site) (maxHeadersLength : Nat)

def step (p : Host H) : HostEvent → Option (Host H)
  | .socket (.responded _ _) => none
  | .socket e => (p.pipe.step e).map fun pipe => { p with pipe := pipe }
  | .respond currTime buffs behind junk =>
      if p.pipe.conn.phase = .respond then
        ((site.answer env behind ⟨p.pipe.conn.request currTime, buffs⟩).respond maxHeadersLength
            p.writeBuff).bind fun h =>
          h.result.bind fun result =>
            (p.pipe.step (.responded result junk)).map fun pipe => ⟨pipe, h.writeBuff⟩
      else
        none

/-- The socket does not fail, the buffer has room for every header block, and there are blocks enough
    for the responses. -/
def Fair (p : Host H) : HostEvent → Prop
  | .socket .readError => False
  | .socket .noRoom => False
  | .socket _ => True
  | .respond currTime buffs _ _ => Header.FourDigits currTime ∧
      (site.currResp env (p.pipe.conn.request currTime)).Enough buffs

/-- Where the handler stops, with the requests which have not been answered. -/
def Waits (pipe : Pipeline H) : Prop :=
  match pipe.conn.phase with
  | .headers _ _ =>
      (pipe.heads = [] ∧ pipe.coming = []) ∨
      ∃ head heads c junk, pipe.heads = head :: heads ∧
        Midway head (resetRequestData c junk) pipe.conn pipe.coming
          (heads.flatMap RequestHead.bytes)
  | .headersDone => ∃ head heads c junk behind, pipe.heads = head :: heads ∧
      Complete head (resetRequestData c junk) pipe.conn behind ∧
      behind ++ pipe.coming = heads.flatMap RequestHead.bytes
  | .respond => ∃ head heads, pipe.heads = head :: heads ∧ Asked head pipe.conn ∧
      pipe.conn.readBuff.relevantLength ≠ 0 ∧ Pipeline.Ahead pipe.conn heads pipe.coming
  | .closed => True
  | _ => False

variable {pipe : Pipeline H}

theorem waits_advanced {head : RequestHead} {heads : List RequestHead} {c d : Connection H}
    {junk : Junk} {coming : List Byte}
    (advanced : Advanced head (c.resetRequestData junk) d coming (heads.flatMap RequestHead.bytes)) :
    Waits ⟨d, head :: heads, coming⟩ ∧ d.phase ≠ .closed := by
  rcases advanced with midway | ⟨behind, stream, complete⟩
  · obtain ⟨found, seen, -, -, phase, -⟩ := midway.reached
    simp only [Waits, phase]
    exact ⟨Or.inr ⟨head, heads, c, junk, rfl, midway⟩, nofun⟩
  · have phase : d.phase = .headersDone := by
      obtain ⟨q, -, same⟩ := complete.request
      rw [same]
    simp only [Waits, phase]
    exact ⟨⟨head, heads, c, junk, behind, rfl, complete, stream⟩, nofun⟩

theorem waits_nextRequest {c : Connection H} (junk : Junk) {heads : List RequestHead}
    {coming : List Byte} (ahead : Pipeline.Ahead c heads coming)
    (fresh : c.readBuff.relevantLength = 0) :
    ∃ d, c.nextRequest junk = some d ∧ Waits ⟨d, heads, coming⟩ ∧ d.phase ≠ .closed := by
  obtain ⟨valid, stream⟩ := ahead
  cases heads with
  | nil =>
      obtain ⟨none_, rfl⟩ := List.append_eq_nil_iff.mp stream
      have empty : c.readBuff.getAvailableDataLength = 0 := by
        rw [← StreamReadBuff.available_length, none_]
        rfl
      exact ⟨{ c.resetRequestData junk with phase := .headers false 0 }, if_pos empty,
        Or.inl ⟨rfl, rfl⟩, nofun⟩
  | cons head heads =>
      rw [List.flatMap_cons] at stream
      obtain ⟨d, begun, next⟩ := nextRequest_reached junk valid fresh stream
      exact ⟨d, begun, waits_advanced next⟩

theorem waits_read {data : List Byte} {d : Connection H} (waits : Waits pipe)
    (begins : data <+: pipe.coming) (run : pipe.conn.step (.read data) = some d) :
    Waits { pipe with conn := d, coming := pipe.coming.drop data.length } ∧ d.phase ≠ .closed := by
  have possible := run
  simp only [Connection.step] at possible
  split at possible
  · rename_i fits
    cases phase : pipe.conn.phase with
    | headers found lineStart =>
        simp only [Waits, phase] at waits
        obtain ⟨coming, stream⟩ := begins
        rcases waits with ⟨-, none_⟩ | ⟨head, heads, c, junk, same, midway⟩
        · rw [none_] at stream
          exact absurd (List.append_eq_nil_iff.mp stream).1 fits.1
        · rw [← stream] at midway ⊢
          rw [List.drop_left' rfl]
          obtain ⟨_, stepped, next⟩ := midway.read rfl fits.1 fits.2
          obtain rfl := Option.some.inj (stepped.symm.trans run)
          rw [same]
          exact waits_advanced next
    | contentRead | multipartRead => simp only [Waits, phase] at waits
    | headersDone | content | multipart | respond | closed =>
        simp only [Connection.afterRead, phase] at possible
        cases possible
  · cases possible

theorem waits_go {d : Connection H} (waits : Waits pipe)
    (bodiless : ∀ head ∈ pipe.heads, parseMethod head.method ≠ .post)
    (run : pipe.conn.go = some d) : Waits { pipe with conn := d } ∧ d.phase ≠ .closed := by
  cases phase : pipe.conn.phase with
  | headersDone =>
      simp only [Waits, phase] at waits
      obtain ⟨head, heads, c, junk, behind, same, complete, stream⟩ := waits
      have asked := complete.asked
      have other : pipe.conn.currMethod ≠ .post :=
        asked.method ▸ bodiless head (same ▸ List.mem_cons_self)
      simp only [go, phase, if_neg other] at run
      obtain rfl := Option.some.inj run
      have some_ : pipe.conn.readBuff.relevantLength ≠ 0 := by
        have length := congrArg List.length complete.relevant
        rw [StreamReadBuff.relevant, Mem.read_length, RequestHead.parsed, List.length_append,
          List.length_cons] at length
        simp only [StreamReadBuff.getRelevantData] at length
        omega
      refine ⟨⟨head, heads, same, ⟨asked.method, asked.resource, asked.version, asked.fields⟩, some_,
        complete.valid, ?_⟩, Phase.noConfusion⟩
      rw [← stream, ← complete.available]
  | content | multipart => simp only [Waits, phase] at waits
  | headers | contentRead | multipartRead | respond | closed =>
      simp only [go, phase] at run
      cases run

theorem waits_responded {c d : Connection H} (head : RequestHead) {heads : List RequestHead}
    {coming : List Byte} {result : Bool} {junk : Junk} (phase : c.phase = .respond)
    (some_ : c.readBuff.relevantLength ≠ 0) (ahead : Pipeline.Ahead c heads coming)
    (run : c.responded result junk = some d) :
    Waits ⟨d, heads, coming⟩ ∧ (d.phase = .closed ↔ (result && c.isKeepAlive) = false) := by
  have served : Pipeline.Served ⟨c, head :: heads, coming⟩ := by
    simp only [Pipeline.Served, phase]
    exact ⟨some_, ahead⟩
  obtain ⟨fresh, ahead, -⟩ := served.afterResponse phase
  simp only [responded, isKeepAlive_resetRelevant] at run
  cases result with
  | false =>
      obtain rfl := Option.some.inj run
      exact ⟨trivial, iff_of_true rfl rfl⟩
  | true =>
      cases stays : c.isKeepAlive with
      | false =>
          rw [stays] at run
          obtain rfl := Option.some.inj run
          exact ⟨trivial, iff_of_true rfl rfl⟩
      | true =>
          rw [stays] at run
          obtain ⟨_, begun, waits, open_⟩ := waits_nextRequest junk ahead fresh
          obtain rfl := Option.some.inj (begun.symm.trans run)
          exact ⟨waits, iff_of_false open_ (by decide)⟩

/-! ## Responses -/

/-- Whether the connection goes on behind the response to a request, at this time. -/
def keeps (d : RequestHead × Int) : Bool :=
  (site.currResp env (d.1.request d.2)).kept d.1.isKeepAlive

/-- What has been done for the client: which requests have been answered, and the bytes of the
    responses with what it reads in them. A connection is closed behind the first response which does
    not keep it. -/
structure Progress (heads : List RequestHead) (p : Host H) (done : List (RequestHead × Int))
    (parts : List (List Byte × Client.Received)) : Prop where
  heads : heads = done.map Prod.fst ++ p.pipe.heads
  settled : Serving.Settled ⟨p.writeBuff, true⟩
  committed : p.writeBuff.committed = parts.flatMap Prod.fst
  reads : ∀ part ∈ parts, part.1 ≠ [] ∧
    ∀ rest, Client.readResponse (part.1 ++ rest) = some (part.2, rest)
  answers : List.Forall₂ (fun d part => site.Answers env (d.1.request d.2) part.2) done parts
  ends : if p.pipe.conn.phase = .closed then
      ∃ front last, done = front ++ [last] ∧ (∀ d ∈ front, keeps env site d = true) ∧
        keeps env site last = false
    else ∀ d ∈ done, keeps env site d = true
  waits : Waits p.pipe

variable {env site maxHeadersLength} {heads : List RequestHead} {p t : Host H}
  {done : List (RequestHead × Int)} {parts : List (List Byte × Client.Received)}

theorem Progress.waiting (progress : Progress env site heads p done parts)
    (phase : p.pipe.conn.phase = .respond) :
    ∃ head rest, p.pipe.heads = head :: rest ∧ head ∈ heads ∧ Asked head p.pipe.conn ∧
      p.pipe.conn.readBuff.relevantLength ≠ 0 ∧
      Pipeline.Ahead p.pipe.conn rest p.pipe.coming := by
  have waits := progress.waits
  simp only [Waits, phase] at waits
  obtain ⟨head, rest, same, asked, some_, ahead⟩ := waits
  refine ⟨head, rest, same, ?_, asked, some_, ahead⟩
  rw [progress.heads, same]
  exact List.mem_append_right _ List.mem_cons_self

theorem Progress.parsed (progress : Progress env site heads p done parts) {pipe : Pipeline H}
    (same : pipe.heads = p.pipe.heads) (waits : Waits pipe) (open_ : pipe.conn.phase ≠ .closed)
    (before : p.pipe.conn.phase ≠ .closed) :
    Progress env site heads { p with pipe := pipe } done parts where
  heads := by
    rw [progress.heads, ← same]
  settled := progress.settled
  committed := progress.committed
  reads := progress.reads
  answers := progress.answers
  ends := by
    have ends := progress.ends
    rw [if_neg before] at ends
    rw [if_neg open_]
    exact ends
  waits := waits

omit [FileUploadHelper H] in
theorem respond_arrives (proper : site.Proper maxHeadersLength env) {head : RequestHead}
    {currTime : Int} (request : (head.request currTime).Proper env) {c : Connection H}
    (asked : Asked head c) {w : WriteBuffQueue.Session BuildConfig.writeBuffSize}
    (settled : Serving.Settled ⟨w, true⟩) {buffs : List (List Byte)}
    (enough : (site.currResp env (c.request currTime)).Enough buffs) (behind : Nat → Byte) :
    ∃ h result wire a,
      (site.answer env behind ⟨c.request currTime, buffs⟩).respond maxHeadersLength w = some h ∧
      h.result = some result ∧ (result && c.isKeepAlive) = keeps env site (head, currTime) ∧
      Serving.Settled ⟨h.writeBuff, true⟩ ∧ h.writeBuff.committed = w.committed ++ wire ∧
      wire ≠ [] ∧ (∀ rest, Client.readResponse (wire ++ rest) = some (a, rest)) ∧
      site.Answers env (head.request currTime) a := by
  have same := asked.request currTime
  have stays : c.isKeepAlive = head.isKeepAlive := congrArg Request.isKeepAlive same
  rw [same] at enough ⊢
  obtain ⟨t, wire, a, step, next, open_, committed, some_, read, -, answers⟩ :=
    Site.currResp_reaches proper request (s := ⟨w, true⟩) settled rfl behind buffs head.isKeepAlive
      enough
  rw [Serving.step, if_pos rfl] at step
  obtain ⟨h, responded, step⟩ := Option.bind_eq_some_iff.mp step
  obtain ⟨result, returned, rfl⟩ := Option.map_eq_some_iff.mp step
  rw [stays]
  exact ⟨h, result, wire, a, responded, returned, open_, ⟨next.idle, next.written⟩, committed, some_,
    read, answers⟩

theorem Progress.respond (proper : site.Proper maxHeadersLength env)
    (requests : ∀ head ∈ heads, ∀ currTime, Header.FourDigits currTime →
      (head.request currTime).Proper env)
    (progress : Progress env site heads p done parts) {currTime : Int}
    {buffs : List (List Byte)} {behind : Nat → Byte} {junk : Junk}
    (fair : Fair env site p (.respond currTime buffs behind junk))
    (run : p.step env site maxHeadersLength (.respond currTime buffs behind junk) = some t) :
    ∃ done parts, Progress env site heads t done parts := by
  obtain ⟨clock, enough⟩ := fair
  simp only [step] at run
  split at run
  · rename_i phase
    obtain ⟨head, rest, same, member, asked, some_, ahead⟩ := progress.waiting phase
    obtain ⟨h, result, wire, a, responded, returned, keep, settled, committed, wire_, read, answers⟩ :=
      respond_arrives proper (requests head member currTime clock) asked progress.settled enough behind
    rw [responded, Option.bind_some, returned, Option.bind_some] at run
    obtain ⟨pipe, next, rfl⟩ := Option.map_eq_some_iff.mp run
    obtain ⟨d, stepped, rfl⟩ := Option.map_eq_some_iff.mp next
    simp only [Connection.step, if_pos phase] at stepped
    obtain ⟨waits, closed⟩ := waits_responded head phase some_ ahead stepped
    rw [keep] at closed
    have ends := progress.ends
    rw [if_neg fun closed => by cases phase.symm.trans closed] at ends
    refine ⟨done ++ [(head, currTime)], parts ++ [(wire, a)], ⟨?_, settled, ?_, ?_, ?_, ?_, ?_⟩⟩
    · rw [progress.heads, same, List.map_append, List.append_assoc]
      rfl
    · rw [committed, progress.committed, List.flatMap_append, List.flatMap_singleton]
    · intro part inside
      rcases List.mem_append.mp inside with inside | inside
      · exact progress.reads part inside
      · rw [List.mem_singleton.mp inside]
        exact ⟨wire_, read⟩
    · exact List.rel_append progress.answers (.cons answers .nil)
    · split
      · rename_i ended
        exact ⟨done, (head, currTime), rfl, ends, closed.mp ended⟩
      · rename_i more
        intro d inside
        rcases List.mem_append.mp inside with inside | inside
        · exact ends d inside
        · rw [List.mem_singleton.mp inside]
          exact Bool.eq_true_of_not_eq_false fun ended => more (closed.mpr ended)
    · rw [same]
      exact waits
  · cases run

theorem Progress.socket
    (bodiless : ∀ head ∈ heads, parseMethod head.method ≠ .post)
    (progress : Progress env site heads p done parts) {e : Event}
    (fair : Fair env site p (.socket e))
    (run : p.step env site maxHeadersLength (.socket e) = some t) :
    Progress env site heads t done parts := by
  have waits := progress.waits
  have others : ∀ head ∈ p.pipe.heads, parseMethod head.method ≠ .post := by
    intro head inside
    refine bodiless head ?_
    rw [progress.heads]
    exact List.mem_append_right _ inside
  cases e with
  | go =>
      obtain ⟨pipe, next, rfl⟩ := Option.map_eq_some_iff.mp run
      obtain ⟨d, stepped, rfl⟩ := Option.map_eq_some_iff.mp next
      obtain ⟨later, open_⟩ := waits_go waits others stepped
      refine progress.parsed rfl later open_ fun closed => ?_
      simp only [Connection.step, Connection.go, closed] at stepped
      cases stepped
  | read data =>
      obtain ⟨pipe, next, rfl⟩ := Option.map_eq_some_iff.mp run
      simp only [Pipeline.step] at next
      split at next
      · rename_i begins
        obtain ⟨d, stepped, rfl⟩ := Option.map_eq_some_iff.mp next
        obtain ⟨later, open_⟩ := waits_read waits begins stepped
        refine progress.parsed rfl later open_ fun closed => ?_
        simp only [Connection.step, Connection.afterRead, closed, ite_self] at stepped
        cases stepped
      · cases next
  | noRoom | readError => exact fair.elim
  | responded => cases run

theorem step_progress (proper : site.Proper maxHeadersLength env)
    (bodiless : ∀ head ∈ heads, parseMethod head.method ≠ .post)
    (requests : ∀ head ∈ heads, ∀ currTime, Header.FourDigits currTime →
      (head.request currTime).Proper env) (p : Host H) (e : HostEvent) (t : Host H)
    (progress : ∃ done parts, Progress env site heads p done parts) (fair : Fair env site p e)
    (run : p.step env site maxHeadersLength e = some t) :
    ∃ done parts, Progress env site heads t done parts := by
  obtain ⟨done, parts, progress⟩ := progress
  cases e with
  | socket e => exact ⟨done, parts, progress.socket bodiless fair run⟩
  | respond currTime buffs behind junk => exact progress.respond proper requests fair run

/-! ## Whole conversations -/

/-- What a connection finds in its memory, and its configuration. -/
structure Accepted (H : Type) where
  helper : H
  maxPostBodyLength : UInt32
  mem : Mem Nat Byte
  postHeaderMem : Mem Nat Byte
  currResource : List Byte
  first : Junk
  second : Junk
  writeMem : Mem WriteBlock Byte

/-- A connection which has been accepted, with the requests which its client sends. -/
def start (a : Accepted H) (heads : List RequestHead) : Host H where
  pipe :=
    ⟨.start a.helper a.maxPostBodyLength a.mem a.postHeaderMem a.currResource a.first a.second, heads,
      heads.flatMap RequestHead.bytes⟩
  writeBuff := .start (.init _) a.writeMem

theorem start_progress (a : Accepted H) (heads : List RequestHead) :
    Progress env site heads (start a heads) [] [] := by
  obtain ⟨c, buffer, -, -, -, begun⟩ := start_begun a.helper a.maxPostBodyLength a.mem a.postHeaderMem
    a.currResource a.first a.second
  have ahead : Pipeline.Ahead c heads (heads.flatMap RequestHead.bytes) := by
    constructor
    · rw [buffer]
      exact StreamReadBuff.init_valid _
    · rw [buffer, StreamReadBuff.init_available, List.nil_append]
  have fresh : c.readBuff.relevantLength = 0 := by rw [buffer]; rfl
  obtain ⟨_, same, waits, open_⟩ := waits_nextRequest a.second ahead fresh
  obtain rfl := Option.some.inj (begun.symm.trans same)
  refine ⟨rfl, ⟨.start (by decide) (WriteBuffQueue.empty_init _) _, rfl⟩, rfl, fun _ => nofun, .nil, ?_,
    waits⟩
  have running : (start a heads).pipe.conn.phase ≠ .closed := open_
  rw [if_neg running]
  exact fun _ => nofun

/-- A response is possible whenever the handler is at one. -/
theorem Progress.responds (proper : site.Proper maxHeadersLength env)
    (requests : ∀ head ∈ heads, ∀ currTime, Header.FourDigits currTime →
      (head.request currTime).Proper env)
    (progress : Progress env site heads p done parts) (phase : p.pipe.conn.phase = .respond)
    {currTime : Int} {buffs : List (List Byte)} (behind : Nat → Byte) (junk : Junk)
    (fair : Fair env site p (.respond currTime buffs behind junk)) :
    ∃ t, p.step env site maxHeadersLength (.respond currTime buffs behind junk) = some t ∧
      t.pipe.heads = p.pipe.heads.tail := by
  obtain ⟨clock, enough⟩ := fair
  obtain ⟨head, rest, same, member, asked, some_, ahead⟩ := progress.waiting phase
  obtain ⟨h, result, -, -, responded, returned, -⟩ :=
    respond_arrives proper (requests head member currTime clock) asked progress.settled enough behind
  have goesOn : ∃ d, p.pipe.conn.responded result junk = some d := by
    have served : p.pipe.Served := by
      simp only [Pipeline.Served, phase, same, List.tail_cons]
      exact ⟨some_, ahead⟩
    obtain ⟨fresh, ahead, -⟩ := served.afterResponse phase
    obtain ⟨d, begun, -⟩ := waits_nextRequest junk ahead fresh
    simp only [Connection.responded]
    split
    · split
      · exact ⟨d, begun⟩
      · exact ⟨_, rfl⟩
    · exact ⟨_, rfl⟩
  obtain ⟨d, stepped⟩ := goesOn
  refine ⟨⟨⟨d, p.pipe.heads.tail, p.pipe.coming⟩, h.writeBuff⟩, ?_, rfl⟩
  simp only [step, if_pos phase, responded, returned, Option.bind_some, Pipeline.step, Connection.step,
    stepped, Option.map_some]

/-- A connection which cannot go on has answered all the requests, or there is no room for the rest of
    a header block. -/
theorem Progress.finished (proper : site.Proper maxHeadersLength env)
    (requests : ∀ head ∈ heads, ∀ currTime, Header.FourDigits currTime →
      (head.request currTime).Proper env)
    (progress : Progress env site heads p done parts) (open_ : p.pipe.conn.phase ≠ .closed)
    (stuck : ∀ e, Fair env site p e → p.step env site maxHeadersLength e = none) :
    p.pipe.heads = [] ∨ p.pipe.conn.readBuff.freeLength = 0 := by
  have waits := progress.waits
  cases phase : p.pipe.conn.phase with
  | headers found lineStart =>
      simp only [Waits, phase] at waits
      rcases waits with ⟨empty, -⟩ | ⟨head, rest, c, junk, -, midway⟩
      · exact Or.inl empty
      · by_contra more
        obtain ⟨-, room⟩ := not_or.mp more
        have pos := Nat.lt_of_le_of_lt (Nat.zero_le _) midway.outstanding.1
        obtain ⟨b, coming, stream⟩ := List.exists_cons_of_length_pos pos
        rw [stream, ← List.singleton_append] at midway
        obtain ⟨d, stepped, -⟩ := midway.read rfl (List.cons_ne_nil b []) (Nat.one_le_iff_ne_zero.mpr room)
        have front : [b] <+: p.pipe.coming := stream ▸ ⟨coming, rfl⟩
        have none_ := stuck (.socket (.read [b])) trivial
        simp only [step, Pipeline.step, if_pos front, stepped, Option.map_some, reduceCtorEq] at none_
  | headersDone =>
      have none_ := stuck (.socket .go) trivial
      simp only [step, Pipeline.step, Connection.step, go, phase, Option.map_some, reduceCtorEq] at none_
  | respond =>
      obtain ⟨buffs, enough⟩ :=
        Page.exists_enough (site.currResp env (p.pipe.conn.request 784111777))
      have fair : Fair env site p (.respond 784111777 buffs (fun _ => 0) ⟨0, none⟩) :=
        ⟨ResponseHead.redirection_clock 0, enough⟩
      obtain ⟨t, taken, -⟩ := progress.responds proper requests phase _ _ fair
      rw [stuck _ fair] at taken
      cases taken
  | content | multipart | contentRead | multipartRead => simp only [Waits, phase] at waits
  | closed => exact absurd phase open_

/-- In whatever pieces the requests come, the client reads one response for each of them which has been
    answered, in their order, and sees in it what the site should show. The connection is closed behind
    the first response which does not keep it, and nowhere else; and if it cannot go on, then all the
    requests have been answered, or a header block is longer than the room for it. -/
theorem answered_in_order (proper : site.Proper maxHeadersLength env)
    (bodiless : ∀ head ∈ heads, parseMethod head.method ≠ .post)
    (requests : ∀ head ∈ heads, ∀ currTime, Header.FourDigits currTime →
      (head.request currTime).Proper env) {a : Accepted H} {events : List HostEvent}
    (along : Along (step env site maxHeadersLength) (Fair env site) (start a heads) events)
    (run : exec (step env site maxHeadersLength) (start a heads) events = some t) :
    ∃ done as, heads = done.map Prod.fst ++ t.pipe.heads ∧
      Client.readResponses t.writeBuff.released = some as ∧
      List.Forall₂ (fun answered a => site.Answers env (answered.1.request answered.2) a) done as ∧
      (if t.pipe.conn.phase = .closed then
        ∃ front last, done = front ++ [last] ∧ (∀ answered ∈ front, keeps env site answered = true) ∧
          keeps env site last = false
      else
        (∀ answered ∈ done, keeps env site answered = true) ∧
          ((∀ e, Fair env site t e → t.step env site maxHeadersLength e = none) →
            t.pipe.heads = [] ∨ t.pipe.conn.readBuff.freeLength = 0)) := by
  obtain ⟨done, parts, progress⟩ := along.invariant (step_progress proper bodiless requests)
    ⟨[], [], start_progress a heads⟩ run
  refine ⟨done, parts.map Prod.snd, progress.heads, ?_, List.forall₂_map_right_iff.mpr progress.answers,
    ?_⟩
  · have bytes : t.writeBuff.released = parts.flatMap Prod.fst :=
      progress.settled.written.trans progress.committed
    rw [bytes]
    exact readAll_parts (fun part member => (progress.reads part member).1)
      (fun part member => (progress.reads part member).2)
      (parts_length fun part member => (progress.reads part member).1)
  · have ends := progress.ends
    split
    · rename_i closed
      rwa [if_pos closed] at ends
    · rename_i open_
      rw [if_neg open_] at ends
      exact ⟨ends, progress.finished proper requests open_⟩

def sampleAccepted : Accepted Recorder :=
  ⟨⟨QueryParams.takesAll, []⟩, 65536, fun _ _ => 0, fun _ _ => 0, [], ⟨0, none⟩, ⟨0, none⟩, fun _ _ => 0⟩

theorem getHead_proper (currTime : Int) (clock : Header.FourDigits currTime) :
    ((Pipeline.getHead []).request currTime).Proper Site.samplePlatform := by
  have short : Short (text "/") ∧ 2 * (text "/").length + Site.samplePlatform.ex.1.length +
      Site.samplePlatform.ex.2.length + 200 < Responding.chunkRoom := by decide +kernel
  exact ⟨short.1, short.2, fun _ => nofun, clock⟩

/-- The request for the root is answered with the text. -/
theorem answered_in_order_root : ∃ buffs t currTime a,
    exec (step Site.samplePlatform Site.sampleSite 4096) (start sampleAccepted [Pipeline.getHead []])
      [.socket (.read (Pipeline.getHead []).bytes), .socket .go,
        .respond 784111777 buffs (fun _ => 0) ⟨0, none⟩] = some t ∧
    Client.readResponses t.writeBuff.released = some [a] ∧
    Site.sampleSite.Answers Site.samplePlatform ((Pipeline.getHead []).request currTime) a := by
  have get : ∀ head ∈ [Pipeline.getHead []], parseMethod head.method ≠ .post := by decide
  have requests : ∀ head ∈ [Pipeline.getHead []], ∀ currTime, Header.FourDigits currTime →
      (head.request currTime).Proper Site.samplePlatform :=
    fun head member currTime clock => List.mem_singleton.mp member ▸ getHead_proper currTime clock
  have facts : (exec (step Site.samplePlatform Site.sampleSite 4096)
      (start sampleAccepted [Pipeline.getHead []])
      [.socket (.read (Pipeline.getHead []).bytes), .socket .go]).map
        (fun p => (p.pipe.conn.phase, p.pipe.heads.length)) = some (.respond, 1) := by decide +kernel
  obtain ⟨mid, parsed, same⟩ := Option.map_eq_some_iff.mp facts
  obtain ⟨phase, left⟩ := Prod.mk.inj same
  obtain ⟨buffs, enough⟩ := Page.exists_enough
    (Site.sampleSite.currResp Site.samplePlatform (mid.pipe.conn.request 784111777))
  have fair : Fair Site.samplePlatform Site.sampleSite mid
      (.respond 784111777 buffs (fun _ => 0) ⟨0, none⟩) := ⟨ResponseHead.redirection_clock 0, enough⟩
  obtain ⟨first, read, rest⟩ := exec_cons_some.mp parsed
  obtain ⟨second, go, last⟩ := exec_cons_some.mp rest
  obtain rfl := Option.some.inj last
  have along : Along (step Site.samplePlatform Site.sampleSite 4096)
      (Fair Site.samplePlatform Site.sampleSite) (start sampleAccepted [Pipeline.getHead []])
      [.socket (.read (Pipeline.getHead []).bytes), .socket .go,
        .respond 784111777 buffs (fun _ => 0) ⟨0, none⟩] := by
    refine ⟨trivial, fun p taken => ?_⟩
    obtain rfl := Option.some.inj (read.symm.trans taken)
    refine ⟨trivial, fun p taken => ?_⟩
    obtain rfl := Option.some.inj (go.symm.trans taken)
    exact ⟨fair, fun _ _ => trivial⟩
  have before : Along (step Site.samplePlatform Site.sampleSite 4096)
      (Fair Site.samplePlatform Site.sampleSite) (start sampleAccepted [Pipeline.getHead []])
      [.socket (.read (Pipeline.getHead []).bytes), .socket .go] :=
    ⟨trivial, fun _ _ => ⟨trivial, fun _ _ => trivial⟩⟩
  obtain ⟨done, parts, progress⟩ := before.invariant
    (step_progress Site.sampleSite_proper get requests) ⟨[], [], start_progress _ _⟩ parsed
  obtain ⟨t, responded, tail⟩ := progress.responds Site.sampleSite_proper requests phase (fun _ => 0)
    ⟨0, none⟩ fair
  have run : exec (step Site.samplePlatform Site.sampleSite 4096)
      (start sampleAccepted [Pipeline.getHead []]) [.socket (.read (Pipeline.getHead []).bytes),
        .socket .go, .respond 784111777 buffs (fun _ => 0) ⟨0, none⟩] = some t :=
    exec_cons_some.mpr ⟨first, read, exec_cons_some.mpr ⟨second, go,
      exec_cons_some.mpr ⟨t, responded, rfl⟩⟩⟩
  obtain ⟨done, as, heads, seen, answers, -⟩ :=
    answered_in_order Site.sampleSite_proper get requests along run
  have none_ : t.pipe.heads = [] := by
    rw [tail, ← List.length_eq_zero_iff, List.length_tail, left]
  rw [none_, List.append_nil] at heads
  obtain ⟨⟨head, currTime⟩, rest, rfl, rfl, later⟩ := List.map_eq_cons_iff.mp heads.symm
  obtain rfl := List.map_eq_nil_iff.mp later
  obtain ⟨a, more, here, none_, rfl⟩ := List.forall₂_cons_left_iff.mp answers
  obtain rfl := List.forall₂_nil_left_iff.mp none_
  exact ⟨buffs, t, currTime, a, run, seen, here⟩

end Host

end MiniWebSrv.HTTP
