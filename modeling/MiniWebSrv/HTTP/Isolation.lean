import MiniWebSrv.HTTP.LeftOvers
import MiniWebSrv.HTTP.Pipelining
import MiniWebSrv.HTTP.RequestOutcome

/-! # Requests one after the other

What `Create` gets for a request does not depend on the requests before it on the connection, with
three exceptions. `ContentBuff` is set by POST requests only, and stays for the ones behind them;
`FMParseState` stays for a form which has something before its first delimiter; and the buffer, in
which an earlier request has made room, may move under the headers.
-/

namespace MiniWebSrv.HTTP

open Run Pieces Word

/-! ## The delimiter of a form -/

namespace Header

namespace KeyValueParser

variable {p : KeyValueParser} {n : Nat}

/-- Nothing has been read which is longer. -/
def Short (n : Nat) (p : KeyValueParser) : Prop :=
  p.value.length ≤ n ∧ ∀ item ∈ p.consumed, ∀ value ∈ item.2, value.length ≤ n

theorem Short.consume (short : p.Short n) {value : Option (List Byte)}
    (fits : ∀ v ∈ value, v.length ≤ n) : (p.consume value).Short n := by
  refine ⟨short.1, fun item inside => ?_⟩
  rcases List.mem_append.mp inside with old | new
  · exact short.2 item old
  · obtain rfl := List.mem_singleton.mp new
    exact fits

theorem Short.step (short : p.Short n) (c : Byte) : (p.step c).Short (n + 1) := by
  have later : p.Short (n + 1) :=
    ⟨Nat.le_succ_of_le short.1, fun item inside value some_ =>
      Nat.le_succ_of_le (short.2 item inside value some_)⟩
  have longer : ∀ bytes : List Byte, bytes.length ≤ n + 1 →
      ∀ state, ({ p with state := state, value := bytes } : KeyValueParser).Short (n + 1) :=
    fun bytes fits state => ⟨fits, later.2⟩
  unfold KeyValueParser.step
  split
  · split
    · exact later
    · exact later
  · split
    · exact later
    · split
      · exact later
      · split
        · exact later.consume nofun
        · exact later
  · split
    · exact later
    · split
      · exact later.consume nofun
      · split
        · exact later
        · exact later
  · split
    · split
      · exact longer [] (Nat.zero_le _) _
      · exact longer [c] (Nat.succ_le_succ (Nat.zero_le n)) _
    · split
      · exact later.consume fun v some_ => Option.some.inj some_ ▸ Nat.zero_le _
      · exact later
  · split
    · exact later.consume fun v some_ => Option.some.inj some_ ▸ later.1
    · exact longer _ (by rw [List.length_append]; exact Nat.succ_le_succ short.1) _
  · split
    · exact later.consume fun v some_ => Option.some.inj some_ ▸ later.1
    · exact longer _ (by rw [List.length_append]; exact Nat.succ_le_succ short.1) _

theorem Short.steps (short : p.Short n) (bytes : List Byte) :
    (bytes.foldl KeyValueParser.step p).Short (n + bytes.length) := by
  induction bytes generalizing p n with
  | nil => exact short
  | cons c rest ih =>
      have next := ih (short.step c)
      rw [Nat.add_assoc, Nat.add_comm 1] at next
      exact next

theorem Short.finish (short : p.Short n) : p.finish.Short n := by
  unfold KeyValueParser.finish
  split
  · exact short.consume fun v some_ => Option.some.inj some_ ▸ short.1
  · exact short.consume fun v some_ => Option.some.inj some_ ▸ short.1
  · exact short

end KeyValueParser

theorem singleKeyExtractor_length {key target : List Byte}
    {consumed : List (List Byte × Option (List Byte))} {n : Nat} (start : target.length ≤ n)
    (short : ∀ item ∈ consumed, ∀ value ∈ item.2, value.length ≤ n) :
    (singleKeyExtractor key target consumed).length ≤ n := by
  unfold singleKeyExtractor
  induction consumed generalizing target with
  | nil => exact start
  | cons item rest ih =>
      rw [List.foldl_cons]
      refine ih ?_ fun item inside => short item (List.mem_cons_of_mem _ inside)
      split
      · rename_i value same
        split
        · exact short item List.mem_cons_self value same
        · exact start
      · exact start

theorem getContentType_boundary {value outBoundary boundary : List Byte}
    (form : getContentType value outBoundary = (.formMultipart, boundary)) :
    boundary.length ≤ value.length := by
  simp only [getContentType] at form
  split at form
  · split at form
    · obtain ⟨-, rfl⟩ := Prod.mk.inj form
      have short : ({} : KeyValueParser).Short 0 := ⟨Nat.le_refl _, nofun⟩
      have all := (short.steps (value.dropWhile (· ≠ ch ';'))).finish
      rw [Nat.zero_add] at all
      have part := (List.dropWhile_suffix (l := value) (· ≠ ch ';')).length_le
      exact Nat.le_trans (singleKeyExtractor_length (Nat.zero_le _) all.2) part
    · split at form
      · cases (Prod.mk.inj form).1
      · cases (Prod.mk.inj form).1
  · split at form
    · cases (Prod.mk.inj form).1
    · cases (Prod.mk.inj form).1

end Header

namespace RequestHead

/-- A form has the delimiter of a boundary which one of the values contains. -/
theorem searchFields_delimiter {n length length' : Nat} {boundary boundary' : List Byte}
    {found found' : Connection.HeaderSearch} {fields : List (HeaderName × List Byte)}
    (short : ∀ field ∈ fields, field.2.length ≤ n)
    (before : found.contentType = .formMultipart → ∃ b, boundary = delimiter b ∧ b.length ≤ n)
    (search : searchFields length boundary found fields = some (length', boundary', found'))
    (form : found'.contentType = .formMultipart) :
    ∃ b, boundary' = delimiter b ∧ b.length ≤ n := by
  fun_induction searchFields length boundary found fields with
  | case1 | case2 =>
      obtain ⟨-, same⟩ := Prod.mk.inj (Option.some.inj search)
      obtain ⟨rfl, rfl⟩ := Prod.mk.inj same
      exact before form
  | case3 => cases search
  | case4 =>
      rename_i ih
      exact ih (fun field inside => short field (List.mem_cons_of_mem _ inside)) before search
  | case5 length boundary found value rest =>
      rename_i ih
      refine ih (fun field inside => short field (List.mem_cons_of_mem _ inside)) ?_ search
      intro isForm
      have typed : Header.getContentType value boundary =
          (.formMultipart, (Header.getContentType value boundary).2) := Prod.ext isForm rfl
      exact ⟨_, rfl, Nat.le_trans (Header.getContentType_boundary typed)
        (short _ List.mem_cons_self)⟩
  | case6 =>
      rename_i ih
      exact ih (fun field inside => short field (List.mem_cons_of_mem _ inside)) before search

theorem fields_short (head : RequestHead) : ∀ field ∈ head.fields,
    field.2.length ≤ head.bytes.length := by
  intro field inside
  obtain ⟨h, there, rfl⟩ := List.mem_map.mp inside
  obtain ⟨left, right, lines⟩ := List.append_of_mem there
  have line : h.value.length ≤ h.line.length := by
    simp only [HeaderLine.line, List.length_append, List.length_cons]
    omega
  simp only [bytes, lines, HeaderLine.join_append, HeaderLine.join_cons, List.length_append,
    List.length_cons]
  omega

theorem announced_delimiter {head : RequestHead} {length : Nat} {boundary : List Byte}
    {found : Connection.HeaderSearch} (announced : head.announced = some (length, boundary, found))
    (form : found.contentType = .formMultipart) :
    ∃ b, boundary = delimiter b ∧ (delimiter b).length ≤ head.bytes.length + 4 := by
  obtain ⟨b, rfl, short⟩ := searchFields_delimiter head.fields_short
    (fun none_ => ContentType.noConfusion none_) announced form
  have length : (delimiter b).length = b.length + 4 := by
    simp only [delimiter, List.length_append]
    exact Nat.add_comm 4 b.length
  exact ⟨b, rfl, by omega⟩

/-! ## Left-over members -/

variable {H : Type} {head : RequestHead} {q : QueryParams H} {body : List (List Byte)}

/-- If the body is a form, no byte of it goes to a part before the first new part. -/
def DelimiterFirst (head : RequestHead) (q : QueryParams H) (body : List (List Byte)) : Prop :=
  Connection.parseMethod head.method = .post → ∀ length boundary found,
    head.announced = some (length, boundary, found) → found.contentType = .formMultipart →
      length ≠ 0 → ∀ q', head.queryOf q = some q' →
        Quiet (q'.matcher.handOvers boundary body).2

/-- So it is if the form begins with its delimiter, with the line end before it or without it, and
    the matcher has kept no more of the query string than it counts. -/
theorem delimiterFirst_of_begins (waiting : q.boundaryParseCounter = 2)
    (short : head.bytes.length + 4 < size32) (begins : ∀ length boundary found,
      head.announced = some (length, boundary, found) → found.contentType = .formMultipart →
        ∀ q', head.queryOf q = some q' →
          (q'.parseTmp.length ≤ 2 ∧ boundary.drop 2 <+: body.flatten) ∨
            (q'.parseTmp = [] ∧ boundary <+: body.flatten)) : head.DelimiterFirst q body := by
  intro post length boundary found announced form notEmpty q' query
  obtain ⟨b, rfl, long⟩ := announced_delimiter announced form
  have counter : q'.boundaryParseCounter = 2 := by
    obtain ⟨_, _, rfl⟩ := queryOf_params query
    exact waiting
  have inside : 2 < (delimiter b).length := Nat.succ_lt_succ (Nat.succ_lt_succ (Nat.succ_pos _))
  have matcher : q'.matcher = ⟨2, q'.parseTmp⟩ := congrArg (Matcher.mk · q'.parseTmp) counter
  have few := Nat.lt_of_le_of_lt long short
  rw [matcher]
  rcases begins length _ found announced form q' query with ⟨kept, front⟩ | ⟨kept, front⟩
  · exact (Matcher.handOvers_first (m := ⟨2, q'.parseTmp⟩) few front inside (Nat.succ_ne_zero 1)
      kept).quiet
  · rw [kept]
    exact (Matcher.handOvers_newLine few front).quiet

/-- The two maps, and the content. -/
def filled (r : QueryParams H × Option (List Byte)) :
    StringMap (List Byte) × StringMap File × Option (List Byte) :=
  (r.1.paramMap, r.1.fileMap, r.2)

theorem queryOf_leftOver (state : FMParseState) (junk : Nat × Option (List Byte)) :
    head.queryOf (q.leftOver state junk) =
      (head.queryOf q).map fun q => q.leftOver state junk := by
  unfold queryOf
  split
  · rfl
  · exact QueryParams.addURLEncoded_leftOver _ _ _ _

theorem posted_leftOver [FileUploadHelper H] (delimited : ∀ length boundary found,
      head.announced = some (length, boundary, found) → found.contentType = .formMultipart →
        length ≠ 0 → Quiet (q.matcher.handOvers boundary body).2)
    (state : FMParseState) (junk : Nat × Option (List Byte)) :
    (head.posted (q.leftOver state junk) body).map filled = (head.posted q body).map filled := by
  simp only [posted]
  cases announced : head.announced with
  | none => rfl
  | some result =>
      obtain ⟨length, boundary, found⟩ := result
      simp only [Option.bind_some]
      by_cases zero : length = 0
      · simp only [if_pos zero]
        rfl
      · simp only [if_neg zero]
        by_cases form : found.contentType = .formMultipart
        · simp only [if_pos form]
          have maps := QueryParams.appendAll_leftOver (q := { q with boundaryStr := boundary })
            (delimited length boundary found announced form zero) state junk
          exact congrArg some (Prod.ext maps.1 (Prod.ext maps.2 rfl))
        · simp only [if_neg form]
          have added := QueryParams.addURLEncoded_leftOver { q with boundaryStr := boundary }
            body.flatten state junk
          by_cases encoded : found.contentType = .urlEncoded
          · simp only [if_pos encoded]
            have same : ({ q.leftOver state junk with boundaryStr := boundary } :
                QueryParams H).addURLEncoded body.flatten = _ := added
            rw [same, Option.map_map, Option.map_map, Option.map_map]
            rfl
          · simp only [if_neg encoded]
            rfl

theorem outcome_leftOver [FileUploadHelper H] (delimited : head.DelimiterFirst q body) (state : FMParseState) (junk : Nat × Option (List Byte)) :
    (head.outcome (q.leftOver state junk) body).map filled =
      (head.outcome q body).map filled := by
  simp only [outcome, queryOf_leftOver]
  cases query : head.queryOf q with
  | none => rfl
  | some q' =>
      simp only [Option.map_some, Option.bind_some]
      by_cases post : Connection.parseMethod head.method = .post
      · simp only [if_pos post]
        exact posted_leftOver (fun length boundary found announced form notEmpty =>
          delimited post length boundary found announced form notEmpty q' query) state junk
      · simp only [if_neg post]
        rfl

/-- Two outcomes of the same body fill the maps alike. -/
theorem filled_again [FileUploadHelper H] {state : FMParseState} {junk : Nat × Option (List Byte)}
    {r r' : QueryParams H × Option (List Byte)}
    (formBegins : head.DelimiterFirst q body ∨ q.leftOver state junk = q)
    (outcome : head.outcome q body = some r)
    (outcome' : head.outcome (q.leftOver state junk) body = some r') : filled r' = filled r := by
  rcases formBegins with delimited | unchanged
  · have outcomes := outcome_leftOver delimited state junk
    rw [outcome, outcome'] at outcomes
    exact Option.some.inj outcomes
  · rw [unchanged] at outcome'
    exact congrArg filled (Option.some.inj (outcome'.symm.trans outcome))

end RequestHead

namespace Connection

variable {H : Type} [FileUploadHelper H] {c b t : Connection H} {head : RequestHead}

/-! ## From one request to the next -/

/-- The pieces behind the header block; the first of all pieces is in the buffer already. -/
def behind (head : RequestHead) (ahead : List Byte) (events : List Event) : List (List Byte) :=
  dropFirst head.bytes.length (ahead :: pieces events)

/-- The bytes of a request come, some of them with the request before it, and the response handler
    is reached. -/
structure Asks (head : RequestHead) (ahead : List Byte) (b : Connection H) (events : List Event)
    (t : Connection H) : Prop where
  within : ∀ e ∈ events, e.Within
  stream : head.bytes <+: ahead ++ received events
  run : exec step b events = some t
  asked : t.phase = .respond

/-- A run from the beginning of a request to the response handler. -/
theorem exec_asks {junk : Junk} {events : List Event} (valid : c.readBuff.Valid)
    (static : c.readBuff.Static) (fresh : c.readBuff.relevantLength = 0)
    (begun : c.nextRequest junk = some b) (asks : Asks head c.readBuff.available b events t)
    (stay : (c.readBuff.readBuff = 0 ∧ c.readBuff.readPos = 0) ∨ Along step StringsStay b events) :
    t.currMethod = parseMethod head.method ∧ t.currResource = head.path ∧
      t.strings = head.strings ∧
      (parseMethod head.method = .post ∨ t.content = c.content) ∧
      head.outcome (c.resetRequestData junk).currQuery
        (head.bodyOf (behind head c.readBuff.available events)) = some (t.currQuery,
          if parseMethod head.method = .post then t.contentBytes else none) := by
  obtain ⟨rest, stream⟩ := asks.stream
  obtain ⟨d, same, advanced⟩ := nextRequest_reached junk valid fresh stream.symm
  obtain rfl := Option.some.inj (same.symm.trans begun)
  have parsed : ∃ mid later rest, Complete head (c.resetRequestData junk) mid rest ∧
      (∀ e ∈ later, e.Within) ∧ exec step mid later = some t ∧
      ((c.readBuff.readBuff = 0 ∧ c.readBuff.readPos = 0) ∨ Along step StringsStay mid later) ∧
      behind head c.readBuff.available events = rest :: pieces later := by
    rcases stay with first | stay
    · have along : Along step (fun _ _ => True) d events :=
        along_of_forall (fun _ _ => trivial) d events
      obtain ⟨mid, later, rest, complete, inside, -, run, dropped⟩ :=
        exec_head rfl advanced stream.symm asks.within along asks.run asks.asked
      exact ⟨mid, later, rest, complete, inside, run, Or.inl first, dropped⟩
    · obtain ⟨mid, later, rest, complete, inside, stay, run, dropped⟩ :=
        exec_head rfl advanced stream.symm asks.within stay asks.run asks.asked
      exact ⟨mid, later, rest, complete, inside, run, Or.inr stay, dropped⟩
  obtain ⟨mid, later, rest, complete, inside, run, stay, dropped⟩ := parsed
  have static : mid.readBuff.Static := fun first =>
    complete.start.room.trans (static (complete.start.block.symm.trans first))
  rw [dropped]
  exact exec_request complete static rfl rfl inside stay run asks.asked

/-- Behind a response the next request begins, if there is one. -/
theorem responded_begun {junk : Junk} {head : RequestHead} {ahead : List Byte}
    {events : List Event} (valid : c.readBuff.Valid)
    (kept : c.step (.responded true junk) = some b) (asks : Asks head ahead b events t) :
    c.readBuff.resetRelevant.relevantLength = 0 ∧
      ({ c with readBuff := c.readBuff.resetRelevant } : Connection H).nextRequest junk = some b := by
  constructor
  · have relevant := valid.relevant
    unfold StreamReadBuff.resetRelevant
    split
    · split <;> rfl
    · rename_i nothing
      omega
  · simp only [step, responded, if_true] at kept
    split at kept
    · split at kept
      · exact kept
      · obtain rfl := Option.some.inj kept
        obtain ⟨-, rfl⟩ := exec_over (Or.inr rfl) asks.within asks.run
        cases asks.asked
    · cases kept

/-- A request which has come up to the response handler behind other ones. -/
inductive Served : Connection H → Prop
  | first {head : RequestHead} {helper : H} {limit : UInt32} {mem postHeaderMem : Mem Nat Byte}
      {resource : List Byte} {one two : Junk} {events : List Event} {t : Connection H}
      (asks : Asks head [] (start helper limit mem postHeaderMem resource one two) events t) :
      Served t
  | next {c b t : Connection H} {head : RequestHead} {junk : Junk} {events : List Event}
      (served : Served c) (kept : c.step (.responded true junk) = some b)
      (asks : Asks head c.readBuff.available b events t) : Served t

theorem Served.reachable (served : Served c) : Reachable c := by
  induction served with
  | first asks => exact ⟨_, _, _, _, _, _, _, _, asks.run⟩
  | next served kept asks ih =>
      obtain ⟨helper, limit, mem, postHeaderMem, resource, one, two, events, run⟩ := ih
      exact ⟨helper, limit, mem, postHeaderMem, resource, one, two, _,
        exec_append_some.mpr ⟨_, run, exec_cons_some.mpr ⟨_, kept, asks.run⟩⟩⟩

/-- The arguments of `Create`. The content is `none` where `ContentBuff` is null. -/
structure Arguments where
  method : Method
  resource : List Byte
  paramMap : StringMap (List Byte)
  fileMap : StringMap File
  headers : List (HeaderName × Option (List Byte) × Option (List Byte))
  content : Option (List Byte)
  deriving DecidableEq

omit [FileUploadHelper H] in
def arguments (c : Connection H) : Arguments :=
  ⟨c.currMethod, c.currResource, c.currQuery.paramMap, c.currQuery.fileMap, c.strings,
    c.contentBytes⟩

/-- A connection begins with a request. -/
theorem start_begun (helper : H) (limit : UInt32) (mem postHeaderMem : Mem Nat Byte)
    (resource : List Byte) (one two : Junk) : ∃ c : Connection H, c.readBuff = .init _ mem ∧
      c.content = none ∧ c.currQuery.fmParseState = .headerStart ∧ c.currQuery.helper = helper ∧
      c.nextRequest two = some (start helper limit mem postHeaderMem resource one two) :=
  ⟨{ phase := .headers false 0
     currVersion := .v11
     currMethod := .unknown
     currResource := resource
     currQuery := .init helper one.fmParseCounter one.currFMPart
     contentLength := 0
     content := none
     headerA := []
     readBuff := .init _ mem
     postHeaders := 0
     postHeaderLength := 0
     postHeaderMem := postHeaderMem
     maxPostBodyLength := limit
     handed := [] }, rfl, rfl, rfl, rfl, rfl⟩

/-- `Create` gets for a request what it would get for it on a connection of its own, whatever has
    been served before, just if `ContentBuff` is set again or has not been set. That is so as long
    as no byte of a form goes to a part before the first delimiter, or the form finds the members
    which are left over just as it would find them there, and the buffer does not move under the
    headers. -/
theorem create_isolated_iff {c b t t' : Connection H} {head : RequestHead} {junk one two : Junk}
    {events events' : List Event} {helper : H} {limit : UInt32} {mem postHeaderMem : Mem Nat Byte}
    {resource : List Byte} (served : Served c) (kept : c.step (.responded true junk) = some b)
    (asks : Asks head c.readBuff.available b events t)
    (alone : Asks head [] (start helper limit mem postHeaderMem resource one two) events' t')
    (system : FileUploadHelper.default c.currQuery.helper = FileUploadHelper.default helper)
    (body : head.bodyOf (behind head c.readBuff.available events) =
      head.bodyOf (behind head [] events'))
    (stay : Along step StringsStay b events)
    (formBegins : head.DelimiterFirst (c.resetRequestData junk).currQuery
        (head.bodyOf (behind head c.readBuff.available events)) ∨
      (c.currQuery.fmParseState = .headerStart ∧ two = junk)) :
    t.arguments = t'.arguments ↔ parseMethod head.method = .post ∨ c.content = none := by
  have parsing := served.reachable.parsing
  obtain ⟨fresh, begun⟩ := responded_begun parsing.valid kept asks
  obtain ⟨valid, available⟩ := StreamReadBuff.resetRelevant_keeps parsing.valid
  obtain ⟨method, resource_, strings, content, outcome⟩ := exec_asks
    (c := { c with readBuff := c.readBuff.resetRelevant }) valid
    (StreamReadBuff.resetRelevant_static parsing.static) fresh begun (by rw [available]; exact asks)
    (Or.inr stay)
  obtain ⟨d, buffer, none_, state, same, begun'⟩ :=
    start_begun helper limit mem postHeaderMem resource one two
  obtain ⟨method', resource', strings', content', outcome'⟩ := exec_asks (c := d)
    (by rw [buffer]; exact StreamReadBuff.init_valid mem)
    (by rw [buffer]; exact StreamReadBuff.init_static mem) (by rw [buffer]; rfl) begun'
    (by rw [buffer]; exact alone) (Or.inl (by rw [buffer]; exact ⟨rfl, rfl⟩))
  have query : (d.resetRequestData two).currQuery = (c.resetRequestData junk).currQuery.leftOver
      .headerStart (two.fmParseCounter, two.currFMPart) := by
    simp only [resetRequestData, QueryParams.assign, QueryParams.leftOver, QueryParams.init, state,
      same, system]
  have stream : ({ c with readBuff := c.readBuff.resetRelevant } :
      Connection H).readBuff.available = c.readBuff.available := available
  rw [buffer, StreamReadBuff.init_available, ← body, query] at outcome'
  rw [stream] at outcome
  have unchanged : c.currQuery.fmParseState = .headerStart ∧ two = junk →
      (c.resetRequestData junk).currQuery.leftOver .headerStart
        (two.fmParseCounter, two.currFMPart) = (c.resetRequestData junk).currQuery := by
    rintro ⟨unchanged, rfl⟩
    simp only [resetRequestData, QueryParams.assign, QueryParams.leftOver, QueryParams.init,
      unchanged]
  have filled := RequestHead.filled_again (formBegins.imp_right unchanged) outcome outcome'
  simp only [RequestHead.filled, Prod.mk.injEq] at filled
  obtain ⟨paramMap, fileMap, bytes⟩ := filled
  simp only [arguments, method, method', resource_, resource', strings, strings', paramMap, fileMap,
    Arguments.mk.injEq, true_and]
  by_cases post : parseMethod head.method = .post
  · rw [if_pos post, if_pos post] at bytes
    exact iff_of_true bytes.symm (Or.inl post)
  · have bare : t'.contentBytes = none := by
      rw [contentBytes, content'.resolve_left post, none_, Option.map_none]
    have left : t.content = c.content := content.resolve_left post
    rw [bare, contentBytes, Option.map_eq_none_iff, left]
    exact ⟨Or.inr, fun free => free.resolve_left post⟩

open Pipeline (getHead started)

/-- A name and a value for a header line. -/
def Plain (name value : List Byte) : Prop :=
  name ≠ [] ∧ (∀ b ∈ name, ¬Ends b ∧ b ≠ ch ':') ∧ (∀ b ∈ value, ¬Ends b) ∧
    value.head? ≠ some (ch ' ')

instance (name value : List Byte) : Decidable (Plain name value) :=
  inferInstanceAs (Decidable (_ ∧ _))

def plainLine (name value : List Byte) (plain : Plain name value) : HeaderLine where
  name := name
  spaces := 1
  value := value
  named := plain.1
  nameFree := plain.2.1
  valueFree := plain.2.2.1
  start := plain.2.2.2

theorem post_free : ∀ b ∈ text "POST", ¬Ends b ∧ b ≠ ch ' ' := by decide +kernel

theorem host_plain : Plain (text "Host") (text "h") := by decide +kernel

def hostLine : HeaderLine := plainLine (text "Host") (text "h") host_plain

/-- A POST request for the root. -/
def postHead (lines : List HeaderLine) : RequestHead :=
  { getHead lines with
    method := text "POST"
    methodFree := post_free }

theorem form_plain : Plain (text "Content-Type") (text "multipart/form-data; boundary=b") := by
  decide +kernel

theorem length_plain : Plain (text "Content-Length") (text "57") := by decide +kernel

def formHead : RequestHead := postHead [hostLine, plainLine _ _ form_plain, plainLine _ _ length_plain]

def formBody (name value : String) : List Byte :=
  text "--b" ++ [cr, lf] ++ text "Content-Disposition: form-data; name=\"" ++ text name ++
    text "\"" ++ [cr, lf, cr, lf] ++ text value ++ [cr, lf] ++ text "--b--"

/-- All of a request comes with one read. -/
def atOnce (head : RequestHead) (body : List Byte) : List Event :=
  [.read (head.bytes ++ body), .go, .go]

theorem atOnce_asks {head : RequestHead} {body : List Byte} {b t : Connection Recorder}
    (run : exec step b (atOnce head body) = some t) (asked : t.phase = .respond) :
    Asks head [] b (atOnce head body) t := by
  refine ⟨by simp [atOnce, Event.Within], ?_, run, asked⟩
  simp only [atOnce, received, List.flatMap_cons, List.flatMap_nil, List.append_nil, List.nil_append]
  exact List.prefix_append _ _

/-- Another connection which is started with the same upload helper. -/
def another (c : Connection Recorder) : Connection Recorder :=
  start c.currQuery.helper 65536 (fun _ _ => 0) (fun _ _ => 0) [] ⟨0, none⟩ ⟨0, none⟩

/-- A form behind another one, which has left `FMParseState` at its end. -/
theorem create_isolated_iff_forms : ∃ c b t t' : Connection Recorder,
    exec step started (atOnce formHead (formBody "a" "v")) = some c ∧
    c.currQuery.fmParseState = .finished ∧ c.step (.responded true ⟨0, none⟩) = some b ∧
    exec step b (atOnce formHead (formBody "c" "w")) = some t ∧
    exec step c.another (atOnce formHead (formBody "c" "w")) = some t' ∧
    t.arguments = t'.arguments ∧ t.arguments.paramMap = [(text "c", text "w")] := by
  have facts : ((exec step started (atOnce formHead (formBody "a" "v"))).bind fun c =>
      (c.step (.responded true ⟨0, none⟩)).bind fun b =>
        (exec step b (atOnce formHead (formBody "c" "w"))).bind fun t =>
          (exec step c.another (atOnce formHead (formBody "c" "w"))).map fun t' =>
            (decide (c.phase = .respond ∧ c.currQuery.fmParseState = .finished ∧
                c.readBuff.available = []),
              decide (t.phase = .respond ∧ t.currQuery.paramMap = [(text "c", text "w")] ∧
                t'.phase = .respond),
              decide (Along step StringsStay b (atOnce formHead (formBody "c" "w"))))) =
      some (true, true, true) := by
    decide +kernel
  have announced : formHead.announced =
      some (57, delimiter (text "b"), ⟨true, true, .formMultipart⟩) := by decide +kernel
  have begins : (delimiter (text "b")).drop 2 <+: (formHead.bodyOf (behind formHead []
      (atOnce formHead (formBody "c" "w")))).flatten := by decide +kernel
  obtain ⟨c, first, facts⟩ := Option.bind_eq_some_iff.mp facts
  obtain ⟨b, kept, facts⟩ := Option.bind_eq_some_iff.mp facts
  obtain ⟨t, run, facts⟩ := Option.bind_eq_some_iff.mp facts
  obtain ⟨t', run', facts⟩ := Option.map_eq_some_iff.mp facts
  simp only [Prod.mk.injEq, decide_eq_true_eq] at facts
  obtain ⟨⟨phase, finished, drained⟩, ⟨asked, paramMap, asked'⟩, stay⟩ := facts
  refine ⟨c, b, t, t', first, finished, kept, run, run', ?_, paramMap⟩
  refine (create_isolated_iff (.first (atOnce_asks first phase)) kept
    (by rw [drained]; exact atOnce_asks run asked) (atOnce_asks run' asked') rfl
    (by rw [drained]) stay (Or.inl ?_)).mpr (Or.inl (by decide +kernel))
  refine RequestHead.delimiterFirst_of_begins rfl (by decide +kernel) ?_
  intro length boundary found same _ q query
  rw [announced] at same
  obtain ⟨-, same⟩ := Prod.mk.inj (Option.some.inj same)
  obtain ⟨rfl, -⟩ := Prod.mk.inj same
  obtain rfl := Option.some.inj query
  exact Or.inl ⟨Nat.zero_le 2, by rw [drained]; exact begins⟩

theorem length_one_plain : Plain (text "Content-Length") (text "1") := by decide +kernel

/-- A POST with a body of one byte leaves it to the GET behind it. -/
theorem content_left_over :
    ¬∀ (c b t t' : Connection Recorder) (head : RequestHead) (junk one two : Junk)
      (events events' : List Event) (helper : Recorder) (limit : UInt32)
      (mem postHeaderMem : Mem Nat Byte) (resource : List Byte), Served c →
      c.step (.responded true junk) = some b → Asks head c.readBuff.available b events t →
      Asks head [] (start helper limit mem postHeaderMem resource one two) events' t' →
      FileUploadHelper.default c.currQuery.helper = FileUploadHelper.default helper →
      behind head c.readBuff.available events = behind head [] events' →
      t.arguments = t'.arguments := by
  intro isolated
  let post : RequestHead := postHead [hostLine, plainLine _ _ length_one_plain]
  let get : RequestHead := getHead [hostLine]
  let events : List Event := [.read get.bytes, .go]
  have facts : ((exec step started (atOnce post (text "x"))).bind fun c =>
      (c.step (.responded true ⟨0, none⟩)).bind fun b =>
        (exec step b events).bind fun t => (exec step c.another events).map fun t' =>
          (decide (c.phase = .respond ∧ c.readBuff.available = []),
            decide (t.phase = .respond ∧ t'.phase = .respond),
            decide (t.contentBytes = t'.contentBytes))) = some (true, true, false) := by
    decide +kernel
  obtain ⟨c, first, facts⟩ := Option.bind_eq_some_iff.mp facts
  obtain ⟨b, kept, facts⟩ := Option.bind_eq_some_iff.mp facts
  obtain ⟨t, run, facts⟩ := Option.bind_eq_some_iff.mp facts
  obtain ⟨t', run', facts⟩ := Option.map_eq_some_iff.mp facts
  simp only [Prod.mk.injEq, decide_eq_true_eq, decide_eq_false_iff_not] at facts
  obtain ⟨⟨phase, drained⟩, ⟨asked, asked'⟩, different⟩ := facts
  have within : ∀ e ∈ events, e.Within := by simp [events, Event.Within]
  have stream : get.bytes <+: [] ++ received events := by
    simp only [events, received, List.flatMap_cons, List.flatMap_nil, List.append_nil,
      List.nil_append]
    exact List.prefix_refl _
  have same := isolated c b t t' get ⟨0, none⟩ ⟨0, none⟩ ⟨0, none⟩ events events c.currQuery.helper
    65536 (fun _ _ => 0) (fun _ _ => 0) [] (.first (atOnce_asks first phase)) kept
    (by rw [drained]; exact ⟨within, stream, run, asked⟩) ⟨within, stream, run', asked'⟩ rfl
    (by rw [drained])
  exact different (congrArg Arguments.content same)

end Connection

end MiniWebSrv.HTTP
