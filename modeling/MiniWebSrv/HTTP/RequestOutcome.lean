import MiniWebSrv.HTTP.HeaderStrings
import MiniWebSrv.HTTP.QueryStates
import MiniWebSrv.Lib.Pieces

/-! # What a request asks for

By its bytes alone, a request with a well-formed header block says what its parameters, its files
and its content are. A connection which gets as far as the response handler has just these,
whatever the buffer looked like, and however the reads fell inside the header block.
-/

namespace MiniWebSrv.HTTP

open Run Pieces

namespace QueryParams

variable {H : Type} [FileUploadHelper H]

theorem appendFormMultipart_nil (q : QueryParams H) : q.appendFormMultipart [] = q := by
  simp only [appendFormMultipart, matchFrom, List.take_nil, List.drop_nil, List.append_nil,
    appendToCurrentPart, true_or, if_true, ne_eq, not_true_eq_false, if_false]
  split <;> rfl

end QueryParams

theorem HeaderLine.headers_block {block off : Nat} {lines : List HeaderLine} :
    ∀ h ∈ HeaderLine.headers block off lines, h.name.block = .readBuff block := by
  induction lines generalizing off with
  | nil => exact nofun
  | cons line lines ih =>
      intro h inside
      rcases List.mem_cons.mp inside with rfl | inside
      · rfl
      · exact ih h inside

/-! ## The request by itself -/

namespace RequestHead

variable {H : Type}

/-- The names and the values of the headers. -/
def fields (head : RequestHead) : List (HeaderName × List Byte) :=
  head.lines.map fun h => (Header.parseHeader (h.name.map Header.lower), h.value)

/-- The search for the two headers which tell about the body. -/
def searchFields (length : Nat) (boundary : List Byte) (found : Connection.HeaderSearch) :
    List (HeaderName × List Byte) → Option (Nat × List Byte × Connection.HeaderSearch)
  | [] => some (length, boundary, found)
  | (name, value) :: rest =>
      if found.contentLengthFound ∧ found.contentTypeFound then
        some (length, boundary, found)
      else if name = .contentLength then
        match Header.getULongLong value with
        | none => none
        | some length => searchFields length boundary { found with contentLengthFound := true } rest
      else if name = .contentType then
        let type := Header.getContentType value boundary
        searchFields length ([cr, lf] ++ text "--" ++ type.2)
          { found with contentTypeFound := true, contentType := type.1 } rest
      else
        searchFields length boundary found rest

/-- What the headers say about the body, and the delimiter; the search begins without one. -/
def announced (head : RequestHead) : Option (Nat × List Byte × Connection.HeaderSearch) :=
  searchFields 0 [] {} head.fields

/-- What is read of the pieces behind the header block. A form in blocks is read up to its end, and
    another body takes whatever has come. -/
def bodyOf (head : RequestHead) (pieces : List (List Byte)) : List (List Byte) :=
  match Connection.parseMethod head.method, head.announced with
  | .post, some (length, _, found) =>
      if found.contentType = .formMultipart then takeFirst length pieces else [pieces.flatten]
  | _, _ => []

variable [FileUploadHelper H]

/-- What becomes of the query of a POST request, and the content, when this body is read. -/
def posted (head : RequestHead) (q : QueryParams H) (body : List (List Byte)) :
    Option (QueryParams H × Option (List Byte)) :=
  head.announced.bind fun (length, boundary, found) =>
    let q := { q with boundaryStr := boundary }
    if length = 0 then
      some (q, none)
    else if found.contentType = .formMultipart then
      some (body.foldl QueryParams.appendFormMultipart q, none)
    else
      (if found.contentType = .urlEncoded then q.addURLEncoded body.flatten
        else some q).map fun q => (q, some body.flatten)

def outcome (head : RequestHead) (query : QueryParams H) (body : List (List Byte)) :
    Option (QueryParams H × Option (List Byte)) :=
  (head.queryOf query).bind fun q =>
    if Connection.parseMethod head.method = .post then head.posted q body else some (q, none)

end RequestHead

theorem RequestHead.queryOf_params {H : Type} {head : RequestHead} {q q' : QueryParams H}
    (query : head.queryOf q = some q') :
    ∃ m t, q' = { q with paramMap := m, parseTmp := t } := by
  unfold queryOf at query
  split at query
  · obtain rfl := Option.some.inj query
    exact ⟨_, _, rfl⟩
  · rename_i range _
    rcases QueryParams.addURLEncoded_params (H := H) range q.paramMap with none_ | ⟨m, t, some_⟩
    · rw [none_] at query
      cases query
    · exact ⟨m, t, (Option.some.inj ((some_ q rfl).symm.trans query)).symm⟩

namespace Connection

/-- The pieces in which the events bring their bytes. -/
def pieces (events : List Event) : List (List Byte) :=
  events.filterMap fun
    | .read data => some data
    | _ => none

theorem received_eq (events : List Event) : received events = (pieces events).flatten := by
  induction events with
  | nil => rfl
  | cons e rest ih =>
      rw [received_cons, ih]
      cases e with
      | read data => simp only [received, pieces, List.flatMap_cons, List.flatMap_nil,
          List.append_nil, List.filterMap_cons, List.flatten_cons]
      | go | noRoom | readError | responded => rfl

variable {H : Type} {c d t : Connection H}

def contentBytes (c : Connection H) : Option (List Byte) :=
  c.content.map fun range => c.readBuff.mem.read range.1 (range.2.off - range.1.off)

theorem searchHeaders_eq (c : Connection H) (found : HeaderSearch) (headers : List Header) :
    c.searchHeaders found headers =
      (RequestHead.searchFields c.contentLength c.currQuery.boundaryStr found
        (headers.map fun h => (h.intName, c.valueOf h))).map fun r =>
          ({ c with
            contentLength := r.1
            currQuery := { c.currQuery with boundaryStr := r.2.1 } }, r.2.2) := by
  induction headers generalizing c found with
  | nil => rfl
  | cons header rest ih =>
      simp only [searchHeaders, List.map_cons, RequestHead.searchFields]
      split
      · rfl
      · split
        · cases Header.getULongLong (c.valueOf header) with
          | none => rfl
          | some length => exact ih _ _
        · split
          · exact ih _ _
          · exact ih _ _

variable [FileUploadHelper H]

theorem step_over {e : Event} (ended : c.phase = .respond ∨ c.phase = .closed) (within : e.Within) :
    c.step e = none := by
  have reads : ∀ b : StreamReadBuff BuildConfig.readBuffSize,
      ({ c with readBuff := b } : Connection H).afterRead = none := by
    intro b
    rcases ended with phase | phase <;> simp only [afterRead, phase]
  cases e with
  | go => rcases ended with phase | phase <;> simp only [step, go, phase]
  | read data =>
      simp only [step, reads, ite_self]
  | noRoom =>
      have stays := reads c.readBuff
      simp only [step, stays, ite_self]
  | readError => rcases ended with phase | phase <;> simp [step, isReading, phase]
  | responded => exact within.elim

theorem exec_over {events : List Event} (ended : c.phase = .respond ∨ c.phase = .closed)
    (within : ∀ e ∈ events, e.Within) (run : exec step c events = some t) : events = [] ∧ t = c := by
  cases events with
  | nil => exact ⟨rfl, (Option.some.inj run).symm⟩
  | cons e rest =>
      obtain ⟨mid, taken, -⟩ := exec_cons_some.mp run
      rw [step_over ended (within e List.mem_cons_self)] at taken
      cases taken

theorem not_returned_of_readError {events : List Event}
    (within : ∀ e ∈ Event.readError :: events, e.Within)
    (run : exec step c (.readError :: events) = some t) : t.phase ≠ .respond := by
  obtain ⟨mid, taken, run⟩ := exec_cons_some.mp run
  obtain ⟨-, closed⟩ := Option.ite_none_right_eq_some.mp taken
  cases closed
  obtain ⟨-, rfl⟩ := exec_over (Or.inr rfl) (List.forall_mem_of_forall_mem_cons within) run
  intro returned
  cases returned

/-! ## The body -/

theorem exec_blocks {n : Nat} {events : List Event} (valid : c.readBuff.Valid)
    (within : ∀ e ∈ events, e.Within) (run : exec step c events = some t)
    (returned : t.phase = .respond) :
    (c.phase = .multipart n →
      t.currQuery = (takeFirst n (c.readBuff.available :: pieces events)).foldl
        QueryParams.appendFormMultipart c.currQuery ∧
      t = { c with
        phase := .respond, currQuery := t.currQuery, readBuff := t.readBuff, handed := t.handed }) ∧
    (c.phase = .multipartRead n → c.readBuff.available = [] → 0 < n →
      t.currQuery = (takeFirst n (pieces events)).foldl
        QueryParams.appendFormMultipart c.currQuery ∧
      t = { c with
        phase := .respond, currQuery := t.currQuery, readBuff := t.readBuff,
        handed := t.handed }) := by
  induction events generalizing c n with
  | nil =>
      obtain rfl := Option.some.inj run
      refine ⟨fun phase => ?_, fun phase => ?_⟩ <;>
        · rw [phase] at returned
          cases returned
  | cons e rest ih =>
      obtain ⟨mid, taken, run⟩ := exec_cons_some.mp run
      have later : ∀ e ∈ rest, e.Within := fun e inside => within e (List.mem_cons_of_mem _ inside)
      constructor
      · intro phase
        cases e with
        | go =>
            simp only [step, go, phase, multipartLoop] at taken
            split at taken
            · rename_i less
              split at taken
              · cases taken
              · rename_i b asked
                have le := Nat.le_of_eq (StreamReadBuff.available_length c.readBuff)
                have stop := StreamReadBuff.consume_available valid false le
                rw [List.drop_length] at stop
                obtain ⟨valid, same, -⟩ := (StreamReadBuff.requestData_cases asked).keeps
                  (StreamReadBuff.consume_valid valid _ false)
                obtain rfl := Option.some.inj taken
                obtain ⟨query, kept⟩ := (ih valid later run).2 rfl (same.trans stop) (by omega)
                refine ⟨?_, kept⟩
                rw [query, show pieces (.go :: rest) = pieces rest from rfl,
                  takeFirst_cons_of_lt less, List.foldl_cons]
            · rename_i enough
              obtain rfl := Option.some.inj taken
              obtain ⟨rfl, rfl⟩ := exec_over (Or.inl rfl) later run
              refine ⟨?_, rfl⟩
              rw [takeFirst_cons_of_le (Nat.le_of_not_lt enough), List.foldl_cons, List.foldl_nil]
        | read | noRoom => simp only [step, afterRead, phase, ite_self, reduceCtorEq] at taken
        | readError => exact absurd returned (not_returned_of_readError within run)
        | responded => exact (within _ List.mem_cons_self).elim
      · intro phase empty some_
        cases e with
        | go => simp only [step, go, phase, reduceCtorEq] at taken
        | read data =>
            simp only [step, afterRead, phase] at taken
            split at taken
            · rename_i fits
              obtain rfl := Option.some.inj taken
              have come := StreamReadBuff.receive_available valid fits.2
              rw [empty, List.nil_append] at come
              obtain ⟨query, kept⟩ :=
                (ih (StreamReadBuff.receive_valid valid fits.2) later run).1 rfl
              rw [come] at query
              exact ⟨query, kept⟩
            · cases taken
        | noRoom =>
            simp only [step, afterRead, phase] at taken
            split at taken
            · obtain rfl := Option.some.inj taken
              obtain ⟨query, kept⟩ :=
                (ih (c := { c with phase := .multipart n }) valid later run).1 rfl
              refine ⟨?_, kept⟩
              have less : ([] : List Byte).length < n := some_
              rw [query, empty, takeFirst_cons_of_lt less, List.foldl_cons,
                QueryParams.appendFormMultipart_nil]
              rfl
            · cases taken
        | readError => exact absurd returned (not_returned_of_readError within run)
        | responded => exact (within _ List.mem_cons_self).elim

theorem exec_whole {type : ContentType} {events : List Event} (valid : c.readBuff.Valid)
    (phase : c.phase = .content type ∨ c.phase = .contentRead type)
    (within : ∀ e ∈ events, e.Within) (run : exec step c events = some t)
    (returned : t.phase = .respond) :
    t.contentBytes = some (c.readBuff.available ++ received events) ∧
    (if type = .urlEncoded then c.currQuery.addURLEncoded (c.readBuff.available ++ received events)
      else some c.currQuery) = some t.currQuery ∧
    t = { c with
      phase := .respond, currQuery := t.currQuery, content := t.content, readBuff := t.readBuff,
      handed := t.handed } := by
  induction events generalizing c with
  | nil =>
      obtain rfl := Option.some.inj run
      rcases phase with phase | phase <;>
        · rw [phase] at returned
          cases returned
  | cons e rest ih =>
      obtain ⟨mid, taken, run⟩ := exec_cons_some.mp run
      have later : ∀ e ∈ rest, e.Within := fun e inside => within e (List.mem_cons_of_mem _ inside)
      rcases phase with phase | phase
      · cases e with
        | go =>
            simp only [step, go, phase, contentLoop] at taken
            split at taken
            · cases taken
            · rename_i b asked
              obtain ⟨valid, same, -⟩ := (StreamReadBuff.requestData_cases asked).keeps valid
              obtain rfl := Option.some.inj taken
              have rest_ := ih valid (Or.inr rfl) later run
              rw [same] at rest_
              exact rest_
            · rename_i b asked
              cases StreamReadBuff.requestData_cases asked with
              | enough le =>
                  obtain ⟨q, query, rfl⟩ := Option.map_eq_some_iff.mp taken
                  obtain ⟨rfl, rfl⟩ := exec_over (Or.inl rfl) later run
                  refine ⟨?_, ?_, rfl⟩
                  · simp only [contentBytes, Option.map_some, received, List.flatMap_cons,
                      List.flatMap_nil, List.append_nil,
                      StreamReadBuff.consume_spec valid true (Nat.le_refl _), Ptr.add_off,
                      Nat.add_sub_cancel_left]
                    rfl
                  · simp only [received, List.flatMap_cons, List.flatMap_nil, List.append_nil]
                    exact query
        | read | noRoom => simp only [step, afterRead, phase, ite_self, reduceCtorEq] at taken
        | readError => exact absurd returned (not_returned_of_readError within run)
        | responded => exact (within _ List.mem_cons_self).elim
      · cases e with
        | go => simp only [step, go, phase, reduceCtorEq] at taken
        | read data =>
            simp only [step, afterRead, phase] at taken
            split at taken
            · rename_i fits
              obtain rfl := Option.some.inj taken
              have rest_ := ih (StreamReadBuff.receive_valid valid fits.2) (Or.inl rfl) later run
              rw [StreamReadBuff.receive_available valid fits.2] at rest_
              rw [received_cons, show received [.read data] = data from List.append_nil data,
                ← List.append_assoc]
              exact rest_
            · cases taken
        | noRoom =>
            simp only [step, afterRead, phase] at taken
            split at taken
            · obtain rfl := Option.some.inj taken
              exact ih (c := { c with phase := .content type }) valid (Or.inl rfl) later run
            · cases taken
        | readError => exact absurd returned (not_returned_of_readError within run)
        | responded => exact (within _ List.mem_cons_self).elim

/-! ## The header block -/

variable {head : RequestHead} {c₀ : Connection H} {rest : List Byte}

omit [FileUploadHelper H] in
theorem Midway.front {missing : List Byte} (midway : Midway head c₀ c missing rest) :
    ∃ front, front ≠ [] ∧ missing = front ++ rest := by
  obtain ⟨-, -, -, found, seen, todo, ahead, -, reached, -, free, stream⟩ := midway
  have short := reached.short free stream
  rcases List.append_eq_append_iff.mp stream with ⟨front, rfl, rfl⟩ | ⟨front, rfl, -⟩
  · refine ⟨front, fun none_ => ?_, rfl⟩
    rw [none_, List.append_nil] at short
    exact Nat.lt_irrefl _ short
  · rw [List.length_append] at short
    omega

theorem exec_midway {guard : Connection H → Event → Prop} {events : List Event}
    {front : List Byte} (none_ : c₀.headerA = [])
    (midway : Midway head c₀ c (received events) rest) (missing : received events = front ++ rest)
    (within : ∀ e ∈ events, e.Within) (along : Along step guard c events)
    (run : exec step c events = some t) (returned : t.phase = .respond) :
    ∃ mid later behind, Complete head c₀ mid behind ∧ (∀ e ∈ later, e.Within) ∧
      Along step guard mid later ∧ exec step mid later = some t ∧
      dropFirst front.length (pieces events) = behind :: pieces later := by
  obtain ⟨found, seen, -, -, phase, -⟩ := midway.reached
  induction events generalizing c front found seen with
  | nil =>
      obtain rfl := Option.some.inj run
      rw [phase] at returned
      cases returned
  | cons e events ih =>
      obtain ⟨mid, taken, goes⟩ := exec_cons_some.mp run
      have later : ∀ e ∈ events, e.Within := fun e inside => within e (List.mem_cons_of_mem _ inside)
      cases e with
      | go => simp only [step, go, phase, reduceCtorEq] at taken
      | read data =>
          have brought : received (.read data :: events) = data ++ received events := by
            rw [received_cons, show received [.read data] = data from List.append_nil data]
          rw [brought] at midway missing
          have fits : data ≠ [] ∧ data.length ≤ c.readBuff.freeLength := by
            simp only [step] at taken
            split at taken
            · assumption
            · cases taken
          obtain ⟨d, same, advanced⟩ := midway.read none_ fits.1 fits.2
          obtain rfl := Option.some.inj (taken.symm.trans same)
          rcases advanced with midway | ⟨behind, stream, complete⟩
          · obtain ⟨found, seen, -, -, phase, -⟩ := midway.reached
            obtain ⟨left, some_, split_⟩ := midway.front
            obtain ⟨mid', later', behind, complete, inside, along, run, dropped⟩ :=
              ih midway split_ later (along.2 mid taken) goes found seen phase
            refine ⟨mid', later', behind, complete, inside, along, run, ?_⟩
            rw [split_, ← List.append_assoc] at missing
            have whole := List.append_cancel_right missing
            rw [← whole, show pieces (.read data :: events) = data :: pieces events from rfl,
              dropFirst_cons_of_lt (by
                have pos := List.length_pos_of_ne_nil some_
                rw [List.length_append]
                omega), List.length_append, Nat.add_sub_cancel_left]
            exact dropped
          · refine ⟨mid, events, behind, complete, later, along.2 mid taken, goes, ?_⟩
            rw [← stream, ← List.append_assoc] at missing
            have whole := List.append_cancel_right missing
            rw [whole, show pieces (.read (front ++ behind) :: events) =
                (front ++ behind) :: pieces events from rfl,
              dropFirst_cons_of_le (by
                rw [List.length_append]
                omega), List.drop_left]
      | noRoom =>
          simp only [step, afterRead, phase, midway.drained, if_true] at taken
          split at taken
          · obtain rfl := Option.some.inj taken
            obtain ⟨-, rfl⟩ := exec_over (Or.inr rfl) later goes
            cases returned
          · cases taken
      | readError => exact absurd returned (not_returned_of_readError within run)
      | responded => exact (within _ List.mem_cons_self).elim

theorem exec_head {guard : Connection H → Event → Prop} {events : List Event} {first : List Byte}
    (none_ : c₀.headerA = []) (advanced : Advanced head c₀ c (received events) rest)
    (stream : first ++ received events = head.bytes ++ rest)
    (within : ∀ e ∈ events, e.Within) (along : Along step guard c events)
    (run : exec step c events = some t) (returned : t.phase = .respond) :
    ∃ mid later behind, Complete head c₀ mid behind ∧ (∀ e ∈ later, e.Within) ∧
      Along step guard mid later ∧ exec step mid later = some t ∧
      dropFirst head.bytes.length (first :: pieces events) = behind :: pieces later := by
  rcases advanced with midway | ⟨behind, behind_, complete⟩
  · obtain ⟨front, some_, missing⟩ := midway.front
    obtain ⟨mid, later, behind, complete, inside, along, run, dropped⟩ :=
      exec_midway none_ midway missing within along run returned
    refine ⟨mid, later, behind, complete, inside, along, run, ?_⟩
    rw [missing, ← List.append_assoc] at stream
    have whole := List.append_cancel_right stream
    have pos := List.length_pos_of_ne_nil some_
    rw [← whole, dropFirst_cons_of_lt (by
      rw [List.length_append]
      omega), List.length_append, Nat.add_sub_cancel_left]
    exact dropped
  · refine ⟨c, events, behind, complete, within, along, run, ?_⟩
    rw [← behind_, ← List.append_assoc] at stream
    have whole := List.append_cancel_right stream
    rw [whole, dropFirst_cons_of_le (by
      rw [List.length_append]
      omega), List.drop_left]

/-! ## The whole request -/

omit [FileUploadHelper H] in
theorem Complete.fields {behind : List Byte} (complete : Complete head c₀ c behind) :
    c.headerA.map (fun h => (h.intName, c.valueOf h)) = head.fields := by
  have strings := congrArg (List.map fun s => (s.2.2, s.2.1.getD [])) complete.strings
  rw [List.map_map, List.map_map] at strings
  exact strings

/-- What `ContentHandler` sets before it reads the body. -/
def handled (c : Connection H) (length : Nat) (boundary : List Byte) : Connection H :=
  { c with
    contentLength := length
    currQuery := { c.currQuery with boundaryStr := boundary }
    content := none
    handed := [] }

omit [FileUploadHelper H] in
/-- How `ContentHandler` goes on, by what the headers say. -/
theorem contentHandler_cases (c : Connection H) : c.contentHandler.phase = .closed ∨
    ∃ length boundary found, RequestHead.searchFields c.contentLength c.currQuery.boundaryStr {}
        (c.headerA.map fun h => (h.intName, c.valueOf h)) = some (length, boundary, found) ∧
      (length = 0 ∧ c.contentHandler = { c.handled length boundary with phase := .respond } ∨
        0 < length ∧ c.contentHandler =
          if found.contentType = .formMultipart then
            { (c.handled length boundary).savePostHeaders with phase := .multipart length }
          else
            { c.handled length boundary with phase := .content found.contentType }) := by
  simp only [contentHandler, searchHeaders_eq]
  cases RequestHead.searchFields c.contentLength c.currQuery.boundaryStr {}
      (c.headerA.map fun h => (h.intName, c.valueOf h)) with
  | none => exact Or.inl rfl
  | some result =>
      obtain ⟨length, boundary, found⟩ := result
      simp only [Option.map_some]
      split
      · exact Or.inl rfl
      · split
        · rename_i none_
          subst none_
          exact Or.inr ⟨0, boundary, found, rfl, Or.inl ⟨rfl, rfl⟩⟩
        · rename_i some_
          split
          · exact Or.inl rfl
          · refine Or.inr ⟨length, boundary, found, rfl, Or.inr ⟨Nat.pos_of_ne_zero some_, ?_⟩⟩
            split <;> rfl

theorem exec_form {n : Nat} {events : List Event} (valid : c.readBuff.Valid)
    (headersIn : HeadersIn c.asKnown.readBuff (c.readBuff.readPos - c.readBuff.relevantLength)
      c.readBuff.readPos c.asKnown.headerA) (none_ : c.content = none)
    (within : ∀ e ∈ events, e.Within)
    (run : exec step { c.savePostHeaders with phase := .multipart n } events = some t)
    (returned : t.phase = .respond) :
    t.currMethod = c.currMethod ∧ t.currResource = c.currResource ∧ t.strings = c.strings ∧
      t.contentBytes = none ∧ t.currQuery = (takeFirst n (c.readBuff.available ::
        pieces events)).foldl QueryParams.appendFormMultipart c.currQuery := by
  obtain ⟨valid', same⟩ := StreamReadBuff.resetRelevant_keeps valid
  obtain ⟨query, kept⟩ := (exec_blocks (c := { c.savePostHeaders with phase := .multipart n }) valid'
    within run returned).1 rfl
  have stream : c.savePostHeaders.readBuff.available = c.readBuff.available := same
  refine ⟨by rw [kept]; rfl, by rw [kept]; rfl, strings_of_saved valid headersIn ?_, ?_, ?_⟩
  · rw [kept]
  · rw [contentBytes, kept]
    exact congrArg (Option.map _) none_
  · rw [query]
    simp only [stream]
    rfl

theorem exec_other {type : ContentType} {events : List Event} (valid : c.readBuff.Valid)
    (static : c.readBuff.Static)
    (headersIn : HeadersIn c.asKnown.readBuff (c.readBuff.readPos - c.readBuff.relevantLength)
      c.readBuff.readPos c.asKnown.headerA) (within : ∀ e ∈ events, e.Within)
    (stay : Along step StringsStay { c with phase := .content type } events)
    (run : exec step { c with phase := .content type } events = some t)
    (returned : t.phase = .respond) :
    t.currMethod = c.currMethod ∧ t.currResource = c.currResource ∧ t.strings = c.strings ∧
      t.contentBytes = some (c.readBuff.available :: pieces events).flatten ∧
      (if type = .urlEncoded then
        c.currQuery.addURLEncoded (c.readBuff.available :: pieces events).flatten
      else some c.currQuery) = some t.currQuery := by
  have whole : ({ c with phase := .content type } : Connection H).Whole := trivial
  have kept : Kept c.asKnown.knownStrings
      ({ c with phase := .content type } : Connection H).asKnown :=
    ⟨rfl, Or.inl ⟨_, _, Nat.le_refl _, headersIn⟩⟩
  obtain ⟨known, headers⟩ := exec_strings (c := { c with phase := .content type }) valid static whole
    kept within stay run
  have strings := strings_of_known (c := c) known (congrArg _ headers)
  obtain ⟨bytes, query, same⟩ := exec_whole (c := { c with phase := .content type }) valid
    (Or.inl rfl) within run returned
  rw [received_eq, ← List.flatten_cons] at bytes query
  exact ⟨by rw [same], by rw [same], strings, bytes, query⟩

/-- What `ContentHandler` leaves of a POST request. -/
theorem exec_post {events : List Event} (valid : c.readBuff.Valid) (static : c.readBuff.Static)
    (headersIn : HeadersIn c.asKnown.readBuff (c.readBuff.readPos - c.readBuff.relevantLength)
      c.readBuff.readPos c.asKnown.headerA)
    (fields : c.headerA.map (fun h => (h.intName, c.valueOf h)) = head.fields)
    (zero : c.contentLength = 0) (plain : c.currQuery.boundaryStr = [])
    (post : parseMethod head.method = .post) (within : ∀ e ∈ events, e.Within)
    (stay : (AtFront c.readBuff ∧ ∀ h ∈ c.headerA, h.name.block = .readBuff 0) ∨
      Along step StringsStay c.contentHandler events)
    (run : exec step c.contentHandler events = some t) (returned : t.phase = .respond) :
    t.currMethod = c.currMethod ∧ t.currResource = c.currResource ∧ t.strings = c.strings ∧
      head.posted c.currQuery (head.bodyOf (c.readBuff.available :: pieces events)) =
        some (t.currQuery, t.contentBytes) := by
  rcases c.contentHandler_cases with closed | ⟨n, delimiter, found, search, handled⟩
  · obtain ⟨-, rfl⟩ := exec_over (Or.inr closed) within run
    rw [closed] at returned
    cases returned
  · rw [zero, plain, fields] at search
    have announced : head.announced = some (n, delimiter, found) := search
    simp only [RequestHead.posted, announced, Option.bind_some]
    rcases handled with ⟨rfl, empty⟩ | ⟨some_, begun⟩
    · rw [empty] at run
      obtain ⟨-, rfl⟩ := exec_over (Or.inl rfl) within run
      exact ⟨rfl, rfl, rfl, rfl⟩
    · rw [begun] at run stay
      have body : head.bodyOf (c.readBuff.available :: pieces events) =
          if found.contentType = .formMultipart then
            takeFirst n (c.readBuff.available :: pieces events)
          else [(c.readBuff.available :: pieces events).flatten] := by
        simp only [RequestHead.bodyOf, post, announced]
      rw [if_neg (Nat.ne_of_gt some_), body]
      by_cases blocks : found.contentType = .formMultipart
      · rw [if_pos blocks] at run
        obtain ⟨method, resource, strings, bytes, form⟩ :=
          exec_form (c := c.handled n delimiter) valid headersIn rfl within run returned
        refine ⟨method, resource, strings, ?_⟩
        rw [if_pos blocks, if_pos blocks, form, bytes]
        rfl
      · rw [if_neg blocks] at run stay
        have stay := stay.elim (fun front => along_atFront
          (c := { c.handled n delimiter with phase := .content found.contentType }) trivial front.1
          front.2 within) id
        obtain ⟨method, resource, strings, bytes, query⟩ :=
          exec_other (c := c.handled n delimiter) valid static headersIn within stay run returned
        refine ⟨method, resource, strings, ?_⟩
        rw [if_neg blocks, if_neg blocks, bytes, List.flatten_singleton]
        exact congrArg (Option.map _) query

omit [FileUploadHelper H] in
theorem Complete.atFront {behind : List Byte} (complete : Complete head c₀ c behind)
    (first : c₀.readBuff.readBuff = 0 ∧ c₀.readBuff.readPos = 0) :
    AtFront c.readBuff ∧ ∀ h ∈ c.headerA, h.name.block = .readBuff 0 := by
  obtain ⟨-, start, ⟨q, -, same⟩, -, -⟩ := complete
  have headers : c.headerA = listed head c₀ head.lines := by rw [same]
  have from_ := start.start
  refine ⟨fun _ => by omega, fun h inside => ?_⟩
  exact first.1 ▸ HeaderLine.headers_block h (headers ▸ inside)

/-- What the response handler gets is what the request asks for. A request other than a POST leaves
    the content of the request before it. -/
theorem exec_request {events : List Event} {behind : List Byte}
    (complete : Complete head c₀ c behind) (static : c.readBuff.Static)
    (zero : c₀.contentLength = 0) (plain : c₀.currQuery.boundaryStr = [])
    (within : ∀ e ∈ events, e.Within)
    (stay : (c₀.readBuff.readBuff = 0 ∧ c₀.readBuff.readPos = 0) ∨ Along step StringsStay c events)
    (run : exec step c events = some t) (returned : t.phase = .respond) :
    t.currMethod = parseMethod head.method ∧ t.currResource = head.path ∧
      t.strings = head.strings ∧ (parseMethod head.method = .post ∨ t.content = c₀.content) ∧
      head.outcome c₀.currQuery (head.bodyOf (behind :: pieces events)) = some (t.currQuery,
        if parseMethod head.method = .post then t.contentBytes else none) := by
  obtain ⟨q, query, same⟩ := complete.request
  have phase : c.phase = .headersDone := by rw [same]
  have method : c.currMethod = parseMethod head.method := by
    rw [same]
    rfl
  have resource : c.currResource = head.path := by
    rw [same]
    rfl
  have parameters : c.currQuery = q := by
    rw [same]
    rfl
  cases events with
  | nil =>
      obtain rfl := Option.some.inj run
      rw [phase] at returned
      cases returned
  | cons e rest =>
      obtain ⟨mid, taken, run⟩ := exec_cons_some.mp run
      have later : ∀ e ∈ rest, e.Within := fun e inside => within e (List.mem_cons_of_mem _ inside)
      cases e with
      | read | noRoom => simp only [step, afterRead, phase, ite_self, reduceCtorEq] at taken
      | readError =>
          simp only [step, isReading, phase, Bool.false_eq_true, if_false, reduceCtorEq] at taken
      | responded => exact (within _ List.mem_cons_self).elim
      | go =>
          have brought : pieces (.go :: rest) = pieces rest := rfl
          have next := stay.imp complete.atFront fun along => along.2 mid taken
          simp only [step, go, phase, Option.some.injEq, method] at taken
          simp only [RequestHead.outcome, query, Option.bind_some, brought]
          by_cases post : parseMethod head.method = .post
          · simp only [post, if_true] at taken ⊢
            subst taken
            have length : c.contentLength = 0 := by
              rw [same]
              exact zero
            have boundary : c.currQuery.boundaryStr = [] := by
              obtain ⟨_, _, rfl⟩ := RequestHead.queryOf_params query
              rw [parameters]
              exact plain
            obtain ⟨sameMethod, sameResource, strings, posted⟩ := exec_post complete.valid static
              complete.headersIn complete.fields length boundary post later next run returned
            rw [complete.available, parameters] at posted
            exact ⟨sameMethod.trans (method.trans post), sameResource.trans resource,
              strings.trans complete.strings_eq, Or.inl trivial, posted⟩
          · simp only [if_neg post] at taken ⊢
            subst taken
            obtain ⟨-, rfl⟩ := exec_over (Or.inl rfl) later run
            have content : c.content = c₀.content := by
              rw [same]
              rfl
            exact ⟨rfl, resource, complete.strings_eq, Or.inr content, by rw [← parameters]⟩

end Connection

end MiniWebSrv.HTTP
