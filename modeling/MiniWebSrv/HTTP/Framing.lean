import MiniWebSrv.HTTP.HeaderBlock
import MiniWebSrv.HTTP.MultipartCuts

/-! # The extent of a body

The bytes behind the headers are a stream, which the reads bring. A body in blocks is the front
part of the stream which the headers announce, and what follows it is left for the next
request. A body which is read as a whole is everything there is when it is long enough.
-/

namespace MiniWebSrv.HTTP

/-- The event belongs to the request: the response handler does not return. -/
def Event.Within : Event → Prop
  | .responded _ _ => False
  | _ => True

namespace Connection

open Word Run

/-- The bytes which the events bring. -/
def received (events : List Event) : List Byte :=
  events.flatMap fun
    | .read data => data
    | _ => []

theorem received_cons (e : Event) (rest : List Event) :
    received (e :: rest) = received [e] ++ received rest := by
  simp only [received, List.flatMap_cons, List.flatMap_nil, List.append_nil]

variable {H : Type}

/-- The first `n` bytes of the stream have been handed on, and the others are still there. -/
structure Framed (c : Connection H) (n : Nat) (stream : List Byte) : Prop where
  handed : c.handed = stream.take n
  range : ∀ from_ until_, c.content = some (from_, until_) →
    c.readBuff.mem.read from_ (until_.off - from_.off) = stream.take n
  rest : c.readBuff.available = stream.drop n

/-- How far a body of this type has got: of the stream so far, what has not been handed on is
    still there. -/
def Progress (n : Nat) (type : ContentType) (stream : List Byte) (c : Connection H) : Prop :=
  match c.phase with
  | .content t | .contentRead t => t = type ∧ type ≠ .formMultipart ∧ c.contentLength = n ∧
      n < size32 ∧ c.readBuff.Valid ∧ c.readBuff.available = stream
  | .multipart remLength | .multipartRead remLength => type = .formMultipart ∧ c.content = none ∧
      c.handed.length + remLength = n ∧ c.readBuff.Valid ∧ c.handed ++ c.readBuff.available = stream
  | .respond =>
      if type = .formMultipart then c.Framed n stream
      else n ≤ stream.length ∧ c.Framed stream.length stream
  | .closed => True
  | _ => False

variable {c t : Connection H} {n : Nat} {type : ContentType} {stream : List Byte}

theorem contentLoop_progress (progress : Progress n type stream c) (phase : c.phase = .content type)
    (run : c.contentLoop type = some t) : Progress n type stream t := by
  simp only [Progress, phase] at progress
  obtain ⟨-, whole, length, short, valid, available⟩ := progress
  simp only [contentLoop] at run
  split at run
  · cases run
  · rename_i b asked
    obtain ⟨valid, same, -⟩ := (StreamReadBuff.requestData_cases asked).keeps valid
    obtain rfl := Option.some.inj run
    exact ⟨rfl, whole, length, short, valid, same.trans available⟩
  · rename_i b asked
    cases StreamReadBuff.requestData_cases asked with
    | enough le =>
        rw [length, u32_of_lt short] at le
        obtain ⟨q, -, rfl⟩ := Option.map_eq_some_iff.mp run
        have stop := StreamReadBuff.consume_available valid true (Nat.le_refl _)
        rw [← StreamReadBuff.available_length, List.drop_length] at stop
        simp only [Progress, if_neg whole]
        refine ⟨by rw [← available, StreamReadBuff.available_length]; exact le,
          by rw [available, List.take_length], ?_, ?_⟩
        · intro from_ until_ content
          obtain ⟨rfl, rfl⟩ := Prod.mk.inj (Option.some.inj content)
          rw [StreamReadBuff.consume_spec valid true (Nat.le_refl _), List.take_length, ← available]
          simp only [Ptr.add_off, Nat.add_sub_cancel_left]
          rfl
        · rw [List.drop_length, ← StreamReadBuff.available_length]
          exact stop

theorem afterRead_progress {b : StreamReadBuff BuildConfig.readBuffSize} {data : List Byte}
    (progress : Progress n type stream c)
    (received : c.readBuff.Valid → b.Valid ∧ b.available = c.readBuff.available ++ data)
    (run : { c with readBuff := b }.afterRead = some t) : Progress n type (stream ++ data) t := by
  cases phase : c.phase with
  | contentRead t' =>
      simp only [afterRead, phase] at run
      simp only [Progress, phase] at progress
      obtain ⟨same, whole, length, short, valid, available⟩ := progress
      obtain rfl := Option.some.inj run
      exact ⟨same, whole, length, short, (received valid).1,
        (received valid).2.trans (by rw [available])⟩
  | multipartRead remLength =>
      simp only [afterRead, phase] at run
      simp only [Progress, phase] at progress
      obtain ⟨blocks, none_, length, valid, whole⟩ := progress
      obtain rfl := Option.some.inj run
      refine ⟨blocks, none_, length, (received valid).1, ?_⟩
      simp only [(received valid).2, ← List.append_assoc, whole]
  | headers | headersDone => simp only [Progress, phase] at progress
  | content | multipart | respond | closed =>
      simp only [afterRead, phase] at run
      cases run

theorem contentHandler_progress {found : HeaderSearch} {d : Connection H}
    (valid : c.readBuff.Valid) (search : c.searchHeaders {} c.headerA = some (d, found))
    (some_ : d.contentLength ≠ 0) :
    Progress d.contentLength found.contentType c.readBuff.available c.contentHandler := by
  have readBuff : d.readBuff = c.readBuff := by rw [searchHeaders_keeps search]
  simp only [contentHandler, search, if_neg some_]
  split
  · trivial
  · split
    · trivial
    · rename_i fits
      split
      · rename_i blocks
        obtain ⟨valid, same⟩ := StreamReadBuff.resetRelevant_keeps valid
        refine ⟨blocks, rfl, Nat.zero_add _, ?_, ?_⟩
        · simp only [savePostHeaders, readBuff]
          exact valid
        · simp only [savePostHeaders, readBuff, List.nil_append]
          exact same
      · rename_i whole
        have below := d.maxPostBodyLength.toNat_lt
        exact ⟨rfl, whole, rfl, by simp only [size32]; omega, readBuff ▸ valid,
          congrArg StreamReadBuff.available readBuff⟩

variable [FileUploadHelper H]

theorem multipartLoop_progress {remLength : Nat} (progress : Progress n type stream c)
    (phase : c.phase = .multipart remLength) (run : c.multipartLoop remLength = some t) :
    Progress n type stream t := by
  simp only [Progress, phase] at progress
  obtain ⟨blocks, none_, length, valid, whole⟩ := progress
  simp only [multipartLoop] at run
  split at run
  · rename_i less
    split at run
    · cases run
    · rename_i b asked
      have le := Nat.le_of_eq (StreamReadBuff.available_length c.readBuff)
      have stop := StreamReadBuff.consume_available valid false le
      obtain ⟨valid, same, -⟩ := (StreamReadBuff.requestData_cases asked).keeps
        (StreamReadBuff.consume_valid valid _ false)
      obtain rfl := Option.some.inj run
      refine ⟨blocks, none_, ?_, valid, ?_⟩
      · simp only [List.length_append]
        omega
      · rw [same, stop, List.drop_length, List.append_nil]
        exact whole
  · rename_i enough
    obtain rfl := Option.some.inj run
    have le : remLength ≤ c.readBuff.getAvailableDataLength := by
      rw [← StreamReadBuff.available_length]
      exact Nat.le_of_not_lt enough
    have handed : (c.handed ++ c.readBuff.available).take n =
        c.handed ++ c.readBuff.available.take remLength := by
      rw [← length, List.take_length_add_append]
    simp only [Progress, if_pos blocks]
    refine ⟨by rw [← whole, handed], fun _ _ some_ => ?_, ?_⟩
    · rw [none_] at some_
      cases some_
    · rw [StreamReadBuff.consume_available valid false le, ← whole, ← length,
        List.drop_length_add_append]

theorem go_progress (progress : Progress n type stream c) (run : c.go = some t) :
    Progress n type stream t := by
  cases phase : c.phase with
  | content t' =>
      have same : t' = type := by
        simp only [Progress, phase] at progress
        exact progress.1
      subst same
      simp only [go, phase] at run
      exact contentLoop_progress progress phase run
  | multipart remLength =>
      simp only [go, phase] at run
      exact multipartLoop_progress progress phase run
  | headers | headersDone => simp only [Progress, phase] at progress
  | contentRead | multipartRead | respond | closed =>
      simp only [go, phase] at run
      cases run

theorem step_progress {e : Event} (progress : Progress n type stream c) (within : e.Within)
    (run : c.step e = some t) : Progress n type (stream ++ received [e]) t := by
  have nothing : received [e] = [] → Progress n type stream t →
      Progress n type (stream ++ received [e]) t := by
    intro none_ progress
    rw [none_, List.append_nil]
    exact progress
  cases e with
  | go => exact nothing rfl (go_progress progress run)
  | read data =>
      simp only [step] at run
      split at run
      · rename_i fits
        have same : received [.read data] = data := List.append_nil data
        rw [same]
        exact afterRead_progress progress (fun valid => ⟨StreamReadBuff.receive_valid valid fits.2,
          StreamReadBuff.receive_available valid fits.2⟩) run
      · cases run
  | noRoom =>
      simp only [step] at run
      split at run
      · exact afterRead_progress (b := c.readBuff) progress
          (fun valid => ⟨valid, (List.append_nil _).symm⟩) run
      · cases run
  | readError =>
      simp only [step] at run
      split at run
      · obtain rfl := Option.some.inj run
        exact nothing rfl trivial
      · cases run
  | responded => exact within.elim

theorem exec_progress {events : List Event} (progress : Progress n type stream c)
    (within : ∀ e ∈ events, e.Within) (run : exec step c events = some t) :
    Progress n type (stream ++ received events) t := by
  induction events generalizing c stream with
  | nil =>
      obtain rfl := Option.some.inj run
      rw [received, List.flatMap_nil, List.append_nil]
      exact progress
  | cons e rest ih =>
      obtain ⟨mid, taken, run⟩ := exec_cons_some.mp run
      have next := step_progress progress (within e List.mem_cons_self) taken
      rw [received_cons, ← List.append_assoc]
      exact ih next (fun e inside => within e (List.mem_cons_of_mem _ inside)) run

/-- When `ContentHandler` returns true, it has handed on the body and left what follows it, if
    the body has been read in blocks, and otherwise just if nothing has followed it so far. -/
theorem framed_iff {found : HeaderSearch} {d : Connection H} {events : List Event}
    (valid : c.readBuff.Valid) (parsed : c.phase = .headersDone) (post : c.currMethod = .post)
    (search : c.searchHeaders {} c.headerA = some (d, found)) (some_ : d.contentLength ≠ 0)
    (within : ∀ e ∈ events, e.Within) (run : exec step c events = some t)
    (returned : t.phase = .respond) :
    t.Framed d.contentLength (c.readBuff.available ++ received events) ↔
      found.contentType = .formMultipart ∨
      (c.readBuff.available ++ received events).length = d.contentLength := by
  have progress : Progress d.contentLength found.contentType
      (c.readBuff.available ++ received events) t := by
    cases events with
    | nil =>
        obtain rfl := Option.some.inj run
        rw [parsed] at returned
        cases returned
    | cons e rest =>
        obtain ⟨mid, taken, run⟩ := exec_cons_some.mp run
        cases e with
        | go =>
            simp only [step, go, parsed, post, if_true, Option.some.injEq] at taken
            subst taken
            have later : ∀ e ∈ rest, e.Within := fun e inside =>
              within e (List.mem_cons_of_mem _ inside)
            have followed := exec_progress (contentHandler_progress valid search some_) later run
            exact followed
        | read | noRoom => simp only [step, afterRead, parsed, ite_self, reduceCtorEq] at taken
        | readError => simp only [step, isReading, parsed, Bool.false_eq_true, if_false, reduceCtorEq] at taken
        | responded => exact (within _ List.mem_cons_self).elim
  simp only [Progress, returned] at progress
  split at progress
  · rename_i blocks
    exact ⟨fun _ => Or.inl blocks, fun _ => progress⟩
  · rename_i whole
    obtain ⟨enough, framed⟩ := progress
    constructor
    · intro exactly
      have length := congrArg List.length (framed.handed.symm.trans exactly.handed)
      rw [List.length_take, List.length_take] at length
      exact Or.inr (by omega)
    · rintro (blocks | length)
      · exact absurd blocks whole
      · exact length ▸ framed

/-- A connection over zeroed buffers, which has received these bytes. -/
def afterBytes (data : List Byte) : Option (Connection Recorder) :=
  step (start ⟨QueryParams.takesAll, []⟩ 65536 (fun _ _ => 0) (fun _ _ => 0) [] ⟨0, none⟩ ⟨0, none⟩)
    (.read data)

theorem afterBytes_reachable {data : List Byte} {c : Connection Recorder}
    (run : afterBytes data = some c) : Reachable c :=
  ⟨_, _, _, _, _, _, _, [.read data], by rw [exec_cons, ← afterBytes, run]; rfl⟩

def multipartHeaders : List Byte :=
  text "POST / HTTP/1.1" ++ [cr, lf] ++ text "Content-Type: multipart/form-data; boundary=b" ++
    [cr, lf] ++ text "Content-Length: 5" ++ [cr, lf, cr, lf]

/-- Of a body of five bytes, three come with the headers, and the others with a next request. -/
theorem framed_iff_pipelined : ∃ c t : Connection Recorder,
    afterBytes (multipartHeaders ++ text "--b") = some c ∧
    exec step c [.go, .go, .read (text "--GET "), .go] = some t ∧
    t.Framed 5 (text "--b--GET ") := by
  have facts : (afterBytes (multipartHeaders ++ text "--b")).map (fun c =>
      (c.phase, c.currMethod, (c.searchHeaders {} c.headerA).map fun r => (r.1.contentLength, r.2),
        c.readBuff.available)) =
      some (.headersDone, .post, some (5, ⟨true, true, .formMultipart⟩), text "--b") := by
    decide +kernel
  have last : ((afterBytes (multipartHeaders ++ text "--b")).bind fun c =>
      exec step c [.go, .go, .read (text "--GET "), .go]).map phase = some .respond := by
    decide +kernel
  obtain ⟨c, parsed, same⟩ := Option.map_eq_some_iff.mp facts
  obtain ⟨phase, post, search, available⟩ := by simpa only [Prod.mk.injEq] using same
  obtain ⟨⟨d, found⟩, search, same⟩ := Option.map_eq_some_iff.mp search
  obtain ⟨length, rfl⟩ := Prod.mk.inj same
  rw [parsed, Option.bind_some] at last
  obtain ⟨t, run, returned⟩ := Option.map_eq_some_iff.mp last
  have framed := (framed_iff (afterBytes_reachable parsed).parsing.valid phase post search
    (by rw [length]; decide) (by simp [Event.Within]) run returned).mpr (Or.inl rfl)
  rw [available, length] at framed
  exact ⟨c, t, parsed, run, framed⟩

/-- One byte too many, of the next request, goes to a body which is read as a whole. -/
theorem handed_too_much :
    ¬∀ (c d t : Connection Recorder) (found : HeaderSearch) (events : List Event),
      Reachable c → c.phase = .headersDone → c.currMethod = .post →
      c.searchHeaders {} c.headerA = some (d, found) → d.contentLength ≠ 0 →
      (∀ e ∈ events, e.Within) → exec step c events = some t → t.phase = .respond →
      t.Framed d.contentLength (c.readBuff.available ++ received events) := by
  intro exact_
  generalize bytes : text "POST / HTTP/1.1" ++ [cr, lf] ++ text "Content-Length: 1" ++
    [cr, lf, cr, lf] ++ text "aG" = data
  have facts : (afterBytes data).map (fun c => (c.phase, c.currMethod,
      (c.searchHeaders {} c.headerA).map fun r => r.1.contentLength, c.readBuff.available)) =
      some (.headersDone, .post, some 1, text "aG") := by
    rw [← bytes]
    decide +kernel
  have last : ((afterBytes data).bind fun c => exec step c [.go, .go]).map
      (fun t => (t.phase, t.handed)) = some (.respond, text "aG") := by
    rw [← bytes]
    decide +kernel
  obtain ⟨c, parsed, same⟩ := Option.map_eq_some_iff.mp facts
  obtain ⟨phase, post, search, available⟩ := by simpa only [Prod.mk.injEq] using same
  obtain ⟨⟨d, found⟩, search, length⟩ := Option.map_eq_some_iff.mp search
  rw [parsed, Option.bind_some] at last
  obtain ⟨t, run, same⟩ := Option.map_eq_some_iff.mp last
  obtain ⟨returned, handed⟩ := Prod.mk.inj same
  have framed := exact_ c d t found [.go, .go] (afterBytes_reachable parsed) phase post search
    (by rw [length]; decide) (by simp [Event.Within]) run returned
  have different := framed.handed
  rw [handed, available, length] at different
  revert different
  decide +kernel

end Connection

end MiniWebSrv.HTTP
