import MiniWebSrv.HTTP.HeadersParsed
import MiniWebSrv.HTTP.KeptHeaders

/-! # The strings of all headers

`Create` gets the pointers of all headers, also of those whose names the parser does not know. The
pointers of a well-formed header block are all alike, and what becomes of their strings while the
body is read does not depend on the names. So they are looked at as if every name were known.
-/

namespace MiniWebSrv.HTTP

open Run

def Header.known (h : Header) : Header := { h with intName := .host }

theorem StringIn.of_bytes {size : Nat} {b : StreamReadBuff size} {lo hi off : Nat}
    {bytes : List Byte} (read : b.mem.read ⟨b.readBuff, off⟩ bytes.length = bytes)
    (ended : 0 ∈ bytes) (from_ : lo ≤ off) (until_ : off + bytes.length ≤ hi) :
    StringIn b lo hi ⟨.readBuff b.readBuff, off⟩ := by
  refine ⟨rfl, from_, by simp only; omega, ?_⟩
  simp only
  rw [show hi - off = bytes.length + (hi - off - bytes.length) by omega, Mem.read_add, read]
  exact List.mem_append_left _ ended

theorem stringIn_headers {size : Nat} {b : StreamReadBuff size} {lo hi off : Nat}
    {lines : List HeaderLine}
    (bytes : b.mem.read ⟨b.readBuff, off⟩ (HeaderLine.join HeaderLine.parsed lines).length =
      HeaderLine.join HeaderLine.parsed lines)
    (from_ : lo ≤ off) (until_ : off + (HeaderLine.join HeaderLine.parsed lines).length ≤ hi) :
    ∀ h ∈ HeaderLine.headers b.readBuff off lines,
      StringIn b lo hi h.name ∧ ∃ p, h.value = some p ∧ StringIn b lo hi p := by
  induction lines generalizing off with
  | nil => exact nofun
  | cons h lines ih =>
      rw [HeaderLine.join_cons] at bytes until_
      rw [List.length_append, List.length_cons] at until_
      obtain ⟨line, behind⟩ := Mem.read_parts bytes
      rw [← List.singleton_append] at behind
      obtain ⟨-, later⟩ := Mem.read_parts behind
      rw [Ptr.add_add] at later
      obtain ⟨first, parts, front⟩ := h.parsed_eq
      have length := congrArg List.length parts
      rw [List.length_append, front] at length
      obtain ⟨-, value⟩ := Mem.read_parts (line.trans parts)
      rw [front] at value
      intro header inside
      rcases List.mem_cons.mp inside with rfl | inside
      · refine ⟨.of_bytes line ?_ from_ (by omega), _, rfl,
          .of_bytes value (List.mem_append_right _ List.mem_cons_self) (by omega) (by omega)⟩
        rw [parts]
        exact List.mem_append_right _ (List.mem_append_right _ List.mem_cons_self)
      · refine ih ?_ ?_ ?_ header inside
        · rw [← h.parsed_length]
          exact later
        · omega
        · rw [← h.parsed_length]
          omega

/-- What the headers of a request say. -/
def RequestHead.strings (head : RequestHead) :
    List (HeaderName × Option (List Byte) × Option (List Byte)) :=
  head.lines.map fun h =>
    (Header.parseHeader (h.name.map Header.lower), some (h.name.map Header.lower), some h.value)

namespace Connection

variable {H : Type} {c c₀ d t : Connection H}

/-- The headers, with the names and values which their pointers denote. -/
def strings (c : Connection H) : List (HeaderName × Option (List Byte) × Option (List Byte)) :=
  c.headerA.map fun h => (h.intName, c.stringAt h.name, h.value.bind c.stringAt)

/-- The connection, with headers whose names are known. -/
def asKnown (c : Connection H) : Connection H := { c with headerA := c.headerA.map Header.known }

theorem asKnown_strings (c : Connection H) :
    c.asKnown.knownStrings = c.strings.map fun s => (.host, s.2) := by
  have known : ∀ h ∈ c.headerA.map Header.known, decide (h.intName ≠ .unknown) = true := by
    intro h inside
    obtain ⟨h, -, rfl⟩ := List.mem_map.mp inside
    rfl
  simp only [knownStrings, asKnown, List.filter_eq_self.mpr known, strings, List.map_map]
  rfl

/-- Headers with the same names denote the same strings if they do so as known ones. -/
theorem strings_of_known (same : d.asKnown.knownStrings = c.asKnown.knownStrings)
    (names : d.headerA.map Header.intName = c.headerA.map Header.intName) :
    d.strings = c.strings := by
  have parts : ∀ c : Connection H, c.strings =
      (c.headerA.map Header.intName).zip (c.asKnown.knownStrings.map Prod.snd) := by
    intro c
    rw [asKnown_strings, List.map_map, strings, List.map_map, List.zip_map']
    rfl
  rw [parts, parts, same, names]

/-! ## Behind the header block -/

theorem Complete.strings_eq {head : RequestHead} {behind : List Byte}
    (complete : Complete head c₀ c behind) : c.strings = head.strings := by
  have strings := congrArg (List.map fun s => (s.2.2, s.1, s.2.1)) complete.strings
  rw [List.map_map, List.map_map] at strings
  exact strings

/-- The strings of the headers are among the relevant bytes. -/
theorem Complete.headersIn {head : RequestHead} {behind : List Byte}
    (complete : Complete head c₀ c behind) :
    HeadersIn c.asKnown.readBuff (c.readBuff.readPos - c.readBuff.relevantLength)
      c.readBuff.readPos c.asKnown.headerA := by
  obtain ⟨off, headers, lines, from_, until_⟩ := complete.lines
  intro h inside _
  obtain ⟨h, there, rfl⟩ := List.mem_map.mp inside
  rw [headers] at there
  exact stringIn_headers lines from_ until_ h there

/-- Once the headers are saved, what happens to the read buffer does not concern their strings. -/
theorem strings_of_saved (valid : c.readBuff.Valid)
    (headers : HeadersIn c.asKnown.readBuff (c.readBuff.readPos - c.readBuff.relevantLength)
      c.readBuff.readPos c.asKnown.headerA) (same : d = { c.savePostHeaders with
        phase := d.phase, currQuery := d.currQuery, readBuff := d.readBuff, handed := d.handed }) :
    d.strings = c.strings := by
  have saved : c.savePostHeaders.asKnown = c.asKnown.savePostHeaders := by
    simp only [savePostHeaders, asKnown, List.map_map]
    rfl
  obtain ⟨strings, place⟩ := savePostHeaders_kept (c := c.asKnown) valid headers
  rw [← saved] at strings place
  have headerA : d.headerA = c.savePostHeaders.headerA := by rw [same]
  refine strings_of_known (Eq.trans ?_ strings) ?_
  · refine AllIn.knownStrings place ?_ fun p inside => ?_
    · simp only [asKnown, headerA]
    · have block : p.block = .postHeader c.savePostHeaders.postHeaders := inside
      rw [same]
      simp only [stringAt, bytesAt, asKnown, block]
  · rw [headerA]
    simp only [savePostHeaders, List.map_map]
    rfl

/-! ## While a body is read as a whole -/

/-- From the loop which waits for a whole body on. -/
def Whole (c : Connection H) : Prop :=
  match c.phase with
  | .content _ | .contentRead _ | .respond | .closed => True
  | _ => False

/-- A turn of the loop which finds the headers in the current buffer leaves its bytes in place. -/
def StringsStay (c : Connection H) (e : Event) : Prop := c.asKnown.HeadersStay e

instance (c : Connection H) (e : Event) : Decidable (c.StringsStay e) :=
  inferInstanceAs (Decidable (c.asKnown.HeadersStay e))

theorem Whole.parsing (whole : c.Whole) (valid : c.readBuff.Valid) (static : c.readBuff.Static) :
    Parsing c.asKnown := by
  refine ⟨valid, static, ?_⟩
  rw [show c.asKnown.phase = c.phase from rfl]
  cases phase : c.phase with
  | headers | headersDone => simp only [Whole, phase] at whole
  | content | contentRead | multipart | multipartRead | respond | closed => trivial

variable [FileUploadHelper H]

theorem step_asKnown {e : Event} (whole : c.Whole) (within : e.Within) (run : c.step e = some d) :
    c.asKnown.step e = some d.asKnown ∧ d.Whole ∧ d.headerA = c.headerA := by
  have reads : ∀ {b : StreamReadBuff BuildConfig.readBuffSize},
      { c with readBuff := b }.afterRead = some d →
      { c.asKnown with readBuff := b }.afterRead = some d.asKnown ∧ d.Whole ∧
        d.headerA = c.headerA := by
    intro b run
    cases phase : c.phase with
    | contentRead type =>
        have known : c.asKnown.phase = .contentRead type := phase
        simp only [afterRead, phase] at run
        simp only [afterRead, known]
        obtain rfl := Option.some.inj run
        exact ⟨rfl, trivial, rfl⟩
    | content | respond | closed =>
        simp only [afterRead, phase] at run
        cases run
    | headers | headersDone | multipart | multipartRead =>
        simp only [Whole, phase] at whole
  cases e with
  | go =>
      cases phase : c.phase with
      | content type =>
          have known : c.asKnown.phase = .content type := phase
          simp only [step, go, phase, contentLoop] at run
          simp only [step, go, known, contentLoop]
          split at run
          · cases run
          · rename_i b asked
            obtain rfl := Option.some.inj run
            rw [show c.asKnown.readBuff.requestData (Word.u32 c.asKnown.contentLength) =
              some (false, b) from asked]
            exact ⟨rfl, trivial, rfl⟩
          · rename_i b asked
            obtain ⟨q, query, rfl⟩ := Option.map_eq_some_iff.mp run
            rw [show c.asKnown.readBuff.requestData (Word.u32 c.asKnown.contentLength) =
              some (true, b) from asked]
            exact ⟨Option.map_eq_some_iff.mpr ⟨q, query, rfl⟩, trivial, rfl⟩
      | contentRead | respond | closed =>
          simp only [step, go, phase] at run
          cases run
      | headers | headersDone | multipart | multipartRead => simp only [Whole, phase] at whole
  | read data =>
      simp only [step] at run ⊢
      split at run
      · rename_i fits
        rw [if_pos (by exact fits)]
        exact reads run
      · cases run
  | noRoom =>
      simp only [step] at run ⊢
      split at run
      · rename_i full
        rw [if_pos (by exact full)]
        exact reads run
      · cases run
  | readError =>
      simp only [step] at run ⊢
      split at run
      · rename_i reading
        rw [if_pos (by exact reading)]
        obtain rfl := Option.some.inj run
        exact ⟨rfl, trivial, rfl⟩
      · cases run
  | responded => exact within.elim

/-- A run which waits for a whole body keeps the strings, if they stay in every turn. -/
theorem exec_strings {events : List Event} (valid : c.readBuff.Valid) (static : c.readBuff.Static)
    (whole : c.Whole) {strings : List (HeaderName × Option (List Byte) × Option (List Byte))}
    (kept : Kept strings c.asKnown) (within : ∀ e ∈ events, e.Within)
    (stay : Along step StringsStay c events) (run : exec step c events = some t) :
    t.asKnown.knownStrings = strings ∧ t.headerA = c.headerA := by
  induction events generalizing c with
  | nil =>
      obtain rfl := Option.some.inj run
      exact ⟨kept.1, rfl⟩
  | cons e rest ih =>
      obtain ⟨mid, taken, run⟩ := exec_cons_some.mp run
      have here := whole.parsing valid static
      obtain ⟨known, next, headers⟩ := step_asKnown whole (within e List.mem_cons_self) taken
      have after := step_parsing here known
      have kept := step_kept here (within e List.mem_cons_self) stay.1 kept known
      obtain ⟨strings, same⟩ := ih (c := mid) after.valid after.static next kept
        (fun e inside => within e (List.mem_cons_of_mem _ inside)) (stay.2 mid taken) run
      exact ⟨strings, same.trans headers⟩

/-! ## The first request of a connection -/

/-- The static buffer has nothing in front of the headers. -/
def AtFront (b : StreamReadBuff BuildConfig.readBuffSize) : Prop :=
  b.readBuff = 0 → b.readPos ≤ b.relevantLength

theorem AtFront.requestData {b b' : StreamReadBuff BuildConfig.readBuffSize} {n : Nat} {r : Bool}
    (front : AtFront b) (asked : b.requestData n = some (r, b')) : AtFront b' := by
  cases StreamReadBuff.requestData_cases asked with
  | enough | roomy => exact front
  | moved =>
      intro first
      simp only
      omega
  | grown => exact fun first => absurd first (Nat.succ_ne_zero _)

theorem AtFront.consume {b : StreamReadBuff BuildConfig.readBuffSize} (front : AtFront b)
    (n : Nat) : AtFront (b.consume n true).2 := by
  intro first
  simp only [StreamReadBuff.consume] at first ⊢
  split at first
  · rename_i less
    have same := front first
    simp only [if_pos less, if_true]
    omega
  · rename_i less
    have same := front first
    simp only [if_neg less, if_true]
    omega

omit [FileUploadHelper H] in
/-- There the headers stay. -/
theorem AtFront.stays (front : AtFront c.readBuff)
    (headers : ∀ h ∈ c.headerA, h.name.block = .readBuff 0) (e : Event) : c.StringsStay e := by
  unfold StringsStay HeadersStay
  split
  · split
    · rintro ⟨h, inside, -, block⟩
      obtain ⟨h, there, rfl⟩ := List.mem_map.mp inside
      have first : c.readBuff.readBuff = 0 :=
        (Place.readBuff.inj ((headers h there).symm.trans block)).symm
      have nothing : c.readBuff.readPos - c.readBuff.relevantLength = 0 :=
        Nat.sub_eq_zero_of_le (front first)
      have known : c.asKnown.readBuff = c.readBuff := rfl
      simp only [StreamReadBuff.StaysPut, known, nothing, first, ite_self, or_true]
    · trivial
  · trivial

theorem step_atFront {e : Event} (whole : c.Whole) (within : e.Within) (front : AtFront c.readBuff)
    (run : c.step e = some d) : AtFront d.readBuff := by
  have reads : ∀ {b : StreamReadBuff BuildConfig.readBuffSize}, AtFront b →
      { c with readBuff := b }.afterRead = some d → AtFront d.readBuff := by
    intro b front run
    cases phase : c.phase with
    | contentRead type =>
        simp only [afterRead, phase] at run
        obtain rfl := Option.some.inj run
        exact front
    | content | respond | closed =>
        simp only [afterRead, phase] at run
        cases run
    | headers | headersDone | multipart | multipartRead =>
        simp only [Whole, phase] at whole
  cases e with
  | go =>
      cases phase : c.phase with
      | content type =>
          simp only [step, go, phase, contentLoop] at run
          split at run
          · cases run
          · rename_i b asked
            obtain rfl := Option.some.inj run
            exact front.requestData asked
          · rename_i b asked
            obtain ⟨q, -, rfl⟩ := Option.map_eq_some_iff.mp run
            exact (front.requestData asked).consume _
      | contentRead | respond | closed =>
          simp only [step, go, phase] at run
          cases run
      | headers | headersDone | multipart | multipartRead => simp only [Whole, phase] at whole
  | read data =>
      simp only [step] at run
      split at run
      · rename_i fits
        refine reads ?_ run
        obtain ⟨_, same⟩ := StreamReadBuff.receive_spec fits.2
        rw [same]
        exact front
      · cases run
  | noRoom =>
      simp only [step] at run
      split at run
      · exact reads front run
      · cases run
  | readError =>
      simp only [step] at run
      split at run
      · obtain rfl := Option.some.inj run
        exact front
      · cases run
  | responded => exact within.elim

/-- The first request of a connection keeps its strings. -/
theorem along_atFront {events : List Event} (whole : c.Whole) (front : AtFront c.readBuff)
    (headers : ∀ h ∈ c.headerA, h.name.block = .readBuff 0) (within : ∀ e ∈ events, e.Within) :
    Along step StringsStay c events := by
  induction events generalizing c with
  | nil => trivial
  | cons e rest ih =>
      refine ⟨front.stays headers e, fun mid taken => ?_⟩
      have here := within e List.mem_cons_self
      obtain ⟨-, next, same⟩ := step_asKnown whole here taken
      exact ih next (step_atFront whole here front taken) (same ▸ headers)
        (fun e inside => within e (List.mem_cons_of_mem _ inside))

end Connection

end MiniWebSrv.HTTP
