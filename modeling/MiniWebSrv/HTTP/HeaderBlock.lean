import MiniWebSrv.HTTP.Connection
import MiniWebSrv.Lib.Run

/-! # The header block in the read buffer

While a header block is parsed, and when it has been, the names and values of the known headers
are C strings among the relevant bytes of the read buffer.
-/

namespace MiniWebSrv.HTTP

open Run

variable {size : Nat}

/-- `p` points to a C string between two positions of the current buffer. -/
structure StringIn (b : StreamReadBuff size) (lo hi : Nat) (p : Ptr Place) : Prop where
  block : p.block = .readBuff b.readBuff
  from_ : lo ≤ p.off
  until_ : p.off ≤ hi
  ended : 0 ∈ b.mem.read ⟨b.readBuff, p.off⟩ (hi - p.off)

/-- So do the name and the value of every known header. -/
def HeadersIn (b : StreamReadBuff size) (lo hi : Nat) (headers : List Header) : Prop :=
  ∀ h ∈ headers, h.intName ≠ .unknown →
    StringIn b lo hi h.name ∧ ∃ p, h.value = some p ∧ StringIn b lo hi p

variable {b t : StreamReadBuff size} {lo hi : Nat} {p : Ptr Place} {headers : List Header}

theorem StringIn.mono {hi' : Nat} (h : StringIn b lo hi p) (le : hi ≤ hi') : StringIn b lo hi' p := by
  obtain ⟨block, from_, until_, ended⟩ := h
  refine ⟨block, from_, by omega, ?_⟩
  rw [show hi' - p.off = (hi - p.off) + (hi' - hi) by omega, Mem.read_add]
  exact List.mem_append_left _ ended

/-- Only the bytes between the two positions matter. -/
theorem StringIn.congr (h : StringIn b lo hi p) (block : t.readBuff = b.readBuff)
    (same : ∀ i, lo ≤ i → i < hi → t.mem t.readBuff i = b.mem b.readBuff i) :
    StringIn t lo hi p ∧
      t.mem.read ⟨t.readBuff, p.off⟩ (hi - p.off) = b.mem.read ⟨b.readBuff, p.off⟩ (hi - p.off) := by
  obtain ⟨blockOf, from_, until_, ended⟩ := h
  have bytes : t.mem.read ⟨t.readBuff, p.off⟩ (hi - p.off) =
      b.mem.read ⟨b.readBuff, p.off⟩ (hi - p.off) :=
    Mem.read_congr fun i inside => same (p.off + i) (by omega) (by omega)
  exact ⟨⟨by rw [block]; exact blockOf, from_, until_, by rw [bytes]; exact ended⟩, bytes⟩

theorem HeadersIn.mono {hi' : Nat} (h : HeadersIn b lo hi headers) (le : hi ≤ hi') :
    HeadersIn b lo hi' headers := by
  intro header inside known
  obtain ⟨name, value, some_, ended⟩ := h header inside known
  exact ⟨name.mono le, value, some_, ended.mono le⟩

theorem HeadersIn.congr (h : HeadersIn b lo hi headers) (block : t.readBuff = b.readBuff)
    (same : ∀ i, lo ≤ i → i < hi → t.mem t.readBuff i = b.mem b.readBuff i) :
    HeadersIn t lo hi headers := by
  intro header inside known
  obtain ⟨name, value, some_, ended⟩ := h header inside known
  exact ⟨(name.congr block same).1, value, some_, (ended.congr block same).1⟩

namespace Connection

variable {H : Type} {c d : Connection H}

/-! ## One line -/

theorem parseVersion_keeps (c : Connection H) (bytes : List Byte) :
    ∃ version, (c.parseVersion bytes).2 = { c with currVersion := version } := by
  unfold parseVersion
  split
  · exact ⟨c.currVersion, rfl⟩
  · exact ⟨_, rfl⟩

/-- A request line concerns four members. -/
theorem parseRequestLine_keeps {line : List Byte} {ok : Bool}
    (run : c.parseRequestLine line = some (ok, d)) : ∃ version method resource query,
      d = { c with
        currVersion := version, currMethod := method, currResource := resource, currQuery := query } := by
  unfold parseRequestLine at run
  split at run
  · obtain ⟨rfl, rfl⟩ := Prod.mk.inj (Option.some.inj run)
    exact ⟨_, _, _, _, rfl⟩
  · simp only at run
    split at run
    · obtain ⟨rfl, rfl⟩ := Prod.mk.inj (Option.some.inj run)
      exact ⟨_, _, _, _, rfl⟩
    · split at run
      · split at run
        · obtain ⟨rfl, rfl⟩ := Prod.mk.inj (Option.some.inj run)
          exact ⟨_, _, _, _, rfl⟩
        · obtain ⟨q, -, same⟩ := Option.map_eq_some_iff.mp run
          obtain ⟨-, rfl⟩ := Prod.mk.inj same
          obtain ⟨version, same⟩ := parseVersion_keeps _ _
          exact ⟨_, _, _, _, same⟩
      · obtain ⟨-, rfl⟩ := Prod.mk.inj (Option.some.inj run)
        obtain ⟨version, same⟩ := parseVersion_keeps _ _
        exact ⟨_, _, _, _, same⟩

/-- A header line is parsed in place, behind the lines before it. -/
theorem pushHeader_headers {lo hi stop : Nat} (lines : HeadersIn c.readBuff lo hi c.headerA)
    (ordered : lo ≤ hi) (line : hi ≤ stop) :
    HeadersIn (c.pushHeader ⟨c.readBuff.readBuff, hi⟩ (stop - hi)).readBuff lo stop
      (c.pushHeader ⟨c.readBuff.readBuff, hi⟩ (stop - hi)).headerA := by
  generalize same : c.readBuff.mem.read ⟨c.readBuff.readBuff, hi⟩ (stop - hi) = bytes
  have length : bytes.length = stop - hi := by rw [← same, Mem.read_length]
  have extracted := Header.extractHeader_length bytes
  intro header inside known
  simp only [pushHeader, same] at inside known ⊢
  rcases List.mem_append.mp inside with old | new
  · let written : StreamReadBuff BuildConfig.readBuffSize := { c.readBuff with
      mem := c.readBuff.mem.write ⟨c.readBuff.readBuff, hi⟩ (Header.extractHeader bytes).line }
    have kept : HeadersIn written lo hi c.headerA := by
      refine lines.congr rfl fun i from_ until_ => ?_
      simp only [written, Mem.write]
      rw [if_neg (by simp only [true_and]; omega)]
    exact kept.mono line header old known
  · obtain rfl := List.mem_singleton.mp new
    obtain ⟨name, offset, value, inside, ended⟩ := Header.extractHeader_known known
    have all : (c.readBuff.mem.write ⟨c.readBuff.readBuff, hi⟩ (Header.extractHeader bytes).line).read
        ⟨c.readBuff.readBuff, hi⟩ (stop - hi) = (Header.extractHeader bytes).line := by
      rw [← length, ← extracted]
      exact Mem.read_write_self _ _ _
    refine ⟨⟨rfl, ordered, line, ?_⟩, ⟨.readBuff c.readBuff.readBuff, hi + offset⟩, ?_,
      ⟨rfl, by simp only; omega, by simp only; omega, ?_⟩⟩
    · simp only [all]
      exact name
    · simp only [value]
      rfl
    · have rest := Mem.drop_read (c.readBuff.mem.write ⟨c.readBuff.readBuff, hi⟩
        (Header.extractHeader bytes).line) ⟨c.readBuff.readBuff, hi⟩ (k := offset) (n := stop - hi)
        (by omega)
      rw [all] at rest
      rw [rest] at ended
      rw [show stop - (hi + offset) = stop - hi - offset by omega]
      exact ended

/-! ## The block -/

/-- What the parsing of lines leaves alone. -/
structure SameBuffer (c d : Connection H) : Prop where
  readBuff : d.readBuff = { c.readBuff with mem := d.readBuff.mem }
  limit : d.maxPostBodyLength = c.maxPostBodyLength

theorem SameBuffer.refl (c : Connection H) : SameBuffer c c := ⟨rfl, rfl⟩

theorem SameBuffer.trans {e : Connection H} (h : SameBuffer c d) (h' : SameBuffer d e) :
    SameBuffer c e :=
  ⟨by rw [h'.readBuff, h.readBuff], h'.limit.trans h.limit⟩

/-- How the parsing of lines ends: the known headers are where the parsed lines are. -/
def ParsedFrom (c : Connection H) (lo pos n : Nat) : Parsed H → Prop
  | .more d _ lineStart => SameBuffer c d ∧ lineStart ≤ pos + n ∧
      HeadersIn d.readBuff lo (lo + lineStart) d.headerA
  | .done d stop => SameBuffer c d ∧ pos ≤ stop ∧ stop < pos + n ∧
      HeadersIn d.readBuff lo (lo + stop) d.headerA
  | .refused d => SameBuffer c d

theorem ParsedFrom.later {pos n lo : Nat} {r : Parsed H} (parsed : ParsedFrom d lo (pos + 1) n r)
    (same : SameBuffer c d) : ParsedFrom c lo pos (n + 1) r := by
  cases r with
  | more e found lineStart =>
      obtain ⟨next, le, lines⟩ := parsed
      exact ⟨same.trans next, by omega, lines⟩
  | done e stop =>
      obtain ⟨next, from_, until_, lines⟩ := parsed
      exact ⟨same.trans next, by omega, by omega, lines⟩
  | refused e => exact same.trans parsed

theorem parseLines_headers {found : Bool} {lineStart pos n : Nat} {r : Parsed H}
    (run : c.parseLines found lineStart pos n = some r) (le : lineStart ≤ pos)
    (lines : HeadersIn c.readBuff (c.readBuff.readPos - c.readBuff.relevantLength)
      (c.readBuff.readPos - c.readBuff.relevantLength + lineStart) c.headerA) :
    ParsedFrom c (c.readBuff.readPos - c.readBuff.relevantLength) pos n r := by
  induction n generalizing c found lineStart pos with
  | zero =>
      obtain rfl := Option.some.inj run
      exact ⟨.refl c, le, lines⟩
  | succ n ih =>
      simp only [parseLines] at run
      split at run
      · split at run
        · split at run
          · have pushed := pushHeader_headers lines (Nat.le_add_right _ _)
              (Nat.add_le_add_left le (c.readBuff.readPos - c.readBuff.relevantLength))
            rw [Nat.add_sub_add_left] at pushed
            have parsed := ih run (Nat.le_refl _)
              (pushed.mono (Nat.add_le_add_left (Nat.le_succ pos) _))
            exact parsed.later ⟨rfl, rfl⟩
          · split at run
            · cases run
            · rename_i d requestLine
              obtain ⟨_, _, _, _, rfl⟩ := parseRequestLine_keeps requestLine
              obtain rfl := Option.some.inj run
              exact ⟨rfl, rfl⟩
            · rename_i d requestLine
              obtain ⟨_, _, _, _, rfl⟩ := parseRequestLine_keeps requestLine
              have parsed := ih run (Nat.le_refl _)
                (lines.mono (Nat.add_le_add_left (Nat.le_succ_of_le le) _))
              exact parsed.later ⟨rfl, rfl⟩
        · obtain rfl := Option.some.inj run
          exact ⟨.refl c, Nat.le_refl _, by omega, lines.mono (by omega)⟩
      · exact (ih run (by omega) lines).later (.refl c)

/-! ## Runs -/

/-- What holds at every place where the handler stops. -/
structure Parsing (c : Connection H) : Prop where
  valid : c.readBuff.Valid
  static : c.readBuff.Static
  headers : match c.phase with
    | .headers _ lineStart => lineStart ≤ c.readBuff.relevantLength ∧
        HeadersIn c.readBuff (c.readBuff.readPos - c.readBuff.relevantLength)
          (c.readBuff.readPos - c.readBuff.relevantLength + lineStart) c.headerA
    | .headersDone =>
        HeadersIn c.readBuff (c.readBuff.readPos - c.readBuff.relevantLength) c.readBuff.readPos
          c.headerA
    | _ => True

theorem SameBuffer.sound (same : SameBuffer c d) (valid : c.readBuff.Valid)
    (static : c.readBuff.Static) : d.readBuff.Valid ∧ d.readBuff.Static := by
  rw [same.readBuff]
  exact ⟨⟨valid.relevant, valid.data, valid.inside, valid.block⟩, static⟩

theorem headerHandler_parsing {found : Bool} {lineStart : Nat} (valid : c.readBuff.Valid)
    (static : c.readBuff.Static) (le : lineStart ≤ c.readBuff.relevantLength)
    (lines : HeadersIn c.readBuff (c.readBuff.readPos - c.readBuff.relevantLength)
      (c.readBuff.readPos - c.readBuff.relevantLength + lineStart) c.headerA)
    (run : c.headerHandler found lineStart = some d) : Parsing d := by
  simp only [headerHandler] at run
  have ordered := valid.relevant
  split at run
  · cases run
  · rename_i e lexed
    have same := parseLines_headers lexed le lines
    obtain ⟨valid, static⟩ := same.sound valid static
    obtain rfl := Option.some.inj run
    exact ⟨valid, static, trivial⟩
  · rename_i e stop lexed
    obtain ⟨same, from_, until_, lines⟩ := parseLines_headers lexed le lines
    obtain ⟨valid', static'⟩ := same.sound valid static
    obtain rfl := Option.some.inj run
    have buffer := same.readBuff
    have enough : stop - e.readBuff.relevantLength + 1 ≤ e.readBuff.getAvailableDataLength := by
      rw [buffer]
      simp only [StreamReadBuff.getAvailableDataLength] at until_ ⊢
      omega
    have consumed := StreamReadBuff.consume_spec valid' true enough
    refine ⟨StreamReadBuff.consume_valid valid' _ _, StreamReadBuff.consume_static static' _ _, ?_⟩
    simp only [consumed, if_true]
    have start : e.readBuff.readPos + (stop - e.readBuff.relevantLength + 1) -
        (e.readBuff.relevantLength + (stop - e.readBuff.relevantLength + 1)) =
        c.readBuff.readPos - c.readBuff.relevantLength := by
      rw [buffer]
      simp only
      omega
    have last : c.readBuff.readPos - c.readBuff.relevantLength + stop ≤
        e.readBuff.readPos + (stop - e.readBuff.relevantLength + 1) := by
      rw [buffer]
      simp only
      omega
    rw [start]
    exact (lines.mono last).congr rfl fun _ _ _ => rfl
  · rename_i e found' lineStart' lexed
    obtain ⟨same, until_, lines⟩ := parseLines_headers lexed le lines
    obtain ⟨valid', static'⟩ := same.sound valid static
    obtain rfl := Option.some.inj run
    have buffer := same.readBuff
    have all : c.readBuff.getAvailableDataLength ≤ e.readBuff.getAvailableDataLength := by
      rw [buffer]
      exact Nat.le_refl _
    have consumed := StreamReadBuff.consume_spec valid' true all
    refine ⟨StreamReadBuff.consume_valid valid' _ _, StreamReadBuff.consume_static static' _ _, ?_⟩
    simp only [consumed, if_true]
    have start : e.readBuff.readPos + c.readBuff.getAvailableDataLength -
        (e.readBuff.relevantLength + c.readBuff.getAvailableDataLength) =
        c.readBuff.readPos - c.readBuff.relevantLength := by
      rw [buffer]
      simp only
      omega
    rw [start]
    refine ⟨?_, lines.congr rfl fun _ _ _ => rfl⟩
    rw [buffer]
    exact until_

/-- The search for the length and the type concerns two members. -/
theorem searchHeaders_keeps {headers : List Header} {found result : HeaderSearch}
    (search : c.searchHeaders found headers = some (d, result)) :
    d = { c with contentLength := d.contentLength, currQuery := d.currQuery } := by
  fun_induction searchHeaders c found headers with
  | case1 | case2 =>
      obtain ⟨rfl, rfl⟩ := Prod.mk.inj (Option.some.inj search)
      rfl
  | case3 => cases search
  | case4 | case5 | case6 =>
      rename_i ih
      rw [ih search]

theorem contentHandler_parsing (parsing : Parsing c) : Parsing c.contentHandler := by
  obtain ⟨valid, static, -⟩ := parsing
  unfold contentHandler
  split
  · exact ⟨valid, static, trivial⟩
  · rename_i e found search
    have readBuff : e.readBuff = c.readBuff := by rw [searchHeaders_keeps search]
    rw [← readBuff] at valid static
    split
    · exact ⟨valid, static, trivial⟩
    · simp only
      split
      · exact ⟨valid, static, trivial⟩
      · split
        · exact ⟨valid, static, trivial⟩
        · split
          · exact ⟨(StreamReadBuff.resetRelevant_keeps valid).1,
              StreamReadBuff.resetRelevant_static static, trivial⟩
          · exact ⟨valid, static, trivial⟩

theorem contentLoop_parsing {type : ContentType} (parsing : Parsing c)
    (run : c.contentLoop type = some d) : Parsing d := by
  obtain ⟨valid, static, -⟩ := parsing
  simp only [contentLoop] at run
  split at run
  · cases run
  · rename_i b asked
    have request := StreamReadBuff.requestData_cases asked
    obtain rfl := Option.some.inj run
    exact ⟨(request.keeps valid).1, request.static static, trivial⟩
  · rename_i b asked
    have request := StreamReadBuff.requestData_cases asked
    obtain ⟨q, -, rfl⟩ := Option.map_eq_some_iff.mp run
    exact ⟨StreamReadBuff.consume_valid (request.keeps valid).1 _ _,
      StreamReadBuff.consume_static (request.static static) _ _, trivial⟩

/-- A read does not touch the bytes which have been parsed. -/
theorem afterRead_parsing {b : StreamReadBuff BuildConfig.readBuffSize} (parsing : Parsing c)
    (valid : b.Valid) (static : b.Static) (block : b.readBuff = c.readBuff.readBuff)
    (readPos : b.readPos = c.readBuff.readPos)
    (relevant : b.relevantLength = c.readBuff.relevantLength)
    (same : ∀ i, i < c.readBuff.readPos → b.mem b.readBuff i = c.readBuff.mem c.readBuff.readBuff i)
    (run : { c with readBuff := b }.afterRead = some d) : Parsing d := by
  have lines := parsing.headers
  have ordered := parsing.valid.relevant
  cases phase : c.phase with
  | headers found lineStart =>
      simp only [afterRead, phase] at run lines
      split at run
      · obtain rfl := Option.some.inj run
        exact ⟨valid, static, trivial⟩
      · obtain ⟨le, lines⟩ := lines
        refine headerHandler_parsing valid static (relevant ▸ le) ?_ run
        simp only [readPos, relevant]
        exact lines.congr block fun i _ until_ => same i (by omega)
  | contentRead | multipartRead =>
      simp only [afterRead, phase] at run
      obtain rfl := Option.some.inj run
      exact ⟨valid, static, trivial⟩
  | headersDone | content | multipart | respond | closed =>
      simp only [afterRead, phase] at run
      cases run

variable [FileUploadHelper H]

theorem multipartLoop_parsing {remLength : Nat} (parsing : Parsing c)
    (run : c.multipartLoop remLength = some d) : Parsing d := by
  obtain ⟨valid, static, -⟩ := parsing
  simp only [multipartLoop] at run
  split at run
  · split at run
    · cases run
    · rename_i r b asked
      have request := StreamReadBuff.requestData_cases asked
      obtain rfl := Option.some.inj run
      exact ⟨(request.keeps (StreamReadBuff.consume_valid valid _ _)).1,
        request.static (StreamReadBuff.consume_static static _ _), trivial⟩
  · obtain rfl := Option.some.inj run
    exact ⟨StreamReadBuff.consume_valid valid _ _, StreamReadBuff.consume_static static _ _, trivial⟩

theorem go_parsing (parsing : Parsing c) (run : c.go = some d) : Parsing d := by
  simp only [go] at run
  split at run
  · obtain rfl := Option.some.inj run
    split
    · exact contentHandler_parsing parsing
    · exact ⟨parsing.valid, parsing.static, trivial⟩
  · exact contentLoop_parsing parsing run
  · exact multipartLoop_parsing parsing run
  · cases run

theorem nextRequest_parsing {junk : Junk} (valid : c.readBuff.Valid) (static : c.readBuff.Static)
    (run : c.nextRequest junk = some d) : Parsing d := by
  simp only [nextRequest] at run
  split at run
  · obtain rfl := Option.some.inj run
    exact ⟨valid, static, Nat.zero_le _, nofun⟩
  · exact headerHandler_parsing (c := c.resetRequestData junk) valid static (Nat.zero_le _) nofun run

theorem step_parsing {e : Event} (parsing : Parsing c) (run : c.step e = some d) : Parsing d := by
  have valid := parsing.valid
  have static := parsing.static
  cases e with
  | go => exact go_parsing parsing run
  | read data =>
      simp only [step] at run
      split at run
      · rename_i fits
        obtain ⟨_, same⟩ := StreamReadBuff.receive_spec fits.2
        refine afterRead_parsing parsing (StreamReadBuff.receive_valid valid fits.2)
          (StreamReadBuff.receive_static static fits.2) (by rw [same]) (by rw [same]) (by rw [same])
          (fun i before => ?_) run
        have data := valid.data
        rw [same]
        simp only [Mem.write, StreamReadBuff.at_, true_and]
        rw [if_neg (by omega)]
      · cases run
  | noRoom =>
      simp only [step] at run
      split at run
      · exact afterRead_parsing parsing valid static rfl rfl rfl (fun _ _ => rfl) run
      · cases run
  | readError =>
      simp only [step] at run
      split at run
      · obtain rfl := Option.some.inj run
        exact ⟨valid, static, trivial⟩
      · cases run
  | responded result junk =>
      simp only [step, responded] at run
      split at run
      · split at run
        · have reset := StreamReadBuff.resetRelevant_keeps valid
          have resetStatic := StreamReadBuff.resetRelevant_static static
          split at run
          · exact nextRequest_parsing reset.1 resetStatic run
          · obtain rfl := Option.some.inj run
            exact ⟨reset.1, resetStatic, trivial⟩
        · obtain rfl := Option.some.inj run
          exact ⟨valid, static, trivial⟩
      · cases run

theorem start_parsing (helper : H) (limit : UInt32) (mem postHeaderMem : Mem Nat Byte)
    (resource : List Byte) (first second : Junk) :
    Parsing (start helper limit mem postHeaderMem resource first second) :=
  ⟨StreamReadBuff.init_valid mem, StreamReadBuff.init_static mem, Nat.zero_le _, nofun⟩

/-- A connection which some run from its start leads to. -/
def Reachable (c : Connection H) : Prop :=
  ∃ helper limit mem postHeaderMem resource first second events,
    exec step (start helper limit mem postHeaderMem resource first second) events = some c

theorem Reachable.parsing (reachable : Reachable c) : Parsing c := by
  obtain ⟨helper, limit, mem, postHeaderMem, resource, first, second, events, run⟩ := reachable
  exact Run.invariant (fun _ _ _ parsing => step_parsing parsing)
    (start_parsing helper limit mem postHeaderMem resource first second) run

end Connection

end MiniWebSrv.HTTP
