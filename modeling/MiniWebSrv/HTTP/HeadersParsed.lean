import MiniWebSrv.HTTP.MultipartCuts
import MiniWebSrv.HTTP.RequestHead

/-! # Header blocks in pieces

A header block which comes in any pieces is parsed exactly. Between the pieces, some lines have
been parsed, and of the next one a part may have been received.
-/

namespace MiniWebSrv

/-! ## What a buffer holds -/

namespace StreamReadBuff

variable {size : Nat} {b : StreamReadBuff size}

/-- The relevant data, and the available data behind it. -/
def held (b : StreamReadBuff size) : List Byte :=
  b.mem.read b.getRelevantData.1 (b.dataEndPos - (b.readPos - b.relevantLength))

theorem held_eq (h : b.Valid) : b.held = b.relevant ++ b.available := by
  obtain ⟨relevant_, data, -, -⟩ := h
  rw [held, show b.dataEndPos - (b.readPos - b.relevantLength) =
    b.relevantLength + (b.dataEndPos - b.readPos) by omega, Mem.read_add]
  congr 2
  simp only [getRelevantData, at_, Ptr.add, Nat.sub_add_cancel relevant_]

theorem held_length (h : b.Valid) :
    b.held.length = b.relevantLength + b.getAvailableDataLength := by
  rw [held_eq h, List.length_append, available_length, relevant, Mem.read_length]
  rfl

theorem receive_held (h : b.Valid) {data : List Byte} (fits : data.length ≤ b.freeLength) :
    (b.receive data).2.held = b.held ++ data := by
  have valid := receive_valid h fits
  rw [held_eq h, held_eq valid, receive_available h fits, ← List.append_assoc]
  congr 2
  obtain ⟨_, same⟩ := receive_spec fits
  have dataEnd := h.data
  have apart : (Region.mk (b.at_ (b.readPos - b.relevantLength)) b.relevantLength).Disjoint
      ⟨b.at_ b.dataEndPos, data.length⟩ := by
    have relevant := h.relevant
    exact Or.inr (Or.inl (by simp only [at_]; omega))
  rw [same]
  exact Mem.read_write_of_disjoint _ apart

theorem consume_held (h : b.Valid) {length : Nat} (le : length ≤ b.getAvailableDataLength) :
    (b.consume length true).2.held = b.held := by
  rw [consume_spec h true le]
  simp only [held, getRelevantData, at_, if_true, Nat.add_sub_add_right]

end StreamReadBuff

namespace HTTP

/-! ## Lines in a stream -/

theorem cut_line {ahead missing line later : List Byte}
    (stream : ahead ++ missing = line ++ lf :: later) (free : lf ∉ line) :
    (lf ∉ ahead ∧ ahead.length ≤ line.length) ∨
      ∃ tail, ahead = line ++ lf :: tail ∧ tail ++ missing = later := by
  rcases List.append_eq_append_iff.mp stream with ⟨part, rfl, -⟩ | ⟨part, rfl, rest⟩
  · refine Or.inl ⟨fun inside => free (List.mem_append_left _ inside), ?_⟩
    rw [List.length_append]
    exact Nat.le_add_right _ _
  · cases part with
    | nil =>
        rw [List.append_nil]
        exact Or.inl ⟨free, Nat.le_refl _⟩
    | cons b tail =>
        obtain ⟨rfl, rfl⟩ := List.cons.inj rest
        exact Or.inr ⟨tail, rfl, rfl⟩

namespace HeaderLine

/-- The entry of `HeaderA` for a line at this offset. -/
def header (block off : Nat) (h : HeaderLine) : Header where
  name := ⟨.readBuff block, off⟩
  value := some ⟨.readBuff block, off + (h.name.length + 1 + h.spaces)⟩
  intName := Header.parseHeader (h.name.map Header.lower)

def headers (block off : Nat) : List HeaderLine → List Header
  | [] => []
  | h :: lines => h.header block off :: headers block (off + (h.line.length + 1)) lines

theorem headers_append (block off : Nat) (left right : List HeaderLine) :
    headers block off (left ++ right) =
      headers block off left ++ headers block (off + (join line left).length) right := by
  induction left generalizing off with
  | nil => rfl
  | cons h left ih =>
      rw [List.cons_append, headers, headers, ih, List.cons_append, join_cons, List.length_append,
        List.length_cons]
      congr 3
      omega

end HeaderLine

namespace Connection

open Run

variable {H : Type} {c d : Connection H} {found : Bool} {seen ahead line tail : List Byte}
  {pos n : Nat}

/-- The beginning of the relevant data. -/
def relevantBuff (c : Connection H) : Ptr Nat := c.readBuff.getRelevantData.1

theorem parseLines_skip {lineStart k : Nat}
    (free : lf ∉ c.readBuff.mem.read (c.relevantBuff.add pos) k) :
    c.parseLines found lineStart pos (k + n) = c.parseLines found lineStart (pos + k) n := by
  induction k generalizing pos with
  | zero => rw [Nat.zero_add, Nat.add_zero]
  | succ k ih =>
      simp only [Mem.read, List.mem_cons, not_or] at free
      have other : ¬c.readBuff.mem c.readBuff.getRelevantData.1.block
          (c.readBuff.getRelevantData.1.off + pos) = lf := Ne.symm free.1
      rw [Nat.succ_add, parseLines, if_neg other, ih (by
        rw [Nat.add_comm pos 1, Nat.add_comm 1 pos, ← Ptr.add_add]
        exact free.2)]
      congr 1
      omega

theorem held_range (held : c.readBuff.held = seen ++ ahead) (from_ : seen.length ≤ pos)
    (inside : pos + n ≤ seen.length + ahead.length) :
    c.readBuff.mem.read (c.relevantBuff.add pos) n = (ahead.drop (pos - seen.length)).take n := by
  have length := congrArg List.length held
  rw [StreamReadBuff.held, Mem.read_length, List.length_append] at length
  have same : ahead.drop (pos - seen.length) = c.readBuff.held.drop pos := by
    rw [held, List.drop_append, List.drop_eq_nil_of_le from_, List.nil_append]
  rw [same, StreamReadBuff.held, Mem.drop_read _ _ (by omega), Mem.take_read _ _ (by omega)]
  rfl

/-- Without an LF, what has come is a part of a line. -/
theorem parseLines_within (held : c.readBuff.held = seen ++ ahead) (free : lf ∉ ahead)
    (from_ : seen.length ≤ pos) (count : pos + n = seen.length + ahead.length) :
    c.parseLines found seen.length pos n = some (.more c found seen.length) := by
  have none_ : lf ∉ c.readBuff.mem.read (c.relevantBuff.add pos) n := by
    rw [held_range held from_ (Nat.le_of_eq count)]
    exact fun inside => free (List.mem_of_mem_drop (List.mem_of_mem_take inside))
  have skipped : c.parseLines found seen.length pos (n + 0) =
      c.parseLines found seen.length (pos + n) 0 := parseLines_skip none_
  exact skipped

/-- The parser finds the next LF. -/
theorem parseLines_scan (found : Bool) (held : c.readBuff.held = seen ++ (line ++ lf :: tail)) (free : lf ∉ line)
    (from_ : seen.length ≤ pos) (until_ : pos ≤ seen.length + line.length)
    (count : pos + n = seen.length + (line ++ lf :: tail).length) :
    c.parseLines found seen.length pos n =
        c.parseLines found seen.length (seen.length + line.length) (tail.length + 1) ∧
      c.readBuff.mem c.readBuff.getRelevantData.1.block
        (c.readBuff.getRelevantData.1.off + (seen.length + line.length)) = lf := by
  rw [List.length_append, List.length_cons] at count
  obtain ⟨k, rfl⟩ := Nat.exists_eq_add_of_le from_
  have part : k ≤ line.length := by omega
  have none_ : lf ∉ c.readBuff.mem.read (c.relevantBuff.add (seen.length + k)) (line.length - k) := by
    rw [held_range held from_ (by simp only [List.length_append, List.length_cons]; omega),
      Nat.add_sub_cancel_left, List.drop_append_of_le_length part, List.take_left' (by simp)]
    exact fun inside => free (List.mem_of_mem_drop inside)
  have skipped : c.parseLines found seen.length (seen.length + k)
      ((line.length - k) + (tail.length + 1)) = c.parseLines found seen.length
        (seen.length + k + (line.length - k)) (tail.length + 1) := parseLines_skip none_
  have one := held_range (n := 1) held (Nat.le_add_right seen.length line.length)
    (by simp only [List.length_append, List.length_cons]; omega)
  rw [Nat.add_sub_cancel_left, List.drop_left' rfl] at one
  refine ⟨?_, (List.cons.inj one).1⟩
  rw [show n = (line.length - k) + (tail.length + 1) by omega, skipped]
  congr 1
  omega

/-- A short line is the last one. -/
theorem parseLines_end (held : c.readBuff.held = seen ++ (line ++ lf :: tail)) (free : lf ∉ line)
    (from_ : seen.length ≤ pos) (until_ : pos ≤ seen.length + line.length)
    (count : pos + n = seen.length + (line ++ lf :: tail).length) (short : line.length ≤ 1) :
    c.parseLines found seen.length pos n = some (.done c (seen.length + line.length)) := by
  obtain ⟨skipped, newline⟩ := parseLines_scan found held free from_ until_ count
  rw [skipped, parseLines, if_pos newline, Nat.add_sub_cancel_left, if_neg (Nat.not_lt.mpr short)]

theorem parseLines_header (held : c.readBuff.held = seen ++ (line ++ lf :: tail)) (free : lf ∉ line)
    (from_ : seen.length ≤ pos) (until_ : pos ≤ seen.length + line.length)
    (count : pos + n = seen.length + (line ++ lf :: tail).length) (long : 1 < line.length) :
    c.parseLines true seen.length pos n =
      (c.pushHeader (c.relevantBuff.add seen.length) line.length).parseLines true
        (seen.length + line.length + 1) (seen.length + line.length + 1) tail.length := by
  obtain ⟨skipped, newline⟩ := parseLines_scan true held free from_ until_ count
  rw [skipped, parseLines, if_pos newline, Nat.add_sub_cancel_left, if_pos long, if_pos rfl]
  rfl

theorem parseLines_request (held : c.readBuff.held = line ++ lf :: tail) (free : lf ∉ line)
    (until_ : pos ≤ line.length) (count : pos + n = (line ++ lf :: tail).length)
    (long : 1 < line.length) (requestLine : c.parseRequestLine line = some (true, d)) :
    c.parseLines false 0 pos n = d.parseLines true (line.length + 1) (line.length + 1) tail.length := by
  have all : c.readBuff.held = [] ++ (line ++ lf :: tail) := held
  obtain ⟨skipped, newline⟩ := parseLines_scan false all free (Nat.zero_le _) (by simpa using until_) (by simpa using count)
  have whole : c.readBuff.mem.read c.relevantBuff line.length = line := (Mem.read_parts held).1
  simp only [List.length_nil, Nat.zero_add] at skipped newline
  rw [skipped, parseLines, if_pos newline, Nat.sub_zero, if_pos long, if_neg (by decide)]
  simp only [relevantBuff] at whole
  rw [whole, requestLine]

theorem pushHeader_line (h : HeaderLine)
    (held : c.readBuff.held = seen ++ (h.line ++ lf :: tail)) :
    ∃ mem, c.pushHeader (c.relevantBuff.add seen.length) h.line.length = { c with
        readBuff := { c.readBuff with mem := mem }
        headerA := c.headerA ++
          [h.header c.readBuff.readBuff (c.relevantBuff.off + seen.length)] } ∧
      ({ c.readBuff with mem := mem } : StreamReadBuff BuildConfig.readBuffSize).held =
        seen ++ (h.parsed ++ lf :: tail) := by
  have line : c.readBuff.mem.read (c.relevantBuff.add seen.length) h.line.length = h.line :=
    (Mem.read_parts (n := (h.line ++ lf :: tail).length) (Mem.read_parts held).2).1
  refine ⟨c.readBuff.mem.write (c.relevantBuff.add seen.length) h.parsed, ?_, ?_⟩
  · simp only [pushHeader, line, h.extractHeader, h.lineName]
    rfl
  · exact Mem.read_write_middle held h.parsed_length

/-! ## A block -/

/-- The place of the block in the buffer stays the same. -/
structure SameStart (c₀ c : Connection H) : Prop where
  block : c.readBuff.readBuff = c₀.readBuff.readBuff
  start : c.readBuff.readPos - c.readBuff.relevantLength = c₀.readBuff.readPos
  room : c.readBuff.buffLength = c₀.readBuff.buffLength

/-- The headers of the first lines of a block. -/
def listed (head : RequestHead) (c₀ : Connection H) (lines : List HeaderLine) : List Header :=
  HeaderLine.headers c₀.readBuff.readBuff
    (c₀.readBuff.readPos + (head.requestLine.length + 1)) lines

/-- How much of a block has been parsed: what has become of it, and what is still to come. -/
inductive Reached (head : RequestHead) (c₀ c : Connection H) : Bool → List Byte → List Byte → Prop
  | start (same : c = { c₀ with readBuff := c.readBuff, phase := c.phase }) :
      Reached head c₀ c false [] head.bytes
  | lines {q : QueryParams H} {done left : List HeaderLine}
      (query : head.queryOf c₀.currQuery = some q) (split_ : head.lines = done ++ left)
      (same : c = { c₀.requested head q with
        readBuff := c.readBuff, phase := c.phase, headerA := listed head c₀ done }) :
      Reached head c₀ c true (head.requestLine ++ lf :: HeaderLine.join HeaderLine.parsed done)
        (HeaderLine.join HeaderLine.line left ++ [cr, lf])

/-- How the parsing goes on: to the end of what has come, or to the end of the block. -/
inductive ParsedTo (head : RequestHead) (c₀ c : Connection H) (missing rest : List Byte)
    (pos : Nat) : Option (Parsed H) → Prop
  | more {d : Connection H} {found : Bool} {seen todo ahead : List Byte} (buffer : SameBuffer c d)
      (reached : Reached head c₀ d found seen todo) (held : d.readBuff.held = seen ++ ahead)
      (free : lf ∉ ahead) (stream : ahead ++ missing = todo ++ rest) :
      ParsedTo head c₀ c missing rest pos (some (.more d found seen.length))
  | done {d : Connection H} {q : QueryParams H} {ahead : List Byte} {stop : Nat}
      (buffer : SameBuffer c d) (query : head.queryOf c₀.currQuery = some q)
      (same : d = { c₀.requested head q with
        readBuff := d.readBuff, phase := d.phase, headerA := listed head c₀ head.lines })
      (held : d.readBuff.held = head.parsed ++ ahead) (stream : ahead ++ missing = rest)
      (from_ : pos ≤ stop) (last : stop + 1 = head.bytes.length) :
      ParsedTo head c₀ c missing rest pos (some (.done d stop))

variable {head : RequestHead} {c₀ : Connection H} {todo missing rest : List Byte}

theorem ParsedTo.later {r : Option (Parsed H)} {next : Nat}
    (parsed : ParsedTo head c₀ d missing rest next r) (buffer : SameBuffer c d) (le : pos ≤ next) :
    ParsedTo head c₀ c missing rest pos r := by
  cases parsed with
  | more later reached held free stream => exact .more (buffer.trans later) reached held free stream
  | done later query same held stream from_ last =>
      exact .done (buffer.trans later) query same held stream (Nat.le_trans le from_) last

theorem SameBuffer.valid (buffer : SameBuffer c d) (valid : c.readBuff.Valid) : d.readBuff.Valid := by
  rw [buffer.readBuff]
  exact ⟨valid.relevant, valid.data, valid.inside, valid.block⟩

theorem SameBuffer.start (buffer : SameBuffer c d) (start : SameStart c₀ c) : SameStart c₀ d := by
  obtain ⟨block, from_, room⟩ := start
  refine ⟨?_, ?_, ?_⟩ <;> rw [buffer.readBuff] <;> assumption

/-- A part without LF does not reach behind its line. -/
theorem scanned_line {k : Nat} (scanned : lf ∉ (line ++ lf :: tail).take k) : k ≤ line.length := by
  refine Nat.le_of_not_lt fun more => scanned ?_
  rw [List.take_append, show k - line.length = (k - line.length - 1) + 1 by omega,
    List.take_succ_cons]
  exact List.mem_append_right _ List.mem_cons_self

/-- One more header line has been parsed. -/
theorem Reached.header {h : HeaderLine} {q : QueryParams H} {done left : List HeaderLine}
    {b : StreamReadBuff BuildConfig.readBuffSize} (query : head.queryOf c₀.currQuery = some q)
    (split_ : head.lines = done ++ h :: left)
    (same : c = { c₀.requested head q with
      readBuff := c.readBuff, phase := c.phase, headerA := listed head c₀ done })
    (start : SameStart c₀ c)
    (length : seen.length = (head.requestLine ++ lf :: HeaderLine.join HeaderLine.parsed done).length) :
    Reached head c₀ { c with
        readBuff := b
        headerA := c.headerA ++ [h.header c.readBuff.readBuff (c.relevantBuff.off + seen.length)] }
      true (head.requestLine ++ lf :: HeaderLine.join HeaderLine.parsed (done ++ [h]))
      (HeaderLine.join HeaderLine.line left ++ [cr, lf]) := by
  have headers : c.headerA = listed head c₀ done := by rw [same]
  have place : c.relevantBuff.off + seen.length = c₀.readBuff.readPos + (head.requestLine.length + 1) +
      (HeaderLine.join HeaderLine.line done).length := by
    rw [length, List.length_append, List.length_cons, HeaderLine.join_parsed_length]
    show c.readBuff.readPos - c.readBuff.relevantLength + _ = _
    rw [start.start]
    omega
  refine .lines query (by rw [split_, List.append_assoc]; rfl) ?_
  rw [headers, place, start.block, listed, listed, HeaderLine.headers_append, HeaderLine.headers,
    HeaderLine.headers]
  rw [same]

theorem parseLines_reached (none_ : c₀.headerA = []) (reached : Reached head c₀ c found seen todo)
    (start : SameStart c₀ c) (held : c.readBuff.held = seen ++ ahead)
    (stream : ahead ++ missing = todo ++ rest) (from_ : seen.length ≤ pos)
    (scanned : lf ∉ ahead.take (pos - seen.length))
    (count : pos + n = seen.length + ahead.length) :
    ParsedTo head c₀ c missing rest pos (c.parseLines found seen.length pos n) := by
  -- on the number of bytes: each turn is a line
  induction n using Nat.strongRecOn generalizing c found seen todo ahead pos with
  | ind n ih =>
  have part : lf ∉ ahead →
      ParsedTo head c₀ c missing rest pos (c.parseLines found seen.length pos n) := by
    intro free
    rw [parseLines_within held free from_ count]
    exact .more (.refl c) reached held free stream
  cases reached with
  | start same =>
      have lines : head.bytes ++ rest = head.requestLine ++ lf ::
          (HeaderLine.join HeaderLine.line head.lines ++ [cr, lf] ++ rest) := by
        simp only [RequestHead.bytes, List.append_assoc, List.cons_append]
      rw [lines] at stream
      rcases cut_line stream head.lf_notMem_requestLine with ⟨free, -⟩ | ⟨tail, rfl, later⟩
      · exact part free
      · obtain ⟨q, query⟩ := head.queryOf_some c₀.currQuery
        have parsed := parseRequestLine_line c head (q := q) (by rw [same]; exact query)
        have until_ := scanned_line scanned
        simp only [List.length_nil, Nat.sub_zero, Nat.zero_add, List.nil_append] at held until_ count ⊢
        rw [parseLines_request held head.lf_notMem_requestLine until_ count
          head.requestLine_long parsed]
        have next : Reached head c₀ (c.requested head q) true
            (head.requestLine ++ lf :: HeaderLine.join HeaderLine.parsed [])
            (HeaderLine.join HeaderLine.line head.lines ++ [cr, lf]) := by
          refine .lines query rfl ?_
          rw [same]
          simp only [requested, listed, HeaderLine.headers, none_]
        have length : (head.requestLine ++ lf :: HeaderLine.join HeaderLine.parsed []).length =
            head.requestLine.length + 1 := by simp
        have buffer : SameBuffer c (c.requested head q) := ⟨rfl, rfl⟩
        rw [← length]
        refine (ih tail.length ?_ next (buffer.start start) ?_ later (Nat.le_refl _) ?_ rfl).later
          buffer (by omega)
        · simp only [List.length_append, List.length_cons] at count until_
          omega
        · rw [HeaderLine.join_nil, List.append_assoc]
          exact held
        · simp
  | @lines q done left query split_ same =>
      cases left with
      | nil =>
          have short : ahead ++ missing = [cr] ++ lf :: rest := stream
          rcases cut_line short (by decide) with
            ⟨free, -⟩ | ⟨tail, rfl, later⟩
          · exact part free
          · have until_ := scanned_line scanned
            rw [parseLines_end held (by decide) from_ (by omega) count (Nat.le_refl _)]
            rw [List.append_nil] at split_
            rw [← split_] at held same
            refine .done (.refl c) query same ?_ later (by simp only [List.length_singleton] at *; omega) ?_
            · simp only [RequestHead.parsed, List.append_assoc, List.cons_append, List.nil_append]
              simpa only [List.append_assoc, List.cons_append, List.nil_append] using held
            · rw [← split_, ← RequestHead.parsed_length, RequestHead.parsed]
              simp only [List.length_append, List.length_cons, List.length_nil]
              omega
      | cons h left =>
          have lines : HeaderLine.join HeaderLine.line (h :: left) ++ [cr, lf] ++ rest =
              h.line ++ lf :: (HeaderLine.join HeaderLine.line left ++ [cr, lf] ++ rest) := by
            simp only [HeaderLine.join_cons, List.append_assoc, List.cons_append]
          rw [lines] at stream
          rcases cut_line stream h.lf_notMem_line with ⟨free, -⟩ | ⟨tail, rfl, later⟩
          · exact part free
          · have until_ := scanned_line scanned
            rw [parseLines_header held h.lf_notMem_line from_ (by omega) count h.line_long]
            obtain ⟨mem, pushed, heldNext⟩ := pushHeader_line h held
            rw [pushed]
            have next := Reached.header (b := { c.readBuff with mem := mem }) query split_ same start
              rfl
            have length : (head.requestLine ++ lf ::
                HeaderLine.join HeaderLine.parsed (done ++ [h])).length =
                (head.requestLine ++ lf :: HeaderLine.join HeaderLine.parsed done).length +
                  h.line.length + 1 := by
              simp only [HeaderLine.join_append, HeaderLine.join_cons, HeaderLine.join_nil,
                List.length_append, List.length_cons, List.length_nil, h.parsed_length]
              omega
            rw [← length]
            refine (ih tail.length ?_ next (SameBuffer.start ⟨rfl, rfl⟩ start) ?_ later
              (Nat.le_refl _) ?_ rfl).later ⟨rfl, rfl⟩ (by omega)
            · simp only [List.length_append, List.length_cons] at count until_ from_
              omega
            · simpa only [HeaderLine.join_append, HeaderLine.join_cons, HeaderLine.join_nil,
                List.append_assoc, List.cons_append, List.nil_append] using heldNext
            · rw [Nat.sub_self]
              exact List.not_mem_nil

/-! ## Between the reads -/

/-- `HeaderHandler` waits for more of the block. -/
structure Midway (head : RequestHead) (c₀ c : Connection H) (missing rest : List Byte) : Prop where
  valid : c.readBuff.Valid
  start : SameStart c₀ c
  drained : c.readBuff.getAvailableDataLength = 0
  reached : ∃ found seen todo ahead, c.phase = .headers found seen.length ∧
    Reached head c₀ c found seen todo ∧ c.readBuff.held = seen ++ ahead ∧ lf ∉ ahead ∧
    ahead ++ missing = todo ++ rest

/-- It has parsed the whole block, and these bytes have come behind it. -/
structure Complete (head : RequestHead) (c₀ c : Connection H) (behind : List Byte) : Prop where
  valid : c.readBuff.Valid
  start : SameStart c₀ c
  request : ∃ q, head.queryOf c₀.currQuery = some q ∧ c = { c₀.requested head q with
    readBuff := c.readBuff, phase := .headersDone, headerA := listed head c₀ head.lines }
  relevant : c.readBuff.relevant = head.parsed
  available : c.readBuff.available = behind

/-- One of both, after the bytes up to the missing ones. -/
def Advanced (head : RequestHead) (c₀ c : Connection H) (missing rest : List Byte) : Prop :=
  Midway head c₀ c missing rest ∨ ∃ behind, behind ++ missing = rest ∧ Complete head c₀ c behind

theorem Reached.length (reached : Reached head c₀ c found seen todo) :
    seen.length + todo.length = head.bytes.length ∧ lf ∈ todo := by
  cases reached with
  | start => exact ⟨Nat.zero_add _, by simp [RequestHead.bytes]⟩
  | lines query split_ =>
      refine ⟨?_, by simp⟩
      simp only [RequestHead.bytes, split_, HeaderLine.join_append, List.length_append,
        List.length_cons, HeaderLine.join_parsed_length]
      omega

/-- Only the buffer and the phase change. -/
theorem Reached.of_same (reached : Reached head c₀ c found seen todo)
    (same : d = { c with readBuff := d.readBuff, phase := d.phase }) :
    Reached head c₀ d found seen todo := by
  cases reached with
  | start before =>
      refine .start ?_
      rw [before] at same
      exact same
  | lines query split_ before =>
      refine .lines query split_ ?_
      rw [before] at same
      exact same

/-- Without an LF, what has come is shorter than what is left of the block. -/
theorem Reached.short (reached : Reached head c₀ c found seen todo) (free : lf ∉ ahead)
    (stream : ahead ++ missing = todo ++ rest) : ahead.length < todo.length := by
  refine Nat.lt_of_not_le fun le => free ?_
  obtain ⟨tail, rfl⟩ := List.prefix_of_prefix_length_le (List.prefix_append todo rest)
    (stream ▸ List.prefix_append ahead missing) le
  exact List.mem_append_left _ reached.length.2

theorem SameStart.of_positions (start : SameStart c₀ c)
    (block : d.readBuff.readBuff = c.readBuff.readBuff)
    (room : d.readBuff.buffLength = c.readBuff.buffLength)
    (from_ : d.readBuff.readPos - d.readBuff.relevantLength =
      c.readBuff.readPos - c.readBuff.relevantLength) : SameStart c₀ d :=
  ⟨block.trans start.block, from_.trans start.start, room.trans start.room⟩

/-- A turn of the loop of `HeaderHandler`. -/
theorem headerHandler_reached (none_ : c₀.headerA = [])
    (reached : Reached head c₀ c found seen todo) (valid : c.readBuff.Valid)
    (start : SameStart c₀ c) (held : c.readBuff.held = seen ++ ahead)
    (stream : ahead ++ missing = todo ++ rest) (from_ : seen.length ≤ c.readBuff.relevantLength)
    (scanned : lf ∉ ahead.take (c.readBuff.relevantLength - seen.length)) :
    ∃ d, c.headerHandler found seen.length = some d ∧ Advanced head c₀ d missing rest := by
  have count : c.readBuff.relevantLength + c.readBuff.getAvailableDataLength =
      seen.length + ahead.length := by
    rw [← StreamReadBuff.held_length valid, held, List.length_append]
  have parsed := parseLines_reached none_ reached start held stream from_ scanned count
  simp only [headerHandler]
  generalize c.parseLines found seen.length c.readBuff.relevantLength
    c.readBuff.getAvailableDataLength = r at parsed
  cases parsed with
  | @more e found seen todo ahead buffer reached held free stream =>
      have valid' := buffer.valid valid
      have same : c.readBuff.getAvailableDataLength = e.readBuff.getAvailableDataLength := by
        rw [buffer.readBuff]
        rfl
      simp only [same]
      have consumed := StreamReadBuff.consume_spec valid' true (Nat.le_refl _)
      have drained := StreamReadBuff.consume_available valid' true (Nat.le_refl _)
      have kept := StreamReadBuff.consume_held valid' (Nat.le_refl _)
      refine ⟨_, rfl, Or.inl ⟨StreamReadBuff.consume_valid valid' _ _, ?_, ?_,
        found, seen, todo, ahead, rfl, reached.of_same rfl, kept.trans held, free, stream⟩⟩
      · refine (buffer.start start).of_positions ?_ ?_ ?_ <;> simp only [consumed, if_true]
        omega
      · rw [← StreamReadBuff.available_length, drained, ← StreamReadBuff.available_length,
          List.drop_length]
        rfl
  | @done e q ahead stop buffer query same held stream from_ last =>
      have valid' := buffer.valid valid
      have relevant : e.readBuff.relevantLength = c.readBuff.relevantLength := by
        rw [buffer.readBuff]
      have length := StreamReadBuff.held_length valid'
      rw [held, List.length_append, RequestHead.parsed_length] at length
      have inside : stop - e.readBuff.relevantLength + 1 ≤ e.readBuff.getAvailableDataLength := by
        omega
      have consumed := StreamReadBuff.consume_spec valid' true inside
      have kept := StreamReadBuff.consume_held valid' inside
      have after := StreamReadBuff.consume_valid valid' (stop - e.readBuff.relevantLength + 1) true
      rw [held, StreamReadBuff.held_eq after] at kept
      have whole : (e.readBuff.consume (stop - e.readBuff.relevantLength + 1) true).2.relevant.length =
          head.parsed.length := by
        simp only [StreamReadBuff.relevant, Mem.read_length, StreamReadBuff.getRelevantData,
          consumed, if_true, RequestHead.parsed_length]
        omega
      obtain ⟨block, behind⟩ := List.append_inj kept whole
      refine ⟨_, rfl, Or.inr ⟨ahead, stream, after, ?_, ⟨q, query, ?_⟩, block, behind⟩⟩
      · refine (buffer.start start).of_positions ?_ ?_ ?_ <;> simp only [consumed, if_true]
        omega
      · rw [same]

/-! ## Reads -/

/-- The bytes which are missing are those of the block, and the ones behind it. -/
theorem Midway.outstanding (midway : Midway head c₀ c missing rest) :
    rest.length < missing.length ∧
      c.readBuff.dataEndPos + missing.length =
        c₀.readBuff.readPos + head.bytes.length + rest.length := by
  obtain ⟨valid, start, drained, found, seen, todo, ahead, -, reached, held, free, stream⟩ := midway
  have short := reached.short free stream
  have whole := reached.length.1
  have count := congrArg List.length held
  have lengths := congrArg List.length stream
  rw [StreamReadBuff.held_length valid, List.length_append] at count
  rw [List.length_append, List.length_append] at lengths
  obtain ⟨relevant, data, -, -⟩ := valid
  simp only [StreamReadBuff.getAvailableDataLength] at drained count
  have from_ := start.start
  omega

variable [FileUploadHelper H]

/-- A read brings more of the block. -/
theorem Midway.read {data : List Byte} (none_ : c₀.headerA = [])
    (midway : Midway head c₀ c (data ++ missing) rest) (some_ : data ≠ [])
    (room : data.length ≤ c.readBuff.freeLength) :
    ∃ d, c.step (.read data) = some d ∧ Advanced head c₀ d missing rest := by
  obtain ⟨valid, start, drained, found, seen, todo, ahead, phase, reached, held, free, stream⟩ :=
    midway
  have count := StreamReadBuff.held_length valid
  rw [held, List.length_append, drained] at count
  have available := StreamReadBuff.receive_available valid room
  have more : ¬(c.readBuff.receive data).2.getAvailableDataLength = 0 := by
    rw [← StreamReadBuff.available_length, available, List.length_append]
    have pos := List.length_pos_of_ne_nil some_
    omega
  obtain ⟨_, same⟩ := StreamReadBuff.receive_spec room
  have relevant : (c.readBuff.receive data).2.relevantLength = c.readBuff.relevantLength := by
    rw [same]
  simp only [step, if_pos (And.intro some_ room), afterRead, phase, if_neg more]
  have brought : (c.readBuff.receive data).2.held = seen ++ (ahead ++ data) := by
    rw [← List.append_assoc, ← held]
    exact StreamReadBuff.receive_held valid room
  refine headerHandler_reached none_ (reached.of_same rfl)
    (StreamReadBuff.receive_valid valid room) (start.of_positions ?_ ?_ ?_) brought ?_ ?_ ?_
  · simp only [same]
  · simp only [same]
  · simp only [same]
  · rw [List.append_assoc]
    exact stream
  · simp only [relevant]
    omega
  · simp only [relevant]
    rw [List.take_left' (by omega)]
    exact free

/-- The reads of `HeaderHandler` end with the one which completes the block. -/
theorem Advanced.reads {reads : List (List Byte)} (none_ : c₀.headerA = [])
    (advanced : Advanced head c₀ c reads.flatten rest) (some_ : ∀ data ∈ reads, data ≠ [])
    (needed : ∀ data ∈ reads.getLast?, rest.length < data.length)
    (room : c₀.readBuff.readPos + head.bytes.length + rest.length ≤ c₀.readBuff.buffLength) :
    ∃ d, exec step c (reads.map .read) = some d ∧ Complete head c₀ d rest := by
  induction reads generalizing c with
  | nil =>
      rcases advanced with midway | ⟨behind, stream, complete⟩
      · exact absurd midway.outstanding.1 (Nat.not_lt_zero _)
      · rw [List.flatten_nil, List.append_nil] at stream
        exact ⟨c, rfl, stream ▸ complete⟩
  | cons data reads ih =>
      rcases advanced with midway | ⟨behind, stream, -⟩
      · rw [List.flatten_cons] at midway
        have length := midway.outstanding.2
        have fits : data.length ≤ c.readBuff.freeLength := by
          rw [StreamReadBuff.freeLength_eq, midway.start.room]
          rw [List.length_append] at length
          omega
        obtain ⟨d, step, next⟩ := midway.read none_ (some_ data List.mem_cons_self) fits
        rw [List.map_cons, exec_cons, step, Option.bind_some]
        refine ih next (fun data inside => some_ data (List.mem_cons_of_mem _ inside)) ?_
        intro last isLast
        refine needed last ?_
        rw [List.getLast?_cons, Option.mem_def.mp isLast]
        rfl
      · -- the last read would have brought nothing of the block
        have long := needed _ (List.getLast?_eq_some_getLast (List.cons_ne_nil data reads))
        have part := (List.sublist_flatten_of_mem
          (List.getLast_mem (List.cons_ne_nil data reads))).length_le
        have lengths := congrArg List.length stream
        rw [List.length_append] at lengths
        omega

/-- `HeaderHandler` begins where the stream goes on. -/
theorem nextRequest_reached (junk : Junk) (valid : c.readBuff.Valid)
    (fresh : c.readBuff.relevantLength = 0)
    (stream : c.readBuff.available ++ missing = head.bytes ++ rest) :
    ∃ d, c.nextRequest junk = some d ∧ Advanced head (c.resetRequestData junk) d missing rest := by
  have start : SameStart (c.resetRequestData junk) (c.resetRequestData junk) :=
    ⟨rfl, by rw [show (c.resetRequestData junk).readBuff = c.readBuff from rfl, fresh]; rfl, rfl⟩
  have held : c.readBuff.held = [] ++ c.readBuff.available := by
    rw [StreamReadBuff.held_eq valid, StreamReadBuff.relevant, StreamReadBuff.getRelevantData, fresh]
    rfl
  simp only [nextRequest]
  split
  · rename_i empty
    have none_ : c.readBuff.available = [] := by
      rw [← List.length_eq_zero_iff, StreamReadBuff.available_length]
      exact empty
    rw [none_] at stream held
    exact ⟨_, rfl, Or.inl ⟨valid, start.of_positions rfl rfl rfl, empty, false, [], head.bytes, [],
      rfl, .start rfl, held, List.not_mem_nil, stream⟩⟩
  · have scanned : lf ∉ c.readBuff.available.take (c.readBuff.relevantLength - ([] : List Byte).length) := by
      rw [fresh]
      exact List.not_mem_nil
    exact headerHandler_reached rfl (.start rfl) valid start held stream (Nat.zero_le _) scanned

/-! ## What has been parsed -/

omit [FileUploadHelper H] in
theorem stringAt_ended {off n : Nat} {string later : List Byte}
    (bytes : c.readBuff.mem.read ⟨c.readBuff.readBuff, off⟩ n = string ++ 0 :: later)
    (noNul : 0 ∉ string) (inside : off + n ≤ c.readBuff.buffLength) :
    c.stringAt ⟨.readBuff c.readBuff.readBuff, off⟩ = some string := by
  rw [stringAt, bytesAt]
  simp only [if_true, Option.map_some]
  rw [show c.readBuff.buffLength - off = n + (c.readBuff.buffLength - off - n) by omega,
    Mem.read_add, bytes, List.append_assoc, List.cons_append, Header.cString_ended noNul]

omit [FileUploadHelper H] in
theorem strings_headers {lines : List HeaderLine} {off : Nat}
    (bytes : c.readBuff.mem.read ⟨c.readBuff.readBuff, off⟩
      (HeaderLine.join HeaderLine.parsed lines).length = HeaderLine.join HeaderLine.parsed lines)
    (inside : off + (HeaderLine.join HeaderLine.parsed lines).length ≤ c.readBuff.buffLength) :
    (HeaderLine.headers c.readBuff.readBuff off lines).map
        (fun h => (c.stringAt h.name, h.value.bind c.stringAt, h.intName)) =
      lines.map fun h => (some (h.name.map Header.lower), some h.value,
        Header.parseHeader (h.name.map Header.lower)) := by
  induction lines generalizing off with
  | nil => rfl
  | cons h lines ih =>
      rw [HeaderLine.join_cons] at bytes inside
      rw [List.length_append, List.length_cons] at inside
      obtain ⟨line, behind⟩ := Mem.read_parts bytes
      rw [← List.singleton_append] at behind
      obtain ⟨-, later⟩ := Mem.read_parts behind
      rw [Ptr.add_add] at later
      have nameNul : 0 ∉ h.name.map Header.lower := by
        intro zero
        obtain ⟨b, there, same⟩ := List.mem_map.mp zero
        exact Header.lower_nul (fun nul => h.noNul_name (nul ▸ there)) same
      have name : c.stringAt ⟨.readBuff c.readBuff.readBuff, off⟩ =
          some (h.name.map Header.lower) := by
        have ended : h.parsed = h.name.map Header.lower ++ 0 ::
            (List.replicate h.spaces (ch ' ') ++ (h.value ++ [0])) := by
          simp only [HeaderLine.parsed, List.append_assoc, List.cons_append, List.nil_append]
        exact stringAt_ended (line.trans ended) nameNul (by omega)
      obtain ⟨first, parts, front⟩ := h.parsed_eq
      have value : c.stringAt ⟨.readBuff c.readBuff.readBuff, off + (h.name.length + 1 + h.spaces)⟩ =
          some h.value := by
        obtain ⟨-, back⟩ := Mem.read_parts (line.trans parts)
        rw [front] at back
        refine stringAt_ended back h.noNul_value ?_
        rw [parts, List.length_append, front] at inside
        omega
      rw [HeaderLine.headers, List.map_cons, List.map_cons]
      congr 1
      · simp only [HeaderLine.header, name, Option.bind_some, value]
      · refine ih ?_ ?_
        · rw [← h.parsed_length]
          exact later
        · rw [← h.parsed_length]
          omega

omit [FileUploadHelper H] in
/-- The headers are those of the lines, which are in the buffer as they have been parsed. -/
theorem Complete.lines {behind : List Byte} (complete : Complete head c₀ c behind) : ∃ off,
    c.headerA = HeaderLine.headers c.readBuff.readBuff off head.lines ∧
    c.readBuff.mem.read ⟨c.readBuff.readBuff, off⟩
      (HeaderLine.join HeaderLine.parsed head.lines).length =
        HeaderLine.join HeaderLine.parsed head.lines ∧
    c.readBuff.readPos - c.readBuff.relevantLength ≤ off ∧
    off + (HeaderLine.join HeaderLine.parsed head.lines).length ≤ c.readBuff.readPos := by
  obtain ⟨valid, start, ⟨q, -, same⟩, relevant, -⟩ := complete
  have headers : c.headerA = listed head c₀ head.lines := by rw [same]
  have block : c.readBuff.mem.read c.relevantBuff c.readBuff.relevantLength = (head.requestLine ++ [lf]) ++
      (HeaderLine.join HeaderLine.parsed head.lines ++ [cr, lf]) := by
    rw [List.append_assoc]
    exact relevant
  obtain ⟨-, behind⟩ := Mem.read_parts block
  obtain ⟨lines, -⟩ := Mem.read_parts behind
  have length := congrArg List.length block
  rw [Mem.read_length, List.length_append, List.length_append, List.length_append] at length
  have place : c.relevantBuff.add (head.requestLine ++ [lf]).length = ⟨c.readBuff.readBuff,
      c₀.readBuff.readPos + (head.requestLine.length + 1)⟩ := by
    rw [← start.start, List.length_append]
    rfl
  rw [place] at lines
  have from_ := start.start
  have before := valid.relevant
  simp only [List.length_singleton] at length
  exact ⟨_, by rw [headers, listed, ← start.block], lines, by omega, by omega⟩

omit [FileUploadHelper H] in
theorem Complete.strings {behind : List Byte} (complete : Complete head c₀ c behind) :
    c.headerA.map (fun h => (c.stringAt h.name, h.value.bind c.stringAt, h.intName)) =
      head.lines.map fun h => (some (h.name.map Header.lower), some h.value,
        Header.parseHeader (h.name.map Header.lower)) := by
  obtain ⟨off, headers, lines, -, until_⟩ := complete.lines
  have inside := complete.valid.inside
  have data := complete.valid.data
  rw [headers]
  exact strings_headers lines (by omega)

theorem get_free : ∀ b ∈ text "GET", ¬Ends b ∧ b ≠ ch ' ' := by decide +kernel

theorem letter_free : ∀ b ∈ text "X", ¬Ends b ∧ b ≠ ch ':' := by decide +kernel

theorem letter_named : text "X" ≠ [] := by decide

theorem one_digit : ch '0' ≤ ch '1' ∧ ch '1' ≤ ch '9' := by decide

/-- A request with a query, an empty value and spaces in front of the other one. -/
def searchHead : RequestHead where
  method := text "GET"
  path := text "/find"
  query := some (text "q=a%20b")
  minor := ch '1'
  lines := [⟨text "Host", 2, text "here", by decide, by decide +kernel, by decide +kernel,
      by decide⟩,
    ⟨text "X", 0, [], letter_named, letter_free, by decide +kernel, by decide⟩]
  methodFree := get_free
  pathFree := by decide +kernel
  queryFree := by decide +kernel
  escapes := by decide +kernel
  digit := one_digit

end Connection

end HTTP

end MiniWebSrv
