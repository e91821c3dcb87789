import MiniWebSrv.Common.StreamReadBuff
import MiniWebSrv.Lib.Run

/-! # The read buffer as a byte stream

What the read buffer is for: bytes come in at one end and are consumed at the other. The
operations are followed side by side on the buffer and on a stream without positions, and the
buffer shows what the stream holds.
-/

namespace MiniWebSrv

open Word Run

/-- The bytes consumed so far, and those which wait to be. -/
structure ByteStream where
  consumed : List Byte
  pending : List Byte

namespace ByteStream

def arrive (s : ByteStream) (data : List Byte) : ByteStream :=
  { s with pending := s.pending ++ data }

def consume (s : ByteStream) (n : Nat) : ByteStream :=
  { consumed := s.consumed ++ s.pending.take n, pending := s.pending.drop n }

def discard (s : ByteStream) : ByteStream := { s with pending := [] }

end ByteStream

namespace StreamReadBuff

variable {size : Nat}

/-- The operations of the users. `OnNewData` comes after a read which has stored `data`. -/
inductive Op where
  | onNewData (data : List Byte)
  | consume (length : Nat) (isRelevant : Bool)
  | requestData (n : Nat)
  | resetRelevant
  | reset

/-- A buffer, and the stream which its operations amount to. -/
structure History (size : Nat) where
  buff : StreamReadBuff size
  stream : ByteStream

namespace History

def fresh (size : Nat) (mem : Mem Nat Byte) : History size := ⟨init size mem, ⟨[], []⟩⟩

def step (h : History size) : Op → Option (History size)
  | .onNewData data =>
      if data.length ≤ h.buff.freeLength then
        some ⟨(h.buff.receive data).2, h.stream.arrive data⟩
      else
        none
  | .consume length isRelevant =>
      some ⟨(h.buff.consume length isRelevant).2, h.stream.consume length⟩
  | .requestData n => (h.buff.requestData n).map fun r => ⟨r.2, h.stream⟩
  | .resetRelevant => some { h with buff := h.buff.resetRelevant }
  | .reset => some ⟨h.buff.reset, h.stream.discard⟩

end History

/-- The positions are in order, and the buffer shows the stream. -/
structure Shows (b : StreamReadBuff size) (s : ByteStream) : Prop where
  valid : b.Valid
  required : b.dataEndPos ≤ b.reqDataEndPos
  available : b.available = s.pending
  relevant : b.relevant <:+ s.consumed

variable {b b' : StreamReadBuff size} {s : ByteStream}

/-- The relevant bytes and the available ones lie side by side. -/
theorem Valid.relevant_available (valid : b.Valid) (n : Nat) (le : n ≤ b.getAvailableDataLength) :
    b.relevant ++ b.available.take n =
      b.mem.read (b.at_ (b.readPos - b.relevantLength)) (b.relevantLength + n) := by
  have ordered := valid.relevant
  rw [Mem.read_add, StreamReadBuff.relevant, StreamReadBuff.available, Mem.take_read _ _ le]
  simp only [getRelevantData, at_, Ptr.add, Nat.sub_add_cancel ordered]

/-- The sum which a request for `n` bytes makes of the required end and what is missing. -/
def requiredEnd (b : StreamReadBuff size) (n : Nat) : Nat :=
  b.reqDataEndPos + (n - b.getAvailableDataLength)

/-- If the request needs a new buffer, its size can be rounded up. -/
def Rounds (b : StreamReadBuff size) (n : Nat) : Prop :=
  let frontSpace := b.readPos - b.relevantLength
  n ≤ b.getAvailableDataLength ∨ b.requiredEnd n ≤ b.buffLength ∨
    b.requiredEnd n - b.dataEndPos ≤ frontSpace + (b.buffLength - b.dataEndPos) ∨
    b.requiredEnd n - frontSpace + (2 ^ 10 - 1) < size32

/-- The request is answered, and if it is not met, then there is room for what is missing. -/
def FindsRoom (b : StreamReadBuff size) (n : Nat) : Prop :=
  ∃ r b', b.requestData n = some (r, b') ∧
    (r = false → n - b.getAvailableDataLength ≤ b'.freeLength)

theorem requestData_enough (b : StreamReadBuff size) {n : Nat}
    (enough : n ≤ b.getAvailableDataLength) : b.requestData n = some (true, b) := by
  simp only [requestData, if_pos enough]

theorem requestData_roomy (b : StreamReadBuff size) {n : Nat} (short : b.requiredEnd n < size32)
    (missing : ¬n ≤ b.getAvailableDataLength) (room : b.requiredEnd n ≤ b.buffLength) :
    b.requestData n = some (false, { b with reqDataEndPos := b.requiredEnd n }) := by
  simp only [requiredEnd] at short room ⊢
  simp only [requestData, u32_of_lt short, if_neg missing, if_neg (Nat.not_lt.mpr room)]

theorem requestData_moved (b : StreamReadBuff size) {n : Nat} (short : b.requiredEnd n < size32)
    (missing : ¬n ≤ b.getAvailableDataLength) (long : b.buffLength < b.requiredEnd n)
    (fits : b.requiredEnd n - b.dataEndPos ≤
      b.readPos - b.relevantLength + (b.buffLength - b.dataEndPos)) :
    b.requestData n = some (false, { b with
      mem := b.mem.write (b.at_ 0) (b.mem.read (b.at_ (b.readPos - b.relevantLength))
        (b.dataEndPos - (b.readPos - b.relevantLength)))
      readPos := b.readPos - (b.readPos - b.relevantLength)
      dataEndPos := b.dataEndPos - (b.readPos - b.relevantLength)
      reqDataEndPos := b.requiredEnd n - (b.readPos - b.relevantLength) }) := by
  simp only [requiredEnd] at short long fits ⊢
  simp only [requestData, u32_of_lt short, if_neg missing, if_pos long, if_pos fits]

theorem requestData_grown (b : StreamReadBuff size) {n : Nat} (valid : b.Valid)
    (required : b.dataEndPos ≤ b.reqDataEndPos) (short : b.requiredEnd n < size32)
    (missing : ¬n ≤ b.getAvailableDataLength) (long : b.buffLength < b.requiredEnd n)
    (full : ¬b.requiredEnd n - b.dataEndPos ≤
      b.readPos - b.relevantLength + (b.buffLength - b.dataEndPos)) :
    b.requestData n =
      if roundUpPowerOfTwo (b.requiredEnd n - (b.readPos - b.relevantLength)) 10 <
          b.dataEndPos - (b.readPos - b.relevantLength) then
        none
      else
        some (false, { b with
          mem := b.mem.write ⟨b.created + 1, 0⟩ (b.mem.read (b.at_ (b.readPos - b.relevantLength))
            (b.dataEndPos - (b.readPos - b.relevantLength)))
          readBuff := b.created + 1
          buffLength := roundUpPowerOfTwo (b.requiredEnd n - (b.readPos - b.relevantLength)) 10
          readPos := b.readPos - (b.readPos - b.relevantLength)
          dataEndPos := b.dataEndPos - (b.readPos - b.relevantLength)
          reqDataEndPos := b.requiredEnd n - (b.readPos - b.relevantLength)
          created := b.created + 1 }) := by
  obtain ⟨relevant, data, inside, -⟩ := valid
  have sum : b.buffLength - (b.readPos - b.relevantLength) - (b.buffLength - b.dataEndPos) +
      (b.requiredEnd n - b.dataEndPos) = b.requiredEnd n - (b.readPos - b.relevantLength) := by
    simp only [requiredEnd]
    omega
  simp only [requiredEnd] at short long full sum ⊢
  simp only [requestData, u32_of_lt short, if_neg missing, if_pos long, if_neg full, sum]
  rfl

theorem roundUpPowerOfTwo_wraps {val : Nat} (short : val < size32)
    (wraps : ¬val + (2 ^ 10 - 1) < size32) : roundUpPowerOfTwo val 10 = 0 := by
  simp only [roundUpPowerOfTwo, u32, size32] at short wraps ⊢
  omega

/-- A request whose sum stays in range finds room, unless the size of a new buffer wraps around. -/
theorem findsRoom_iff {n : Nat} (valid : b.Valid) (required : b.dataEndPos ≤ b.reqDataEndPos)
    (short : n ≤ b.getAvailableDataLength ∨ b.requiredEnd n < size32) :
    b.FindsRoom n ↔ b.Rounds n := by
  have grown := requestData_grown b (n := n) valid required
  obtain ⟨relevant, data, inside, -⟩ := valid
  by_cases enough : n ≤ b.getAvailableDataLength
  · exact ⟨fun _ => Or.inl enough, fun _ => ⟨true, b, b.requestData_enough enough, nofun⟩⟩
  · have short := short.resolve_left enough
    by_cases room : b.requiredEnd n ≤ b.buffLength
    · refine ⟨fun _ => Or.inr (Or.inl room), fun _ =>
        ⟨false, _, b.requestData_roomy short enough room, fun _ => ?_⟩⟩
      simp only [freeLength_eq, requiredEnd] at room ⊢
      omega
    · have long := Nat.lt_of_not_le room
      by_cases movable : b.requiredEnd n - b.dataEndPos ≤
          b.readPos - b.relevantLength + (b.buffLength - b.dataEndPos)
      · refine ⟨fun _ => Or.inr (Or.inr (Or.inl movable)), fun _ =>
          ⟨false, _, b.requestData_moved short enough long movable, fun _ => ?_⟩⟩
        simp only [freeLength_eq, requiredEnd] at movable ⊢
        omega
      · have grown := grown short enough long movable
        have missing : n - b.getAvailableDataLength ≤ b.requiredEnd n - b.dataEndPos := by
          simp only [requiredEnd]
          omega
        constructor
        · rintro ⟨r, b', run, free⟩
          refine Or.inr (Or.inr (Or.inr (Classical.byContradiction fun wraps => ?_)))
          have nothing := roundUpPowerOfTwo_wraps (by omega) wraps
          rw [grown, nothing] at run
          split at run
          · cases run
          · obtain ⟨rfl, rfl⟩ := Prod.mk.inj (Option.some.inj run)
            have free := free rfl
            simp only [freeLength_eq] at free
            omega
        · rintro (met | room' | moved | rounds)
          · exact absurd met enough
          · exact absurd room' room
          · exact absurd moved movable
          · have covers := le_roundUpPowerOfTwo rounds
            rw [if_neg (by omega)] at grown
            refine ⟨false, _, grown, fun _ => ?_⟩
            simp only [freeLength_eq]
            omega

/-! ## One operation -/

theorem requestData_required {n : Nat} {r : Bool} (valid : b.Valid)
    (required : b.dataEndPos ≤ b.reqDataEndPos)
    (short : n ≤ b.getAvailableDataLength ∨ b.requiredEnd n < size32)
    (run : b.requestData n = some (r, b')) : b'.dataEndPos ≤ b'.reqDataEndPos := by
  by_cases enough : n ≤ b.getAvailableDataLength
  · rw [b.requestData_enough enough] at run
    obtain ⟨-, rfl⟩ := Prod.mk.inj (Option.some.inj run)
    exact required
  · have short := short.resolve_left enough
    have more : b.dataEndPos ≤ b.requiredEnd n := Nat.le_trans required (Nat.le_add_right _ _)
    by_cases room : b.requiredEnd n ≤ b.buffLength
    · rw [b.requestData_roomy short enough room] at run
      obtain ⟨-, rfl⟩ := Prod.mk.inj (Option.some.inj run)
      exact more
    · have long := Nat.lt_of_not_le room
      by_cases fits : b.requiredEnd n - b.dataEndPos ≤
          b.readPos - b.relevantLength + (b.buffLength - b.dataEndPos)
      · rw [b.requestData_moved short enough long fits] at run
        obtain ⟨-, rfl⟩ := Prod.mk.inj (Option.some.inj run)
        exact Nat.sub_le_sub_right more _
      · rw [b.requestData_grown valid required short enough long fits] at run
        split at run
        · cases run
        · obtain ⟨-, rfl⟩ := Prod.mk.inj (Option.some.inj run)
          exact Nat.sub_le_sub_right more _

theorem Shows.requestData {n : Nat} {r : Bool} (shows : Shows b s)
    (short : n ≤ b.getAvailableDataLength ∨ b.requiredEnd n < size32)
    (run : b.requestData n = some (r, b')) : Shows b' s := by
  obtain ⟨valid, available, relevant⟩ := (requestData_cases run).keeps shows.valid
  exact ⟨valid, requestData_required shows.valid shows.required short run,
    available.trans shows.available, relevant ▸ shows.relevant⟩

theorem Shows.onNewData {data : List Byte} (shows : Shows b s) (fits : data.length ≤ b.freeLength) :
    Shows (b.receive data).2 (s.arrive data) := by
  have valid := shows.valid
  have ordered := valid.relevant
  have before := valid.data
  have required : (b.receive data).2.dataEndPos ≤ (b.receive data).2.reqDataEndPos := by
    rw [freeLength_eq] at fits
    simp only [receive, StreamReadBuff.onNewData, if_neg (Nat.not_lt.mpr fits)]
    split
    · exact Nat.le_refl _
    · simp only
      omega
  refine ⟨receive_valid valid fits, required, ?_, ?_⟩
  · rw [receive_available valid fits, shows.available, ByteStream.arrive]
  · obtain ⟨_, same⟩ := receive_spec fits
    have untouched : (b.receive data).2.relevant = b.relevant := by
      rw [same]
      exact Mem.read_write_of_disjoint _ (Or.inr (Or.inl (by
        simp only [at_, getRelevantData]
        omega)))
    rw [untouched]
    exact shows.relevant

theorem Shows.consume {length : Nat} {isRelevant : Bool} (shows : Shows b s) :
    Shows (b.consume length isRelevant).2 (s.consume length) := by
  have valid := shows.valid
  have ordered := valid.relevant
  -- a length behind the end consumes every available byte
  obtain ⟨n, le, spec, taken, left⟩ : ∃ n ≤ b.getAvailableDataLength,
      (b.consume length isRelevant).2 = (b.consume n isRelevant).2 ∧
      b.available.take length = b.available.take n ∧
      b.available.drop length = b.available.drop n := by
    have whole := b.available_length
    by_cases inside : length ≤ b.getAvailableDataLength
    · exact ⟨length, inside, rfl, rfl, rfl⟩
    · refine ⟨b.getAvailableDataLength, Nat.le_refl _, ?_, ?_, ?_⟩
      · simp only [getAvailableDataLength] at inside
        simp only [StreamReadBuff.consume, getAvailableDataLength, Nat.lt_irrefl, if_false,
          if_neg (show ¬length < b.dataEndPos - b.readPos by omega)]
      · rw [List.take_of_length_le (by omega), List.take_of_length_le (by omega)]
      · rw [List.drop_of_length_le (by omega), List.drop_of_length_le (by omega)]
  have consumed := consume_spec valid isRelevant le
  refine ⟨consume_valid valid length isRelevant, ?_, ?_, ?_⟩
  · rw [spec, consumed]
    exact shows.required
  · rw [spec, consume_available valid isRelevant le, ByteStream.consume, ← shows.available, left]
  · have both := valid.relevant_available n le
    have history : b.relevant ++ b.available.take n <:+ s.consumed ++ b.available.take n := by
      obtain ⟨older, same⟩ := shows.relevant
      exact ⟨older, by rw [← List.append_assoc, same]⟩
    rw [ByteStream.consume, ← shows.available, taken]
    refine List.IsSuffix.trans ?_ history
    rw [spec, consumed, both]
    cases isRelevant with
    | true =>
        simp only [StreamReadBuff.relevant, getRelevantData, at_, if_true]
        have back : b.readPos + n - (b.relevantLength + n) = b.readPos - b.relevantLength := by
          omega
        simp only [back, List.suffix_refl]
    | false =>
        simp only [StreamReadBuff.relevant, getRelevantData, at_, Bool.false_eq_true, if_false]
        rw [Nat.add_comm b.relevantLength n, Mem.read_add]
        refine ⟨_, congrArg _ ?_⟩
        simp only [Ptr.add]
        rw [show b.readPos - b.relevantLength + n = b.readPos + n - b.relevantLength by omega]

theorem Shows.resetRelevant (shows : Shows b s) : Shows b.resetRelevant s := by
  obtain ⟨valid, available⟩ := resetRelevant_keeps shows.valid
  have required := shows.required
  refine ⟨valid, ?_, available.trans shows.available, ?_⟩
  · unfold StreamReadBuff.resetRelevant
    split
    · split
      · exact Nat.zero_le _
      · exact required
    · exact required
  · unfold StreamReadBuff.resetRelevant
    split
    · split <;> exact List.nil_suffix
    · exact shows.relevant

theorem Shows.reset (shows : Shows b s) : Shows b.reset s.discard :=
  ⟨⟨Nat.le_refl _, Nat.le_refl _, Nat.zero_le _, shows.valid.block⟩, Nat.le_refl _, rfl,
    List.nil_suffix⟩

/-! ## Runs -/

namespace History

/-- A read stays inside the free bytes, and the sum of positions in a request in its range. -/
def InRange (h : History size) : Op → Prop
  | .onNewData data => data.length ≤ h.buff.freeLength
  | .requestData n => n ≤ h.buff.getAvailableDataLength ∨ h.buff.requiredEnd n < size32
  | _ => True

/-- The operation is carried out and leaves the buffer in step with the stream, and a request
    which is not met finds room for what is missing. -/
def Meets (h : History size) (op : Op) : Prop :=
  (∃ t, h.step op = some t ∧ Shows t.buff t.stream) ∧
    match op with
    | .requestData n => h.buff.FindsRoom n
    | _ => True

/-- A request which needs a new buffer can round its size up. -/
def Rounds (h : History size) : Op → Prop
  | .requestData n => h.buff.Rounds n
  | _ => True

theorem meets_iff {h : History size} {op : Op} (shows : Shows h.buff h.stream)
    (inRange : h.InRange op) : h.Meets op ↔ h.Rounds op := by
  cases op with
  | onNewData data =>
      exact ⟨fun _ => trivial, fun _ => ⟨⟨_, if_pos inRange, shows.onNewData inRange⟩, trivial⟩⟩
  | consume length isRelevant =>
      exact ⟨fun _ => trivial, fun _ => ⟨⟨_, rfl, shows.consume⟩, trivial⟩⟩
  | requestData n =>
      have room := findsRoom_iff shows.valid shows.required inRange
      constructor
      · exact fun meets => room.mp meets.2
      · intro rounds
        obtain ⟨r, b', run, free⟩ := room.mpr rounds
        exact ⟨⟨⟨b', h.stream⟩, by simp only [step, run, Option.map_some],
          shows.requestData inRange run⟩, r, b', run, free⟩
  | resetRelevant => exact ⟨fun _ => trivial, fun _ => ⟨⟨_, rfl, shows.resetRelevant⟩, trivial⟩⟩
  | reset => exact ⟨fun _ => trivial, fun _ => ⟨⟨_, rfl, shows.reset⟩, trivial⟩⟩

/-- Any operations in any order keep the buffer in step with the stream, up to the first new
    buffer whose size wraps around when it is rounded up. -/
theorem along_meets_iff (mem : Mem Nat Byte) {ops : List Op}
    (inRange : Along step InRange (fresh size mem) ops) :
    Along step Meets (fresh size mem) ops ↔ Along step Rounds (fresh size mem) ops := by
  have initial : Shows (fresh size mem).buff (fresh size mem).stream :=
    ⟨init_valid mem, Nat.le_refl _, rfl, List.nil_suffix⟩
  generalize fresh size mem = h at inRange initial ⊢
  induction ops generalizing h with
  | nil => exact ⟨fun _ => trivial, fun _ => trivial⟩
  | cons op rest ih =>
      obtain ⟨met, later⟩ := inRange
      have first := meets_iff initial met
      constructor
      · rintro ⟨meets, after⟩
        obtain ⟨t, taken, shows⟩ := meets.1
        refine ⟨first.mp meets, fun t' taken' => ?_⟩
        obtain rfl := Option.some.inj (taken.symm.trans taken')
        exact (ih t (later t taken) shows).mp (after t taken)
      · rintro ⟨rounds, after⟩
        obtain ⟨⟨t, taken, shows⟩, room⟩ := first.mpr rounds
        refine ⟨⟨⟨t, taken, shows⟩, room⟩, fun t' taken' => ?_⟩
        obtain rfl := Option.some.inj (taken.symm.trans taken')
        exact (ih t (later t taken) shows).mpr (after t taken)

instance (h : History size) (op : Op) : Decidable (h.InRange op) := by
  unfold InRange
  split <;> infer_instance

instance (b : StreamReadBuff size) (n : Nat) : Decidable (b.Rounds n) := by
  unfold StreamReadBuff.Rounds
  infer_instance

instance (h : History size) (op : Op) : Decidable (h.Rounds op) := by
  unfold Rounds
  split <;> infer_instance

/-- A buffer of four bytes, whose contents are moved once and then copied to a new one. -/
theorem along_meets_moving : Along step Meets (fresh 4 fun _ _ => 0)
    [.onNewData [1, 2, 3], .consume 1 false, .consume 1 true, .requestData 3, .onNewData [4, 5],
      .resetRelevant, .requestData 8] :=
  (along_meets_iff _ (by decide +kernel)).mpr (by decide +kernel)

/-- The first request for as many bytes as there are numbers gets a buffer of none. -/
theorem no_room_for_all : ¬∀ (mem : Mem Nat Byte) (ops : List Op),
    Along step InRange (fresh 16384 mem) ops → Along step Meets (fresh 16384 mem) ops := by
  intro all
  obtain ⟨⟨-, room⟩, -⟩ := all (fun _ _ => 0) [.requestData max32] (by decide +kernel)
  have rounds := (findsRoom_iff (init_valid _) (Nat.le_refl _) (Or.inr (by decide))).mp room
  revert rounds
  decide +kernel

end History

end StreamReadBuff

end MiniWebSrv
