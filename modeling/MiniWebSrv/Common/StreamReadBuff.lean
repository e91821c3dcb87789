import MiniWebSrv.Common.Bytes
import MiniWebSrv.Lib.Memory
import MiniWebSrv.Lib.Word

/-! # The read buffer

`StreamReadBuff<StaticReadBuffSize>`: the bytes received and not yet consumed, behind them
the room for the next read, and in front of them the consumed bytes which are still of
use. Block 0 of the memory is `StaticBuff`, the other blocks are the dynamic buffers in
the order of their `new`.
-/

namespace MiniWebSrv

open Word

structure StreamReadBuff (size : Nat) where
  mem : Mem Nat Byte
  /-- The block which `ReadBuff` points to. -/
  readBuff : Nat
  /-- `ReadBuffEnd-ReadBuff` -/
  buffLength : Nat
  readPos : Nat
  relevantLength : Nat
  dataEndPos : Nat
  reqDataEndPos : Nat
  /-- The number of dynamic buffers created so far. -/
  created : Nat

namespace StreamReadBuff

variable {size : Nat}

/-- The constructor; `StaticBuff` is not initialized. -/
def init (size : Nat) (mem : Mem Nat Byte) : StreamReadBuff size where
  mem := mem
  readBuff := 0
  buffLength := size
  readPos := 0
  relevantLength := 0
  dataEndPos := 0
  reqDataEndPos := 0
  created := 0

def reset (b : StreamReadBuff size) : StreamReadBuff size :=
  { b with readPos := 0, relevantLength := 0, dataEndPos := 0, reqDataEndPos := 0 }

def getAvailableDataLength (b : StreamReadBuff size) : Nat := b.dataEndPos - b.readPos

/-- `ReadBuff+Pos` -/
def at_ (b : StreamReadBuff size) (pos : Nat) : Ptr Nat := ⟨b.readBuff, pos⟩

def getRelevantData (b : StreamReadBuff size) : Ptr Nat × Nat :=
  (b.at_ (b.readPos - b.relevantLength), b.relevantLength)

def getAvailableData (b : StreamReadBuff size) : Ptr Nat × Nat :=
  (b.at_ b.readPos, b.getAvailableDataLength)

def consume (b : StreamReadBuff size) (length : Nat) (isRelevant : Bool) :
    Bool × StreamReadBuff size :=
  if length < b.dataEndPos - b.readPos then
    (true, { b with
      relevantLength := if isRelevant then b.relevantLength + length else b.relevantLength
      readPos := b.readPos + length })
  else
    (false, { b with
      relevantLength :=
        if isRelevant then b.relevantLength + (b.dataEndPos - b.readPos) else b.relevantLength
      readPos := b.dataEndPos })

def resetRelevant (b : StreamReadBuff size) : StreamReadBuff size :=
  if b.relevantLength ≠ 0 ∧ b.readPos ≠ 0 then
    if b.readPos = b.dataEndPos then
      { b with relevantLength := 0, readPos := 0, dataEndPos := 0 }
    else
      { b with relevantLength := 0 }
  else
    b

/-- `none` where the `memcpy` leaves the new buffer, which is too small when the rounding
    of its size wraps around. -/
def requestData (b : StreamReadBuff size) (reqDataLength : Nat) :
    Option (Bool × StreamReadBuff size) :=
  let availableLength := b.getAvailableDataLength
  if reqDataLength ≤ availableLength then
    some (true, b)
  else
    let reqDataEndPos := u32 (b.reqDataEndPos + (reqDataLength - availableLength))
    if b.buffLength < reqDataEndPos then
      let frontSpace := b.readPos - b.relevantLength
      let endSpace := b.buffLength - b.dataEndPos
      let reqNewLength := reqDataEndPos - b.dataEndPos
      let kept := b.mem.read (b.at_ frontSpace) (b.dataEndPos - frontSpace)
      let moved : StreamReadBuff size := { b with
        readPos := b.readPos - frontSpace
        dataEndPos := b.dataEndPos - frontSpace
        reqDataEndPos := reqDataEndPos - frontSpace }
      if reqNewLength ≤ frontSpace + endSpace then
        some (false, { moved with mem := b.mem.write (b.at_ 0) kept })
      else
        let newBuffSize := roundUpPowerOfTwo (b.buffLength - frontSpace - endSpace + reqNewLength) 10
        if newBuffSize < b.dataEndPos - frontSpace then
          none
        else
          some (false, { moved with
            mem := b.mem.write ⟨b.created + 1, 0⟩ kept
            readBuff := b.created + 1
            buffLength := newBuffSize
            created := b.created + 1 })
    else
      some (false, { b with reqDataEndPos := reqDataEndPos })

/-- The pointer to read to, the length which must be read, and the length which can be. -/
def getReadInfo (b : StreamReadBuff size) : Ptr Nat × Nat × Nat :=
  (b.at_ b.dataEndPos,
    if b.dataEndPos < b.reqDataEndPos then b.reqDataEndPos - b.dataEndPos else 0,
    b.buffLength - b.dataEndPos)

def freeLength (b : StreamReadBuff size) : Nat := b.getReadInfo.2.2

def onNewData (b : StreamReadBuff size) (newDataLength : Nat) : Bool × StreamReadBuff size :=
  let newDataLength :=
    if b.buffLength - b.dataEndPos < newDataLength then b.buffLength else newDataLength
  let dataEndPos := b.dataEndPos + newDataLength
  if b.reqDataEndPos ≤ dataEndPos then
    (true, { b with dataEndPos := dataEndPos, reqDataEndPos := dataEndPos })
  else
    (false, { b with dataEndPos := dataEndPos })

/-- A read stores `data` at the pointer of `GetReadInfo`, and `OnNewData` is told. -/
def receive (b : StreamReadBuff size) (data : List Byte) : Bool × StreamReadBuff size :=
  ({ b with mem := b.mem.write b.getReadInfo.1 data }).onNewData data.length

/-! ## The stream behind the positions -/

/-- The bytes received and not yet consumed. -/
def available (b : StreamReadBuff size) : List Byte :=
  b.mem.read (b.at_ b.readPos) b.getAvailableDataLength

/-- The consumed bytes which are kept. -/
def relevant (b : StreamReadBuff size) : List Byte :=
  b.mem.read b.getRelevantData.1 b.getRelevantData.2

/-- The positions are in order and inside the buffer, and no later buffer has been created. -/
structure Valid (b : StreamReadBuff size) : Prop where
  relevant : b.relevantLength ≤ b.readPos
  data : b.readPos ≤ b.dataEndPos
  inside : b.dataEndPos ≤ b.buffLength
  block : b.readBuff ≤ b.created

theorem init_valid (mem : Mem Nat Byte) : (init size mem).Valid :=
  ⟨Nat.le_refl _, Nat.le_refl _, Nat.zero_le _, Nat.le_refl _⟩

@[simp] theorem init_available (mem : Mem Nat Byte) : (init size mem).available = [] := rfl

variable {b : StreamReadBuff size}

theorem available_length (b : StreamReadBuff size) :
    b.available.length = b.getAvailableDataLength := by
  simp only [available, Mem.read_length]

theorem freeLength_eq (b : StreamReadBuff size) : b.freeLength = b.buffLength - b.dataEndPos := rfl

/-- The bytes behind `ReadPos`, one by one. -/
theorem available_getElem (b : StreamReadBuff size) {i : Nat} (inside : i < b.available.length) :
    b.mem b.readBuff (b.readPos + i) = b.available[i] :=
  (Mem.read_getElem _ _ _ _ inside).symm

theorem available_read (b : StreamReadBuff size) {i n : Nat} (inside : i + n ≤ b.available.length) :
    b.mem.read (b.at_ (b.readPos + i)) n = (b.available.drop i).take n := by
  rw [available_length] at inside
  rw [available, Mem.drop_read _ _ (by omega), Mem.take_read _ _ (by omega)]
  rfl

theorem available_drop (b : StreamReadBuff size) {n : Nat} (le : n ≤ b.getAvailableDataLength) :
    b.available.drop n = b.mem.read (b.at_ (b.readPos + n)) (b.getAvailableDataLength - n) := by
  rw [available, Mem.drop_read _ _ le]
  rfl

/-- A change inside the first `n` available bytes leaves the others alone. -/
theorem available_drop_write (b : StreamReadBuff size) (from_ : Nat) {n : Nat} (bytes : List Byte)
    (inside : from_ + bytes.length ≤ n) (le : n ≤ b.getAvailableDataLength) :
    ({ b with mem := b.mem.write (b.at_ (b.readPos + from_)) bytes } :
      StreamReadBuff size).available.drop n = b.available.drop n := by
  rw [available_drop _ (by exact le), b.available_drop le]
  exact Mem.read_write_of_disjoint _ (Or.inr (Or.inr (by simp only [at_]; omega)))

/-! ### Consume -/

theorem consume_spec (h : b.Valid) {length : Nat} (isRelevant : Bool)
    (le : length ≤ b.getAvailableDataLength) :
    (b.consume length isRelevant).2 = { b with
      relevantLength := if isRelevant then b.relevantLength + length else b.relevantLength
      readPos := b.readPos + length } := by
  have data := h.data
  simp only [getAvailableDataLength] at le
  by_cases less : length < b.dataEndPos - b.readPos
  · simp only [consume, if_pos less]
  · have all : length = b.dataEndPos - b.readPos := by omega
    have stop : b.readPos + (b.dataEndPos - b.readPos) = b.dataEndPos := by omega
    simp only [consume, all, Nat.lt_irrefl, if_false, stop]

theorem consume_valid (h : b.Valid) (length : Nat) (isRelevant : Bool) :
    (b.consume length isRelevant).2.Valid := by
  obtain ⟨relevant, data, inside, block⟩ := h
  simp only [consume]
  split <;> cases isRelevant <;> refine ⟨?_, ?_, ?_, block⟩ <;>
    simp only [Bool.false_eq_true, if_true, if_false] <;> omega

theorem consume_available (h : b.Valid) {length : Nat} (isRelevant : Bool)
    (le : length ≤ b.getAvailableDataLength) :
    (b.consume length isRelevant).2.available = b.available.drop length := by
  rw [consume_spec h isRelevant le]
  simp only [available, getAvailableDataLength] at le ⊢
  rw [Mem.drop_read _ _ le]
  simp only [at_, Ptr.add, Nat.sub_add_eq]

theorem resetRelevant_keeps (h : b.Valid) :
    b.resetRelevant.Valid ∧ b.resetRelevant.available = b.available := by
  obtain ⟨relevant, data, inside, block⟩ := h
  unfold resetRelevant
  split
  · split
    · rename_i empty
      refine ⟨⟨Nat.le_refl _, Nat.le_refl _, Nat.zero_le _, block⟩, ?_⟩
      simp only [available, getAvailableDataLength, empty, Nat.sub_self, Mem.read_zero]
    · exact ⟨⟨Nat.zero_le _, data, inside, block⟩, rfl⟩
  · exact ⟨⟨relevant, data, inside, block⟩, rfl⟩

/-! ### Receiving -/

theorem receive_spec {data : List Byte} (fits : data.length ≤ b.freeLength) :
    ∃ reqDataEndPos, (b.receive data).2 = { b with
      mem := b.mem.write (b.at_ b.dataEndPos) data
      dataEndPos := b.dataEndPos + data.length
      reqDataEndPos := reqDataEndPos } := by
  rw [freeLength_eq] at fits
  simp only [receive, onNewData, if_neg (Nat.not_lt.mpr fits)]
  split
  · exact ⟨_, rfl⟩
  · exact ⟨_, rfl⟩

theorem receive_valid (h : b.Valid) {data : List Byte} (fits : data.length ≤ b.freeLength) :
    (b.receive data).2.Valid := by
  obtain ⟨relevant, dataEnd, inside, block⟩ := h
  obtain ⟨_, same⟩ := receive_spec fits
  rw [freeLength_eq] at fits
  rw [same]
  exact ⟨relevant, Nat.le_trans dataEnd (Nat.le_add_right _ _), by simp only; omega, block⟩

theorem receive_available (h : b.Valid) {data : List Byte} (fits : data.length ≤ b.freeLength) :
    (b.receive data).2.available = b.available ++ data := by
  have dataEnd := h.data
  obtain ⟨_, same⟩ := receive_spec fits
  rw [same]
  simp only [available, getAvailableDataLength, at_]
  rw [show b.dataEndPos + data.length - b.readPos = (b.dataEndPos - b.readPos) + data.length by omega,
    Mem.read_add]
  congr 1
  · exact Mem.read_write_of_disjoint _ (Or.inr (Or.inl (by simp only; omega)))
  · simp only [Ptr.add, show b.readPos + (b.dataEndPos - b.readPos) = b.dataEndPos by omega]
    exact Mem.read_write_self _ _ _

/-! ### RequestData -/

/-- The ways in which `RequestData` can end, with the buffer it leaves behind. -/
inductive Request (b : StreamReadBuff size) (n : Nat) : Bool → StreamReadBuff size → Prop
  | enough (le : n ≤ b.getAvailableDataLength) : Request b n true b
  | roomy (lt : b.getAvailableDataLength < n) (req : Nat) :
      Request b n false { b with reqDataEndPos := req }
  | moved (lt : b.getAvailableDataLength < n) (req : Nat) :
      Request b n false { b with
        mem := b.mem.write (b.at_ 0)
          (b.mem.read (b.at_ (b.readPos - b.relevantLength))
            (b.dataEndPos - (b.readPos - b.relevantLength)))
        readPos := b.readPos - (b.readPos - b.relevantLength)
        dataEndPos := b.dataEndPos - (b.readPos - b.relevantLength)
        reqDataEndPos := req }
  | grown (lt : b.getAvailableDataLength < n) (req buffLength : Nat)
      (room : b.dataEndPos - (b.readPos - b.relevantLength) ≤ buffLength) :
      Request b n false { b with
        mem := b.mem.write ⟨b.created + 1, 0⟩
          (b.mem.read (b.at_ (b.readPos - b.relevantLength))
            (b.dataEndPos - (b.readPos - b.relevantLength)))
        readBuff := b.created + 1
        buffLength := buffLength
        readPos := b.readPos - (b.readPos - b.relevantLength)
        dataEndPos := b.dataEndPos - (b.readPos - b.relevantLength)
        reqDataEndPos := req
        created := b.created + 1 }

theorem requestData_cases {n : Nat} {r : Bool} {b' : StreamReadBuff size}
    (run : b.requestData n = some (r, b')) : Request b n r b' := by
  by_cases le : n ≤ b.getAvailableDataLength
  · simp only [requestData, if_pos le, Option.some.injEq, Prod.mk.injEq] at run
    obtain ⟨rfl, rfl⟩ := run
    exact .enough le
  · have lt := Nat.lt_of_not_le le
    simp only [requestData, if_neg le] at run
    by_cases long : b.buffLength < u32 (b.reqDataEndPos + (n - b.getAvailableDataLength))
    · simp only [if_pos long] at run
      split at run
      · simp only [Option.some.injEq, Prod.mk.injEq] at run
        obtain ⟨rfl, rfl⟩ := run
        exact .moved lt _
      · split at run
        · simp at run
        · rename_i room
          simp only [Option.some.injEq, Prod.mk.injEq] at run
          obtain ⟨rfl, rfl⟩ := run
          exact .grown lt _ _ (Nat.le_of_not_lt room)
    · simp only [if_neg long, Option.some.injEq, Prod.mk.injEq] at run
      obtain ⟨rfl, rfl⟩ := run
      exact .roomy lt _

/-- Bytes between the relevant data and the end keep their contents when they are copied to
    `dst`, where every position is `FrontSpace` less. -/
theorem Valid.read_moved (h : b.Valid) (dst : Ptr Nat) (pos n : Nat)
    (from_ : b.readPos - b.relevantLength ≤ pos) (until_ : pos + n ≤ b.dataEndPos) :
    (b.mem.write dst (b.mem.read (b.at_ (b.readPos - b.relevantLength))
      (b.dataEndPos - (b.readPos - b.relevantLength)))).read
        (dst.add (pos - (b.readPos - b.relevantLength))) n = b.mem.read (b.at_ pos) n := by
  have data := h.data
  rw [Mem.read_copied _ _ (by omega)]
  simp only [at_, Ptr.add, show b.readPos - b.relevantLength + (pos - (b.readPos - b.relevantLength)) =
    pos by omega]

/-- Whatever becomes of the buffer, the stream does not change. -/
theorem Request.keeps {n : Nat} {r : Bool} {b' : StreamReadBuff size} (request : Request b n r b')
    (h : b.Valid) : b'.Valid ∧ b'.available = b.available ∧ b'.relevant = b.relevant := by
  obtain ⟨relevant_, data, inside, block⟩ := h
  have h : b.Valid := ⟨relevant_, data, inside, block⟩
  have same : b.dataEndPos - (b.readPos - b.relevantLength) -
      (b.readPos - (b.readPos - b.relevantLength)) = b.dataEndPos - b.readPos := by omega
  have front : b.readPos - (b.readPos - b.relevantLength) - b.relevantLength =
      b.readPos - b.relevantLength - (b.readPos - b.relevantLength) := by omega
  have availableBytes := fun dst => h.read_moved dst b.readPos (b.dataEndPos - b.readPos)
    (by omega) (by omega)
  have relevantBytes := fun dst => h.read_moved dst (b.readPos - b.relevantLength)
    b.relevantLength (by omega) (by omega)
  cases request with
  | enough le => exact ⟨h, rfl, rfl⟩
  | roomy lt req => exact ⟨⟨relevant_, data, inside, block⟩, rfl, rfl⟩
  | moved lt req =>
      refine ⟨⟨by simp only; omega, by simp only; omega, by simp only; omega, block⟩, ?_, ?_⟩
      · have bytes := availableBytes (b.at_ 0)
        simp only [available, getAvailableDataLength, at_, Ptr.add, Nat.zero_add, same] at bytes ⊢
        exact bytes
      · have bytes := relevantBytes (b.at_ 0)
        simp only [relevant, getRelevantData, at_, Ptr.add, Nat.zero_add, front] at bytes ⊢
        exact bytes
  | grown lt req buffLength room =>
      refine ⟨⟨by simp only; omega, by simp only; omega, by simp only; omega, Nat.le_refl _⟩, ?_, ?_⟩
      · have bytes := availableBytes ⟨b.created + 1, 0⟩
        simp only [available, getAvailableDataLength, at_, Ptr.add, Nat.zero_add, same] at bytes ⊢
        exact bytes
      · have bytes := relevantBytes ⟨b.created + 1, 0⟩
        simp only [relevant, getRelevantData, at_, Ptr.add, Nat.zero_add, front] at bytes ⊢
        exact bytes

/-! ### The static buffer -/

/-- `ReadBuffEnd` is the end of `StaticBuff` as long as `ReadBuff` is the start of it. -/
def Static (b : StreamReadBuff size) : Prop := b.readBuff = 0 → b.buffLength = size

theorem init_static (mem : Mem Nat Byte) : (init size mem).Static := fun _ => rfl

theorem consume_static (static : b.Static) (length : Nat) (isRelevant : Bool) :
    (b.consume length isRelevant).2.Static := by
  unfold consume
  split <;> exact static

theorem resetRelevant_static (static : b.Static) : b.resetRelevant.Static := by
  unfold resetRelevant
  split
  · split <;> exact static
  · exact static

theorem receive_static (static : b.Static) {data : List Byte} (fits : data.length ≤ b.freeLength) :
    (b.receive data).2.Static := by
  obtain ⟨_, same⟩ := receive_spec fits
  rw [same]
  exact static

theorem Request.static {n : Nat} {r : Bool} {b' : StreamReadBuff size} (request : Request b n r b')
    (static : b.Static) : b'.Static := by
  cases request with
  | enough | roomy | moved => exact static
  | grown => exact fun block => absurd block (Nat.succ_ne_zero _)

end StreamReadBuff

end MiniWebSrv
