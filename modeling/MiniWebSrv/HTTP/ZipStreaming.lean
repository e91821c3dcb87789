import MiniWebSrv.HTTP.StaleBytes

/-! # Archive members in pieces

`Zip::Response::Read` as a state machine which is called with buffers of any sizes. A deflated
member comes out right unless the first buffer ends inside of the gzip header, and a stored one
only if a buffer ends where the member does.
-/

namespace MiniWebSrv.HTTP.RespSource

open Word Responding

namespace ZipStream

/-- The stream has all of these bytes, and they are what it has still to give. -/
structure Holds (s : ZipStream) (bytes : List Byte) : Prop where
  counted : s.compPos + bytes.length = u32 s.compressedSize
  working : s.inS.fail = false
  there : ∃ behind, s.inS.rest = bytes ++ behind

theorem Holds.read {s : ZipStream} {bytes : List Byte} (holds : s.Holds bytes) (size : Nat) :
    (s.read size).1 = (bytes.take size, min size bytes.length) ∧
      (s.read size).2.Holds (bytes.drop size) := by
  obtain ⟨counted, working, behind, there⟩ := holds
  obtain ⟨compressedSize, compPos, rest, fail⟩ := s
  subst there working
  simp only at counted
  by_cases more : compPos < u32 compressedSize
  · have asked : (if u32 compressedSize - compPos < size then u32 compressedSize - compPos
        else size) = min size bytes.length := by split <;> omega
    have stored : (bytes ++ behind).take (min size bytes.length) = bytes.take size := by
      rw [List.take_append_of_le_length (Nat.min_le_right _ _), ← List.take_take,
        List.take_length]
    have taken : (bytes ++ behind).drop (min size bytes.length) = bytes.drop size ++ behind := by
      rw [List.drop_append_of_le_length (Nat.min_le_right _ _)]
      congr 1
      rcases Nat.le_total size bytes.length with le | le
      · rw [Nat.min_eq_left le]
      · rw [Nat.min_eq_right le, List.drop_length, List.drop_eq_nil_of_le le]
    have enough : ¬ (bytes ++ behind).length < min size bytes.length := by
      rw [List.length_append]
      omega
    simp only [ZipStream.read, InStream.read, if_pos more, asked, Bool.false_eq_true, if_false,
      stored, taken, decide_eq_false enough, true_and]
    refine ⟨?_, rfl, behind, rfl⟩
    simp only [List.length_drop]
    omega
  · have none_ : bytes = [] := List.length_eq_zero_iff.mp (by omega)
    subst none_
    simp only [ZipStream.read, if_neg more, List.take_nil, List.drop_nil, List.length_nil,
      Nat.min_zero, true_and]
    exact ⟨counted, rfl, behind, rfl⟩

end ZipStream

namespace ZipResponse

variable {behind : Nat → Byte}

theorem storeAt_append {off : Nat} (front back buff : List Byte)
    (inside : off + front.length ≤ buff.length) :
    storeAt (off + front.length) back (storeAt off front buff) =
      storeAt off (front ++ back) buff := by
  have taken : (buff.take off ++ front).length = off + front.length := by
    rw [List.length_append, List.length_take]
    omega
  simp only [storeAt]
  rw [List.take_left' taken, ← List.drop_drop, List.drop_left' taken, List.drop_drop,
    List.length_append, List.append_assoc, List.append_assoc, List.append_assoc, List.append_assoc,
    Nat.add_assoc]

/-- The bytes which are still to be sent, behind the header of a deflated member. -/
inductive Left (r : ZipResponse) : List Byte → Prop
  | body {bytes : List Byte} (state : r.cState = .body) (holds : r.sourceS.Holds bytes) :
      Left r (bytes ++ List.ofFn r.gzipFooterA)
  | footer {pos : Fin 9} (state : r.cState = .footer pos) (more : pos.val < 8) :
      Left r ((List.ofFn r.gzipFooterA).drop pos.val)

theorem Left.length_pos {r : ZipResponse} {content : List Byte} (left : r.Left content) :
    0 < content.length := by
  cases left with
  | body state holds =>
      rw [List.length_append, List.length_ofFn]
      omega
  | footer state more =>
      rw [List.length_drop, List.length_ofFn]
      omega

theorem Left.of_body {r : ZipResponse} {content : List Byte} (left : r.Left content)
    (state : r.cState = .body) :
    ∃ bytes, content = bytes ++ List.ofFn r.gzipFooterA ∧ r.sourceS.Holds bytes := by
  cases left with
  | body _ holds => exact ⟨_, rfl, holds⟩
  | footer other => cases state.symm.trans other

theorem Left.of_footer {r : ZipResponse} {content : List Byte} {pos : Fin 9} (left : r.Left content)
    (state : r.cState = .footer pos) :
    content = (List.ofFn r.gzipFooterA).drop pos.val ∧ content.length = 8 - pos.val := by
  cases left with
  | body other _ => cases state.symm.trans other
  | footer same more =>
      obtain rfl := ContentState.footer.inj (state.symm.trans same)
      exact ⟨rfl, by rw [List.length_drop, List.length_ofFn]⟩

/-- The loop has sent as much as there was room for, and has come to its end with the last byte. -/
structure LoopEnd.Sends (e : LoopEnd) (maxLength remLength : Nat) (content targetBuff : List Byte) :
    Prop where
  stored : e.targetBuff = storeAt (maxLength - remLength) (content.take remLength) targetBuff
  counted : e.remLength = remLength - min remLength content.length
  finished : e.isFinished = decide (content.length ≤ remLength)
  kept : remLength < content.length → e.response.Left (content.drop remLength)

theorem LoopEnd.Sends.cons {e : LoopEnd} {maxLength remLength : Nat}
    {front content targetBuff : List Byte} (inside : front.length ≤ remLength)
    (le : remLength ≤ maxLength) (length : targetBuff.length = maxLength)
    (sends : e.Sends maxLength (remLength - front.length) content
      (storeAt (maxLength - remLength) front targetBuff)) :
    e.Sends maxLength remLength (front ++ content) targetBuff := by
  obtain ⟨stored, counted, finished, kept⟩ := sends
  refine ⟨?_, ?_, ?_, ?_⟩
  · have off : maxLength - (remLength - front.length) = maxLength - remLength + front.length := by
      omega
    rw [stored, off, storeAt_append _ _ _ (by omega), List.take_append,
      List.take_of_length_le inside]
  · rw [counted, List.length_append]
    omega
  · rw [finished, List.length_append]
    exact decide_eq_decide.mpr (by omega)
  · intro more
    rw [List.length_append] at more
    rw [List.drop_append, List.drop_eq_nil_of_le inside, List.nil_append]
    exact kept (by omega)

theorem readLoop_left {maxLength remLength : Nat} {r : ZipResponse} {targetBuff : List Byte}
    (le : remLength ≤ maxLength) (length : targetBuff.length = maxLength) :
    ∀ {content : List Byte}, r.Left content →
      (readLoop behind maxLength r remLength targetBuff).Sends maxLength remLength content
        targetBuff := by
  fun_induction readLoop behind maxLength r remLength targetBuff with
  | case1 =>
      intro content left
      have more := left.length_pos
      refine ⟨?_, (Nat.zero_sub _).symm, ?_, fun _ => left⟩
      · rw [List.take_zero, storeAt, List.append_nil]
        exact (List.take_append_drop _ _).symm
      · exact (decide_eq_false (by omega)).symm
  | case2 r remLength targetBuff more off state got buff less =>
      rename_i ih
      intro content left
      obtain ⟨bytes, rfl, holds⟩ := left.of_body state
      obtain ⟨data, rest⟩ := holds.read remLength
      have data : got.1 = (bytes.take remLength, min remLength bytes.length) := data
      rw [data] at less
      have short : bytes.length < remLength := by simp only at less; omega
      have all : min remLength bytes.length = bytes.length := Nat.min_eq_right (Nat.le_of_lt short)
      rw [List.take_of_length_le (Nat.le_of_lt short), all] at data
      have next := ih (by omega) (storeAt_left le length (by
        rw [data]
        exact Nat.le_of_lt short)) (.footer rfl (by decide))
      rw [data] at next
      have buff_ : buff = storeAt (maxLength - remLength) bytes targetBuff := by
        simp only [buff, data, off]
      rw [buff_] at next
      rw [data, buff_]
      exact next.cons (Nat.le_of_lt short) le length
  | case3 r remLength targetBuff more off state got buff less =>
      rename_i ih
      intro content left
      obtain ⟨bytes, rfl, holds⟩ := left.of_body state
      obtain ⟨data, rest⟩ := holds.read remLength
      have data : got.1 = (bytes.take remLength, min remLength bytes.length) := data
      rw [data] at less
      have enough : remLength ≤ bytes.length := by simp only at less; omega
      rw [Nat.min_eq_left enough] at data
      have front : (bytes.take remLength).length = remLength := List.length_take_of_le enough
      have next := ih (by omega) (storeAt_left le length (by
        rw [data]
        exact Nat.le_of_eq front)) (.body rfl rest)
      have buff_ : buff = storeAt (maxLength - remLength) (bytes.take remLength) targetBuff := by
        simp only [buff, data, off]
      rw [data, buff_] at next
      rw [data, buff_, ← List.take_append_drop remLength bytes, List.append_assoc,
        List.take_append_drop]
      refine LoopEnd.Sends.cons (Nat.le_of_eq front) le length ?_
      rw [front]
      exact next
  | case4 r remLength targetBuff more off state | case5 r remLength targetBuff more off state
  | case6 r remLength targetBuff more off pos state
  | case7 r remLength targetBuff more off pos state =>
      intro content left
      cases left with
      | body state' | footer state' => rw [state] at state'; cases state'
  | case8 r remLength targetBuff more off pos state copyLen buff next =>
      rename_i last
      intro content left
      obtain ⟨rfl, count⟩ := left.of_footer state
      have sum : pos.val + copyLen = 8 := last
      have copied : copyLen = 8 - pos.val ∧ 8 - pos.val ≤ remLength ∨
          copyLen = remLength ∧ remLength < 8 - pos.val := by
        simp only [copyLen]
        split <;> omega
      have all : copyLen = 8 - pos.val ∧ 8 - pos.val ≤ remLength := by omega
      refine ⟨?_, ?_, ?_, fun more => absurd more (by omega)⟩
      · simp only [buff, copyFooter, off, all.1, ← count, List.take_length]
        rw [List.take_of_length_le (by omega)]
      · simp only [all.1]
        omega
      · exact (decide_eq_true (by omega)).symm
  | case9 r remLength targetBuff more off pos state copyLen buff next =>
      rename_i last ih
      intro content left
      obtain ⟨rfl, count⟩ := left.of_footer state
      have sum : ¬ pos.val + copyLen = 8 := last
      have copied : copyLen = 8 - pos.val ∧ 8 - pos.val ≤ remLength ∨
          copyLen = remLength ∧ remLength < 8 - pos.val := by
        simp only [copyLen]
        split <;> omega
      have all : copyLen = remLength ∧ remLength < 8 - pos.val := by omega
      have front : (copyFooter r pos.val copyLen).length = remLength := by
        rw [copyFooter, all.1, List.length_take, count]
        omega
      have rest := ih (by omega) (storeAt_left le length (Nat.le_of_eq front))
        (.footer rfl (show pos.val + copyLen < 8 by omega))
      have parts : (List.ofFn r.gzipFooterA).drop pos.val = copyFooter r pos.val copyLen ++
          (List.ofFn r.gzipFooterA).drop (pos.val + copyLen) := by
        rw [copyFooter, ← List.drop_drop, List.take_append_drop]
      rw [parts]
      refine LoopEnd.Sends.cons (Nat.le_of_eq front) le length ?_
      rw [front, show remLength - remLength = remLength - copyLen by rw [all.1]]
      exact rest

theorem readLoop_fileSize (maxLength : Nat) (r : ZipResponse) (remLength : Nat)
    (targetBuff : List Byte) :
    (readLoop behind maxLength r remLength targetBuff).response.fileSize = r.fileSize := by
  fun_induction readLoop behind maxLength r remLength targetBuff with
  | case1 | case4 | case8 => rfl
  | case2 | case3 | case5 | case6 | case7 | case9 => assumption

/-- What a call puts out is what its loop has sent. -/
theorem read_sends {r : ZipResponse} {content buff : List Byte} (opened : r.fileSize ≠ notModifiedSize)
    (sends : (readLoop behind buff.length r buff.length buff).Sends buff.length buff.length content
      buff) (range : buff.length < size32) :
    (r.read behind buff buff.length).1.data = content.take buff.length ∧
      (r.read behind buff buff.length).1.isFinished = decide (content.length ≤ buff.length) ∧
      (buff.length < content.length →
        (r.read behind buff buff.length).2.Left (content.drop buff.length)) := by
  simp only [read, if_pos opened]
  refine ⟨?_, sends.finished, sends.kept⟩
  have stored := sends.stored
  rw [Nat.sub_self] at stored
  have reported : sub32 buff.length (buff.length - min buff.length content.length) =
      (content.take buff.length).length := by
    rw [sub32_of_le (Nat.sub_le _ _) range, List.length_take]
    omega
  rw [ReadResult.data, stored, sends.counted, reported, storeAt_take _ _ (Nat.le_refl _),
    List.take_length]

/-! ## The header -/

theorem copyHeader_head {n : Nat} (pos : 1 ≤ n) (part : n < 10) :
    (copyHeader behind n n).head? ≠ some 31 := by
  have head : (copyHeader behind n n).head? = some (gzipHeaderA.getD n (behind n)) := by
    obtain ⟨m, rfl⟩ : ∃ m, n = m + 1 := ⟨n - 1, by omega⟩
    rw [copyHeader, List.range_succ_eq_map]
    rfl
  have inside : n < gzipHeaderA.length := part
  rw [head, List.getD_eq_getElem _ _ inside]
  have all : ∀ n : Fin gzipHeaderA.length, 1 ≤ n.val → gzipHeaderA.get n ≠ 31 := by decide
  exact fun same => all ⟨n, inside⟩ pos (Option.some.inj same)

/-- The loop at the start of the header, with room for all of it. -/
theorem readLoop_header {r : ZipResponse} {maxLength : Nat} {targetBuff : List Byte}
    (state : r.cState = .header 0) (room : 10 ≤ maxLength) :
    readLoop behind maxLength r maxLength targetBuff =
      readLoop behind maxLength { r with cState := .body } (maxLength - 10)
        (storeAt 0 gzipHeaderA targetBuff) := by
  obtain ⟨fileSize, sourceS, footer, cState⟩ := r
  obtain rfl : cState = .header 0 := state
  have more : maxLength ≠ 0 := by omega
  have all : 10 - (0 : Fin 10).val ≤ maxLength := room
  rw [readLoop, if_neg more]
  simp only
  rw [dif_pos all, Nat.sub_self]
  rfl

variable (behind) in
theorem readLoop_part {r : ZipResponse} {maxLength : Nat} (targetBuff : List Byte)
    (state : r.cState = .header 0) (more : maxLength ≠ 0) (part : maxLength < 10) :
    ∃ response, readLoop behind maxLength r maxLength targetBuff =
      ⟨0, storeAt 0 (copyHeader behind maxLength maxLength) targetBuff, false, response⟩ := by
  obtain ⟨fileSize, sourceS, footer, cState⟩ := r
  obtain rfl : cState = .header 0 := state
  have notAll : ¬ 10 - (0 : Fin 10).val ≤ maxLength := Nat.not_le_of_lt part
  rw [readLoop, if_neg more]
  simp only
  rw [dif_neg notAll, Nat.sub_self, readLoop, if_pos rfl]
  simp only [Fin.val_zero, Nat.zero_add]
  exact ⟨_, rfl⟩

/-! ## Sequences of calls -/

/-- The response after the calls with the first `n` buffers. -/
def after (behind : Nat → Byte) (r : ZipResponse) (buffs : Nat → List Byte) : Nat → ZipResponse
  | 0 => r
  | n + 1 => ((after behind r buffs n).read behind (buffs n) (buffs n).length).2

/-- The call with the `n`-th buffer. -/
def result (behind : Nat → Byte) (r : ZipResponse) (buffs : Nat → List Byte) (n : Nat) : ReadResult :=
  ((after behind r buffs n).read behind (buffs n) (buffs n).length).1

/-- What the first `n` calls have put out. -/
def sent (behind : Nat → Byte) (r : ZipResponse) (buffs : Nat → List Byte) : Nat → List Byte
  | 0 => []
  | n + 1 => sent behind r buffs n ++ (result behind r buffs n).data

/-- Some call is the first one which finishes the response, and the calls up to it have put this
    content out. -/
def Streams (behind : Nat → Byte) (r : ZipResponse) (buffs : Nat → List Byte) (content : List Byte) :
    Prop :=
  ∃ n, (∀ i < n, (result behind r buffs i).isFinished = false) ∧
    (result behind r buffs n).isFinished = true ∧ sent behind r buffs (n + 1) = content

section Calls

variable {r : ZipResponse} {buffs : Nat → List Byte} {content : List Byte}

theorem after_succ (n : Nat) : after behind r buffs (n + 1) =
    after behind (r.read behind (buffs 0) (buffs 0).length).2 (fun i => buffs (i + 1)) n := by
  induction n with
  | zero => rfl
  | succ n ih => rw [after, ih]; rfl

theorem result_succ (n : Nat) : result behind r buffs (n + 1) =
    result behind (r.read behind (buffs 0) (buffs 0).length).2 (fun i => buffs (i + 1)) n := by
  rw [result, after_succ]
  rfl

theorem sent_succ (n : Nat) : sent behind r buffs (n + 1) =
    (r.read behind (buffs 0) (buffs 0).length).1.data ++
      sent behind (r.read behind (buffs 0) (buffs 0).length).2 (fun i => buffs (i + 1)) n := by
  induction n with
  | zero => exact (List.append_nil _).symm
  | succ n ih => rw [sent, ih, result_succ, List.append_assoc]; rfl

theorem streams_finished
    (finished : (r.read behind (buffs 0) (buffs 0).length).1.isFinished = true) :
    Streams behind r buffs content ↔
      (r.read behind (buffs 0) (buffs 0).length).1.data = content := by
  constructor
  · rintro ⟨n, before, -, whole⟩
    cases n with
    | zero => exact whole
    | succ n => exact absurd ((before 0 (Nat.succ_pos n)).symm.trans finished) Bool.false_ne_true
  · intro whole
    exact ⟨0, fun i none_ => absurd none_ (Nat.not_lt_zero i), finished, whole⟩

theorem streams_more
    (more : (r.read behind (buffs 0) (buffs 0).length).1.isFinished = false) :
    Streams behind r buffs content ↔
      ∃ rest, content = (r.read behind (buffs 0) (buffs 0).length).1.data ++ rest ∧
        Streams behind (r.read behind (buffs 0) (buffs 0).length).2 (fun i => buffs (i + 1)) rest := by
  constructor
  · rintro ⟨n, before, finished, whole⟩
    cases n with
    | zero => exact absurd (more.symm.trans finished) Bool.false_ne_true
    | succ n =>
        refine ⟨_, by rw [← whole, sent_succ], n, ?_, ?_, rfl⟩
        · intro i less
          rw [← result_succ]
          exact before (i + 1) (Nat.succ_lt_succ less)
        · rw [← result_succ]
          exact finished
  · rintro ⟨rest, rfl, n, before, finished, rfl⟩
    refine ⟨n + 1, ?_, by rw [result_succ]; exact finished, sent_succ (n + 1)⟩
    intro i less
    cases i with
    | zero => exact more
    | succ i => rw [result_succ]; exact before i (Nat.lt_of_succ_lt_succ less)

/-- Behind a first call which sends the content from its start on, buffers of any sizes will do. -/
theorem streams_sends (opened : r.fileSize ≠ notModifiedSize)
    (sends : (readLoop behind (buffs 0).length r (buffs 0).length (buffs 0)).Sends (buffs 0).length
      (buffs 0).length content (buffs 0))
    (sizes : ∀ i, 0 < (buffs i).length ∧ (buffs i).length < size32) :
    Streams behind r buffs content := by
  obtain ⟨length, length_⟩ : ∃ length, content.length = length := ⟨_, rfl⟩
  induction length using Nat.strong_induction_on generalizing r buffs content with
  | _ length ih =>
      obtain ⟨data, finished, next⟩ := read_sends opened sends (sizes 0).2
      by_cases last : content.length ≤ (buffs 0).length
      · rw [decide_eq_true last] at finished
        rw [streams_finished finished, data, List.take_of_length_le last]
      · rw [decide_eq_false last] at finished
        rw [streams_more finished]
        refine ⟨content.drop (buffs 0).length, by rw [data, List.take_append_drop], ?_⟩
        have first := (sizes 0).1
        refine ih _ ?_ ?_ ?_ (fun i => sizes (i + 1)) rfl
        · rw [List.length_drop]
          omega
        · rw [read, if_pos opened]
          exact fun same => opened ((readLoop_fileSize _ _ _ _).symm.trans same)
        · exact readLoop_left (Nat.le_refl _) rfl (next (Nat.lt_of_not_le last))

end Calls

/-! ## Stored members -/

/-- The room in the first `n` buffers. -/
def filled (buffs : Nat → List Byte) : Nat → Nat
  | 0 => 0
  | n + 1 => filled buffs n + (buffs n).length

theorem filled_succ (buffs : Nat → List Byte) (n : Nat) :
    filled buffs (n + 1) = (buffs 0).length + filled (fun i => buffs (i + 1)) n := by
  induction n with
  | zero => exact Nat.add_comm _ _
  | succ n ih => rw [filled, ih, Nat.add_assoc]; rfl

variable (behind) in
theorem read_stored {r : ZipResponse} {bytes buff : List Byte} (opened : r.fileSize ≠ notModifiedSize)
    (state : r.cState = .bodyOnly) (holds : r.sourceS.Holds bytes) (more : 0 < buff.length)
    (range : buff.length < size32) :
    (bytes.length < buff.length → (r.read behind buff buff.length).1.isFinished = true ∧
        (r.read behind buff buff.length).1.data = []) ∧
      (buff.length ≤ bytes.length → (r.read behind buff buff.length).1.isFinished = false ∧
        (r.read behind buff buff.length).1.data = bytes.take buff.length ∧
        (r.read behind buff buff.length).2.cState = .bodyOnly ∧
        (r.read behind buff buff.length).2.sourceS.Holds (bytes.drop buff.length)) := by
  obtain ⟨fileSize, sourceS, footer, cState⟩ := r
  obtain rfl : cState = .bodyOnly := state
  obtain ⟨data, rest⟩ := holds.read buff.length
  simp only [read, if_pos opened]
  rw [readLoop, if_neg (Nat.ne_of_gt more)]
  simp only [data]
  constructor
  · intro short
    rw [Nat.min_eq_right (Nat.le_of_lt short), if_pos short]
    refine ⟨rfl, ?_⟩
    have none_ : sub32 buff.length buff.length = 0 := by
      rw [sub32_of_le (Nat.le_refl _) range, Nat.sub_self]
    simp only [ReadResult.data, none_, List.take_zero]
  · intro enough
    rw [Nat.min_eq_left enough, if_neg (Nat.lt_irrefl _), Nat.sub_self, readLoop, if_pos rfl]
    have all : sub32 buff.length 0 = (bytes.take buff.length).length := by
      rw [sub32_of_le (Nat.zero_le _) range, Nat.sub_zero, List.length_take_of_le enough]
    refine ⟨rfl, ?_, rfl, rest⟩
    simp only [ReadResult.data, all]
    rw [storeAt_take _ _ (Nat.le_refl _), List.take_length]

theorem streams_stored {r : ZipResponse} {buffs : Nat → List Byte} {bytes : List Byte}
    (opened : r.fileSize ≠ notModifiedSize) (state : r.cState = .bodyOnly)
    (holds : r.sourceS.Holds bytes)
    (sizes : ∀ i, 0 < (buffs i).length ∧ (buffs i).length < size32) :
    Streams behind r buffs bytes ↔ ∃ n, filled buffs n = bytes.length := by
  obtain ⟨length, length_⟩ : ∃ length, bytes.length = length := ⟨_, rfl⟩
  induction length using Nat.strong_induction_on generalizing r buffs bytes with
  | _ length ih =>
      have first := (sizes 0).1
      obtain ⟨last, others⟩ := read_stored behind opened state holds first (sizes 0).2
      by_cases short : bytes.length < (buffs 0).length
      · obtain ⟨finished, data⟩ := last short
        rw [streams_finished finished, data]
        constructor
        · rintro rfl
          exact ⟨0, rfl⟩
        · rintro ⟨n, all⟩
          cases n with
          | zero => exact (List.eq_nil_of_length_eq_zero all.symm).symm
          | succ n =>
              rw [filled_succ] at all
              omega
      · have enough := Nat.le_of_not_lt short
        obtain ⟨finished, data, state', holds'⟩ := others enough
        have opened' : (r.read behind (buffs 0) (buffs 0).length).2.fileSize ≠ notModifiedSize := by
          rw [read, if_pos opened]
          exact fun same => opened ((readLoop_fileSize _ _ _ _).symm.trans same)
        have next := ih _ (by rw [List.length_drop]; omega) opened' state' holds'
          (fun i => sizes (i + 1)) rfl
        have counts : (∃ n, filled buffs n = bytes.length) ↔
            ∃ n, filled (fun i => buffs (i + 1)) n = (bytes.drop (buffs 0).length).length := by
          rw [List.length_drop]
          constructor
          · rintro ⟨n, all⟩
            cases n with
            | zero =>
                have none_ : 0 = bytes.length := all
                omega
            | succ n =>
                rw [filled_succ] at all
                exact ⟨n, by omega⟩
          · rintro ⟨n, all⟩
            exact ⟨n + 1, by rw [filled_succ]; omega⟩
        rw [streams_more finished, data, counts, ← next]
        constructor
        · rintro ⟨rest, whole, streams⟩
          have same := List.append_cancel_left ((List.take_append_drop _ _).trans whole)
          rwa [same]
        · intro streams
          exact ⟨_, (List.take_append_drop _ _).symm, streams⟩

/-! ## What a member gives -/

def getLength (r : ZipResponse) : Nat := if r.fileSize ≠ notModifiedSize then r.fileSize else 0

/-- The checksum and the size of what is compressed, as a gzip file has them at its end. -/
def gzipFooter (info : FileInfo) : List Byte :=
  (List.range 4).map (littleEndian info.crc32) ++
    (List.range 4).map (littleEndian info.uncompressedSize)

/-- What a client should get of a member which lies at the start of the stream. -/
def memberContent (info : FileInfo) (inS : InStream) : List Byte :=
  let bytes := inS.rest.take info.compressedSize.toNat
  match info.compression with
  | .deflate => gzipHeaderA ++ (bytes ++ gzipFooter info)
  | .store => bytes

/-- The buffers go well with the member: the first one has room for the header, or one ends where the
    stored bytes do. -/
def GoesWell (info : FileInfo) (buffs : Nat → List Byte) : Prop :=
  match info.compression with
  | .deflate => 10 ≤ (buffs 0).length
  | .store => ∃ n, filled buffs n = info.compressedSize.toNat

theorem ofFn_footer (info : FileInfo) : List.ofFn (fun i : Fin 8 =>
    if i.val < 4 then littleEndian info.crc32 i.val
    else littleEndian info.uncompressedSize (i.val - 4)) = gzipFooter info := rfl

/-- A deflated member is sent with its header if that fits into the first buffer. -/
theorem streams_deflated {r : ZipResponse} {buffs : Nat → List Byte} {content : List Byte}
    (opened : r.fileSize ≠ notModifiedSize) (state : r.cState = .header 0)
    (left : ({ r with cState := .body } : ZipResponse).Left content)
    (sizes : ∀ i, 0 < (buffs i).length ∧ (buffs i).length < size32) :
    Streams behind r buffs (gzipHeaderA ++ content) ↔ 10 ≤ (buffs 0).length := by
  have first := (sizes 0).1
  constructor
  · intro streams
    by_contra part
    obtain ⟨response, loop⟩ := readLoop_part behind (buffs 0) state
      (Nat.ne_of_gt first) (Nat.lt_of_not_le part)
    have finished : (r.read behind (buffs 0) (buffs 0).length).1.isFinished = false := by
      simp only [read, if_pos opened, loop]
    have data : (r.read behind (buffs 0) (buffs 0).length).1.data =
        copyHeader behind (buffs 0).length (buffs 0).length := by
      have copied := copyHeader_length behind (buffs 0).length (buffs 0).length
      have all : sub32 (buffs 0).length 0 =
          (copyHeader behind (buffs 0).length (buffs 0).length).length := by
        rw [sub32_of_le (Nat.zero_le _) (sizes 0).2, Nat.sub_zero, copied]
      simp only [read, if_pos opened, loop, ReadResult.data, all]
      rw [storeAt_take _ _ (Nat.le_refl _), List.take_length]
    obtain ⟨rest, whole, -⟩ := (streams_more finished).mp streams
    rw [data] at whole
    have head := congrArg List.head? whole
    have some_ : copyHeader behind (buffs 0).length (buffs 0).length ≠ [] := by
      intro none_
      have copied := copyHeader_length behind (buffs 0).length (buffs 0).length
      rw [none_] at copied
      exact Nat.ne_of_gt first copied.symm
    rw [List.head?_append_of_ne_nil _ some_] at head
    exact copyHeader_head first (Nat.lt_of_not_le part) head.symm
  · intro room
    refine streams_sends opened ?_ sizes
    have header : gzipHeaderA.length ≤ (buffs 0).length := room
    rw [readLoop_header state room]
    refine LoopEnd.Sends.cons header (Nat.le_refl _) rfl ?_
    rw [Nat.sub_self]
    refine readLoop_left (Nat.sub_le _ _) ?_ left
    rw [storeAt_length (by rw [Nat.zero_add]; exact header)]

theorem streams_whole_iff (memory : ZipResponse) {info : FileInfo} {inS : InStream}
    {ifModifiedSince : Int} (modified : ifModifiedSince < info.lastModTime)
    (working : inS.fail = false) (enough : info.compressedSize.toNat ≤ inS.rest.length)
    {buffs : Nat → List Byte} (sizes : ∀ i, 0 < (buffs i).length ∧ (buffs i).length < size32) :
    (Streams behind (create memory info inS ifModifiedSince) buffs (memberContent info inS) ∧
        (memberContent info inS).length = (create memory info inS ifModifiedSince).getLength) ↔
      GoesWell info buffs := by
  have opened : (create memory info inS ifModifiedSince).fileSize ≠ notModifiedSize := by
    have size := create_size memory inS modified
    rw [notModifiedSize]
    omega
  have bytes : (inS.rest.take info.compressedSize.toNat).length = info.compressedSize.toNat :=
    List.length_take_of_le enough
  have holds : (ZipStream.mk info.compressedSize.toNat 0 inS).Holds
      (inS.rest.take info.compressedSize.toNat) :=
    ⟨by rw [bytes, Nat.zero_add, u32_of_lt info.compressedSize.toNat_lt], working, _,
      (List.take_append_drop _ _).symm⟩
  rw [getLength, if_pos opened]
  simp only [create, if_pos modified, memberContent, GoesWell] at opened ⊢
  cases method : info.compression with
  | deflate =>
      simp only [method] at opened ⊢
      have left : (ZipResponse.mk (info.compressedSize.toNat + (gzipHeaderA.length + 8))
          ⟨info.compressedSize.toNat, 0, inS⟩ (fun i =>
            if i.val < 4 then littleEndian info.crc32 i.val
            else littleEndian info.uncompressedSize (i.val - 4)) .body).Left
          (inS.rest.take info.compressedSize.toNat ++ gzipFooter info) := by
        rw [← ofFn_footer]
        exact .body rfl holds
      have length : (gzipHeaderA ++ (inS.rest.take info.compressedSize.toNat ++
          gzipFooter info)).length = info.compressedSize.toNat + (gzipHeaderA.length + 8) := by
        have footer : (gzipFooter info).length = 8 := rfl
        rw [List.length_append, List.length_append, bytes, footer]
        omega
      rw [streams_deflated opened rfl left sizes, and_iff_left length]
  | store =>
      simp only [method] at opened ⊢
      rw [streams_stored opened rfl holds sizes, bytes, and_iff_left rfl]

/-- The memory of an object which has not been constructed yet. -/
def zeroed : ZipResponse := ⟨0, ⟨0, 0, ⟨[], false⟩⟩, fun _ => 0, .bodyOnly⟩

/-- A deflated member in buffers of 16 bytes. -/
theorem streams_whole_iff_wide :
    (Streams (fun _ => 0) (create zeroed ⟨.deflate, 5, 2, 3, 1⟩ ⟨[3, 0], false⟩ 0)
        (fun _ => List.replicate 16 7) (memberContent ⟨.deflate, 5, 2, 3, 1⟩ ⟨[3, 0], false⟩) ∧
        (memberContent ⟨.deflate, 5, 2, 3, 1⟩ ⟨[3, 0], false⟩).length =
          (create zeroed ⟨.deflate, 5, 2, 3, 1⟩ ⟨[3, 0], false⟩ 0).getLength) ↔
      GoesWell ⟨.deflate, 5, 2, 3, 1⟩ (fun _ => List.replicate 16 7) :=
  streams_whole_iff zeroed (by decide) rfl (by decide) (fun _ => by decide)

/-- A stored member of three bytes in buffers of two: the last byte is not sent. -/
theorem last_byte_left_out : ¬∀ (behind : Nat → Byte) (memory : ZipResponse) (info : FileInfo)
    (inS : InStream) (ifModifiedSince : Int) (buffs : Nat → List Byte),
    ifModifiedSince < info.lastModTime → inS.fail = false →
    info.compressedSize.toNat ≤ inS.rest.length →
    (∀ i, 0 < (buffs i).length ∧ (buffs i).length < size32) →
    Streams behind (create memory info inS ifModifiedSince) buffs (memberContent info inS) ∧
      (memberContent info inS).length = (create memory info inS ifModifiedSince).getLength := by
  intro whole
  obtain ⟨streams, -⟩ := whole (fun _ => 0) zeroed ⟨.store, 5, 3, 3, 1⟩ ⟨[1, 2, 3], false⟩ 0
    (fun _ => [0, 0]) (by decide) rfl (by decide) (fun _ => by decide)
  have holds : (ZipStream.mk 3 0 ⟨[1, 2, 3], false⟩).Holds [1, 2, 3] := ⟨rfl, rfl, [], rfl⟩
  obtain ⟨n, all⟩ := (streams_stored (by decide) rfl holds (fun _ => by decide)).mp streams
  have even : ∀ n, filled (fun _ => [0, 0]) n = 2 * n := by
    intro n
    induction n with
    | zero => rfl
    | succ n ih => rw [filled, ih]; rfl
  rw [even] at all
  have three : 2 * n = 3 := all
  omega

end ZipResponse

end MiniWebSrv.HTTP.RespSource
