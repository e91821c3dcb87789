import MiniWebSrv.Common.WriteBuffQueueFifo
import MiniWebSrv.WebSocket.Connection

/-! # Close frames

`SendCloseInternal` stores the reason two shorts behind the allocation's beginning, where it should
be two bytes. What this does to the queue depends on what has been there.
-/

namespace MiniWebSrv

open Word

namespace WriteBuffQueue

variable {size : Nat} {q : WriteBuffQueue size}

theorem commit_whole {length : Nat} (whole : q.lastAllocLength = length) (short : length ≤ max32) :
    q.commit length = q.commit max32 := by
  have all : ¬length < q.lastAllocLength := by omega
  have most : ¬max32 < q.lastAllocLength := by omega
  simp only [commit, if_neg all, if_neg most]

/-- What an allocation is filled with is committed as a whole. -/
theorem Idle.commit_bytes (idle : Idle q) {mem mem' : Mem WriteBlock Byte} {length : Nat}
    {ret : WritePtr} {q' : WriteBuffQueue size} (pos : 0 < length) (short : length + 255 < size32)
    (room : q.allocate length = (some ret, q'))
    (outside : ∀ p, ¬(Region.mk ret length).Covers p → mem' p.block p.off = mem p.block p.off) :
    (q'.commit length).pendingBytes mem' = q.pendingBytes mem ++ mem'.read ret length := by
  have few : length ≤ max32 := by
    simp only [max32, size32] at short ⊢
    omega
  have size_ := mem'.read_length ret length
  obtain ⟨ws, ps, shape⟩ := idle
  obtain ⟨ret₀, q₀, ps', b, run₀, last, -⟩ := shape.allocate_spec pos fun _ => short
  have pos_ : 0 < (mem'.read ret length).length := by rw [size_]; exact pos
  obtain ⟨ret', q'', run, -, bytes⟩ := Idle.push_bytes ⟨ws, ps, shape⟩ mem pos_
    (by rw [size_]; exact few) (fun _ => by rw [size_]; exact short)
  rw [size_, room] at run
  rw [room] at run₀
  obtain ⟨⟨rfl⟩, rfl⟩ := Prod.mk.inj run
  obtain ⟨-, rfl⟩ := Prod.mk.inj run₀
  have filled : mem.write ret (mem'.read ret length) = mem' := by
    funext block off
    simp only [Mem.write]
    split
    · rename_i hit
      by_cases inside : off - ret.off < length
      · rw [List.getElem?_eq_getElem (by rw [size_]; exact inside), Option.getD_some,
          Mem.read_getElem, hit.1, Nat.add_sub_cancel' hit.2]
      · rw [List.getElem?_eq_none (by rw [size_]; exact Nat.le_of_not_lt inside), Option.getD_none]
        apply Eq.symm
        apply outside ⟨block, off⟩
        rintro ⟨-, -, below⟩
        simp only [Region.last, Ptr.add_off] at below
        omega
    · rename_i miss
      apply Eq.symm
      apply outside ⟨block, off⟩
      rintro ⟨same, above, -⟩
      exact miss ⟨same, above⟩
  rw [filled] at bytes
  rw [commit_whole last few, bytes]

end WriteBuffQueue

namespace WebSocket.Connection

open WriteBuffQueue

variable {c : Connection} {reason : CloseReason}

/-- The frame is committed, and no other byte is written. -/
def ClosesCleanly (c : Connection) (reason : CloseReason) : Prop :=
  ∃ ret d, (c.writeBuff.allocate 4).1 = some ret ∧ c.sendCloseInternal reason = some (true, d) ∧
    d.writeBuff.pendingBytes d.writeMem =
      c.writeBuff.pendingBytes c.writeMem ++ (136 :: 2 :: big16 reason) ∧
    ∀ p, ¬(Region.mk ret 4).Covers p → d.writeMem p.block p.off = c.writeMem p.block p.off

/-- What is stored: the opcode and the length of the frame, and the reason behind the frame. -/
def closeMem (mem : Mem WriteBlock Byte) (ret : WritePtr) (reason : CloseReason) :
    Mem WriteBlock Byte :=
  (mem.write ret [136, 2]).write (ret.add 4) (big16 reason)

theorem sendCloseInternal_eq {ret : WritePtr} {q : WriteBuffQueue Config.writeBuffSize}
    (room : c.writeBuff.allocate 4 = (some ret, q)) :
    c.sendCloseInternal reason = if ret.off + 6 ≤ blockSize q ret.block then
      some (true, { c with
        writeBuff := q.commit 4
        writeMem := closeMem c.writeMem ret reason
        closeReasons := c.closeReasons ++ [reason] }) else none := by
  have code : flagFin ||| OpCode.close = 136 := by decide
  by_cases inside : ret.off + 6 ≤ blockSize q ret.block
  · have header : ret.off + ([136, 2] : List Byte).length ≤ blockSize q ret.block :=
      Nat.le_trans (Nat.add_le_add_left (by decide) _) inside
    have behind : (ret.add 4).off + (big16 reason).length ≤ blockSize q (ret.add 4).block := inside
    simp only [sendCloseInternal, room, store, if_pos header, bind, Option.bind_some, if_pos behind,
      if_pos inside, code, closeMem]
  · have behind : ¬(ret.add 4).off + (big16 reason).length ≤ blockSize q (ret.add 4).block := inside
    rw [if_neg inside]
    simp only [sendCloseInternal, room, store, bind, code]
    by_cases header : ret.off + ([136, 2] : List Byte).length ≤ blockSize q ret.block
    · rw [if_pos header, Option.bind_some, if_neg behind, Option.bind_none]
    · rw [if_neg header, Option.bind_none]

/-! ## The memory around the frame -/

variable {mem : Mem WriteBlock Byte} {ret : WritePtr}

theorem closeMem_header : (closeMem mem ret reason).read ret 2 = [136, 2] := by
  rw [closeMem, Mem.read_write_of_disjoint _ (Or.inr (Or.inl (by simp only [Ptr.add_off]; omega)))]
  exact mem.read_write_self ret [136, 2]

theorem closeMem_reason : (closeMem mem ret reason).read (ret.add 2) 2 = mem.read (ret.add 2) 2 := by
  rw [closeMem, Mem.read_write_of_disjoint, Mem.read_write_of_disjoint]
  · exact Or.inr (Or.inr (Nat.le_refl _))
  · exact Or.inr (Or.inl (Nat.le_refl _))

theorem closeMem_behind : (closeMem mem ret reason).read (ret.add 4) 2 = big16 reason :=
  Mem.read_write_self _ (ret.add 4) (big16 reason)

theorem closeMem_frame_iff : (closeMem mem ret reason).read ret 4 = 136 :: 2 :: big16 reason ↔
    mem.read (ret.add 2) 2 = big16 reason := by
  rw [Mem.read_add _ ret 2 2, closeMem_header, closeMem_reason, List.cons_append, List.cons_append,
    List.nil_append]
  constructor
  · intro same
    exact (List.cons.inj (List.cons.inj same).2).2
  · intro same
    rw [same]

/-- Nothing is written outside the frame exactly if the reason is behind it already. -/
theorem closeMem_outside_iff :
    (∀ p, ¬(Region.mk ret 4).Covers p →
      closeMem mem ret reason p.block p.off = mem p.block p.off) ↔
      mem.read (ret.add 4) 2 = big16 reason := by
  constructor
  · intro outside
    have behind : (closeMem mem ret reason).read (ret.add 4) 2 = big16 reason := closeMem_behind
    rw [← behind]
    apply Mem.read_congr
    intro i _
    apply Eq.symm
    apply outside ⟨ret.block, ret.off + 4 + i⟩
    rintro ⟨-, -, below⟩
    simp only [Region.last, Ptr.add_off] at below
    omega
  · intro same p apart
    have kept : (mem.write ret [136, 2]).read (ret.add 4) 2 = big16 reason := by
      rw [Mem.read_write_of_disjoint _ (Or.inr (Or.inr (by
        simp only [Ptr.add_off, List.length_cons, List.length_nil]
        omega)))]
      exact same
    rw [closeMem, ← kept, Mem.write_read_self, Mem.write]
    split
    · rename_i hit
      rw [List.getElem?_eq_none, Option.getD_none]
      apply Nat.le_of_not_lt
      intro below
      simp only [List.length_cons, List.length_nil] at below
      apply apart
      refine ⟨hit.1, hit.2, ?_⟩
      simp only [Region.last, Ptr.add_off]
      omega
    · rfl

/-- The close frame is right, and nothing else is touched, exactly if the two stores stay inside the
    block and the reason is already there, both in the frame and behind it. -/
theorem closes_cleanly_iff (idle : c.writeBuff.Idle) (reason : CloseReason) :
    ClosesCleanly c reason ↔ ∃ ret, (c.writeBuff.allocate 4).1 = some ret ∧
      ret.off + 6 ≤ blockSize (c.writeBuff.allocate 4).2 ret.block ∧
      c.writeMem.read (ret.add 2) 4 = big16 reason ++ big16 reason := by
  obtain ⟨ret, q, room⟩ := c.writeBuff.allocate_some 4 (by decide)
  have effect : c.sendCloseInternal reason = _ := sendCloseInternal_eq room
  have halves : c.writeMem.read (ret.add 2) 4 = big16 reason ++ big16 reason ↔
      c.writeMem.read (ret.add 2) 2 = big16 reason ∧
        c.writeMem.read (ret.add 4) 2 = big16 reason := by
    rw [Mem.read_add _ (ret.add 2) 2 2, Ptr.add_add]
    constructor
    · exact fun same => List.append_inj same (Mem.read_length ..)
    · rintro ⟨front, behind⟩
      rw [front, behind]
  simp only [ClosesCleanly, room, effect]
  constructor
  · rintro ⟨_, d, ⟨⟩, run, bytes, outside⟩
    obtain ⟨inside, run⟩ := Option.ite_none_right_eq_some.mp run
    obtain ⟨-, rfl⟩ := Prod.mk.inj (Option.some.inj run)
    have committed := idle.commit_bytes (by decide) (by decide) room outside
    refine ⟨ret, rfl, inside, halves.mpr ⟨closeMem_frame_iff.mp ?_, closeMem_outside_iff.mp outside⟩⟩
    exact List.append_cancel_left (committed.symm.trans bytes)
  · rintro ⟨_, ⟨⟩, inside, same⟩
    obtain ⟨front, behind⟩ := halves.mp same
    have outside := closeMem_outside_iff.mpr behind
    refine ⟨ret, _, rfl, if_pos inside, ?_, outside⟩
    rw [← closeMem_frame_iff.mpr front]
    exact idle.commit_bytes (by decide) (by decide) room outside

/-- A connection whose write buffer has been full of threes, and closes with the reason 0x0303. -/
theorem closes_cleanly_threes : ClosesCleanly (create (fun _ _ => 0) fun _ _ => 3) 771 :=
  (closes_cleanly_iff (WriteBuffQueue.idle_init (by decide)) 771).mpr
    ⟨⟨.arena, 0⟩, by decide, by decide, by decide⟩

/-- The reason is missing in the first frame of a connection. -/
theorem close_reason_misplaced :
    ¬∀ (c : Connection) (reason : CloseReason), c.writeBuff.Idle → ClosesCleanly c reason := by
  intro all
  have idle : (create (fun _ _ => 0) fun _ _ => 0).writeBuff.Idle :=
    WriteBuffQueue.idle_init (by decide)
  obtain ⟨ret, d, room, sent, -, outside⟩ := all _ CloseReason.normal idle
  have at_ : ((create (fun _ _ => 0) fun _ _ => 0).writeBuff.allocate 4).1 = some ⟨.arena, 0⟩ := by
    decide
  obtain rfl := Option.some.inj (room.symm.trans at_)
  have stored : ((create (fun _ _ => 0) fun _ _ => 0).sendCloseInternal CloseReason.normal).map
      (fun sent => sent.2.writeMem .arena 4) = some 3 := by
    decide
  rw [sent] at stored
  have kept := outside ⟨.arena, 4⟩ fun covers => absurd covers.2.2 (by decide)
  exact absurd (kept.symm.trans (Option.some.inj stored)) (by decide)

end WebSocket.Connection

end MiniWebSrv
