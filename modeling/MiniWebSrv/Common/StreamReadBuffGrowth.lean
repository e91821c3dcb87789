import MiniWebSrv.Common.StreamReadBuffStream

/-! # The growth of the read buffer

A request adds what it misses to `ReqDataEndPos`, whatever earlier requests have left there. It
asks for what it needs when nothing is outstanding, and only then. The users' loops repeat their
request after each partial read, and what is outstanding is asked for once more each time.
-/

namespace MiniWebSrv

open Word Run

namespace StreamReadBuff

variable {size : Nat} {b b' : StreamReadBuff size} {n : Nat}

/-- The length which must be read, as `GetReadInfo` reports it. -/
def requiredLength (b : StreamReadBuff size) : Nat := b.getReadInfo.2.1

/-- `n` rounded up to a multiple of 1024. -/
def roundUp (n : Nat) : Nat := (n + 1023) / 1024 * 1024

theorem requiredLength_eq (b : StreamReadBuff size) :
    b.requiredLength = b.reqDataEndPos - b.dataEndPos := by
  simp only [requiredLength, getReadInfo]
  split <;> omega

theorem requestData_requiredLength (valid : b.Valid) (run : b.requestData n = some (false, b')) :
    b'.requiredLength = u32 (b.requiredEnd n) - b.dataEndPos := by
  obtain ⟨relevant, data, inside, -⟩ := valid
  simp only [requestData] at run
  split at run
  · simp only [Option.some.injEq, Prod.mk.injEq, Bool.true_eq_false, false_and] at run
  · simp only [requiredLength_eq, requiredEnd]
    split at run
    · rename_i long
      split at run
      · obtain ⟨-, rfl⟩ := Prod.mk.inj (Option.some.inj run)
        simp only
        omega
      · split at run
        · cases run
        · obtain ⟨-, rfl⟩ := Prod.mk.inj (Option.some.inj run)
          simp only
          omega
    · obtain ⟨-, rfl⟩ := Prod.mk.inj (Option.some.inj run)
      rfl

theorem requestData_short {r : Bool} (position : b.reqDataEndPos < size32)
    (length : b.buffLength < size32) (run : b.requestData n = some (r, b')) :
    b'.reqDataEndPos < size32 ∧ b'.buffLength < size32 := by
  have sum := u32_lt (b.reqDataEndPos + (n - b.getAvailableDataLength))
  simp only [requestData] at run
  split at run
  · obtain ⟨-, rfl⟩ := Prod.mk.inj (Option.some.inj run)
    exact ⟨position, length⟩
  · split at run
    · split at run
      · obtain ⟨-, rfl⟩ := Prod.mk.inj (Option.some.inj run)
        exact ⟨Nat.lt_of_le_of_lt (Nat.sub_le _ _) sum, length⟩
      · split at run
        · cases run
        · obtain ⟨-, rfl⟩ := Prod.mk.inj (Option.some.inj run)
          exact ⟨Nat.lt_of_le_of_lt (Nat.sub_le _ _) sum, roundUpPowerOfTwo_lt _ _⟩
    · obtain ⟨-, rfl⟩ := Prod.mk.inj (Option.some.inj run)
      exact ⟨sum, length⟩

theorem requiredLength_iff (valid : b.Valid) (short : b.reqDataEndPos < size32)
    (missing : b.getAvailableDataLength < n) (run : b.requestData n = some (false, b')) :
    b'.requiredLength = n - b.getAvailableDataLength ↔
      b.reqDataEndPos = b.dataEndPos ∧ b.requiredEnd n < size32 := by
  rw [requestData_requiredLength valid run]
  simp only [requiredEnd, u32, size32] at short ⊢
  omega

theorem roundUpPowerOfTwo_le (n : Nat) : roundUpPowerOfTwo n 10 ≤ roundUp n := by
  simp only [roundUpPowerOfTwo, roundUp, u32, size32]
  omega

theorem requestData_capacity (valid : b.Valid) (settled : b.reqDataEndPos = b.dataEndPos)
    (inRange : b.requiredEnd n < size32) (missing : b.getAvailableDataLength < n)
    (run : b.requestData n = some (false, b')) :
    b'.buffLength ≤ max b.buffLength (roundUp (b.relevantLength + n)) := by
  have ordered := valid.relevant
  have data := valid.data
  have missing := Nat.not_le.mpr missing
  by_cases room : b.requiredEnd n ≤ b.buffLength
  · rw [b.requestData_roomy inRange missing room] at run
    obtain ⟨-, rfl⟩ := Prod.mk.inj (Option.some.inj run)
    exact Nat.le_max_left _ _
  · have long := Nat.lt_of_not_le room
    by_cases fits : b.requiredEnd n - b.dataEndPos ≤
        b.readPos - b.relevantLength + (b.buffLength - b.dataEndPos)
    · rw [b.requestData_moved inRange missing long fits] at run
      obtain ⟨-, rfl⟩ := Prod.mk.inj (Option.some.inj run)
      exact Nat.le_max_left _ _
    · have need : b.requiredEnd n - (b.readPos - b.relevantLength) = b.relevantLength + n := by
        simp only [requiredEnd, getAvailableDataLength] at missing ⊢
        omega
      rw [b.requestData_grown valid (Nat.le_of_eq settled.symm) inRange missing long fits,
        need] at run
      split at run
      · cases run
      · obtain ⟨-, rfl⟩ := Prod.mk.inj (Option.some.inj run)
        exact Nat.le_trans (roundUpPowerOfTwo_le _) (Nat.le_max_right _ _)

/-! ## Runs -/

/-- A buffer, and the last request which has not been met, with the capacity which it has left.
    It is there as long as nothing but reads has come since. -/
structure Asking (size : Nat) where
  buff : StreamReadBuff size
  asked : Option (Nat × Nat)

namespace Asking

def fresh (size : Nat) (mem : Mem Nat Byte) : Asking size := ⟨init size mem, none⟩

def step (a : Asking size) : Op → Option (Asking size)
  | .onNewData data =>
      if data.length ≤ a.buff.freeLength then
        some { a with buff := (a.buff.receive data).2 }
      else
        none
  | .consume length isRelevant => some ⟨(a.buff.consume length isRelevant).2, none⟩
  | .requestData n => (a.buff.requestData n).map fun r =>
      ⟨r.2, if r.1 then none else some (n, r.2.buffLength)⟩
  | .resetRelevant => some ⟨a.buff.resetRelevant, none⟩
  | .reset => some ⟨a.buff.reset, none⟩

/-- A request which is not met asks for exactly what is missing, makes the buffer no longer than
    it has to be, and no longer at all when it is only repeated after some reads. -/
def Exact (a : Asking size) : Op → Prop
  | .requestData n => ∀ b, a.buff.requestData n = some (false, b) →
      b.requiredLength = n - a.buff.getAvailableDataLength ∧
      b.buffLength ≤ max a.buff.buffLength (roundUp (a.buff.relevantLength + n)) ∧
      ∀ capacity, a.asked = some (n, capacity) → b.buffLength ≤ capacity
  | _ => True

/-- A request which is not met comes when nothing is outstanding. -/
def Settled (a : Asking size) : Op → Prop
  | .requestData n => a.buff.getAvailableDataLength < n →
      a.buff.reqDataEndPos = a.buff.dataEndPos ∧ a.buff.requiredEnd n < size32
  | _ => True

/-- What has been asked for and has not come is outstanding. -/
structure Sound (a : Asking size) : Prop where
  valid : a.buff.Valid
  required : a.buff.dataEndPos ≤ a.buff.reqDataEndPos
  short : a.buff.reqDataEndPos < size32
  capacity : a.buff.buffLength < size32
  asked : ∀ n capacity, a.asked = some (n, capacity) →
    n - a.buff.getAvailableDataLength ≤ a.buff.reqDataEndPos - a.buff.dataEndPos

variable {a t : Asking size}

theorem exact_iff {op : Op} (sound : Sound a) (run : a.step op = some t) :
    a.Exact op ↔ a.Settled op := by
  cases op with
  | requestData n =>
      obtain ⟨⟨r, b⟩, asks, -⟩ := Option.map_eq_some_iff.mp run
      constructor
      · intro exactly missing
        cases r with
        | true =>
            cases requestData_cases asks with
            | enough le => exact absurd missing (Nat.not_lt.mpr le)
        | false =>
            exact (requiredLength_iff sound.valid sound.short missing asks).mp (exactly b asks).1
      · intro settled b' unmet
        have missing : a.buff.getAvailableDataLength < n := by
          cases requestData_cases unmet <;> assumption
        have both := settled missing
        refine ⟨(requiredLength_iff sound.valid sound.short missing unmet).mpr both,
          requestData_capacity sound.valid both.1 both.2 missing unmet, fun capacity asked => ?_⟩
        -- the same request again: what it missed is still outstanding
        have outstanding := sound.asked n capacity asked
        omega
  | onNewData | consume | resetRelevant | reset => exact ⟨fun _ => trivial, fun _ => trivial⟩

theorem asked_nothing {P : Nat → Nat → Prop} :
    ∀ n capacity, (none : Option (Nat × Nat)) = some (n, capacity) → P n capacity := by
  intro n capacity impossible
  cases impossible

theorem step_sound {op : Op} (sound : Sound a) (settled : a.Settled op)
    (run : a.step op = some t) : Sound t := by
  obtain ⟨valid, required, short, capacity, asked⟩ := sound
  cases op with
  | onNewData data =>
      simp only [step] at run
      split at run
      · rename_i fits
        obtain rfl := Option.some.inj run
        have room := fits
        rw [freeLength_eq] at room
        have inside := valid.inside
        have data_ := valid.data
        refine ⟨receive_valid valid fits, ?_, ?_, ?_, fun n c some_ => ?_⟩ <;>
          simp only [receive, onNewData, if_neg (Nat.not_lt.mpr room)]
        · split
          · exact Nat.le_refl _
          · simp only
            omega
        · split
          · simp only
            omega
          · exact short
        · split <;> exact capacity
        · have before := asked n c some_
          simp only [getAvailableDataLength] at before ⊢
          split <;> simp only <;> omega
      · cases run
  | consume length isRelevant =>
      obtain rfl := Option.some.inj run
      refine ⟨consume_valid valid _ _, ?_, ?_, ?_, asked_nothing⟩ <;> simp only [consume] <;> split <;>
        assumption
  | requestData n =>
      obtain ⟨⟨r, b⟩, asks, rfl⟩ := Option.map_eq_some_iff.mp run
      have keeps := (requestData_cases asks).keeps valid
      by_cases enough : n ≤ a.buff.getAvailableDataLength
      · rw [requestData_enough _ enough] at asks
        obtain ⟨rfl, rfl⟩ := Prod.mk.inj (Option.some.inj asks)
        exact ⟨valid, required, short, capacity, asked_nothing⟩
      · have missing := Nat.lt_of_not_le enough
        obtain ⟨settled, inRange⟩ := settled missing
        have unmet : r = false := by
          cases requestData_cases asks with
          | enough le => exact absurd le enough
          | roomy | moved | grown => rfl
        subst unmet
        have asksFor := (requiredLength_iff valid short missing asks).mpr ⟨settled, inRange⟩
        have ordered := requestData_required valid required (Or.inr inRange) asks
        have same : b.getAvailableDataLength = a.buff.getAvailableDataLength := by
          rw [← b.available_length, keeps.2.1, available_length]
        obtain ⟨short, capacity⟩ := requestData_short short capacity asks
        refine ⟨keeps.1, ordered, short, capacity, fun m c some_ => ?_⟩
        simp only [Bool.false_eq_true, if_false, Option.some.injEq, Prod.mk.injEq] at some_
        obtain ⟨rfl, -⟩ := some_
        rw [same, ← asksFor, requiredLength_eq]
  | resetRelevant =>
      obtain rfl := Option.some.inj run
      refine ⟨(resetRelevant_keeps valid).1, ?_, ?_, ?_, asked_nothing⟩ <;>
        simp only [StreamReadBuff.resetRelevant] <;> split
      · split
        · exact Nat.zero_le _
        · exact required
      · exact required
      · split <;> exact short
      · exact short
      · split <;> exact capacity
      · exact capacity
  | reset =>
      obtain rfl := Option.some.inj run
      exact ⟨⟨Nat.le_refl _, Nat.le_refl _, Nat.zero_le _, valid.block⟩, Nat.le_refl _,
        Nat.zero_lt_of_lt short, capacity, asked_nothing⟩

/-- In a run whose operations go through, every request is exact if and only if every request
    comes when nothing is outstanding. -/
theorem along_exact_iff (inRange : size < size32) (mem : Mem Nat Byte) {ops : List Op}
    (run : exec step (fresh size mem) ops = some t) :
    Along step Exact (fresh size mem) ops ↔ Along step Settled (fresh size mem) ops := by
  have initial : Sound (fresh size mem) :=
    ⟨init_valid mem, Nat.le_refl _, Nat.zero_lt_of_lt inRange, inRange, nofun⟩
  have agree : ∀ (a : Asking size) op t, Sound a → step a op = some t →
      (Exact a op ↔ Settled a op) := fun _ _ _ sound taken => exact_iff sound taken
  exact along_iff agree (fun _ _ _ sound settled taken => step_sound sound settled taken) initial run

instance (a : Asking size) : (op : Op) → Decidable (a.Settled op)
  | .requestData _ => inferInstanceAs (Decidable (_ → _))
  | .onNewData _ | .consume _ _ | .resetRelevant | .reset => inferInstanceAs (Decidable True)

/-- Two requests, the second one after the data for the first one have come. -/
theorem along_exact_settled : Along step Exact (fresh 4 fun _ _ => 0)
    [.requestData 3, .onNewData [1, 2, 3], .consume 1 true, .requestData 5, .onNewData [4, 5, 6],
      .requestData 5] := by
  obtain ⟨t, run⟩ := Option.isSome_iff_exists.mp (show (exec step (fresh 4 fun _ _ => 0)
    [.requestData 3, .onNewData [1, 2, 3], .consume 1 true, .requestData 5, .onNewData [4, 5, 6],
      .requestData 5]).isSome by decide +kernel)
  exact (along_exact_iff (by decide) _ run).mpr (by decide +kernel)

/-- A request for ten bytes, which is repeated when four of them have come. -/
theorem asks_twice : ¬∀ (mem : Mem Nat Byte) (ops : List Op) (t : Asking 16384),
    exec step (fresh 16384 mem) ops = some t → Along step Exact (fresh 16384 mem) ops := by
  intro all
  obtain ⟨t, run⟩ := Option.isSome_iff_exists.mp (show (exec step (fresh 16384 fun _ _ => 0)
    [.requestData 10, .onNewData [1, 2, 3, 4], .requestData 10]).isSome by decide +kernel)
  have exactly := all _ _ t run
  obtain ⟨first, asked, run⟩ := exec_cons_some.mp run
  obtain ⟨second, read, -⟩ := exec_cons_some.mp run
  have facts : ((exec step (fresh 16384 fun _ _ => 0)
      [.requestData 10, .onNewData [1, 2, 3, 4]]).bind fun a => (a.buff.requestData 10).map fun r =>
        (r.1, r.2.requiredLength, a.buff.getAvailableDataLength)) = some (false, 12, 4) := by
    decide +kernel
  rw [exec_cons, asked, Option.bind_some, exec_cons, read, Option.bind_some, exec_nil,
    Option.bind_some] at facts
  obtain ⟨⟨r, b⟩, again, same⟩ := Option.map_eq_some_iff.mp facts
  simp only [Prod.mk.injEq] at same
  obtain ⟨rfl, required, available⟩ := same
  have last := (((exactly.2 first asked).2 second read).1 b again).1
  rw [required, available] at last
  cases last

end Asking

end StreamReadBuff

end MiniWebSrv
