import MiniWebSrv.Lib.WireFrame

/-! # Streams of frames

Frames which are sent one behind the other, as a peer reads them who has received a part of their
bytes.
-/

namespace MiniWebSrv.WireFrame

/-- The bytes of the frames, one behind the other. -/
def encodeAll (frames : List Frame) : List UInt8 := frames.flatMap Frame.encode

/-- The whole frames at the front, at most `n` of them, and the bytes behind. -/
def takeFrames : Nat → List UInt8 → List Frame × List UInt8
  | 0, bytes => ([], bytes)
  | n + 1, bytes =>
      match decode bytes with
      | some (f, rest) => (f :: (takeFrames n rest).1, (takeFrames n rest).2)
      | none => ([], bytes)

/-- All the frames which are there in whole; none of them is empty. -/
def readStream (bytes : List UInt8) : List Frame × List UInt8 := takeFrames bytes.length bytes

section Parts

variable {f g : Frame} {bytes more rest : List UInt8}

theorem encode_pos (f : Frame) : 0 < f.encode.length := by
  rw [Frame.encode, List.length_cons]
  exact Nat.succ_pos _

theorem decode_whole (part : bytes <+: f.encode ++ more) (whole : f.encode.length ≤ bytes.length) :
    ∃ rest, bytes = f.encode ++ rest ∧ decode bytes = some (f, rest) := by
  obtain ⟨rest, rfl⟩ : f.encode <+: bytes :=
    List.prefix_of_prefix_length_le (List.prefix_append _ _) part whole
  exact ⟨rest, rfl, f.decode_encode rest⟩

theorem decode_cut (part : bytes <+: f.encode ++ more) (cut : bytes.length < f.encode.length) :
    decode bytes = none := by
  cases run : decode bytes with
  | none => rfl
  | some found =>
      obtain ⟨g, rest⟩ := found
      have bytes_ := encode_decode run
      obtain ⟨left, whole⟩ := part
      have again : decode (f.encode ++ more) = some (g, rest ++ left) := by
        rw [← whole, ← bytes_, List.append_assoc]
        exact g.decode_encode _
      rw [f.decode_encode more] at again
      obtain ⟨rfl, -⟩ := Prod.mk.inj (Option.some.inj again)
      rw [← bytes_, List.length_append] at cut
      omega

end Parts

/-- Whatever part of a stream has come, the frames read are its first ones, and the next one is not
    there in whole. -/
theorem takeFrames_part {n : Nat} {frames : List Frame} {bytes : List UInt8}
    (part : bytes <+: encodeAll frames) (enough : bytes.length ≤ n) :
    ∃ k rest, takeFrames n bytes = (frames.take k, rest) ∧
      encodeAll (frames.take k) ++ rest = bytes ∧
      ∀ f ∈ frames[k]?, rest.length < f.encode.length := by
  induction n generalizing frames bytes with
  | zero =>
      obtain rfl := List.length_eq_zero_iff.mp (Nat.le_zero.mp enough)
      exact ⟨0, [], rfl, rfl, fun f _ => encode_pos f⟩
  | succ n ih =>
      cases frames with
      | nil =>
          obtain rfl := List.prefix_nil.mp part
          exact ⟨0, [], rfl, rfl, nofun⟩
      | cons f frames =>
          rw [encodeAll, List.flatMap_cons] at part
          by_cases whole : f.encode.length ≤ bytes.length
          · obtain ⟨rest, rfl, run⟩ := decode_whole part whole
            have some_ := encode_pos f
            rw [List.length_append] at enough
            obtain ⟨k, left, taken, split, next⟩ :=
              ih ((List.prefix_append_right_inj _).mp part) (by omega)
            refine ⟨k + 1, left, by simp only [takeFrames, run, taken, List.take_succ_cons], ?_, next⟩
            rw [List.take_succ_cons, encodeAll, List.flatMap_cons, List.append_assoc]
            exact congrArg _ split
          · refine ⟨0, bytes, by simp only [takeFrames, decode_cut part (by omega), List.take_zero],
              rfl, fun g next => ?_⟩
            obtain rfl := Option.some.inj next
            exact Nat.lt_of_not_le whole

theorem readStream_part {frames : List Frame} {bytes : List UInt8}
    (part : bytes <+: encodeAll frames) : (readStream bytes).1 <+: frames := by
  obtain ⟨k, rest, taken, -⟩ := takeFrames_part part (Nat.le_refl _)
  rw [readStream, taken]
  exact List.take_prefix k frames

theorem readStream_encodeAll (frames : List Frame) :
    readStream (encodeAll frames) = (frames, []) := by
  obtain ⟨k, rest, taken, split, next⟩ := takeFrames_part List.prefix_rfl
    (Nat.le_refl (encodeAll frames).length)
  rw [readStream, taken]
  cases last : frames[k]? with
  | none =>
      have all : frames.take k = frames := List.take_of_length_le (List.getElem?_eq_none_iff.mp last)
      rw [all] at split ⊢
      rw [List.append_right_eq_self.mp split]
  | some f =>
      exfalso
      have short := next f last
      have tail : encodeAll frames = encodeAll (frames.take k) ++ encodeAll (frames.drop k) := by
        rw [encodeAll, encodeAll, encodeAll, ← List.flatMap_append, List.take_append_drop]
      obtain ⟨inside, rfl⟩ := List.getElem?_eq_some_iff.mp last
      rw [tail] at split
      have same := List.append_cancel_left split
      rw [List.drop_eq_getElem_cons inside, encodeAll, List.flatMap_cons] at same
      rw [same, List.length_append] at short
      omega

end MiniWebSrv.WireFrame
