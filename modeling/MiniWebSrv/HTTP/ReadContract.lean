import MiniWebSrv.HTTP.RespSources
import MiniWebSrv.HTTP.ResponseFraming

/-! # What a response reports to have read

`ResponseHandler` takes the length which `Read` reports for the length of what is in its buffer.
Every response keeps to its buffer, and all but one of them report what they have put there. An
error page reports how long it would be if there were room for it.
-/

namespace MiniWebSrv.HTTP.RespSource

open Word Responding

/-! ## Buffers -/

theorem storeAt_length {off : Nat} {data bytes : List Byte} (inside : off + data.length ≤ bytes.length) :
    (storeAt off data bytes).length = bytes.length := by
  simp only [storeAt, List.length_append, List.length_take, List.length_drop]
  omega

/-- What goes where `left` bytes are left of the buffer. -/
theorem storeAt_left {maxLength left : Nat} {data bytes : List Byte} (le : left ≤ maxLength)
    (length : bytes.length = maxLength) (short : data.length ≤ left) :
    (storeAt (maxLength - left) data bytes).length = maxLength := by
  rw [storeAt_length (by omega), length]

theorem snprintf_length (length : Nat) (formatted : List Byte) :
    (snprintf length formatted).1.length ≤ length := by
  simp only [snprintf]
  split
  · exact Nat.zero_le _
  · rw [List.length_append, List.length_take, List.length_singleton]
    omega

theorem InStream.read_length (s : InStream) (length : Nat) : (s.read length).1.length ≤ length := by
  unfold InStream.read
  split
  · exact Nat.zero_le _
  · exact List.length_take_le _ _

/-- A stream stores at most the bytes which it reports, and these are within the buffer. -/
theorem ZipStream.read_length (s : ZipStream) (size : Nat) :
    (s.read size).1.1.length ≤ (s.read size).1.2 ∧ (s.read size).1.2 ≤ size := by
  simp only [ZipStream.read]
  split
  · refine ⟨InStream.read_length _ _, ?_⟩
    simp only
    split <;> omega
  · exact ⟨Nat.le_refl _, Nat.zero_le _⟩

namespace ZipResponse

theorem copyHeader_length (behind : Nat → Byte) (pos length : Nat) :
    (copyHeader behind pos length).length = length := by
  simp [copyHeader]

theorem copyFooter_length (r : ZipResponse) (pos length : Nat) :
    (copyFooter r pos length).length ≤ length := List.length_take_le _ _

theorem readLoop_remLength (behind : Nat → Byte) (maxLength : Nat) (r : ZipResponse)
    (remLength : Nat) (targetBuff : List Byte) :
    (readLoop behind maxLength r remLength targetBuff).remLength ≤ remLength := by
  fun_induction readLoop behind maxLength r remLength targetBuff with
  | case1 | case4 => exact Nat.le_refl _
  | case8 => exact Nat.sub_le _ _
  | case2 _ _ _ _ _ _ _ _ _ ih | case3 _ _ _ _ _ _ _ _ _ ih | case5 _ _ _ _ _ _ _ _ _ ih
  | case6 _ _ _ _ _ _ _ _ _ ih | case7 _ _ _ _ _ _ _ _ _ _ ih | case9 _ _ _ _ _ _ _ _ _ _ _ ih =>
      exact Nat.le_trans ih (Nat.sub_le _ _)

/-- What it stores is within the buffer. -/
theorem readLoop_length {behind : Nat → Byte} {maxLength : Nat} {r : ZipResponse} {remLength : Nat}
    {targetBuff : List Byte} (le : remLength ≤ maxLength) (length : targetBuff.length = maxLength) :
    (readLoop behind maxLength r remLength targetBuff).targetBuff.length = maxLength := by
  fun_induction readLoop behind maxLength r remLength targetBuff with
  | case1 => exact length
  | case2 r left bytes more off state got buff less ih
  | case3 r left bytes more off state got buff less ih
  | case5 r left bytes more off state got buff less ih =>
      obtain ⟨short, within⟩ := r.sourceS.read_length left
      exact ih (by omega) (storeAt_left le length (Nat.le_trans short within))
  | case4 r left bytes more off state got buff less =>
      obtain ⟨short, within⟩ := r.sourceS.read_length left
      exact storeAt_left le length (Nat.le_trans short within)
  | case6 r left bytes more off pos state all copyLen ih =>
      exact ih (by omega) (storeAt_left le length (by rw [copyHeader_length]; exact all))
  | case7 r left bytes more off pos state all copyLen next ih =>
      exact ih (by omega) (storeAt_left le length (Nat.le_of_eq (copyHeader_length _ _ _)))
  | case8 r left bytes more off pos state copyLen buff next last =>
      have within : copyLen ≤ left := by simp only [copyLen]; split <;> omega
      exact storeAt_left le length (Nat.le_trans (copyFooter_length _ _ _) within)
  | case9 r left bytes more off pos state copyLen buff next last ih =>
      have within : copyLen ≤ left := by simp only [copyLen]; split <;> omega
      exact ih (by omega) (storeAt_left le length (Nat.le_trans (copyFooter_length _ _ _) within))

end ZipResponse

/-! ## Pages -/

namespace CommonErrorResponse

/-- The length of a page without what is put into it. -/
def frameLength : ResponseCode → Nat
  | .badRequest => 167
  | .unauthorized => 122
  | .forbidden => 119
  | .notFound => 129
  | .serverError => 198
  | _ => 185

/-- The resource comes twice, and the exception only on some of the pages. -/
def pageLength (e : CommonErrorResponse) : Nat :=
  frameLength e.respCode + 2 * (Header.cString e.res).length +
    match e.respCode with
    | .badRequest => 0
    | .unauthorized => 0
    | .forbidden => 0
    | .notFound => 0
    | _ => (Header.cString e.exType).length + (Header.cString e.exMsg).length

theorem text_length (s : String) : (text s).length = s.toList.length := List.length_map ch

theorem number_length (code : ResponseCode) : (decimalDigits code.number).length = 3 := by
  cases code <;> rfl

theorem shortBody_length (title message closing : String) (res : List Byte) :
    (shortBody title message closing res).length =
      title.toList.length + 1 + message.toList.length + res.length + closing.toList.length := by
  simp only [shortBody, List.length_append, text_length, List.length_singleton]

theorem exceptionBody_length (title res exType exMsg : List Byte) :
    (exceptionBody title res exType exMsg).length =
      title.length + res.length + exType.length + exMsg.length + 116 := by
  delta exceptionBody
  simp only [List.length_append, text_length, String.reduceToList, List.length_cons,
    List.length_nil]
  omega

theorem otherTitle_length (code : ResponseCode) :
    (text "<h1>[" ++ decimalDigits code.number ++ text "]</h1>").length = 14 := by
  simp only [List.length_append, text_length, number_length, String.reduceToList,
    List.length_cons, List.length_nil]

theorem page_body (e : CommonErrorResponse) :
    e.page.length = e.body.length + (Header.cString e.res).length + 55 := by
  simp only [page, List.length_append, text_length, number_length, String.reduceToList,
    List.length_cons, List.length_nil]
  omega

theorem page_length (e : CommonErrorResponse) : e.page.length = e.pageLength := by
  rw [page_body]
  obtain ⟨code, res, exType, exMsg⟩ := e
  cases code with
  | badRequest | unauthorized | forbidden | notFound =>
      simp only [body, shortBody_length, String.reduceToList, List.length_cons, List.length_nil,
        pageLength, frameLength]
      omega
  | serverError =>
      simp only [body, exceptionBody_length, text_length, String.reduceToList, List.length_cons,
        List.length_nil, pageLength, frameLength]
      omega
  | _ =>
      simp only [body, exceptionBody_length, otherTitle_length, pageLength, frameLength]
      omega

end CommonErrorResponse

namespace Response

/-- What the response has to report fits into a buffer. -/
def Fits (maxLength : Nat) : Response → Prop
  | .commonError e => e.pageLength ≤ maxLength ∧ e.pageLength ≤ 2147483647 ∨ maxLength = max32
  | _ => True

variable {behind : Nat → Byte} {r : Response} {targetBuff : List Byte} {maxLength : Nat}

theorem fits_read (length : Nat) :
    (r.read behind targetBuff maxLength).2.Fits length ↔ r.Fits length := by
  cases r <;> exact Iff.rfl

theorem fits_reads (buffs : List (List Byte)) (length : Nat) :
    (r.reads behind buffs).Fits length ↔ r.Fits length := by
  induction buffs generalizing r with
  | nil => exact Iff.rfl
  | cons buff buffs ih => exact ih.trans (fits_read length)

/-- One call reports no more than there is room for exactly if it fits. -/
theorem read_within_iff (range : maxLength < size32) :
    (r.read behind targetBuff maxLength).1.outLength ≤ maxLength ↔ r.Fits maxLength := by
  cases r with
  | commonError e =>
      simp only [read, CommonErrorResponse.read, snprintf, CommonErrorResponse.page_length, Fits]
      simp only [max32, size32] at range ⊢
      split <;> omega
  | fs r =>
      refine iff_of_true ?_ trivial
      simp only [read, FSResponse.read]
      split
      · split
        · exact Nat.le_trans (Nat.mod_le _ _) (Nat.le_of_lt ‹_›)
        · exact Nat.le_refl _
      · exact Nat.zero_le _
  | zip r =>
      refine iff_of_true ?_ trivial
      simp only [read, ZipResponse.read]
      split
      · rw [sub32_of_le (ZipResponse.readLoop_remLength _ _ _ _ _) range]
        exact Nat.sub_le _ _
      · exact Nat.zero_le _
  | string r =>
      exact iff_of_true (Nat.le_trans (Nat.mod_le _ _) (Nat.min_le_left _ _)) trivial
  | redirect | corsPreflight | ws => exact iff_of_true (Nat.zero_le _) trivial

/-- `Read` stays within its buffer, whatever it reports. -/
theorem read_length (length : targetBuff.length = maxLength) :
    (r.read behind targetBuff maxLength).1.targetBuff.length = maxLength := by
  have fits : ∀ {data : List Byte}, data.length ≤ maxLength →
      (storeAt 0 data targetBuff).length = maxLength := by
    intro data short
    rw [storeAt_length (by omega), length]
  cases r with
  | commonError e => exact fits (snprintf_length maxLength e.page)
  | fs r =>
      simp only [read, FSResponse.read]
      split
      · refine fits (Nat.le_trans (InStream.read_length _ _) ?_)
        split
        · exact Nat.le_trans (Nat.mod_le _ _) (Nat.le_of_lt ‹_›)
        · exact Nat.le_refl _
      · exact length
  | zip r =>
      simp only [read, ZipResponse.read]
      split
      · exact ZipResponse.readLoop_length (Nat.le_refl _) length
      · exact length
  | string r =>
      exact fits (Nat.le_trans (List.length_take_le _ _) (Nat.min_le_left _ _))
  | redirect | corsPreflight | ws => exact length

/-- The contract of `ResponseHandler` is kept exactly if the response fits. -/
theorem read_obeys_iff (range : maxLength < size32) (length : targetBuff.length = maxLength) :
    (r.read behind targetBuff maxLength).1.Obeys maxLength ↔ r.Fits maxLength :=
  (and_iff_right (read_length length)).trans (read_within_iff range)

/-- Whatever was read before, what is read now is reported to be within its buffer exactly if the
    response fits. -/
theorem reads_within_iff (buffs : List (List Byte)) (range : maxLength < size32) :
    ((r.reads behind buffs).read behind targetBuff maxLength).1.outLength ≤ maxLength ↔
      r.Fits maxLength := by
  rw [← fits_reads buffs maxLength]
  exact read_within_iff range

/-- A greeting which is read in two parts. -/
theorem reads_within_iff_greeting :
    ((Response.reads (fun _ => 0) (.string ⟨text "hello"⟩) [[0, 0, 0]]).read (fun _ => 0)
      [0, 0, 0] 3).1.outLength ≤ 3 ↔ Fits 3 (.string ⟨text "hello"⟩) :=
  reads_within_iff [[0, 0, 0]] (by decide)

/-- A page about a missing resource with a long name, in a buffer for a chunk. -/
theorem long_page_reported : ¬∀ (behind : Nat → Byte) (r : Response) (buffs : List (List Byte))
    (targetBuff : List Byte) (maxLength : Nat), 1 ≤ maxLength → maxLength < size32 →
    targetBuff.length = maxLength →
    ((r.reads behind buffs).read behind targetBuff maxLength).1.outLength ≤ maxLength := by
  intro obeys
  let page : CommonErrorResponse := .create (List.replicate 12300 (ch 'x')) none .notFound
  have within := obeys (fun _ => 0) (.commonError page) [] (List.replicate 24564 0) 24564
    (by decide) (by decide) List.length_replicate
  have fits : Fits 24564 (.commonError page) :=
    (read_within_iff (r := .commonError page) (by decide)).mp within
  have named : (Header.cString page.res).length = 12300 := by
    have whole : Header.cString page.res = List.replicate 12300 (ch 'x') :=
      List.takeWhile_replicate.trans (if_pos (by decide))
    rw [whole, List.length_replicate]
  have long : page.pageLength = 24729 := by
    simp only [CommonErrorResponse.pageLength, named]
    decide
  simp only [Fits, long] at fits
  exact absurd fits (by decide)

end Response

end MiniWebSrv.HTTP.RespSource
