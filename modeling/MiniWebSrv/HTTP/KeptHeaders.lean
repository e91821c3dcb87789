import MiniWebSrv.HTTP.Framing

/-! # The headers behind a body

The pointers of the headers go into the read buffer, and the body is read into the same buffer.
A body in blocks has the headers saved first. While a body is read as a whole, the headers stay
where they are, and they survive as long as the buffer does not move under them. A copy to the
first dynamic buffer does no harm, as the static one is still there.
-/

namespace MiniWebSrv

open Word

namespace StreamReadBuff

variable {size : Nat} {b b' : StreamReadBuff size}

/-- `RequestData` leaves the bytes of this block in place: there is enough data or room, or they
    are moved inside the block by nothing, or copied out of the block which is not deleted. -/
def StaysPut (b : StreamReadBuff size) (n : Nat) : Prop :=
  let reqDataEndPos := u32 (b.reqDataEndPos + (n - b.getAvailableDataLength))
  let frontSpace := b.readPos - b.relevantLength
  n ≤ b.getAvailableDataLength ∨ reqDataEndPos ≤ b.buffLength ∨
    if reqDataEndPos - b.dataEndPos ≤ frontSpace + (b.buffLength - b.dataEndPos) then
      frontSpace = 0
    else
      b.readBuff = 0

instance (b : StreamReadBuff size) (n : Nat) : Decidable (b.StaysPut n) := by
  unfold StaysPut
  infer_instance

theorem write_created (m : Mem Nat Byte) (created : Nat) (bytes : List Byte) (i : Nat) :
    m.write ⟨created + 1, 0⟩ bytes 0 i = m 0 i :=
  Mem.write_other m i (Nat.succ_ne_zero created).symm

theorem StaysPut.request {n : Nat} {r : Bool} (stays : b.StaysPut n)
    (run : b.requestData n = some (r, b')) :
    (∃ req, b' = { b with reqDataEndPos := req }) ∨
      (b.readBuff = 0 ∧ b'.readBuff ≠ 0 ∧ ∀ i, b'.mem 0 i = b.mem 0 i) := by
  simp only [StaysPut] at stays
  simp only [requestData] at run
  split at run
  · obtain ⟨-, rfl⟩ := Prod.mk.inj (Option.some.inj run)
    exact Or.inl ⟨_, rfl⟩
  · rename_i short
    split at run
    · rename_i long
      rcases stays with enough | room | stays
      · exact absurd enough short
      · exact absurd room (Nat.not_le.mpr long)
      · split at run
        · rename_i fits
          obtain ⟨-, rfl⟩ := Prod.mk.inj (Option.some.inj run)
          rw [if_pos fits] at stays
          simp only [stays, Nat.sub_zero, Mem.write_read_self]
          exact Or.inl ⟨_, rfl⟩
        · rename_i full
          split at run
          · cases run
          · obtain ⟨-, rfl⟩ := Prod.mk.inj (Option.some.inj run)
            rw [if_neg full] at stays
            exact Or.inr ⟨stays, Nat.succ_ne_zero _, fun _ => by simp only [write_created]⟩
    · obtain ⟨-, rfl⟩ := Prod.mk.inj (Option.some.inj run)
      exact Or.inl ⟨_, rfl⟩

/-- Whatever the request does to a dynamic buffer, the static one keeps its contents. -/
theorem Request.other {n : Nat} {r : Bool} (request : Request b n r b')
    (other : b.readBuff ≠ 0) : b'.readBuff ≠ 0 ∧ ∀ i, b'.mem 0 i = b.mem 0 i := by
  cases request with
  | enough | roomy => exact ⟨other, fun _ => rfl⟩
  | moved => exact ⟨other, fun i => Mem.write_other _ i other.symm⟩
  | grown => exact ⟨Nat.succ_ne_zero _, fun _ => by simp only [write_created]⟩

end StreamReadBuff

namespace HTTP.Connection

open Run HTTP

variable {H : Type} {c d t : Connection H}

/-- The known headers, with the names and values which their pointers denote. -/
def knownStrings (c : Connection H) :
    List (HeaderName × Option (List Byte) × Option (List Byte)) :=
  (c.headerA.filter (·.intName ≠ .unknown)).map fun h =>
    (h.intName, c.stringAt h.name, h.value.bind c.stringAt)

theorem knownStrings_congr (move : Header → Header) (headers : d.headerA = c.headerA.map move)
    (names : ∀ h, (move h).intName = h.intName)
    (same : ∀ h ∈ c.headerA, h.intName ≠ .unknown →
      d.stringAt (move h).name = c.stringAt h.name ∧
        (move h).value.bind d.stringAt = h.value.bind c.stringAt) :
    d.knownStrings = c.knownStrings := by
  simp only [knownStrings, headers, List.filter_map, List.map_map]
  have filters : ((fun h : Header => decide (h.intName ≠ .unknown)) ∘ move) =
      fun h => decide (h.intName ≠ .unknown) := by
    funext h
    simp only [Function.comp_apply, names]
  rw [filters]
  apply List.map_congr_left
  intro h inside
  obtain ⟨inside, known⟩ := List.mem_filter.mp inside
  obtain ⟨name, value⟩ := same h inside (of_decide_eq_true known)
  simp only [Function.comp_apply, names, name, value]

/-- The known headers point to places of a kind, and there the strings are the same. -/
theorem knownStrings_places {P : Ptr Place → Prop}
    (headers : ∀ h ∈ c.headerA, h.intName ≠ .unknown →
      P h.name ∧ ∃ p, h.value = some p ∧ P p)
    (same : d.headerA = c.headerA) (strings : ∀ p, P p → d.stringAt p = c.stringAt p) :
    d.knownStrings = c.knownStrings := by
  refine knownStrings_congr id (by rw [List.map_id, same]) (fun _ => rfl) ?_
  intro h inside known
  obtain ⟨name, p, value, place⟩ := headers h inside known
  simp only [id, value, Option.bind_some]
  exact ⟨strings _ name, strings p place⟩

/-- Every known header points into this block. -/
def AllIn (block : Place) (c : Connection H) : Prop :=
  ∀ h ∈ c.headerA, h.intName ≠ .unknown →
    h.name.block = block ∧ ∃ p, h.value = some p ∧ p.block = block

theorem AllIn.knownStrings {block : Place} (headers : AllIn block c) (same : d.headerA = c.headerA)
    (strings : ∀ p : Ptr Place, p.block = block → d.stringAt p = c.stringAt p) :
    d.knownStrings = c.knownStrings :=
  knownStrings_places (P := fun p => p.block = block) headers same strings

/-! ## Strings in the blocks -/

theorem cString_append {left : List Byte} (ended : 0 ∈ left) (right : List Byte) :
    Header.cString (left ++ right) = Header.cString left := by
  simp only [Header.cString, List.takeWhile_append]
  rw [if_neg]
  intro all
  have whole := List.takeWhile_eq_self_iff.mp
    ((List.takeWhile_sublist _).eq_of_length all) 0 ended
  simp at whole

theorem stringAt_inside {lo hi : Nat} {p : Ptr Place} (inside : StringIn c.readBuff lo hi p)
    (le : hi ≤ c.readBuff.buffLength) : c.stringAt p = some (Header.cString
      (c.readBuff.mem.read ⟨c.readBuff.readBuff, p.off⟩ (hi - p.off))) := by
  have before := inside.until_
  rw [stringAt, bytesAt, inside.block]
  simp only [if_true, Option.map_some]
  rw [show c.readBuff.buffLength - p.off = (hi - p.off) + (c.readBuff.buffLength - hi) by omega,
    Mem.read_add, cString_append inside.ended]

/-- A string in the static buffer, once it has been left. -/
theorem stringAt_left {p : Ptr Place} (block : p.block = .readBuff 0)
    (left : c.readBuff.readBuff ≠ 0) : c.stringAt p = some (Header.cString
      (c.readBuff.mem.read ⟨0, p.off⟩ (BuildConfig.readBuffSize - p.off))) := by
  rw [stringAt, bytesAt, block]
  simp only [if_neg left.symm, if_true, Option.map_some]

theorem knownStrings_behind {lo hi : Nat} (headers : HeadersIn c.readBuff lo hi c.headerA)
    (le : hi ≤ c.readBuff.buffLength) (same : d.headerA = c.headerA)
    (block : d.readBuff.readBuff = c.readBuff.readBuff)
    (length : d.readBuff.buffLength = c.readBuff.buffLength)
    (bytes : ∀ i, lo ≤ i → i < hi →
      d.readBuff.mem d.readBuff.readBuff i = c.readBuff.mem c.readBuff.readBuff i) :
    d.knownStrings = c.knownStrings := by
  have strings : ∀ p, StringIn c.readBuff lo hi p → d.stringAt p = c.stringAt p := by
    intro p inside
    obtain ⟨moved, read⟩ := inside.congr block bytes
    rw [stringAt_inside inside le, stringAt_inside moved (length ▸ le), read]
  exact knownStrings_places headers same strings

theorem knownStrings_left {lo hi : Nat} (headers : HeadersIn c.readBuff lo hi c.headerA)
    (le : hi ≤ c.readBuff.buffLength) (static : c.readBuff.Static) (first : c.readBuff.readBuff = 0)
    (same : d.headerA = c.headerA) (left : d.readBuff.readBuff ≠ 0)
    (bytes : ∀ i, d.readBuff.mem 0 i = c.readBuff.mem 0 i) : d.knownStrings = c.knownStrings := by
  have size := static first
  have strings : ∀ p, StringIn c.readBuff lo hi p → d.stringAt p = c.stringAt p := by
    intro p inside
    have before := inside.until_
    have ended := inside.ended
    rw [first] at ended
    have read : d.readBuff.mem.read ⟨0, p.off⟩ (BuildConfig.readBuffSize - p.off) =
        c.readBuff.mem.read ⟨0, p.off⟩ (BuildConfig.readBuffSize - p.off) :=
      Mem.read_congr fun i _ => bytes (p.off + i)
    rw [stringAt_inside inside le, stringAt_left (by rw [inside.block, first]) left, first, read,
      show BuildConfig.readBuffSize - p.off = (hi - p.off) + (BuildConfig.readBuffSize - hi) by omega,
      Mem.read_add, cString_append ended]
  exact knownStrings_places headers same strings

theorem allIn_of_headersIn {lo hi : Nat} (headers : HeadersIn c.readBuff lo hi c.headerA)
    (same : d.headerA = c.headerA) : AllIn (.readBuff c.readBuff.readBuff) d := by
  intro h inside known
  rw [same] at inside
  obtain ⟨name, p, value, place⟩ := headers h inside known
  exact ⟨name.block, p, value, place.block⟩

/-! ## One step -/

/-- Where the headers are while the body is read, and that they say what they said. -/
def Kept (strings : List (HeaderName × Option (List Byte) × Option (List Byte)))
    (c : Connection H) : Prop :=
  c.knownStrings = strings ∧
    match c.phase with
    | .headers _ _ => False
    | .headersDone | .respond | .closed => True
    | .content _ | .contentRead _ =>
        (∃ lo hi, hi ≤ c.readBuff.readPos ∧ HeadersIn c.readBuff lo hi c.headerA) ∨
          (c.readBuff.readBuff ≠ 0 ∧ AllIn (.readBuff 0) c)
    | .multipart _ | .multipartRead _ => AllIn (.postHeader c.postHeaders) c

/-- A turn of the loop for a whole body which finds the headers in the current buffer leaves its
    bytes in place. -/
def HeadersStay (c : Connection H) : Event → Prop
  | .go =>
      match c.phase with
      | .content _ =>
          (∃ h ∈ c.headerA, h.intName ≠ .unknown ∧ h.name.block = .readBuff c.readBuff.readBuff) →
            c.readBuff.StaysPut (u32 c.contentLength)
      | _ => True
  | _ => True

instance (c : Connection H) (e : Event) : Decidable (c.HeadersStay e) := by
  unfold HeadersStay
  split
  · split <;> infer_instance
  · infer_instance

variable {strings : List (HeaderName × Option (List Byte) × Option (List Byte))}

theorem knownStrings_of_same (headers : d.headerA = c.headerA) (readBuff : d.readBuff = c.readBuff)
    (postHeaders : d.postHeaders = c.postHeaders)
    (postHeaderLength : d.postHeaderLength = c.postHeaderLength)
    (postHeaderMem : d.postHeaderMem = c.postHeaderMem) : d.knownStrings = c.knownStrings := by
  have same : d.stringAt = c.stringAt := by
    funext p
    simp only [stringAt, bytesAt, readBuff, postHeaders, postHeaderLength, postHeaderMem]
  simp only [knownStrings, headers, same]

theorem savePostHeaders_kept (valid : c.readBuff.Valid)
    (headers : HeadersIn c.readBuff (c.readBuff.readPos - c.readBuff.relevantLength)
      c.readBuff.readPos c.headerA) :
    c.savePostHeaders.knownStrings = c.knownStrings ∧
      AllIn (.postHeader c.savePostHeaders.postHeaders) c.savePostHeaders := by
  have ordered := valid.relevant
  have inside := Nat.le_trans valid.data valid.inside
  have room : c.readBuff.relevantLength ≤ c.savePostHeaders.postHeaderLength := by
    simp only [savePostHeaders, StreamReadBuff.relevant, Mem.read_length,
      StreamReadBuff.getRelevantData]
    split <;> omega
  -- the saved string is the one in the buffer, up to its NUL
  have moved : ∀ p : Ptr Place,
      StringIn c.readBuff (c.readBuff.readPos - c.readBuff.relevantLength) c.readBuff.readPos p →
      c.savePostHeaders.stringAt ⟨.postHeader c.savePostHeaders.postHeaders,
        0 + (p.off - (c.readBuff.readPos - c.readBuff.relevantLength))⟩ = c.stringAt p := by
    intro p found
    have from_ := found.from_
    have until_ := found.until_
    have bytes : c.savePostHeaders.postHeaderMem.read
        ⟨c.savePostHeaders.postHeaders, p.off - (c.readBuff.readPos - c.readBuff.relevantLength)⟩
        (c.readBuff.readPos - p.off) =
        c.readBuff.mem.read ⟨c.readBuff.readBuff, p.off⟩ (c.readBuff.readPos - p.off) := by
      have short : p.off - (c.readBuff.readPos - c.readBuff.relevantLength) +
          (c.readBuff.readPos - p.off) ≤ c.readBuff.relevant.length := by
        simp only [StreamReadBuff.relevant, Mem.read_length, StreamReadBuff.getRelevantData]
        omega
      have inside := Mem.read_write_inside c.postHeaderMem ⟨c.savePostHeaders.postHeaders, 0⟩ short
      rw [StreamReadBuff.relevant, Mem.drop_read _ _ (by simp only [StreamReadBuff.getRelevantData]; omega),
        Mem.take_read _ _ (by simp only [StreamReadBuff.getRelevantData]; omega)] at inside
      simp only [StreamReadBuff.getRelevantData, StreamReadBuff.at_, Ptr.add, Nat.zero_add,
        Nat.add_sub_cancel' from_] at inside
      exact inside
    rw [stringAt_inside found inside, stringAt, bytesAt]
    simp only [if_true, Option.map_some, Nat.zero_add]
    rw [show c.savePostHeaders.postHeaderLength -
        (p.off - (c.readBuff.readPos - c.readBuff.relevantLength)) = (c.readBuff.readPos - p.off) +
        (c.savePostHeaders.postHeaderLength - c.readBuff.relevantLength) by omega,
      Mem.read_add, bytes, cString_append found.ended]
  constructor
  · refine knownStrings_congr (d := c.savePostHeaders) _ rfl (fun _ => rfl) ?_
    intro h inside known
    obtain ⟨name, p, value, place⟩ := headers h inside known
    simp only [Header.offset, value, Option.map_some, Option.bind_some]
    exact ⟨moved _ name, moved p place⟩
  · intro h inside known
    obtain ⟨h, old, rfl⟩ := List.mem_map.mp inside
    obtain ⟨name, p, value, place⟩ := headers h old known
    refine ⟨rfl, ?_⟩
    simp only [Header.offset, value, Option.map_some, Option.some.injEq, exists_eq_left']
    rfl

theorem contentHandler_kept (parsing : Parsing c) (phase : c.phase = .headersDone)
    (kept : Kept strings c) : Kept strings c.contentHandler := by
  obtain ⟨valid, static, headers⟩ := parsing
  simp only [phase] at headers
  obtain ⟨same, -⟩ := kept
  unfold contentHandler
  split
  · exact ⟨(knownStrings_of_same rfl rfl rfl rfl rfl).trans same, trivial⟩
  · rename_i e found search
    have shape := searchHeaders_keeps search
    have readBuff : e.readBuff = c.readBuff := by rw [shape]
    have headerA : e.headerA = c.headerA := by rw [shape]
    have still : e.knownStrings = c.knownStrings := by
      rw [shape]
      exact knownStrings_of_same rfl rfl rfl rfl rfl
    rw [← readBuff, ← headerA] at headers
    have bare : ({ e with content := none, handed := [] } : Connection H).knownStrings = strings :=
      (knownStrings_of_same rfl rfl rfl rfl rfl).trans (still.trans same)
    split
    · exact ⟨(knownStrings_of_same rfl rfl rfl rfl rfl).trans (still.trans same), trivial⟩
    · simp only
      split
      · exact ⟨(knownStrings_of_same rfl rfl rfl rfl rfl).trans bare, trivial⟩
      · split
        · exact ⟨(knownStrings_of_same rfl rfl rfl rfl rfl).trans bare, trivial⟩
        · split
          · obtain ⟨saved, place⟩ := savePostHeaders_kept
              (c := { e with content := none, handed := [] }) (readBuff ▸ valid) headers
            exact ⟨(knownStrings_of_same rfl rfl rfl rfl rfl).trans (saved.trans bare), place⟩
          · exact ⟨(knownStrings_of_same rfl rfl rfl rfl rfl).trans bare,
              Or.inl ⟨_, _, Nat.le_refl _, headers⟩⟩

theorem requestData_kept {n : Nat} {r : Bool} {b : StreamReadBuff BuildConfig.readBuffSize}
    (valid : c.readBuff.Valid) (static : c.readBuff.Static) (stays :
      (∃ h ∈ c.headerA, h.intName ≠ .unknown ∧ h.name.block = .readBuff c.readBuff.readBuff) →
        c.readBuff.StaysPut n)
    (headers : (∃ lo hi, hi ≤ c.readBuff.readPos ∧ HeadersIn c.readBuff lo hi c.headerA) ∨
      (c.readBuff.readBuff ≠ 0 ∧ AllIn (.readBuff 0) c))
    (asked : c.readBuff.requestData n = some (r, b)) :
    { c with readBuff := b }.knownStrings = c.knownStrings ∧
      ((∃ lo hi, hi ≤ b.readPos ∧ HeadersIn b lo hi c.headerA) ∨
        (b.readBuff ≠ 0 ∧ AllIn (.readBuff 0) { c with readBuff := b })) := by
  rcases headers with ⟨lo, hi, le, headers⟩ | ⟨left, headers⟩
  · by_cases some_ : ∃ h ∈ c.headerA, h.intName ≠ .unknown
    · obtain ⟨h, inside, known⟩ := some_
      have current := stays ⟨h, inside, known, (headers h inside known).1.block⟩
      have long := Nat.le_trans le (Nat.le_trans valid.data valid.inside)
      rcases current.request asked with ⟨req, rfl⟩ | ⟨first, left, bytes⟩
      · exact ⟨knownStrings_behind headers long rfl rfl rfl fun _ _ _ => rfl,
          Or.inl ⟨lo, hi, le, headers.congr rfl fun _ _ _ => rfl⟩⟩
      · exact ⟨knownStrings_left headers long static first rfl left bytes,
          Or.inr ⟨left, first ▸ allIn_of_headersIn (d := { c with readBuff := b }) headers rfl⟩⟩
    · -- without a known header there is nothing to keep
      have nothing : ∀ h ∈ c.headerA, ¬h.intName ≠ .unknown :=
        fun h inside known => some_ ⟨h, inside, known⟩
      refine ⟨?_, Or.inl ⟨0, 0, Nat.zero_le _, fun h inside known =>
        absurd known (nothing h inside)⟩⟩
      refine knownStrings_congr id (by rw [List.map_id]) (fun _ => rfl) ?_
      exact fun h inside known => absurd known (nothing h inside)
  · obtain ⟨still, bytes⟩ := (StreamReadBuff.requestData_cases asked).other left
    refine ⟨headers.knownStrings rfl fun p block => ?_, Or.inr ⟨still, headers⟩⟩
    rw [stringAt_left block still, stringAt_left block left]
    have read : b.mem.read ⟨0, p.off⟩ (BuildConfig.readBuffSize - p.off) =
        c.readBuff.mem.read ⟨0, p.off⟩ (BuildConfig.readBuffSize - p.off) :=
      Mem.read_congr fun i _ => bytes (p.off + i)
    rw [read]

/-! ## Runs -/

theorem contentLoop_kept {type : ContentType} (parsing : Parsing c) (phase : c.phase = .content type)
    (stays : c.HeadersStay .go) (kept : Kept strings c) (run : c.contentLoop type = some d) :
    Kept strings d := by
  obtain ⟨same, headers⟩ := kept
  simp only [phase] at headers
  simp only [HeadersStay, phase] at stays
  simp only [contentLoop] at run
  split at run
  · cases run
  · rename_i b asked
    obtain ⟨still, place⟩ := requestData_kept parsing.valid parsing.static stays headers asked
    obtain rfl := Option.some.inj run
    exact ⟨(knownStrings_of_same rfl rfl rfl rfl rfl).trans (still.trans same), place⟩
  · rename_i b asked
    obtain ⟨still, -⟩ := requestData_kept parsing.valid parsing.static stays headers asked
    have valid := ((StreamReadBuff.requestData_cases asked).keeps parsing.valid).1
    obtain ⟨q, -, rfl⟩ := Option.map_eq_some_iff.mp run
    refine ⟨Eq.trans ?_ (still.trans same), trivial⟩
    simp only [StreamReadBuff.consume_spec valid true (Nat.le_refl _)]
    rfl

theorem afterRead_kept {b : StreamReadBuff BuildConfig.readBuffSize} (parsing : Parsing c)
    (kept : Kept strings c) (block : b.readBuff = c.readBuff.readBuff)
    (length : b.buffLength = c.readBuff.buffLength) (readPos : b.readPos = c.readBuff.readPos)
    (bytes : ∀ block i, block ≠ b.readBuff ∨ i < c.readBuff.readPos →
      b.mem block i = c.readBuff.mem block i)
    (run : { c with readBuff := b }.afterRead = some d) : Kept strings d := by
  obtain ⟨same, place⟩ := kept
  cases phase : c.phase with
  | headers => simp only [phase] at place
  | contentRead type =>
      simp only [afterRead, phase] at run
      simp only [phase] at place
      obtain rfl := Option.some.inj run
      rcases place with ⟨lo, hi, le, headers⟩ | ⟨left, headers⟩
      · have still : ∀ i, lo ≤ i → i < hi →
            b.mem b.readBuff i = c.readBuff.mem c.readBuff.readBuff i := fun i _ before => by
          rw [bytes _ i (Or.inr (by omega)), block]
        have long := Nat.le_trans le (Nat.le_trans parsing.valid.data parsing.valid.inside)
        exact ⟨(knownStrings_behind (d := { c with readBuff := b, phase := .content type }) headers long
            rfl block length still).trans same,
          Or.inl ⟨lo, hi, readPos ▸ le, headers.congr block still⟩⟩
      · refine ⟨Eq.trans (headers.knownStrings rfl fun p inside => ?_) same,
          Or.inr ⟨block ▸ left, headers⟩⟩
        rw [stringAt_left inside (by exact block ▸ left), stringAt_left inside left]
        have read : b.mem.read ⟨0, p.off⟩ (BuildConfig.readBuffSize - p.off) =
            c.readBuff.mem.read ⟨0, p.off⟩ (BuildConfig.readBuffSize - p.off) :=
          Mem.read_congr fun i _ => bytes 0 _ (Or.inl (block ▸ left.symm))
        rw [read]
  | multipartRead remLength =>
      simp only [afterRead, phase] at run
      simp only [phase] at place
      obtain rfl := Option.some.inj run
      refine ⟨Eq.trans (AllIn.knownStrings place rfl fun p inside => ?_) same, place⟩
      simp only [stringAt, bytesAt, inside]
  | headersDone | content | multipart | respond | closed =>
      simp only [afterRead, phase] at run
      cases run

variable [FileUploadHelper H]

theorem multipartLoop_kept {remLength : Nat} (phase : c.phase = .multipart remLength)
    (kept : Kept strings c) (run : c.multipartLoop remLength = some d) : Kept strings d := by
  obtain ⟨same, place⟩ := kept
  simp only [phase] at place
  simp only [multipartLoop] at run
  split at run
  · split at run
    · cases run
    · obtain rfl := Option.some.inj run
      refine ⟨Eq.trans (AllIn.knownStrings place rfl fun p inside => ?_) same, place⟩
      simp only [stringAt, bytesAt, inside]
  · obtain rfl := Option.some.inj run
    refine ⟨Eq.trans (AllIn.knownStrings place rfl fun p inside => ?_) same, trivial⟩
    simp only [stringAt, bytesAt, inside]

theorem step_kept {e : Event} (parsing : Parsing c) (within : e.Within) (stays : c.HeadersStay e)
    (kept : Kept strings c) (run : c.step e = some d) : Kept strings d := by
  have valid := parsing.valid
  cases e with
  | go =>
      simp only [step, go] at run
      split at run
      · rename_i phase
        obtain rfl := Option.some.inj run
        split
        · exact contentHandler_kept parsing phase kept
        · exact ⟨(knownStrings_of_same rfl rfl rfl rfl rfl).trans kept.1, trivial⟩
      · rename_i phase
        exact contentLoop_kept parsing phase stays kept run
      · rename_i phase
        exact multipartLoop_kept phase kept run
      · cases run
  | read data =>
      simp only [step] at run
      split at run
      · rename_i fits
        obtain ⟨_, same⟩ := StreamReadBuff.receive_spec fits.2
        refine afterRead_kept parsing kept (by rw [same]) (by rw [same]) (by rw [same])
          (fun block i apart => ?_) run
        have before := valid.data
        rw [same] at apart ⊢
        simp only [Mem.write, StreamReadBuff.at_] at apart ⊢
        exact if_neg (by omega)
      · cases run
  | noRoom =>
      simp only [step] at run
      split at run
      · exact afterRead_kept parsing kept rfl rfl rfl (fun _ _ _ => rfl) run
      · cases run
  | readError =>
      simp only [step] at run
      split at run
      · obtain rfl := Option.some.inj run
        exact ⟨(knownStrings_of_same rfl rfl rfl rfl rfl).trans kept.1, trivial⟩
      · cases run
  | responded => exact within.elim

/-- In every state from the end of the header block on, up to the response handler, the known
    headers say what they said, if they stay in every turn of the loop. -/
theorem knownStrings_kept {events : List Event} (reachable : Reachable c)
    (parsed : c.phase = .headersDone) (within : ∀ e ∈ events, e.Within)
    (stay : Along step HeadersStay c events) (run : exec step c events = some t) :
    t.knownStrings = c.knownStrings := by
  have initial : Parsing c ∧ Kept c.knownStrings c :=
    ⟨reachable.parsing, rfl, by simp only [parsed]⟩
  generalize c.knownStrings = strings at initial ⊢
  clear parsed reachable
  induction events generalizing c with
  | nil =>
      obtain rfl := Option.some.inj run
      exact initial.2.1
  | cons e rest ih =>
      obtain ⟨mid, taken, run⟩ := exec_cons_some.mp run
      exact ih (fun e inside => within e (List.mem_cons_of_mem _ inside)) (stay.2 mid taken) run
        ⟨step_parsing initial.1 taken,
          step_kept initial.1 (within e List.mem_cons_self) stay.1 initial.2 taken⟩

/-- A POST request for a body which does not fit behind its headers. -/
def longPost (length : String) : List Byte :=
  text "POST / HTTP/1.1" ++ [cr, lf] ++ text "Content-Length: " ++ text length ++ [cr, lf, cr, lf]

/-- The buffer grows twice, and the headers stay behind in the static one. -/
theorem knownStrings_kept_growing : ∃ c t : Connection Recorder,
    afterBytes (longPost "17000") = some c ∧ c.knownStrings =
      [(.contentLength, some (text "content-length"), some (text "17000"))] ∧
    exec step c [.go, .go, .read (text "abc"), .go] = some t ∧
    t.readBuff.readBuff = 2 ∧ t.knownStrings = c.knownStrings := by
  have facts : (afterBytes (longPost "17000")).map (fun c => (c.phase, decide (c.knownStrings =
      [(.contentLength, some (text "content-length"), some (text "17000"))]),
      decide (Along step HeadersStay c [.go, .go, .read (text "abc"), .go]))) =
      some (.headersDone, true, true) := by
    decide +kernel
  have last : ((afterBytes (longPost "17000")).bind fun c =>
      exec step c [.go, .go, .read (text "abc"), .go]).map (fun t => t.readBuff.readBuff) =
      some 2 := by
    decide +kernel
  obtain ⟨c, parsed, same⟩ := Option.map_eq_some_iff.mp facts
  obtain ⟨phase, strings, stay⟩ := by simpa only [Prod.mk.injEq, decide_eq_true_eq] using same
  rw [parsed, Option.bind_some] at last
  obtain ⟨t, run, grown⟩ := Option.map_eq_some_iff.mp last
  exact ⟨c, t, parsed, strings, run, grown,
    knownStrings_kept (afterBytes_reachable parsed) phase (by simp [Event.Within]) stay run⟩

/-- A request in front makes room, which the second one moves into under its headers. -/
theorem headers_moved_away :
    ¬∀ (c t : Connection Recorder) (events : List Event), Reachable c → c.phase = .headersDone →
      (∀ e ∈ events, e.Within) → exec step c events = some t → t.phase = .respond →
      t.knownStrings = c.knownStrings := by
  intro kept
  generalize bytes : text "GET / HTTP/1.1" ++ [cr, lf, cr, lf] ++ longPost "16330" = data
  have facts : ((afterBytes data).bind fun c =>
      exec step c [.go, .responded true ⟨0, none⟩]).map phase = some .headersDone := by
    rw [← bytes]
    decide +kernel
  have last : (((afterBytes data).bind fun c => exec step c [.go, .responded true ⟨0, none⟩]).bind
      fun c => (exec step c [.go, .go, .read (List.replicate 16330 0), .go]).map fun t =>
        (t.phase, decide (t.knownStrings = c.knownStrings))) = some (.respond, false) := by
    rw [← bytes]
    decide +kernel
  obtain ⟨c, run, phase⟩ := Option.map_eq_some_iff.mp facts
  obtain ⟨first, parsed, served⟩ := Option.bind_eq_some_iff.mp run
  rw [run, Option.bind_some] at last
  obtain ⟨t, ran, same⟩ := Option.map_eq_some_iff.mp last
  obtain ⟨returned, different⟩ := Prod.mk.inj same
  have reachable : Reachable c := by
    obtain ⟨helper, limit, mem, postHeaderMem, resource, one, two, events, before⟩ :=
      afterBytes_reachable parsed
    exact ⟨helper, limit, mem, postHeaderMem, resource, one, two, _,
      exec_append_some.mpr ⟨first, before, served⟩⟩
  exact of_decide_eq_false different
    (kept c t _ reachable phase (by simp only [List.forall_mem_cons, Event.Within, List.not_mem_nil,
      false_implies, implies_true, and_self]) ran returned)

end HTTP.Connection

end MiniWebSrv
