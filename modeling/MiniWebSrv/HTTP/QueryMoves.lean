import MiniWebSrv.HTTP.QueryStates
import MiniWebSrv.HTTP.StoredUploads
import MiniWebSrv.Lib.Run

/-! # Moved queries

A `QueryParams` which is moved in the middle of a form. Neither the assignment nor the constructor
takes `FMParseState` along, and the constructor makes the upload helper of its own anew. Here the
runs of a query with moves in between are compared with those without: a move does no harm where
what it leaves out is the same on both sides, or where nobody looks at it before the next
delimiter sets it again.
-/

namespace MiniWebSrv.HTTP

open Run Word

/-- The copy constructor, which the move constructor of a query makes do with. -/
def TempFileUploadHelper.copy (h : TempFileUploadHelper) : TempFileUploadHelper :=
  init h.params h.fileSystem

namespace QueryParams

variable {H : Type} {q p : QueryParams H}

/-- The move constructor. `FMParseState` is what the memory of the object holds, and `moved` is
    what becomes of the upload helper: an own one is copied, and another one stays. -/
def construct (moved : H → H) (memory : FMParseState) (other : QueryParams H) : QueryParams H :=
  { other with fmParseState := memory, helper := moved other.helper }

/-- The calls, and the moves: `p=std::move(q)`, or `p(std::move(q))`, after which `p` takes the
    place of `q`. -/
inductive MoveEvent (H : Type) where
  | addURLEncoded (range : List Byte)
  | appendFormMultipart (bytes : List Byte)
  | assign (p : QueryParams H)
  | construct (memory : FMParseState)

def MoveEvent.isCall : MoveEvent H → Bool
  | .addURLEncoded _ | .appendFormMultipart _ => true
  | .assign _ | .construct _ => false

/-- `FMParseState` may be this one as well. -/
def Keeps (q : QueryParams H) (state : FMParseState) : Prop :=
  state = q.fmParseState ∨ (q.Waits ∧ (q.inState state).Waits)

def moveStep [FileUploadHelper H] (moved : H → H) (q : QueryParams H) :
    MoveEvent H → Option (QueryParams H)
  | .addURLEncoded range => q.addURLEncoded range
  | .appendFormMultipart bytes => some (q.appendFormMultipart bytes)
  | .assign p => some (p.assign q)
  | .construct memory => some (construct moved memory q)

/-- A move which leaves out nothing that matters: `FMParseState` may be what the target has, and
    where the helper is made anew, it may be. -/
def Harmless (fresh : H → Prop) (q : QueryParams H) : MoveEvent H → Prop
  | .addURLEncoded _ | .appendFormMultipart _ => True
  | .assign p => q.Keeps p.fmParseState
  | .construct memory => q.Keeps memory ∧ fresh q.helper

instance (q : QueryParams H) : Decidable q.Waits :=
  inferInstanceAs (Decidable (q.fmParseState = .finished ∨
    (q.fmParseState = .read ∧ q.currFMPart = none) ∨
      (q.fmParseState = .headerStart ∧ 2 ≤ q.fmParseCounter)))

instance (q : QueryParams H) (state : FMParseState) : Decidable (q.Keeps state) :=
  inferInstanceAs (Decidable (state = q.fmParseState ∨ (q.Waits ∧ (q.inState state).Waits)))

instance (fresh : H → Prop) [DecidablePred fresh] (q : QueryParams H) :
    ∀ e : MoveEvent H, Decidable (Harmless fresh q e)
  | .addURLEncoded _ | .appendFormMultipart _ => .isTrue trivial
  | .assign p => inferInstanceAs (Decidable (q.Keeps p.fmParseState))
  | .construct memory => inferInstanceAs (Decidable (q.Keeps memory ∧ fresh q.helper))

/-- The query of a run without the moves, and that of the run. -/
def Corresponds (R : H → H → Prop) (u s : QueryParams H) : Prop :=
  ∃ between, Behind u between ∧ Alike R between s

section Runs

variable {R : H → H → Prop} {u s t : QueryParams H}

theorem Corresponds.maps (same : Corresponds R u s) :
    s.paramMap = u.paramMap ∧ s.fileMap = u.fileMap ∧ R u.helper s.helper := by
  obtain ⟨between, behind, h, rfl, related⟩ := same
  cases behind with
  | same => exact ⟨rfl, rfl, related⟩
  | waiting state waits other => exact ⟨rfl, rfl, related⟩

theorem Alike.waits (alike : Alike R q p) (waits : p.Waits) : q.Waits := by
  obtain ⟨h, rfl, -⟩ := alike
  exact waits

/-- The target of a harmless move stands where the query has been. -/
theorem Corresponds.inState (same : Corresponds R u s) {state : FMParseState}
    (keeps : s.Keeps state) : Corresponds R u (s.inState state) := by
  rcases keeps with rfl | ⟨waits, other⟩
  · exact same
  · obtain ⟨between, behind, alike⟩ := same
    have here := alike.waits waits
    have moved : Alike R (between.inState state) (s.inState state) := by
      obtain ⟨h, rfl, related⟩ := alike
      exact ⟨h, rfl, related⟩
    have there := moved.waits other
    cases behind with
    | same => exact ⟨_, .waiting state here there, moved⟩
    | waiting first before after => exact ⟨_, .waiting state before there, moved⟩

variable [FileUploadHelper H] {moved : H → H} {fresh : H → Prop}

theorem Corresponds.call (indistinct : Indistinct R) (same : Corresponds R u s) {e : MoveEvent H}
    (call : e.isCall = true) (run : s.moveStep moved e = some t) :
    ∃ v, u.moveStep moved e = some v ∧ Corresponds R v t := by
  obtain ⟨between, behind, alike⟩ := same
  cases e with
  | assign p => cases call
  | construct memory => cases call
  | appendFormMultipart bytes =>
      obtain rfl := Option.some.inj run
      refine ⟨_, rfl, _, behind.appendFormMultipart bytes, ?_⟩
      exact alike.appendFormMultipart indistinct bytes
  | addURLEncoded range =>
      have map : s.paramMap = u.paramMap :=
        (Corresponds.maps ⟨between, behind, alike⟩).1
      rcases addURLEncoded_params (H := H) range u.paramMap with none_ | ⟨m, t', some_⟩
      · rw [moveStep, none_ s] at run
        cases run
      · rw [moveStep, some_ s map] at run
        obtain rfl := Option.some.inj run
        refine ⟨_, some_ u rfl, ?_⟩
        obtain ⟨h, rfl, related⟩ := alike
        cases behind with
        | same => exact ⟨_, .same, h, rfl, related⟩
        | waiting state waits other =>
            exact ⟨_, .waiting state waits other, h, rfl, related⟩

theorem Corresponds.move (copied : ∀ h h', R h h' → fresh h' → R h (moved h'))
    (same : Corresponds R u s) {e : MoveEvent H} (harmless : Harmless fresh s e)
    (move : e.isCall = false) (run : s.moveStep moved e = some t) : Corresponds R u t := by
  cases e with
  | addURLEncoded range => cases move
  | appendFormMultipart bytes => cases move
  | assign p =>
      obtain rfl := Option.some.inj run
      exact same.inState harmless
  | construct memory =>
      obtain rfl := Option.some.inj run
      obtain ⟨between, behind, h, there, related⟩ := same.inState harmless.1
      have helper : s.helper = h := congrArg (fun q : QueryParams H => q.helper) there
      refine ⟨between, behind, moved h, ?_, copied _ h related (helper ▸ harmless.2)⟩
      have built : construct moved memory s =
          { s.inState memory with toForm := withHelper (s.inState memory).toForm (moved h) } := by
        rw [← helper]
        rfl
      rw [built, there]
      rfl

/-- A run with harmless moves, and the one without them. -/
theorem harmless_run (indistinct : Indistinct R)
    (copied : ∀ h h', R h h' → fresh h' → R h (moved h')) {events : List (MoveEvent H)}
    (self : R q.helper q.helper) (run : exec (moveStep moved) q events = some t)
    (along : Along (moveStep moved) (Harmless fresh) q events) :
    ∃ u, exec (moveStep moved) q (events.filter MoveEvent.isCall) = some u ∧
      t.paramMap = u.paramMap ∧ t.fileMap = u.fileMap ∧ R u.helper t.helper := by
  have shown : ∀ s u e t, Corresponds R u s → Harmless fresh s e → e.isCall = true →
      s.moveStep moved e = some t → ∃ v, u.moveStep moved e = some v ∧ Corresponds R v t :=
    fun _ _ _ _ same _ call run => same.call indistinct call run
  have hidden : ∀ s u e t, Corresponds R u s → Harmless fresh s e → e.isCall = false →
      s.moveStep moved e = some t → Corresponds R u t :=
    fun _ _ _ _ same harmless move run => same.move copied harmless move run
  have start : Corresponds R q q := ⟨q, .same, q.helper, rfl, self⟩
  obtain ⟨u, run, same⟩ := along.erased shown hidden start run
  exact ⟨u, run, same.maps⟩

end Runs

end QueryParams

/-! ## The helper of a query's own -/

namespace TempFileUploadHelper

open QueryParams

def withSizes (h : TempFileUploadHelper) (curr total : Nat) : TempFileUploadHelper :=
  { h with currFileSize := curr, totalFileSize := total }

def NoLimit (conf : FileUpload) : Prop :=
  conf.maxUploadSize = u64 (2 ^ 64 - 1) ∧ conf.maxTotalUploadSize = u64 (2 ^ 64 - 1)

/-- The same files and the same stream. The sizes are the same as well where there are limits. -/
def SameStream (h h' : TempFileUploadHelper) : Prop :=
  ∃ curr total, h' = h.withSizes curr total ∧
    (NoLimit h.params ∨ (curr = h.currFileSize ∧ total = h.totalFileSize))

variable {h h' : TempFileUploadHelper}

theorem SameStream.refl (h : TempFileUploadHelper) : SameStream h h :=
  ⟨h.currFileSize, h.totalFileSize, rfl, .inr ⟨rfl, rfl⟩⟩

/-- What a call makes of the sizes is no matter where there are no limits, and else they have been
    the same before. -/
theorem sameStream_of {A : Type} {f : TempFileUploadHelper → A × TempFileUploadHelper}
    (params : (f h).2.params = h.params)
    (unlimited : ∀ curr total, NoLimit h.params → ∃ curr' total',
      f (h.withSizes curr total) = ((f h).1, (f h).2.withSizes curr' total'))
    (same : SameStream h h') :
    (f h').1 = (f h).1 ∧ SameStream (f h).2 (f h').2 := by
  obtain ⟨curr, total, rfl, noLimit | ⟨rfl, rfl⟩⟩ := same
  · obtain ⟨curr', total', result⟩ := unlimited curr total noLimit
    rw [result]
    exact ⟨rfl, curr', total', rfl, .inl (params ▸ noLimit)⟩
  · exact ⟨rfl, SameStream.refl _⟩

theorem onNewFile_withSizes (curr total : Nat) : (h.withSizes curr total).onNewFile =
    (h.onNewFile.1, h.onNewFile.2.withSizes curr total) := by
  have members : (h.withSizes curr total).params = h.params ∧
      (h.withSizes curr total).fileSystem = h.fileSystem := ⟨rfl, rfl⟩
  simp only [onNewFile, members]
  by_cases off : h.params.maxUploadSize = 0 ∨ h.params.maxTotalUploadSize = 0
  · simp only [if_pos off]
    rfl
  · simp only [if_neg off]
    cases h.fileSystem.opening h.fileSystem.paths with
    | throws | closed | opened => rfl

theorem onNewFile_params : h.onNewFile.2.params = h.params := by
  simp only [onNewFile]
  split
  · rfl
  · split <;> rfl

theorem write_params (stream : OfStream) (bytes : List Byte) :
    (h.write stream bytes).2.params = h.params := by
  unfold write
  split <;> rfl

theorem write_withSizes (curr total : Nat) (stream : OfStream) (bytes : List Byte) :
    (h.withSizes curr total).write stream bytes =
      ((h.write stream bytes).1, (h.write stream bytes).2.withSizes curr total) := by
  have files : (h.withSizes curr total).fileSystem = h.fileSystem := rfl
  simp only [write, files]
  split <;> rfl

theorem give_withSizes (curr total : Nat) (bytes : List Byte) :
    (h.withSizes curr total).give bytes = (h.give bytes).withSizes curr total := by
  have members : (h.withSizes curr total).fileSystem = h.fileSystem ∧
      (h.withSizes curr total).currFileS = h.currFileS := ⟨rfl, rfl⟩
  simp only [give, members]
  split <;> rfl

theorem onFileData_params (bytes : List Byte) : (h.onFileData bytes).2.params = h.params := by
  rw [onFileData]
  cases h.currFileS with
  | none => rfl
  | some stream =>
      dsimp only
      split
      · exact give_params h bytes
      · split
        · exact give_params h bytes
        · rw [write_params]
          exact give_params h bytes

theorem onFileData_withSizes (noLimit : NoLimit h.params) (curr total : Nat) (bytes : List Byte) :
    ∃ curr' total', (h.withSizes curr total).onFileData bytes =
      ((h.onFileData bytes).1, (h.onFileData bytes).2.withSizes curr' total') := by
  obtain ⟨upload, whole⟩ := noLimit
  have stream : (h.withSizes curr total).currFileS = h.currFileS := rfl
  have resized := @onFileData_unlimited (h.withSizes curr total) upload whole bytes
  rw [onFileData_unlimited upload whole, resized, stream]
  cases h.currFileS with
  | none => exact ⟨curr, total, rfl⟩
  | some stream =>
      rw [give_withSizes]
      refine ⟨u64 (curr + bytes.length), u64 (total + bytes.length), ?_⟩
      have sizes : ∀ a b c d, ((h.give bytes).withSizes a b).write stream bytes =
          ((((h.give bytes).withSizes c d).write stream bytes).1,
            (((h.give bytes).withSizes c d).write stream bytes).2.withSizes a b) := by
        intro a b c d
        rw [← write_withSizes]
        rfl
      have written := sizes (u64 (curr + bytes.length)) (u64 (total + bytes.length))
        (u64 (h.currFileSize + bytes.length)) (u64 (h.totalFileSize + bytes.length))
      exact congrArg (fun r => (!r.1, r.2)) written

theorem sameStream_indistinct : Indistinct SameStream where
  onNewFile h h' same name origFileName mimeType :=
    sameStream_of (f := fun h => h.onNewFile) onNewFile_params
      (fun curr total _ => ⟨curr, total, onNewFile_withSizes curr total⟩) same
  onFileData h h' same bytes :=
    sameStream_of (f := fun h => h.onFileData bytes) (onFileData_params bytes)
      (fun curr total noLimit => onFileData_withSizes noLimit curr total bytes) same
  onFileEnd := by
    rintro h _ ⟨curr, total, rfl, same⟩
    exact ⟨curr, total, rfl, same⟩
  remove := by
    rintro h _ ⟨curr, total, rfl, same⟩ path
    exact ⟨curr, total, rfl, same⟩

/-- The copy constructor loses nothing. -/
def Fresh (h : TempFileUploadHelper) : Prop :=
  h.currFileS = none ∧ (NoLimit h.params ∨ (h.currFileSize = 0 ∧ h.totalFileSize = 0))

instance : DecidablePred Fresh := fun h =>
  inferInstanceAs (Decidable (h.currFileS = none ∧
    ((h.params.maxUploadSize = u64 (2 ^ 64 - 1) ∧ h.params.maxTotalUploadSize = u64 (2 ^ 64 - 1)) ∨
      (h.currFileSize = 0 ∧ h.totalFileSize = 0))))

theorem SameStream.copy (same : SameStream h h') (fresh : h'.Fresh) : SameStream h h'.copy := by
  obtain ⟨curr, total, rfl, same⟩ := same
  obtain ⟨closed, none_⟩ := fresh
  have closed : h.currFileS = none := closed
  refine ⟨0, 0, ?_, ?_⟩
  · simp only [TempFileUploadHelper.copy, init, withSizes, closed]
  · rcases same with noLimit | ⟨rfl, rfl⟩
    · exact .inl noLimit
    · rcases none_ with noLimit | ⟨curr, total⟩
      · exact .inl noLimit
      · exact .inr ⟨curr.symm, total.symm⟩

end TempFileUploadHelper

/-! ## Either helper -/

/-- `*UploadHelper`: the query's own `TempUploadHelper`, or one which it has been given. -/
inductive UploadHelper (E : Type) where
  | own (helper : TempFileUploadHelper)
  | given (helper : E)

namespace UploadHelper

variable {E : Type}

/-- Only its own helper is moved with a query. -/
def move : UploadHelper E → UploadHelper E
  | own helper => own helper.copy
  | given helper => given helper

def Fresh : UploadHelper E → Prop
  | own helper => helper.Fresh
  | given _ => True

instance : DecidablePred (Fresh : UploadHelper E → Prop)
  | own helper => inferInstanceAs (Decidable helper.Fresh)
  | given _ => .isTrue trivial

/-- The files of its own helper, or else all that the other one is. -/
def stored : UploadHelper E → List TempFile ⊕ E
  | own helper => .inl helper.fileSystem.files
  | given helper => .inr helper

inductive SameHelper : UploadHelper E → UploadHelper E → Prop where
  | own {h h' : TempFileUploadHelper} (same : h.SameStream h') : SameHelper (own h) (own h')
  | given (helper : E) : SameHelper (given helper) (given helper)

theorem SameHelper.refl : ∀ helper : UploadHelper E, SameHelper helper helper
  | .own helper => .own (.refl helper)
  | .given helper => .given helper

theorem SameHelper.stored {h h' : UploadHelper E} (same : SameHelper h h') :
    h'.stored = h.stored := by
  cases same with
  | given helper => rfl
  | own same =>
      obtain ⟨curr, total, rfl, -⟩ := same
      rfl

theorem SameHelper.move {h h' : UploadHelper E} (same : SameHelper h h') (fresh : h'.Fresh) :
    SameHelper h h'.move := by
  cases same with
  | given helper => exact .given helper
  | own same => exact .own (same.copy fresh)

instance [FileUploadHelper E] : FileUploadHelper (UploadHelper E) where
  onNewFile
    | own h, name, origFileName, mimeType =>
        let r := FileUploadHelper.onNewFile h name origFileName mimeType
        (r.1, own r.2)
    | given h, name, origFileName, mimeType =>
        let r := FileUploadHelper.onNewFile h name origFileName mimeType
        (r.1, given r.2)
  onFileData
    | own h, bytes =>
        let r := FileUploadHelper.onFileData h bytes
        (r.1, own r.2)
    | given h, bytes =>
        let r := FileUploadHelper.onFileData h bytes
        (r.1, given r.2)
  onFileEnd
    | own h => own (FileUploadHelper.onFileEnd h)
    | given h => given (FileUploadHelper.onFileEnd h)
  remove
    | own h, path => own (FileUploadHelper.remove h path)
    | given h, path => given (FileUploadHelper.remove h path)
  default
    | own h => own (FileUploadHelper.default h)
    | given h => given (FileUploadHelper.default h)

open QueryParams in
theorem sameHelper_indistinct [FileUploadHelper E] :
    Indistinct (SameHelper : UploadHelper E → UploadHelper E → Prop) := by
  have streams := TempFileUploadHelper.sameStream_indistinct
  constructor
  · intro h h' same name origFileName mimeType
    cases same with
    | given helper => exact ⟨rfl, .given _⟩
    | own same =>
        obtain ⟨result, next⟩ := streams.onNewFile _ _ same name origFileName mimeType
        exact ⟨result, .own next⟩
  · intro h h' same bytes
    cases same with
    | given helper => exact ⟨rfl, .given _⟩
    | own same =>
        obtain ⟨result, next⟩ := streams.onFileData _ _ same bytes
        exact ⟨result, .own next⟩
  · intro h h' same
    cases same with
    | given helper => exact .given _
    | own same => exact .own (streams.onFileEnd _ _ same)
  · intro h h' same path
    cases same with
    | given helper => exact .given _
    | own same => exact .own (streams.remove _ _ same path)

end UploadHelper

namespace QueryParams

open UploadHelper

/-- After the same calls, a query which has been moved in between by harmless moves only has got
    the same parameters and the same files as one which has not. -/
theorem moves_preserve {E : Type} [FileUploadHelper E] (q t : QueryParams (UploadHelper E))
    (events : List (MoveEvent (UploadHelper E))) (run : exec (moveStep move) q events = some t)
    (along : Along (moveStep move) (Harmless Fresh) q events) :
    ∃ u, exec (moveStep move) q (events.filter MoveEvent.isCall) = some u ∧
      t.paramMap = u.paramMap ∧ t.fileMap = u.fileMap ∧ t.helper.stored = u.helper.stored := by
  have copied : ∀ h h' : UploadHelper E, SameHelper h h' → h'.Fresh → SameHelper h h'.move :=
    fun _ _ same fresh => same.move fresh
  obtain ⟨u, run, params, files, helper⟩ :=
    harmless_run sameHelper_indistinct copied (SameHelper.refl q.helper) run along
  exact ⟨u, run, params, files, helper.stored⟩

/-- A query whose boundary has been parsed, with a helper of its own. -/
def begun (boundary : String) : QueryParams (UploadHelper TempFileUploadHelper) :=
  let helper := own (TempFileUploadHelper.init .unlimited TempFileUploadHelper.diligent)
  { init helper 4 none with boundaryStr := text boundary }.onBoundaryParsed

/-- A form up to the first byte of its only part. -/
def formStart (attributes : String) : List Byte :=
  text "--B\r\nContent-Disposition: form-data; name=\"a\"" ++ text attributes ++ text "\r\n\r\nx"

def formEnd : List Byte := text "y\r\n--B--"

/-- The last move is made while a file is being read. -/
def movedTwice : List (MoveEvent (UploadHelper TempFileUploadHelper)) :=
  [.construct .finished, .appendFormMultipart (formStart "; filename=\"n\""),
    .assign ((begun "C").inState .read), .appendFormMultipart formEnd]

theorem moves_preserve_twice : ∃ t u,
    exec (moveStep move) (begun "B") movedTwice = some t ∧
    exec (moveStep move) (begun "B") (movedTwice.filter MoveEvent.isCall) = some u ∧
    t.paramMap = u.paramMap ∧ t.fileMap = u.fileMap ∧ t.helper.stored = u.helper.stored := by
  obtain ⟨t, run⟩ : ∃ t, exec (moveStep move) (begun "B") movedTwice = some t :=
    Option.isSome_iff_exists.mp (by decide +kernel)
  have along : Along (moveStep move) (Harmless Fresh) (begun "B") movedTwice := by decide +kernel
  obtain ⟨u, same⟩ := moves_preserve (begun "B") t movedTwice run along
  exact ⟨t, u, run, same⟩

/-- A field goes on with what comes after the move. A query which has not read anything yet takes
    none of it. -/
theorem rest_lost :
    ¬∀ (boundary : String) (p t u : QueryParams (UploadHelper TempFileUploadHelper))
      (calls further : List (MoveEvent (UploadHelper TempFileUploadHelper))),
      (∀ e ∈ calls ++ further, e.isCall = true) →
      exec (moveStep move) (begun boundary) (calls ++ .assign p :: further) = some t →
      exec (moveStep move) (begun boundary) (calls ++ further) = some u →
      t.paramMap = u.paramMap := by
  intro preserved
  let unread : QueryParams (UploadHelper TempFileUploadHelper) :=
    init (own (.init .unlimited TempFileUploadHelper.diligent)) 4 none
  have same := preserved "B" unread _ _ [.appendFormMultipart (formStart "")]
    [.appendFormMultipart formEnd] (by decide) rfl rfl
  revert same
  decide +kernel

end QueryParams

end MiniWebSrv.HTTP
