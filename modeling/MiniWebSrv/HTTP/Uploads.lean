import MiniWebSrv.HTTP.BodyLog
import MiniWebSrv.HTTP.Framing
import MiniWebSrv.HTTP.TempFileUpload

/-! # The uploads of a connection

Of all that a connection does only two things concern its uploads: a block of a multipart body,
and the reset in front of each request. The reset puts a new query in the place of the old one,
with a new helper, which has not been given the configuration, and without the old map.
-/

namespace MiniWebSrv.HTTP

open Run

/-! ## The blocks of a body -/

namespace QueryParams

variable {H : Type} [FileUploadHelper H] {Q : StringMap File → H → Prop}

/-- A relation between the files of a query and its upload helper which the calls of the helper
    keep, each with what is done to the map. -/
structure Tracks (Q : StringMap File → H → Prop) : Prop where
  fileData : ∀ {m h} bytes, Q m h → Q m (FileUploadHelper.onFileData h bytes).2
  fileEnd : ∀ {m h}, Q m h → Q m (FileUploadHelper.onFileEnd h)
  refused : ∀ {m h name origFileName mimeType path h'}, Q m h →
    FileUploadHelper.onNewFile h name origFileName mimeType = ((path, false), h') → Q m h'
  accepted : ∀ {m h name origFileName mimeType path h'}, Q m h →
    FileUploadHelper.onNewFile h name origFileName mimeType = ((path, true), h') →
    Q (StringMap.set name ⟨mimeType, origFileName, path⟩ m)
      (if ((m.lookup name).map File.path).getD .empty ≠ .empty then
        FileUploadHelper.remove h' (((m.lookup name).map File.path).getD .empty)
      else h')

namespace Tracks

variable {f : Form H} {q q' : QueryParams H}

theorem openPart (tracks : Tracks Q) (h : PartHeaders) (holds : Q f.fileMap f.helper) :
    Q (openPart f h).2.fileMap (openPart f h).2.helper := by
  have ended : Q f.fileMap
      (if f.currPartMode = .file then FileUploadHelper.onFileEnd f.helper else f.helper) := by
    split
    · exact tracks.fileEnd holds
    · exact holds
  simp only [QueryParams.openPart]
  split
  · split
    · split
      · rename_i opened
        exact tracks.accepted ended opened
      · rename_i opened
        exact tracks.refused ended opened
    · exact ended
  · exact holds

theorem addContent (tracks : Tracks Q) (bytes : List Byte) (holds : Q f.fileMap f.helper) :
    Q (addContent f bytes).2.fileMap (addContent f bytes).2.helper := by
  simp only [QueryParams.addContent]
  split
  · exact holds
  · split
    · exact tracks.fileData bytes holds
    · exact holds

theorem take (tracks : Tracks Q) (event : PartEvent) (holds : Q f.fileMap f.helper) :
    Q (f.take event).fileMap (f.take event).helper := by
  cases event with
  | compared index => exact holds
  | headers block => exact tracks.openPart (partHeaders block) holds
  | content bytes => exact tracks.addContent bytes holds
  | close | behind => exact tracks.fileEnd holds

theorem takeAll (tracks : Tracks Q) (events : List PartEvent) (holds : Q f.fileMap f.helper) :
    Q (f.takeAll events).fileMap (f.takeAll events).helper := by
  induction events generalizing f with
  | nil => exact holds
  | cons event rest ih => exact ih (tracks.take event holds)

/-- A whole call keeps what the calls of the helper keep. -/
theorem appendFormMultipart (tracks : Tracks Q) (bytes : List Byte) (holds : Q q.fileMap q.helper) :
    Q (appendFormMultipart q bytes).fileMap (appendFormMultipart q bytes).helper := by
  rw [appendFormMultipart_toForm]
  exact tracks.takeAll _ holds

end Tracks

end QueryParams

/-! ## The rest of a query -/

/-- The two queries have the same files and the same helper. -/
structure SameUploads {H : Type} (q q' : QueryParams H) : Prop where
  fileMap : q'.fileMap = q.fileMap
  helper : q'.helper = q.helper

namespace SameUploads

variable {H : Type} {q q' q'' : QueryParams H}

theorem refl (q : QueryParams H) : SameUploads q q := ⟨rfl, rfl⟩

theorem trans (h : SameUploads q q') (h' : SameUploads q' q'') : SameUploads q q'' :=
  ⟨h'.fileMap.trans h.fileMap, h'.helper.trans h.helper⟩

theorem keeps {Q : StringMap File → H → Prop} (same : SameUploads q q')
    (holds : Q q.fileMap q.helper) : Q q'.fileMap q'.helper := by
  rw [same.fileMap, same.helper]
  exact holds

end SameUploads

namespace QueryParams

variable {H : Type} {q q' : QueryParams H}

theorem appendTarget_uploads (q : QueryParams H) (target : Option (List Byte)) (c : Byte) :
    SameUploads q (q.appendTarget target c) := by
  unfold appendTarget
  split <;> exact ⟨rfl, rfl⟩

theorem addURLEncodedLoop_uploads {target : Option (List Byte)} {range : List Byte}
    (run : q.addURLEncodedLoop target range = some q') : SameUploads q q' := by
  fun_induction addURLEncodedLoop q target range with
  | case1 =>
      obtain rfl := Option.some.inj run
      exact .refl _
  | case2 | case3 | case6 | case8 =>
      rename_i ih
      exact (appendTarget_uploads _ _ _).trans (ih run)
  | case4 => cases run
  | case5 | case7 =>
      rename_i ih
      exact ⟨(ih run).fileMap, (ih run).helper⟩

theorem addURLEncoded_uploads {range : List Byte} (run : q.addURLEncoded range = some q') :
    SameUploads q q' := by
  unfold addURLEncoded at run
  have same := addURLEncodedLoop_uploads run
  exact ⟨same.fileMap, same.helper⟩

end QueryParams

/-! ## Connections -/

namespace Connection

variable {H : Type} {c d : Connection H}

theorem parseVersion_uploads {q : QueryParams H} (query : c.currQuery = q) (bytes : List Byte) :
    SameUploads q (c.parseVersion bytes).2.currQuery := by
  obtain ⟨version, same⟩ := parseVersion_keeps c bytes
  rw [same, ← query]
  exact .refl _

theorem parseRequestLine_uploads {line : List Byte} {ok : Bool}
    (run : c.parseRequestLine line = some (ok, d)) : SameUploads c.currQuery d.currQuery := by
  unfold parseRequestLine at run
  split at run
  · obtain ⟨rfl, rfl⟩ := Prod.mk.inj (Option.some.inj run)
    exact .refl _
  · simp only at run
    split at run
    · obtain ⟨rfl, rfl⟩ := Prod.mk.inj (Option.some.inj run)
      exact .refl _
    · split at run
      · split at run
        · obtain ⟨rfl, rfl⟩ := Prod.mk.inj (Option.some.inj run)
          exact .refl _
        · obtain ⟨q, added, same⟩ := Option.map_eq_some_iff.mp run
          obtain rfl : _ = d := congrArg Prod.snd same
          refine (QueryParams.addURLEncoded_uploads added).trans ?_
          apply parseVersion_uploads
          rfl
      · obtain rfl : _ = d := congrArg Prod.snd (Option.some.inj run)
        apply parseVersion_uploads
        rfl

/-- The connection which a header block leaves behind. -/
def Parsed.connection : Parsed H → Connection H
  | .more c _ _ => c
  | .done c _ => c
  | .refused c => c

theorem parseLines_uploads {found : Bool} {lineStart pos n : Nat} {r : Parsed H}
    (run : c.parseLines found lineStart pos n = some r) :
    SameUploads c.currQuery r.connection.currQuery := by
  induction n generalizing c found lineStart pos with
  | zero =>
      obtain rfl := Option.some.inj run
      exact .refl _
  | succ n ih =>
      simp only [parseLines] at run
      split at run
      · split at run
        · split at run
          · have later := ih run
            exact ⟨later.fileMap, later.helper⟩
          · split at run
            · cases run
            · rename_i d requestLine
              obtain rfl := Option.some.inj run
              exact parseRequestLine_uploads requestLine
            · rename_i d requestLine
              exact (parseRequestLine_uploads requestLine).trans (ih run)
        · obtain rfl := Option.some.inj run
          exact .refl _
      · exact ih run

theorem headerHandler_uploads {found : Bool} {lineStart : Nat}
    (run : c.headerHandler found lineStart = some d) : SameUploads c.currQuery d.currQuery := by
  simp only [headerHandler] at run
  split at run
  · cases run
  all_goals
    rename_i parsed
    obtain rfl := Option.some.inj run
    exact parseLines_uploads parsed

theorem searchHeaders_uploads {headers : List Header} {found result : HeaderSearch}
    (search : c.searchHeaders found headers = some (d, result)) :
    SameUploads c.currQuery d.currQuery := by
  fun_induction searchHeaders c found headers with
  | case1 | case2 =>
      obtain ⟨rfl, rfl⟩ := Prod.mk.inj (Option.some.inj search)
      exact .refl _
  | case3 => cases search
  | case4 | case5 | case6 =>
      rename_i ih
      exact ⟨(ih search).fileMap, (ih search).helper⟩

theorem contentHandler_uploads (c : Connection H) :
    SameUploads c.currQuery c.contentHandler.currQuery := by
  unfold contentHandler
  split
  · exact .refl _
  · rename_i d found search
    have same := searchHeaders_uploads search
    split
    · exact same
    · simp only
      split
      · exact same
      · split
        · exact same
        · split <;> exact same

theorem contentLoop_uploads {type : ContentType} (run : c.contentLoop type = some d) :
    SameUploads c.currQuery d.currQuery := by
  simp only [contentLoop] at run
  split at run
  · cases run
  · obtain rfl := Option.some.inj run
    exact .refl _
  · obtain ⟨q, added, rfl⟩ := Option.map_eq_some_iff.mp run
    split at added
    · exact QueryParams.addURLEncoded_uploads added
    · obtain rfl := Option.some.inj added
      exact .refl _

theorem afterRead_uploads {b : StreamReadBuff BuildConfig.readBuffSize}
    (run : { c with readBuff := b }.afterRead = some d) : SameUploads c.currQuery d.currQuery := by
  cases phase : c.phase with
  | headers found lineStart =>
      simp only [afterRead, phase] at run
      split at run
      · obtain rfl := Option.some.inj run
        exact .refl _
      · have same := headerHandler_uploads run
        exact ⟨same.fileMap, same.helper⟩
  | contentRead | multipartRead =>
      simp only [afterRead, phase] at run
      obtain rfl := Option.some.inj run
      exact .refl _
  | headersDone | content | multipart | respond | closed =>
      simp only [afterRead, phase] at run
      cases run

/-- The event leads on to the next request. -/
def Resets (c : Connection H) : Event → Prop
  | .responded result _ => c.phase = .respond ∧ result = true ∧
      { c with readBuff := c.readBuff.resetRelevant }.isKeepAlive = true
  | _ => False

instance (c : Connection H) (e : Event) : Decidable (c.Resets e) := by
  unfold Resets
  split <;> infer_instance

variable [FileUploadHelper H] {Q : StringMap File → H → Prop}

theorem nextRequest_uploads {junk : Junk} (run : c.nextRequest junk = some d) :
    d.currQuery.fileMap = [] ∧ d.currQuery.helper = FileUploadHelper.default c.currQuery.helper := by
  simp only [nextRequest] at run
  split at run
  · obtain rfl := Option.some.inj run
    exact ⟨rfl, rfl⟩
  · have same := headerHandler_uploads run
    exact ⟨same.fileMap, same.helper⟩

theorem resets_uploads {e : Event} (resets : c.Resets e) (run : c.step e = some d) :
    d.currQuery.fileMap = [] ∧ d.currQuery.helper = FileUploadHelper.default c.currQuery.helper := by
  cases e with
  | responded result junk =>
      obtain ⟨phase, rfl, alive⟩ := resets
      simp only [step, if_pos phase, responded, if_true, if_pos alive] at run
      have left := nextRequest_uploads run
      exact left
  | go | read | noRoom | readError => exact resets.elim

/-- A step keeps what the calls of the helper keep, and what a reset is known to leave. -/
theorem step_uploads {e : Event} (tracks : QueryParams.Tracks Q)
    (reset : c.Resets e → Q [] (FileUploadHelper.default c.currQuery.helper))
    (holds : Q c.currQuery.fileMap c.currQuery.helper) (run : c.step e = some d) :
    Q d.currQuery.fileMap d.currQuery.helper := by
  cases e with
  | go =>
      simp only [step, go] at run
      split at run
      · obtain rfl := Option.some.inj run
        split
        · exact (contentHandler_uploads c).keeps holds
        · exact holds
      · exact (contentLoop_uploads run).keeps holds
      · simp only [multipartLoop] at run
        split at run
        · split at run
          · cases run
          · obtain rfl := Option.some.inj run
            exact tracks.appendFormMultipart _ holds
        · obtain rfl := Option.some.inj run
          exact tracks.appendFormMultipart _ holds
      · cases run
  | read data =>
      simp only [step] at run
      split at run
      · exact (afterRead_uploads run).keeps holds
      · cases run
  | noRoom =>
      simp only [step] at run
      split at run
      · exact (afterRead_uploads (b := c.readBuff) run).keeps holds
      · cases run
  | readError =>
      simp only [step] at run
      split at run
      · obtain rfl := Option.some.inj run
        exact holds
      · cases run
  | responded result junk =>
      simp only [step, responded] at run
      split at run
      · rename_i phase
        split at run
        · rename_i went
          split at run
          · rename_i alive
            obtain ⟨fileMap, helper⟩ := nextRequest_uploads run
            rw [fileMap, helper]
            exact reset ⟨phase, went, alive⟩
          · obtain rfl := Option.some.inj run
            exact holds
        · obtain rfl := Option.some.inj run
          exact holds
      · cases run

end Connection

end MiniWebSrv.HTTP
