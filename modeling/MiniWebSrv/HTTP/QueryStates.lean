import MiniWebSrv.HTTP.Multipart
import MiniWebSrv.HTTP.QueryPairs

/-! # What the calls of a query look at

Queries which differ in a member, under the same calls. Where both wait for a delimiter, nobody
looks at `FMParseState` before the delimiter sets it again; an upload helper may stand in for
another one which no call can tell apart from it; and the query string goes to the parameters
only.
-/

namespace MiniWebSrv.HTTP

open Word

namespace QueryParams

variable {H : Type} {q p : QueryParams H} {bytes : List Byte}

/-! ## Waiting for a delimiter -/

/-- Nothing is taken in before the next delimiter. -/
def Waits (q : QueryParams H) : Prop :=
  q.fmParseState = .finished ∨ (q.fmParseState = .read ∧ q.currFMPart = none) ∨
    (q.fmParseState = .headerStart ∧ 2 ≤ q.fmParseCounter)

def inState (q : QueryParams H) (state : FMParseState) : QueryParams H :=
  { q with fmParseState := state }

section Calls

variable [FileUploadHelper H]

theorem Waits.appendFrom (waits : q.Waits) (orig : List Byte) (goes : q.fmParseState ≠ .finished)
    (bytes : List Byte) : (q.appendFrom orig bytes).2 = q := by
  induction bytes generalizing orig with
  | nil =>
      rcases waits with finished | ⟨read, none_⟩ | ⟨start, past⟩
      · exact absurd finished goes
      · simp only [QueryParams.appendFrom, read, addContent, none_]
        rw [← read]
      · simp only [QueryParams.appendFrom, start]
  | cons c rest ih =>
      rcases waits with finished | ⟨read, none_⟩ | ⟨start, past⟩
      · exact absurd finished goes
      · simp only [QueryParams.appendFrom, read, addContent, none_]
        rw [← read]
      · simp only [QueryParams.appendFrom, start]
        rw [if_neg (by omega), if_neg (by omega)]
        exact ih (orig ++ [c])

/-- What comes before the next delimiter has no effect. -/
theorem Waits.appendToCurrentPart (waits : q.Waits) (bytes : List Byte) :
    (q.appendToCurrentPart bytes).2 = q := by
  unfold QueryParams.appendToCurrentPart
  split
  · rfl
  · rename_i goes
    exact waits.appendFrom [] (fun finished => goes (Or.inr finished)) bytes

/-- A query, and the same one in another state in which it waits as well. -/
inductive Behind (q : QueryParams H) : QueryParams H → Prop where
  | same : Behind q q
  | waiting (state : FMParseState) (waits : q.Waits) (other : (q.inState state).Waits) :
      Behind q (q.inState state)

theorem Behind.goOn (behind : Behind q p) (handOver : HandOver) :
    Behind (q.goOn handOver) (p.goOn handOver) := by
  cases behind with
  | same => exact .same
  | waiting state waits other =>
      cases handOver with
      | compared index => exact .waiting state waits other
      | piece bytes =>
          rw [← appendToCurrentPart_log, ← appendToCurrentPart_log, waits.appendToCurrentPart,
            other.appendToCurrentPart]
          exact .waiting state waits other
      | newPart => exact .same

theorem Behind.foldl_goOn (behind : Behind q p) (handOvers : List HandOver) :
    Behind (handOvers.foldl QueryParams.goOn q) (handOvers.foldl QueryParams.goOn p) := by
  induction handOvers generalizing q p with
  | nil => exact behind
  | cons handOver rest ih => exact ih (behind.goOn handOver)

omit [FileUploadHelper H] in
theorem Behind.withMatcher (behind : Behind q p) (m : Matcher) :
    Behind (q.withMatcher m) (p.withMatcher m) := by
  cases behind with
  | same => exact .same
  | waiting state waits other => exact .waiting state waits other

/-- The delimiter takes the waiting to its end. -/
theorem Behind.appendFormMultipart (behind : Behind q p) (bytes : List Byte) :
    Behind (q.appendFormMultipart bytes) (p.appendFormMultipart bytes) := by
  have matcher : p.matcher = q.matcher ∧ p.boundaryStr = q.boundaryStr := by
    cases behind <;> exact ⟨rfl, rfl⟩
  rw [appendFormMultipart_log, appendFormMultipart_log, matcher.1, matcher.2]
  exact (behind.foldl_goOn _).withMatcher _

/-! ## Another helper -/

/-- Helpers which no call can tell apart. -/
structure Indistinct (R : H → H → Prop) : Prop where
  onNewFile : ∀ h h', R h h' → ∀ name origFileName mimeType,
    (FileUploadHelper.onNewFile h' name origFileName mimeType).1 =
      (FileUploadHelper.onNewFile h name origFileName mimeType).1 ∧
    R (FileUploadHelper.onNewFile h name origFileName mimeType).2
      (FileUploadHelper.onNewFile h' name origFileName mimeType).2
  onFileData : ∀ h h', R h h' → ∀ bytes,
    (FileUploadHelper.onFileData h' bytes).1 = (FileUploadHelper.onFileData h bytes).1 ∧
    R (FileUploadHelper.onFileData h bytes).2 (FileUploadHelper.onFileData h' bytes).2
  onFileEnd : ∀ h h', R h h' → R (FileUploadHelper.onFileEnd h) (FileUploadHelper.onFileEnd h')
  remove : ∀ h h', R h h' → ∀ path,
    R (FileUploadHelper.remove h path) (FileUploadHelper.remove h' path)

/-- A form with another helper. -/
def withHelper (f : Form H) (helper : H) : Form H := { f with helper := helper }

/-- The same result and the same form, but for a helper which cannot be told apart. -/
def FormAlike (R : H → H → Prop) (r r' : Bool × Form H) : Prop :=
  ∃ h, r' = (r.1, withHelper r.2 h) ∧ R r.2.helper h

section Helpers

variable {R : H → H → Prop} (indistinct : Indistinct R)
include indistinct

theorem openPart_alike {f : Form H} {h : H} (related : R f.helper h) (headers : PartHeaders) :
    FormAlike R (openPart f headers) (openPart (withHelper f h) headers) := by
  unfold openPart
  by_cases named : headers.disposition.name ≠ []
  · have ended : R
        (if f.currPartMode = .file then FileUploadHelper.onFileEnd f.helper else f.helper)
        (if (withHelper f h).currPartMode = .file then
          FileUploadHelper.onFileEnd (withHelper f h).helper else (withHelper f h).helper) := by
      by_cases file : f.currPartMode = .file
      · rw [if_pos file, if_pos (show (withHelper f h).currPartMode = .file from file)]
        exact indistinct.onFileEnd _ _ related
      · rw [if_neg file, if_neg (show ¬(withHelper f h).currPartMode = .file from file)]
        exact related
    simp only [if_pos named]
    generalize (if f.currPartMode = .file then FileUploadHelper.onFileEnd f.helper
      else f.helper) = left at *
    generalize (if (withHelper f h).currPartMode = .file then
      FileUploadHelper.onFileEnd (withHelper f h).helper else (withHelper f h).helper) = right at *
    split
    · obtain ⟨same, next⟩ := indistinct.onNewFile left right ended headers.disposition.name
        headers.disposition.fileName (headers.contentTypeVal.getD [])
      generalize FileUploadHelper.onNewFile left headers.disposition.name
        headers.disposition.fileName (headers.contentTypeVal.getD []) = made at *
      generalize FileUploadHelper.onNewFile right headers.disposition.name
        headers.disposition.fileName (headers.contentTypeVal.getD []) = made' at *
      obtain ⟨⟨path, opened⟩, left⟩ := made
      obtain ⟨⟨path', opened'⟩, right⟩ := made'
      obtain ⟨rfl, rfl⟩ := Prod.mk.inj same
      cases opened' with
      | false => exact ⟨right, rfl, next⟩
      | true =>
          have removed : ∀ old, R
              (if old ≠ Path.empty then FileUploadHelper.remove left old else left)
              (if old ≠ Path.empty then FileUploadHelper.remove right old else right) := by
            intro old
            split
            · exact indistinct.remove _ _ next old
            · exact next
          exact ⟨_, rfl, removed _⟩
    · exact ⟨right, rfl, ended⟩
  · simp only [if_neg named]
    exact ⟨h, rfl, related⟩

theorem addContent_alike {f : Form H} {h : H} (related : R f.helper h) (bytes : List Byte) :
    FormAlike R (addContent f bytes) (addContent (withHelper f h) bytes) := by
  unfold addContent
  have part : (withHelper f h).currFMPart = f.currFMPart := rfl
  have mode : (withHelper f h).currPartMode = f.currPartMode := rfl
  rw [part, mode]
  cases f.currFMPart with
  | none => exact ⟨h, rfl, related⟩
  | some key =>
      dsimp only
      split
      · obtain ⟨same, next⟩ := indistinct.onFileData _ _ related bytes
        exact ⟨_, Prod.ext same rfl, next⟩
      · exact ⟨h, rfl, related⟩

theorem take_alike {f : Form H} {h : H} (related : R f.helper h) (event : PartEvent) :
    ∃ h', (withHelper f h).take event = withHelper (f.take event) h' ∧ R (f.take event).helper h' := by
  cases event with
  | compared index => exact ⟨h, rfl, related⟩
  | headers block =>
      obtain ⟨h', same, next⟩ := openPart_alike indistinct related (partHeaders block)
      exact ⟨h', congrArg Prod.snd same, next⟩
  | content bytes =>
      obtain ⟨h', same, next⟩ := addContent_alike indistinct related bytes
      exact ⟨h', congrArg Prod.snd same, next⟩
  | close | behind => exact ⟨_, rfl, indistinct.onFileEnd _ _ related⟩

theorem takeAll_alike {f : Form H} {h : H} (related : R f.helper h) (events : List PartEvent) :
    ∃ h', (withHelper f h).takeAll events = withHelper (f.takeAll events) h' ∧
      R (f.takeAll events).helper h' := by
  induction events generalizing f h with
  | nil => exact ⟨h, rfl, related⟩
  | cons event rest ih =>
      obtain ⟨h', same, next⟩ := take_alike indistinct related event
      obtain ⟨h', rest, last⟩ := ih next
      exact ⟨h', (congrArg (Form.takeAll · _) same).trans rest, last⟩

/-- A query with another helper which cannot be told apart. -/
def Alike (R : H → H → Prop) (q p : QueryParams H) : Prop :=
  ∃ h, p = { q with toForm := withHelper q.toForm h } ∧ R q.helper h

theorem Alike.appendFormMultipart (alike : Alike R q p) (bytes : List Byte) :
    Alike R (q.appendFormMultipart bytes) (p.appendFormMultipart bytes) := by
  obtain ⟨h, rfl, related⟩ := alike
  obtain ⟨h', same, next⟩ := takeAll_alike indistinct related
    (q.partReader.takeAll (q.matcher.handOver q.boundaryStr bytes).2).2
  rw [appendFormMultipart_log, appendFormMultipart_log, foldl_goOn_eq, foldl_goOn_eq]
  refine ⟨h', ?_, next⟩
  exact congrArg (fun f => (q.withPart _ f).withMatcher _) same

end Helpers

end Calls

/-! ## The query string -/

open UrlDecoding in
/-- A character changes the parameters, the key which is being read and the target, and looks at
    nothing else. -/
theorem give_params (c : QueryChar) (m : StringMap (List Byte)) (t : List Byte)
    (target : Option (List Byte)) : ∃ m' t' target', ∀ q : QueryParams H,
      c.give paramDecoder ({ q with paramMap := m, parseTmp := t }, target) =
        ({ q with paramMap := m', parseTmp := t' }, target') := by
  cases c with
  | decoded c =>
      cases target with
      | none => exact ⟨m, t ++ [c], none, fun q => rfl⟩
      | some key =>
          exact ⟨StringMap.set key ((m.lookup key).getD [] ++ [c]) m, t, some key, fun q => rfl⟩
  | plain c =>
      cases target with
      | none =>
          by_cases equals : c = ch '='
          · refine ⟨StringMap.set t [] m, t, some t, fun q => ?_⟩
            simp only [QueryChar.give, paramDecoder, if_pos equals]
          · refine ⟨m, t ++ [c], none, fun q => ?_⟩
            simp only [QueryChar.give, paramDecoder, if_neg equals]
            rfl
      | some key =>
          by_cases ampersand : c = ch '&'
          · refine ⟨m, [], none, fun q => ?_⟩
            simp only [QueryChar.give, paramDecoder, if_pos ampersand]
          · refine ⟨StringMap.set key ((m.lookup key).getD [] ++ [c]) m, t, some key, fun q => ?_⟩
            simp only [QueryChar.give, paramDecoder, if_neg ampersand]
            rfl

open UrlDecoding in
theorem foldl_params (all : List QueryChar) (m : StringMap (List Byte)) (t : List Byte)
    (target : Option (List Byte)) : ∃ m' t' target', ∀ q : QueryParams H,
      all.foldl (QueryChar.give paramDecoder) ({ q with paramMap := m, parseTmp := t }, target) =
        ({ q with paramMap := m', parseTmp := t' }, target') := by
  induction all generalizing m t target with
  | nil => exact ⟨m, t, target, fun q => rfl⟩
  | cons c rest ih =>
      obtain ⟨m', t', target', first⟩ := give_params (H := H) c m t target
      obtain ⟨m'', t'', target'', later⟩ := ih m' t' target'
      refine ⟨m'', t'', target'', fun q => ?_⟩
      rw [List.foldl_cons, first, later]

open UrlDecoding in
/-- What `AddURLEncoded` does depends on the parameters only. -/
theorem addURLEncoded_params (range : List Byte) (m : StringMap (List Byte)) :
    (∀ q : QueryParams H, q.addURLEncoded range = none) ∨ ∃ m' t', ∀ q : QueryParams H,
      q.paramMap = m → q.addURLEncoded range = some { q with paramMap := m', parseTmp := t' } := by
  have decoded : ∀ q : QueryParams H, q.addURLEncoded range =
      (decode charDecoder [] range).map fun all =>
        (all.foldl (QueryChar.give paramDecoder) ({ q with parseTmp := [] }, none)).1 := by
    intro q
    have loop := addURLEncodedLoop_eq ({ q with parseTmp := [] }, none) range
    have given := decode_given paramDecoder ({ q with parseTmp := [] }, none) [] range
    rw [List.foldl_nil] at given
    rw [given, Option.map_map] at loop
    exact loop
  cases found : decode charDecoder [] range with
  | none =>
      left
      intro q
      rw [decoded, found, Option.map_none]
  | some all =>
      right
      obtain ⟨m', t', target', after⟩ := foldl_params (H := H) all m [] none
      refine ⟨m', t', ?_⟩
      rintro q rfl
      rw [decoded, found, Option.map_some]
      exact congrArg (fun out => some out.1) (after q)

end QueryParams

end MiniWebSrv.HTTP
