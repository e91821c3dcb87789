import MiniWebSrv.HTTP.UploadLimits

/-! # The life of uploaded files

A file is removed when a later one of the same name replaces it, and the destructor of the
connection removes those which the last query lists. A reset drops the list of the query before
it, and with it the files.
-/

namespace MiniWebSrv.HTTP

open Run

namespace StringMap

variable {V : Type} {key : List Byte} {value : V} {m : StringMap V} {e : List Byte × V}

theorem mem_of_lookup (found : m.lookup key = some value) : (key, value) ∈ m := by
  obtain ⟨before, after, rfl, -⟩ := List.lookup_eq_some_iff.mp found
  exact List.mem_append_right _ List.mem_cons_self

/-- An entry is still there after an assignment, unless it was the one assigned to. -/
theorem mem_set_of_mem (inside : e ∈ m) :
    e ∈ StringMap.set key value m ∨ m.lookup key = some e.2 := by
  induction m with
  | nil => cases inside
  | cons first rest ih =>
      obtain ⟨k, v⟩ := first
      simp only [StringMap.set, List.lookup_cons]
      by_cases same : k = key
      · subst same
        simp only [if_true, beq_self_eq_true]
        rcases List.mem_cons.mp inside with rfl | inside
        · exact Or.inr rfl
        · exact Or.inl (List.mem_cons_of_mem _ inside)
      · have other : (key == k) = false := beq_eq_false_iff_ne.mpr (Ne.symm same)
        simp only [if_neg same, other]
        rcases List.mem_cons.mp inside with rfl | inside
        · exact Or.inl List.mem_cons_self
        · rcases ih inside with still | found
          · exact Or.inl (List.mem_cons_of_mem _ still)
          · exact Or.inr found

theorem set_mem : (key, value) ∈ StringMap.set key value m := by
  induction m with
  | nil => exact List.mem_cons_self
  | cons first rest ih =>
      obtain ⟨k, v⟩ := first
      simp only [StringMap.set]
      split
      · exact List.mem_cons_self
      · exact List.mem_cons_of_mem _ ih

/-- Where the entries differ in something, an assignment leaves those which differ in it from
    the entry assigned to. -/
theorem mem_set {A : Type} {part : V → A} (distinct : (m.map fun e => part e.2).Nodup)
    (inside : e ∈ StringMap.set key value m) :
    e = (key, value) ∨ (e ∈ m ∧ ∀ old, m.lookup key = some old → part e.2 ≠ part old) := by
  induction m with
  | nil => exact Or.inl (List.mem_singleton.mp inside)
  | cons first rest ih =>
      obtain ⟨k, v⟩ := first
      obtain ⟨apart, distinct⟩ := List.nodup_cons.mp distinct
      simp only [StringMap.set] at inside
      by_cases same : k = key
      · subst same
        simp only [if_true] at inside
        rcases List.mem_cons.mp inside with rfl | inside
        · exact Or.inl rfl
        · refine Or.inr ⟨List.mem_cons_of_mem _ inside, fun old found equal => ?_⟩
          simp only [List.lookup_cons, beq_self_eq_true, Option.some.injEq] at found
          subst found
          exact apart (List.mem_map.mpr ⟨e, inside, equal⟩)
      · have other : (key == k) = false := beq_eq_false_iff_ne.mpr (Ne.symm same)
        simp only [if_neg same] at inside
        rcases List.mem_cons.mp inside with rfl | inside
        · refine Or.inr ⟨List.mem_cons_self, fun old found equal => ?_⟩
          simp only [List.lookup_cons, other] at found
          exact apart (List.mem_map.mpr ⟨(key, old), mem_of_lookup found, equal.symm⟩)
        · rcases ih distinct inside with new | ⟨inside, differs⟩
          · exact Or.inl new
          · refine Or.inr ⟨List.mem_cons_of_mem _ inside, fun old found => differs old ?_⟩
            simpa only [List.lookup_cons, other] using found

theorem mem_set_weak (inside : e ∈ StringMap.set key value m) : e = (key, value) ∨ e ∈ m := by
  induction m with
  | nil => exact Or.inl (List.mem_singleton.mp inside)
  | cons first rest ih =>
      obtain ⟨k, v⟩ := first
      simp only [StringMap.set] at inside
      split at inside
      · rcases List.mem_cons.mp inside with rfl | inside
        · exact Or.inl rfl
        · exact Or.inr (List.mem_cons_of_mem _ inside)
      · rcases List.mem_cons.mp inside with rfl | inside
        · exact Or.inr List.mem_cons_self
        · exact (ih inside).imp id (List.mem_cons_of_mem _)

theorem set_nodup {A : Type} {part : V → A} (distinct : (m.map fun e => part e.2).Nodup)
    (new : ∀ e ∈ m, part e.2 ≠ part value) :
    ((StringMap.set key value m).map fun e => part e.2).Nodup := by
  induction m with
  | nil => exact List.nodup_cons.mpr ⟨List.not_mem_nil, List.nodup_nil⟩
  | cons first rest ih =>
      obtain ⟨k, v⟩ := first
      obtain ⟨apart, distinct⟩ := List.nodup_cons.mp distinct
      simp only [StringMap.set]
      split
      · refine List.nodup_cons.mpr ⟨fun inside => ?_, distinct⟩
        obtain ⟨e, inside, equal⟩ := List.mem_map.mp inside
        exact new e (List.mem_cons_of_mem _ inside) equal
      · refine List.nodup_cons.mpr ⟨fun inside => ?_,
          ih distinct fun e inside => new e (List.mem_cons_of_mem _ inside)⟩
        obtain ⟨e, inside, equal⟩ := List.mem_map.mp inside
        rcases mem_set distinct inside with rfl | ⟨inside, -⟩
        · exact new _ List.mem_cons_self equal.symm
        · exact apart (List.mem_map.mpr ⟨e, inside, equal⟩)

end StringMap

namespace TempFileUploadHelper

variable {h h' : TempFileUploadHelper} {m : StringMap File} {path : Path}

/-- The paths of the files made so far, and whether they have been passed to `remove`. -/
def marks (h : TempFileUploadHelper) : List (Path × Bool) :=
  h.fileSystem.files.map fun f => (f.path, f.removed)

theorem onFileData_marks (h : TempFileUploadHelper) (bytes : List Byte) :
    (h.onFileData bytes).2.marks = h.marks ∧
      (h.onFileData bytes).2.fileSystem.paths = h.fileSystem.paths := by
  have given : (h.give bytes).marks = h.marks ∧
      (h.give bytes).fileSystem.paths = h.fileSystem.paths := by
    unfold give
    split
    · rename_i files
      simp only [marks, files, List.map_cons, and_self]
    · exact ⟨rfl, rfl⟩
  have written : ∀ (h : TempFileUploadHelper) (stream : OfStream),
      (h.write stream bytes).2.marks = h.marks ∧
        (h.write stream bytes).2.fileSystem.paths = h.fileSystem.paths := by
    intro h stream
    unfold write
    split
    · rename_i files
      simp only [marks, files, List.map_cons, and_self]
    · exact ⟨rfl, rfl⟩
  simp only [onFileData]
  split
  · exact ⟨rfl, rfl⟩
  · split
    · exact given
    · split
      · exact given
      · exact ⟨(written _ _).1.trans given.1, (written _ _).2.trans given.2⟩

theorem onNewFile_refused (opened : h.onNewFile = ((path, false), h')) :
    h'.marks = h.marks ∧ h.fileSystem.paths ≤ h'.fileSystem.paths := by
  simp only [onNewFile] at opened
  split at opened
  · obtain ⟨-, rfl⟩ := Prod.mk.inj opened
    exact ⟨rfl, Nat.le_refl _⟩
  · split at opened
    · obtain ⟨-, rfl⟩ := Prod.mk.inj opened
      exact ⟨rfl, Nat.le_succ _⟩
    · obtain ⟨-, rfl⟩ := Prod.mk.inj opened
      exact ⟨rfl, Nat.le_succ _⟩
    · simp at opened

theorem onNewFile_accepted (opened : h.onNewFile = ((path, true), h')) :
    path = .temp h.params.root h.fileSystem.paths ∧ h'.marks = (path, false) :: h.marks ∧
      h'.fileSystem.paths = h.fileSystem.paths + 1 := by
  simp only [onNewFile] at opened
  split at opened
  · simp at opened
  · split at opened
    · simp at opened
    · simp at opened
    · obtain ⟨same, rfl⟩ := Prod.mk.inj opened
      obtain ⟨rfl, -⟩ := Prod.mk.inj same
      exact ⟨rfl, rfl, rfl⟩

theorem mem_marks_remove {k : Path × Bool} :
    k ∈ marks (FileUploadHelper.remove h path) ↔
      ∃ old ∈ h.marks, (if old.1 = path then (old.1, true) else old) = k := by
  simp only [marks, FileUploadHelper.remove, FileSystem.remove, List.map_map, List.mem_map]
  constructor
  · rintro ⟨f, inside, rfl⟩
    refine ⟨_, ⟨f, inside, rfl⟩, ?_⟩
    simp only [Function.comp_apply]
    split <;> rfl
  · rintro ⟨_, ⟨f, inside, rfl⟩, rfl⟩
    refine ⟨f, inside, ?_⟩
    simp only [Function.comp_apply]
    split <;> rfl

/-- A file which has not been removed was not there under this path, and had not been either. -/
theorem unmarked_remove {p : Path} :
    (p, false) ∈ marks (FileUploadHelper.remove h path) ↔ (p, false) ∈ h.marks ∧ p ≠ path := by
  rw [mem_marks_remove]
  constructor
  · rintro ⟨⟨q, removed⟩, inside, same⟩
    split at same
    · simp at same
    · rename_i other
      obtain ⟨rfl, rfl⟩ := Prod.mk.inj same
      exact ⟨inside, other⟩
  · rintro ⟨inside, other⟩
    exact ⟨_, inside, if_neg other⟩

/-- Every path which has been made has a number of its own. -/
def Numbered (h : TempFileUploadHelper) (p : Path) : Prop :=
  ∃ root n, p = .temp root n ∧ n < h.fileSystem.paths

theorem Numbered.mono {p : Path} (numbered : Numbered h p)
    (le : h.fileSystem.paths ≤ h'.fileSystem.paths) : Numbered h' p := by
  obtain ⟨root, n, same, less⟩ := numbered
  exact ⟨root, n, same, Nat.lt_of_lt_of_le less le⟩

theorem Numbered.ne_new {p : Path} (numbered : Numbered h p) (root : List Byte) :
    p ≠ .temp root h.fileSystem.paths := by
  obtain ⟨root, n, rfl, less⟩ := numbered
  intro same
  obtain ⟨-, rfl⟩ := Path.temp.inj same
  exact Nat.lt_irrefl _ less

/-- The files which have not been removed are those which the query lists. -/
structure Owned (m : StringMap File) (h : TempFileUploadHelper) : Prop where
  numbered : ∀ k ∈ h.marks, Numbered h k.1
  owned : ∀ p, (p, false) ∈ h.marks → ∃ e ∈ m, e.2.path = p
  listed : ∀ e ∈ m, (e.2.path, false) ∈ h.marks
  distinct : (m.map fun e => e.2.path).Nodup

/-- A file which has not been removed and is not listed. -/
structure Lost (p : Path) (m : StringMap File) (h : TempFileUploadHelper) : Prop where
  numbered : Numbered h p
  there : (p, false) ∈ h.marks
  unlisted : ∀ e ∈ m, e.2.path ≠ p

/-- The calls which leave the paths alone. -/
theorem Owned.of_same {h' : TempFileUploadHelper} (owned : Owned m h) (marks : h'.marks = h.marks)
    (paths : h.fileSystem.paths ≤ h'.fileSystem.paths) : Owned m h' := by
  obtain ⟨numbered, owned, listed, distinct⟩ := owned
  rw [← marks] at numbered owned listed
  exact ⟨fun k inside => (numbered k inside).mono paths, owned, listed, distinct⟩

theorem Lost.of_same {p : Path} (lost : Lost p m h) (marks : h'.marks = h.marks)
    (paths : h.fileSystem.paths ≤ h'.fileSystem.paths) : Lost p m h' :=
  ⟨lost.numbered.mono paths, marks ▸ lost.there, lost.unlisted⟩

theorem owned_tracks : QueryParams.Tracks Owned := by
  refine ⟨fun bytes owned => ?_, fun owned => owned.of_same rfl (Nat.le_refl _), ?_, ?_⟩
  · obtain ⟨marks, paths⟩ := onFileData_marks _ bytes
    exact owned.of_same marks (Nat.le_of_eq paths.symm)
  · intro m h name origFileName mimeType path h' owned opened
    obtain ⟨marks, paths⟩ := onNewFile_refused opened
    exact owned.of_same marks paths
  · intro m h name origFileName mimeType path h' owned opened
    obtain ⟨new, marks, paths⟩ := onNewFile_accepted opened
    obtain ⟨numbered, owned, listed, distinct⟩ := owned
    have later : ∀ k ∈ h'.marks, Numbered h' k.1 := by
      intro k inside
      rw [marks] at inside
      rcases List.mem_cons.mp inside with rfl | inside
      · exact ⟨_, _, new, by omega⟩
      · exact (numbered k inside).mono (by omega)
    have unlisted : ∀ e ∈ m, e.2.path ≠ path := by
      intro e inside
      rw [new]
      exact (numbered _ (listed e inside)).ne_new _
    generalize previous : ((m.lookup name).map File.path).getD .empty = old
    -- only the entry which has just been replaced has the path which is removed
    have replaced : ∀ e ∈ m, e.2.path ≠ old →
        e ∈ StringMap.set name ⟨mimeType, origFileName, path⟩ m := by
      intro e inside other
      rcases StringMap.mem_set_of_mem inside with still | found
      · exact still
      · rw [found, Option.map_some, Option.getD_some] at previous
        exact absurd previous other
    have others : ∀ e ∈ StringMap.set name ⟨mimeType, origFileName, path⟩ m,
        e.2.path = path ∨ (e ∈ m ∧ ((m.lookup name).isSome → e.2.path ≠ old)) := by
      intro e inside
      rcases StringMap.mem_set distinct inside with rfl | ⟨inside, differs⟩
      · exact Or.inl rfl
      · refine Or.inr ⟨inside, fun some_ => ?_⟩
        obtain ⟨file, found⟩ := Option.isSome_iff_exists.mp some_
        rw [found, Option.map_some, Option.getD_some] at previous
        exact previous ▸ differs file found
    have nodup : ((StringMap.set name ⟨mimeType, origFileName, path⟩ m).map
        fun e => e.2.path).Nodup := StringMap.set_nodup distinct unlisted
    have ownedStill : ∀ p, (p, false) ∈ h'.marks → p ≠ old →
        ∃ e ∈ StringMap.set name ⟨mimeType, origFileName, path⟩ m, e.2.path = p := by
      intro p inside other
      rw [marks] at inside
      rcases List.mem_cons.mp inside with same | inside
      · exact ⟨_, StringMap.set_mem, (Prod.mk.inj same).1.symm⟩
      · obtain ⟨e, mapped, rfl⟩ := owned p inside
        exact ⟨e, replaced e mapped other, rfl⟩
    have listedStill : ∀ e ∈ StringMap.set name ⟨mimeType, origFileName, path⟩ m,
        (e.2.path, false) ∈ h'.marks := by
      intro e inside
      rw [marks]
      rcases others e inside with same | ⟨inside, -⟩
      · rw [same]
        exact List.mem_cons_self
      · exact List.mem_cons_of_mem _ (listed e inside)
    split
    · rename_i some_
      obtain ⟨file, found⟩ : ∃ file, m.lookup name = some file := by
        cases found : m.lookup name with
        | none =>
            rw [found] at previous
            exact absurd previous.symm some_
        | some file => exact ⟨file, rfl⟩
      refine ⟨?_, ?_, ?_, nodup⟩
      · intro k inside
        obtain ⟨before, there, rfl⟩ := mem_marks_remove.mp inside
        have number := later before there
        split <;> exact number
      · intro p inside
        obtain ⟨inside, other⟩ := unmarked_remove.mp inside
        exact ownedStill p inside other
      · intro e inside
        refine unmarked_remove.mpr ⟨listedStill e inside, ?_⟩
        rcases others e inside with same | ⟨-, differs⟩
        · rw [found, Option.map_some, Option.getD_some] at previous
          rw [same, ← previous]
          exact (unlisted _ (StringMap.mem_of_lookup found)).symm
        · exact differs (by rw [found]; rfl)
    · rename_i none_
      refine ⟨later, fun p inside => ownedStill p inside ?_, listedStill, nodup⟩
      obtain ⟨root, n, same, -⟩ := later _ inside
      simp only at same
      rw [not_not.mp none_, same]
      exact nofun

theorem lost_tracks (p : Path) : QueryParams.Tracks (Lost p) := by
  refine ⟨fun bytes lost => ?_, fun lost => lost.of_same rfl (Nat.le_refl _), ?_, ?_⟩
  · obtain ⟨marks, paths⟩ := onFileData_marks _ bytes
    exact lost.of_same marks (Nat.le_of_eq paths.symm)
  · intro m h name origFileName mimeType path h' lost opened
    obtain ⟨marks, paths⟩ := onNewFile_refused opened
    exact lost.of_same marks paths
  · intro m h name origFileName mimeType path h' lost opened
    obtain ⟨new, marks, paths⟩ := onNewFile_accepted opened
    obtain ⟨numbered, there, unlisted⟩ := lost
    have later : Numbered h' p := numbered.mono (by omega)
    have still : (p, false) ∈ h'.marks := marks ▸ List.mem_cons_of_mem _ there
    have unlistedStill : ∀ e ∈ StringMap.set name ⟨mimeType, origFileName, path⟩ m,
        e.2.path ≠ p := by
      intro e inside
      rcases StringMap.mem_set_weak inside with rfl | inside
      · rw [new]
        exact (numbered.ne_new _).symm
      · exact unlisted e inside
    split
    · rename_i some_
      refine ⟨later, unmarked_remove.mpr ⟨still, ?_⟩, unlistedStill⟩
      cases found : m.lookup name with
      | none =>
          rw [found] at some_
          exact absurd rfl some_
      | some file => exact (unlisted _ (StringMap.mem_of_lookup found)).symm
    · exact ⟨later, still, unlistedStill⟩

end TempFileUploadHelper

/-! ## The destructor -/

namespace QueryParams

variable {H : Type} [FileUploadHelper H]

/-- The loop of `DeleteUploadedFiles`. -/
def deleteFiles : StringMap File → H → H
  | [], h => h
  | e :: rest, h =>
      deleteFiles rest (if e.2.path ≠ .empty then FileUploadHelper.remove h e.2.path else h)

def deleteUploadedFiles (q : QueryParams H) : QueryParams H :=
  { q with helper := deleteFiles q.fileMap q.helper }

end QueryParams

namespace TempFileUploadHelper

open QueryParams

variable {h : TempFileUploadHelper} {m : StringMap File}

/-- The files of a list are removed, and no others. -/
theorem unmarked_deleteFiles {p : Path} (some_ : p ≠ .empty) :
    (p, false) ∈ marks (deleteFiles m h) ↔ (p, false) ∈ h.marks ∧ ∀ e ∈ m, e.2.path ≠ p := by
  induction m generalizing h with
  | nil => simp only [deleteFiles, List.not_mem_nil, false_implies, implies_true, and_true]
  | cons e rest ih =>
      simp only [deleteFiles, ih, List.forall_mem_cons]
      split
      · rw [unmarked_remove]
        constructor
        · rintro ⟨⟨there, other⟩, unlisted⟩
          exact ⟨there, other.symm, unlisted⟩
        · rintro ⟨there, other, unlisted⟩
          exact ⟨⟨there, other.symm⟩, unlisted⟩
      · rename_i none_
        constructor
        · rintro ⟨there, unlisted⟩
          exact ⟨there, not_not.mp none_ ▸ some_.symm, unlisted⟩
        · rintro ⟨there, -, unlisted⟩
          exact ⟨there, unlisted⟩

theorem Owned.all_removed (owned : Owned m h) : ∀ p, (p, false) ∉ marks (deleteFiles m h) := by
  intro p there
  by_cases some_ : p = .empty
  · -- the empty path is not the path of a file
    have paths : ∀ (m : StringMap File) (h : TempFileUploadHelper),
        (p, false) ∈ marks (deleteFiles m h) → (p, false) ∈ h.marks := by
      intro m
      induction m with
      | nil => exact fun h inside => inside
      | cons e rest ih =>
          intro h inside
          have before := ih _ inside
          split at before
          · exact (unmarked_remove.mp before).1
          · exact before
    obtain ⟨root, n, same, -⟩ := owned.numbered _ (paths m h there)
    rw [some_] at same
    cases same
  · obtain ⟨there, unlisted⟩ := (unmarked_deleteFiles some_).mp there
    obtain ⟨e, inside, same⟩ := owned.owned p there
    exact unlisted e inside same

theorem Lost.remains {p : Path} (lost : Lost p m h) : (p, false) ∈ marks (deleteFiles m h) := by
  obtain ⟨root, n, same, -⟩ := lost.numbered
  exact (unmarked_deleteFiles (by rw [same]; exact nofun)).mpr ⟨lost.there, lost.unlisted⟩

end TempFileUploadHelper

namespace Connection

open TempFileUploadHelper

/-- What `~Connection` does about the uploads. -/
def destroy {H : Type} [FileUploadHelper H] (c : Connection H) : Connection H :=
  { c with currQuery := c.currQuery.deleteUploadedFiles }

variable {c t : Connection TempFileUploadHelper}

/-- The reset finds no files listed. -/
def NothingListed (c : Connection TempFileUploadHelper) (e : Event) : Prop :=
  c.Resets e → ∀ e ∈ c.currQuery.fileMap, e.2.path = .empty

theorem exec_lost {p : Path} {events : List Event}
    (lost : Lost p c.currQuery.fileMap c.currQuery.helper) (run : exec step c events = some t) :
    Lost p t.currQuery.fileMap t.currQuery.helper :=
  Run.invariant (P := fun c : Connection TempFileUploadHelper =>
      Lost p c.currQuery.fileMap c.currQuery.helper)
    (fun _ _ _ lost run => step_uploads (lost_tracks p)
      (fun _ => ⟨lost.numbered, lost.there, nofun⟩) lost run) lost run

theorem step_owned {e : Event} (owned : Owned c.currQuery.fileMap c.currQuery.helper)
    (nothing : c.NothingListed e) (run : c.step e = some t) :
    Owned t.currQuery.fileMap t.currQuery.helper := by
  refine step_uploads owned_tracks (fun resets => ?_) owned run
  refine ⟨owned.numbered, fun p there => ?_, nofun, List.nodup_nil⟩
  -- a file which has not been removed is listed, with its path
  obtain ⟨e, inside, rfl⟩ := owned.owned p there
  obtain ⟨root, n, same, -⟩ := owned.numbered _ there
  have empty := nothing resets e inside
  simp only at same
  rw [empty] at same
  cases same

/-- When the connection has been destroyed, every file of the run has been removed if and only if
    no reset of the run has found a file listed. -/
theorem all_removed_iff {conf : FileUpload} {opening : Nat → Opening}
    {stored : Nat → Nat → Nat → Nat} {limit : UInt32} {mem postHeaderMem : Mem Nat Byte}
    {resource : List Byte} {first second : Junk} {events : List Event}
    (run : exec step (withUploads conf opening stored limit mem postHeaderMem resource first second)
      events = some t) :
    (∀ f ∈ t.destroy.tempFiles, f.removed = true) ↔
      Along step NothingListed
        (withUploads conf opening stored limit mem postHeaderMem resource first second) events := by
  have unmarked : (∀ f ∈ t.destroy.tempFiles, f.removed = true) ↔
      ∀ p, (p, false) ∉ marks (QueryParams.deleteFiles t.currQuery.fileMap t.currQuery.helper) := by
    constructor
    · intro all p inside
      obtain ⟨f, inside, same⟩ := List.mem_map.mp inside
      obtain ⟨-, removed⟩ := Prod.mk.inj same
      exact absurd (all f inside) (by rw [removed]; exact Bool.false_ne_true)
    · intro none_ f inside
      cases removed : f.removed with
      | true => rfl
      | false => exact absurd (List.mem_map.mpr ⟨f, inside, by rw [removed]⟩) (none_ f.path)
  rw [unmarked]
  have initial : Owned
      (withUploads conf opening stored limit mem postHeaderMem resource first second).currQuery.fileMap
      (withUploads conf opening stored limit mem postHeaderMem resource first second).currQuery.helper :=
    ⟨List.forall_mem_nil _, fun _ inside => absurd inside List.not_mem_nil, List.forall_mem_nil _,
      List.nodup_nil⟩
  generalize withUploads conf opening stored limit mem postHeaderMem resource first second = c
    at run initial
  induction events generalizing c with
  | nil =>
      obtain rfl := Option.some.inj run
      exact ⟨fun _ => trivial, fun _ => initial.all_removed⟩
  | cons e rest ih =>
      obtain ⟨mid, taken, run⟩ := exec_cons_some.mp run
      simp only [Along, next_iff taken]
      constructor
      · intro all
        have nothing : c.NothingListed e := by
          intro resets entry inside
          by_contra listed
          -- the reset loses this file
          have there := initial.listed entry inside
          have lost : Lost entry.2.path mid.currQuery.fileMap mid.currQuery.helper := by
            obtain ⟨fileMap, helper⟩ := resets_uploads resets taken
            rw [fileMap, helper]
            exact ⟨initial.numbered _ there, there, List.forall_mem_nil _⟩
          exact all _ (exec_lost lost run).remains
        exact ⟨nothing, (ih mid run (step_owned initial nothing taken)).mp all⟩
      · rintro ⟨nothing, later⟩
        exact (ih mid run (step_owned initial nothing taken)).mpr later

instance (c : Connection TempFileUploadHelper) (e : Event) : Decidable (c.NothingListed e) := by
  unfold NothingListed
  infer_instance

/-- A request with a file, and the end of the connection. -/
theorem all_removed_single : ∃ t : Connection TempFileUploadHelper,
    exec step (withLimits 2 2) [.read filePost, .go, .go, .responded false ⟨0, none⟩] = some t ∧
    t.tempFiles ≠ [] ∧ ∀ f ∈ t.destroy.tempFiles, f.removed = true := by
  have facts : (exec step (withLimits 2 2)
      [.read filePost, .go, .go, .responded false ⟨0, none⟩]).map (fun t => t.tempFiles.length) =
      some 1 := by
    decide +kernel
  obtain ⟨t, run, length⟩ := Option.map_eq_some_iff.mp facts
  refine ⟨t, run, fun none_ => ?_, (all_removed_iff run).mpr (by decide +kernel)⟩
  rw [none_] at length
  cases length

/-- The file of a request which is followed by another one stays for ever. -/
theorem file_left_behind : ¬∀ (events : List Event) (t : Connection TempFileUploadHelper),
    exec step (withLimits 2 2) events = some t → ∀ f ∈ t.destroy.tempFiles, f.removed = true := by
  intro all
  have facts : (exec step (withLimits 2 2)
      [.read filePost, .go, .go, .responded true ⟨0, none⟩]).map (fun t => t.destroy.tempFiles) =
      some [⟨.temp [] 0, 1, text "ab", text "ab", false⟩] := by
    decide +kernel
  obtain ⟨t, run, files⟩ := Option.map_eq_some_iff.mp facts
  have removed := all _ t run
  rw [files] at removed
  exact absurd (removed _ List.mem_cons_self) nofun

end Connection

end MiniWebSrv.HTTP
