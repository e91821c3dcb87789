import MiniWebSrv.HTTP.Connection

/-! # The default upload helper

`QueryParams::TempFileUploadHelper` over a file system, which may fail to open a file and may
store a part of a write only. The file system remembers every file which it has opened, with the
request it was for, the bytes which the helper was given for it, and whether its path has been
passed to `remove`.
-/

namespace MiniWebSrv.HTTP

open Word

/-- `Config::FileUpload` -/
structure FileUpload where
  root : List Byte
  maxUploadSize : Nat
  maxTotalUploadSize : Nat

namespace FileUpload

/-- The default constructor. -/
def unlimited : FileUpload := ⟨[], u64 (2 ^ 64 - 1), u64 (2 ^ 64 - 1)⟩

end FileUpload

structure TempFile where
  path : Path
  request : Nat
  given : List Byte
  contents : List Byte
  removed : Bool
  deriving DecidableEq, Repr

/-- How an attempt to make a file ends. -/
inductive Opening where
  | throws
  | closed
  | opened
  deriving DecidableEq, Repr

structure FileSystem where
  /-- What becomes of the `n`-th path. -/
  opening : Nat → Opening
  /-- How many bytes of a write to the `n`-th path are stored behind those already there. -/
  stored : (n size length : Nat) → Nat
  /-- The number of `unique_path()` so far. -/
  paths : Nat
  /-- The last one first. -/
  files : List TempFile
  /-- The number of `QueryParams()` so far. -/
  requests : Nat

/-- `boost::filesystem::remove` -/
def FileSystem.remove (fs : FileSystem) (path : Path) : FileSystem :=
  { fs with files := fs.files.map fun f => if f.path = path then { f with removed := true } else f }

/-- `boost::filesystem::ofstream`. An open one writes to the last file of the file system. -/
structure OfStream where
  isOpen : Bool
  fail : Bool
  deriving DecidableEq, Repr

structure TempFileUploadHelper where
  params : FileUpload
  currFileS : Option OfStream
  currFileSize : Nat
  totalFileSize : Nat
  fileSystem : FileSystem

namespace TempFileUploadHelper

def init (params : FileUpload) (fileSystem : FileSystem) : TempFileUploadHelper :=
  ⟨params, none, 0, 0, fileSystem⟩

/-- `CurrFileSize` goes on from the last file. -/
def onNewFile (h : TempFileUploadHelper) : (Path × Bool) × TempFileUploadHelper :=
  let h := { h with currFileS := none }
  if h.params.maxUploadSize = 0 ∨ h.params.maxTotalUploadSize = 0 then
    ((.empty, false), h)
  else
    let fs := h.fileSystem
    let path := Path.temp h.params.root fs.paths
    match fs.opening fs.paths with
    | .throws => ((.empty, false), { h with fileSystem := { fs with paths := fs.paths + 1 } })
    | .closed => ((path, false), { h with
        currFileS := some ⟨false, true⟩
        fileSystem := { fs with paths := fs.paths + 1 } })
    | .opened => ((path, true), { h with
        currFileS := some ⟨true, false⟩
        fileSystem := { fs with
          paths := fs.paths + 1
          files := ⟨path, fs.requests, [], [], false⟩ :: fs.files } })

/-- The bytes come to the helper while the last file is open. -/
def give (h : TempFileUploadHelper) (bytes : List Byte) : TempFileUploadHelper :=
  match h.currFileS, h.fileSystem.files with
  | some ⟨true, _⟩, file :: rest => { h with
      fileSystem := { h.fileSystem with files := { file with given := file.given ++ bytes } :: rest } }
  | _, _ => h

/-- `CurrFileS->write`, and the result of its `fail()`. -/
def write (h : TempFileUploadHelper) (stream : OfStream) (bytes : List Byte) :
    Bool × TempFileUploadHelper :=
  match stream, h.fileSystem.files with
  | ⟨true, false⟩, file :: rest =>
      let stored := h.fileSystem.stored (h.fileSystem.paths - 1) file.contents.length bytes.length
      let fail := decide (stored < bytes.length)
      (fail, { h with
        currFileS := some ⟨true, fail⟩
        fileSystem := { h.fileSystem with
          files := { file with contents := file.contents ++ bytes.take stored } :: rest } })
  | _, _ => (true, h)

def onFileData (h : TempFileUploadHelper) (bytes : List Byte) : Bool × TempFileUploadHelper :=
  match h.currFileS with
  | none => (false, h)
  | some stream =>
      let h := { h.give bytes with currFileSize := u64 (h.currFileSize + bytes.length) }
      if h.params.maxUploadSize < h.currFileSize then
        (false, h)
      else
        let h := { h with totalFileSize := u64 (h.totalFileSize + bytes.length) }
        if h.params.maxTotalUploadSize < h.totalFileSize then
          (false, h)
        else
          let r := h.write stream bytes
          (!r.1, r.2)

def onFileEnd (h : TempFileUploadHelper) : TempFileUploadHelper := { h with currFileS := none }

instance : FileUploadHelper TempFileUploadHelper where
  onNewFile h _ _ _ := h.onNewFile
  onFileData := onFileData
  onFileEnd := onFileEnd
  remove h path := { h with fileSystem := h.fileSystem.remove path }
  default h := init .unlimited { h.fileSystem with requests := h.fileSystem.requests + 1 }

end TempFileUploadHelper

end MiniWebSrv.HTTP
