/-
  OmpRelayd.Blob.Disk — the store and its filesystem as one interleaved system
  (server/src/blob.rs: `Upload`, `Maintenance`; server/src/http.rs: `put`).

  A step is one critical section of the index mutex, one filesystem operation, or the code a
  task runs between two awaits; nothing else orders the tasks. A filesystem operation of
  tokio runs on a blocking thread: the task submits it, some later step performs it, and a
  still later one resumes the task with the reply. A task dropped in between leaves its
  operation to be performed all the same (`detached`).

  `write_all` hands its buffer to a background thread and returns. The next write on the
  handle waits for it and reports its failure; dropping the handle does not wait, and the
  buffer is then written, or lost, at any later moment (`orphans`). Background writes are
  the only operations that fail here for a reason outside the store; the others fail when a
  name they need is gone.

  `hash` stands for SHA-256 in base64url. A file is known by the number in the temporary
  name it was created under, which no other upload draws; its content goes by that number,
  whatever name it has now. Fetches only read. The root is there throughout; its removal at
  shutdown is `Process`'s.
-/

import OmpRelayd.Blob.Views
import OmpRelayd.Lib.Bytes

namespace OmpRelayd.Blob

/-! ## The filesystem -/

structure Fs where
  dirs : List RoomId := []
  files : Map Path Nat := ∅
  content : Nat → Bytes := fun _ => []

inductive Reply where
  | ok
  | alreadyExists
  | notFound
  deriving DecidableEq, Repr

inductive Op where
  | mkdir (room : RoomId)
  | symlinkMetadata (room : RoomId)
  | setPermissions (room : RoomId)
  | create (room : RoomId) (digest : String) (n : Nat)
  | rename (source target : Path)
  | unlink (path : Path)
  deriving DecidableEq, Repr

namespace Fs

def unlink (fs : Fs) (path : Path) : Fs := { fs with files := fs.files.erase path }

def append (fs : Fs) (n : Nat) (bytes : Bytes) : Fs :=
  { fs with content := Function.update fs.content n (fs.content n ++ bytes) }

def perform (fs : Fs) : Op → Fs × Reply
  | .mkdir room => if room ∈ fs.dirs then (fs, .alreadyExists) else ({ fs with dirs := room :: fs.dirs }, .ok)
  | .symlinkMetadata room => (fs, if room ∈ fs.dirs then .ok else .notFound)
  | .setPermissions room => (fs, if room ∈ fs.dirs then .ok else .notFound)
  | .create room digest n =>
    if room ∈ fs.dirs then
      ({ fs with
        files := fs.files.insert (tempPath room digest n) n
        content := Function.update fs.content n [] }, .ok)
    else (fs, .notFound)
  | .rename source target =>
    match fs.files.lookup source with
    | none => (fs, .notFound)
    | some n => ({ fs with files := (fs.files.erase source).insert target n }, .ok)
  | .unlink path => (fs.unlink path, if (fs.files.lookup path).isSome then .ok else .notFound)

/-- The names in a room's directory. -/
def names (fs : Fs) (room : RoomId) : List Name :=
  (fs.files.entries.filter fun e => e.1.room == room).map (·.1.name)

/-- `rmdir`, which a directory that is not empty refuses. -/
def rmdir (fs : Fs) (room : RoomId) : Fs :=
  if (fs.names room).isEmpty then { fs with dirs := fs.dirs.filter (· != room) } else fs

end Fs

/-! ## Uploads -/

/-- The open handle's last write: completed, on a background thread, or failed and not yet reported. -/
inductive Handle where
  | idle
  | pending (buffer : Bytes)
  | failed
  deriving DecidableEq, Repr

/-- The call that is opening the temporary file: `write` with its chunk, or `commit` for a
    payload of no bytes. -/
inductive Next where
  | write (chunk : Bytes)
  | finish
  deriving DecidableEq, Repr

/-- The calls of `create_private_dir_if_absent`. -/
inductive DirCall where
  | mkdir
  | symlinkMetadata
  | setPermissions
  deriving DecidableEq, Repr

/-- Where an upload's task is suspended. An operation it awaits carries its reply once performed. -/
inductive Phase where
  /-- `put` waits for the next body frame. -/
  | ready
  | opening (call : DirCall) (reply : Option Reply) (next : Next)
  | creating (n : Nat) (reply : Option Reply) (next : Next)
  /-- `write_all` waits for the handle's last write. -/
  | filling (chunk : Bytes)
  | moving (source : Path) (reply : Option Reply)
  /-- `finish` holds the error of `commit` and is about to look for what to remove. -/
  | refused (error : UploadError)
  | unlinking (path : Path) (reply : Option Reply) (error : UploadError)
  /-- `finish` is returning its error, so the upload is about to be dropped. -/
  | dropping (error : UploadError)
  deriving DecidableEq, Repr

structure Upload where
  guard : Guard
  /-- What the hasher has been fed. -/
  hashed : Bytes := []
  written : Nat := 0
  temp : Option Path := none
  file : Option Handle := none
  /-- The number of the temporary file it has created. -/
  created : Option Nat := none
  phase : Phase := .ready
  deriving DecidableEq, Repr

def Upload.finalPath (u : Upload) : Path := payloadPath u.guard.room u.guard.digest

/-- The operation the task has submitted and nothing has performed yet. -/
def Upload.op (u : Upload) : Option Op :=
  match u.phase with
  | .opening .mkdir none _ => some (.mkdir u.guard.room)
  | .opening .symlinkMetadata none _ => some (.symlinkMetadata u.guard.room)
  | .opening .setPermissions none _ => some (.setPermissions u.guard.room)
  | .creating n none _ => some (.create u.guard.room u.guard.digest n)
  | .moving source none => some (.rename source u.finalPath)
  | .unlinking path none _ => some (.unlink path)
  | _ => none

def Phase.answer (reply : Reply) : Phase → Phase
  | .opening call _ next => .opening call (some reply) next
  | .creating n _ next => .creating n (some reply) next
  | .moving source _ => .moving source (some reply)
  | .unlinking path _ error => .unlinking path (some reply) error
  | phase => phase

/-- Between these the task runs without awaiting, so nothing can drop it. -/
def Phase.awaits : Phase → Bool
  | .refused _ => false
  | .dropping _ => false
  | _ => true

/-- `write_all` and the bookkeeping after it; an empty chunk submits nothing. -/
def Upload.append (u : Upload) (chunk : Bytes) : Upload :=
  { u with
    file := if chunk.isEmpty then u.file else some (.pending chunk)
    hashed := u.hashed ++ chunk
    written := u.written + chunk.length
    phase := .ready }

/-! ## The system -/

inductive Maint where
  | idle
  | checking (removal : Removal)
  /-- `remove_file`. -/
  | unlinking (target : Target)
  /-- `remove_dir_all`: the names still to unlink, once the directory has been read. -/
  | clearing (room : RoomId) (names : Option (List Name))
  deriving DecidableEq, Repr

/-- How an upload's `put` ended, and the file it had created. -/
structure Outcome where
  guard : Guard
  file : Option Nat
  result : Except UploadError Nat

structure Sys where
  store : Store := {}
  fs : Fs := {}
  /-- The uploads alive, by serial. -/
  uploads : Map Nat Upload := ∅
  detached : List Op := []
  orphans : Map Nat Bytes := ∅
  /-- Removals decided and not yet sent to the channel. -/
  unsent : List Removal := []
  queue : List Removal := []
  maint : Maint := .idle
  /-- The files a write of which has failed. -/
  faults : List Nat := []
  outcomes : List Outcome := []

/-- The handle is dropped: a write it has submitted stays with the background thread. -/
def orphaned (orphans : Map Nat Bytes) (u : Upload) : Map Nat Bytes :=
  match u.created, u.file with
  | some n, some (.pending buffer) => orphans.insert n buffer
  | _, _ => orphans

namespace Sys

def put (s : Sys) (k : Nat) (u : Upload) : Sys := { s with uploads := s.uploads.insert k u }

/-- `Drop for Upload`, of one that is not settled. -/
def dropUpload (s : Sys) (k : Nat) (u : Upload) : Sys :=
  { s with
    store := s.store.abandonUpload u.guard.room u.guard.digest u.guard.serial
    uploads := s.uploads.erase k
    unsent := s.unsent ++ (u.temp.map Removal.temp).toList
    orphans := orphaned s.orphans u
    detached := s.detached ++ u.op.toList }

def endUpload (s : Sys) (k : Nat) (u : Upload) (error : UploadError) : Sys :=
  { s.dropUpload k u with outcomes := s.outcomes ++ [⟨u.guard, u.created, .error error⟩] }

/-- `finish` returns the length; the guard is settled and its drop does nothing. -/
def settle (s : Sys) (k : Nat) (u : Upload) : Sys :=
  { s with
    uploads := s.uploads.erase k
    outcomes := s.outcomes ++ [⟨u.guard, u.created, .ok u.written⟩] }

/-- `temp_path` draws its number, and the file is to be created. -/
def create (s : Sys) (k : Nat) (u : Upload) (next : Next) : Sys :=
  { s with store := s.store.drawSerial.2 }.put k { u with phase := .creating s.store.drawSerial.1 none next }

/-- An error while opening: `put` drops the upload on one of `write`'s, `finish` cleans up after
    one of `commit`'s. -/
def abort (s : Sys) (k : Nat) (u : Upload) : Next → Sys
  | .write _ => s.endUpload k u .io
  | .finish => s.put k { u with phase := .refused .io }

/-- The handle is dropped and the rename submitted. -/
def rename (s : Sys) (k : Nat) (u : Upload) (temp : Path) : Sys :=
  { s with orphans := orphaned s.orphans u }.put k { u with file := none, phase := .moving temp none }

/-- The operation the upload awaits is performed, and its reply kept for the task. -/
def performed (s : Sys) (k : Nat) (u : Upload) (op : Op) : Sys :=
  { s with fs := (s.fs.perform op).1 }.put k { u with phase := u.phase.answer (s.fs.perform op).2 }

end Sys

inductive DiskEv where
  | reserve (room : RoomId) (digest : String) (bytes now : Nat)
  | beginUpload (room : RoomId) (digest : String) (declared now : Nat)
  | forgetRoom (room : RoomId)
  | sweep (now : Nat)
  /-- The `i`-th removal not yet sent reaches the channel. -/
  | send (i : Nat)
  /-- The maintenance task takes its next step. -/
  | maintain
  /-- `remove_dir_all` also meets a name that appeared after it opened the directory. -/
  | straggler (name : Name)
  /-- A body frame arrives, or the body ends. -/
  | chunk (k : Nat) (bytes : Bytes)
  | endBody (k : Nat)
  | perform (k : Nat)
  | resume (k now : Nat)
  /-- The handle's write completes, or fails after `short` bytes. -/
  | background (k : Nat) (short : Option Nat)
  /-- The connection's task is dropped at an await. -/
  | cancel (k : Nat)
  | performDetached (i : Nat)
  | backgroundOrphan (n : Nat) (short : Option Nat)
  deriving Repr

/-! ### The maintenance task -/

def maintain (s : Sys) : Option Sys :=
  match s.maint with
  | .idle =>
    match s.queue with
    | [] => none
    | removal :: rest => some { s with queue := rest, maint := .checking removal }
  | .checking removal =>
    match removable s.store.index removal with
    | none => some { s with maint := .idle }
    | some target => some { s with maint := .unlinking target }
  | .unlinking (.file path) => some { s with fs := s.fs.unlink path, maint := .idle }
  | .unlinking (.dir room) =>
    if room ∈ s.fs.dirs then some { s with maint := .clearing room none } else some { s with maint := .idle }
  | .clearing room none =>
    if room ∈ s.fs.dirs then some { s with maint := .clearing room (some (s.fs.names room)) }
    else some { s with maint := .idle }
  | .clearing room (some (name :: names)) =>
    some { s with fs := s.fs.unlink ⟨room, name⟩, maint := .clearing room (some names) }
  | .clearing room (some []) => some { s with fs := s.fs.rmdir room, maint := .idle }

/-! ### An upload's task -/

/-- `Upload::write`, up to its first await. -/
def writeChunk (s : Sys) (k : Nat) (u : Upload) (chunk : Bytes) : Option Sys :=
  match u.phase with
  | .ready =>
    if u.guard.declared < u.written + chunk.length then
      some (s.endUpload k u (.lengthMismatch u.guard.declared (u.written + chunk.length)))
    else match u.file with
      | none => some (s.put k { u with phase := .opening .mkdir none (.write chunk) })
      | some _ => some (s.put k { u with phase := .filling chunk })
  | _ => none

/-- `Upload::finish`, up to its first await. -/
def finish (hash : Bytes → String) (s : Sys) (k : Nat) (u : Upload) : Option Sys :=
  match u.phase with
  | .ready =>
    if u.written ≠ u.guard.declared then
      some (s.put k { u with phase := .refused (.lengthMismatch u.guard.declared u.written) })
    else if hash u.hashed ≠ u.guard.digest then
      some (s.put k { u with phase := .refused (.digestMismatch u.guard.digest (hash u.hashed)) })
    else match u.temp with
      | none => some (s.put k { u with phase := .opening .mkdir none .finish })
      | some temp => some (s.rename k u temp)
  | _ => none

def perform (s : Sys) (k : Nat) (u : Upload) : Option Sys := u.op.map fun op => s.performed k u op

/-- The task runs from the reply it awaited to its next await. -/
def resume (s : Sys) (k : Nat) (u : Upload) (now : Nat) : Option Sys :=
  match u.phase with
  | .opening .mkdir (some .ok) next => some (s.create k u next)
  | .opening .mkdir (some .alreadyExists) next =>
    some (s.put k { u with phase := .opening .symlinkMetadata none next })
  | .opening .symlinkMetadata (some .ok) next =>
    some (s.put k { u with phase := .opening .setPermissions none next })
  | .opening .setPermissions (some .ok) next => some (s.create k u next)
  | .opening _ (some _) next => some (s.abort k u next)
  | .creating n (some .ok) next =>
    let opened : Upload := { u with temp := some (tempPath u.guard.room u.guard.digest n), created := some n }
    match next with
    | .write chunk => some (s.put k ({ opened with file := some .idle }.append chunk))
    | .finish => some (s.rename k opened (tempPath u.guard.room u.guard.digest n))
  | .creating _ (some _) next => some (s.abort k u next)
  | .filling chunk =>
    if chunk.isEmpty then some (s.put k (u.append chunk))
    else match u.file with
      | some .idle => some (s.put k (u.append chunk))
      | some .failed => some (s.endUpload k u .io)
      | _ => none
  | .moving _ (some .ok) =>
    let commit := s.store.commitUpload u.guard now
    match commit.1 with
    | .ok () => some ({ s with store := commit.2 }.settle k { u with temp := none })
    | .error error =>
      some ({ s with store := commit.2 }.put k { u with temp := some u.finalPath, phase := .refused error })
  | .moving _ (some _) => some (s.put k { u with phase := .refused .io })
  | .refused error =>
    match u.temp with
    | none => some (s.endUpload k u error)
    | some temp =>
      let owned := temp = u.finalPath ∧ removable s.store.index (.payload u.guard.room u.guard.digest) = none
      some (s.put k { u with temp := none, phase := if owned then .dropping error else .unlinking temp none error })
  | .unlinking _ (some _) error => some (s.endUpload k u error)
  | .dropping error => some (s.endUpload k u error)
  | _ => none

/-- A background write completes, or fails after the first `short` bytes. -/
def Sys.wrote (s : Sys) (n : Nat) (buffer : Bytes) (short : Option Nat) : Sys :=
  { s with
    fs := s.fs.append n (short.elim buffer buffer.take)
    faults := if short.isSome then s.faults ++ [n] else s.faults }

def background (s : Sys) (k : Nat) (u : Upload) (short : Option Nat) : Option Sys :=
  match u.created, u.file with
  | some n, some (.pending buffer) =>
    some ((s.wrote n buffer short).put k { u with file := some (if short.isSome then .failed else .idle) })
  | _, _ => none

def diskStep (hash : Bytes → String) (s : Sys) : DiskEv → Option Sys
  | .reserve room digest bytes now => some { s with store := (s.store.reserve room digest bytes now).2 }
  | .beginUpload room digest declared now =>
    let begun := s.store.beginUpload room digest declared now
    match begun.1 with
    | .ok (.upload serial) => some ({ s with store := begun.2 }.put serial { guard := ⟨room, digest, serial, declared⟩ })
    | _ => some { s with store := begun.2 }
  | .forgetRoom room =>
    let forgotten := s.store.forgetRoom room
    some { s with store := forgotten.2, unsent := s.unsent ++ forgotten.1 }
  | .sweep now =>
    let swept := s.store.sweep now
    some { s with store := swept.2, unsent := s.unsent ++ swept.1.2 }
  | .send i => (s.unsent[i]?).map fun removal =>
    { s with unsent := s.unsent.eraseIdx i, queue := s.queue ++ [removal] }
  | .maintain => maintain s
  | .straggler name =>
    match s.maint with
    | .clearing room (some _) => some { s with fs := s.fs.unlink ⟨room, name⟩ }
    | _ => none
  | .chunk k bytes => (s.uploads.lookup k).bind fun u => writeChunk s k u bytes
  | .endBody k => (s.uploads.lookup k).bind fun u => finish hash s k u
  | .perform k => (s.uploads.lookup k).bind fun u => perform s k u
  | .resume k now => (s.uploads.lookup k).bind fun u => resume s k u now
  | .background k short => (s.uploads.lookup k).bind fun u => background s k u short
  | .cancel k => (s.uploads.lookup k).bind fun u => if u.phase.awaits then some (s.dropUpload k u) else none
  | .performDetached i => (s.detached[i]?).map fun op =>
    { s with fs := (s.fs.perform op).1, detached := s.detached.eraseIdx i }
  | .backgroundOrphan n short => (s.orphans.lookup n).map fun buffer =>
    { s.wrote n buffer short with orphans := s.orphans.erase n }

/-- The states some run of the whole system leads to, each step of which met `ok`. -/
abbrev DiskReach (hash : Bytes → String) (ok : Sys → DiskEv → Prop) := Reach (diskStep hash) {} ok

end OmpRelayd.Blob
