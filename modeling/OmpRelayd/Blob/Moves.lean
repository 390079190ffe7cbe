/-
  OmpRelayd.Blob.Moves — what one step of the disk system can do.

  `Turn` lists the moves an upload's task makes on its own record, `Moves` every step of the
  system, each with the facts that hold when it is taken and the state it leaves. Both are
  proved complete once (`diskStep_moves`); the invariants of the later modules go by cases
  on them and never unfold the step function.
-/

import OmpRelayd.Blob.Disk

namespace OmpRelayd.Blob

/-- The temporary file is there: what the record becomes when its creation is resumed. -/
def Upload.opened (u : Upload) (n : Nat) : Upload :=
  { u with temp := some (tempPath u.guard.room u.guard.digest n), created := some n }

/-- The body was as long as declared and hashed to the address. -/
def Upload.Verified (hash : Bytes → String) (u : Upload) : Prop :=
  u.written = u.guard.declared ∧ hash u.hashed = u.guard.digest

/-- The reply a task in this phase resumes with is an error. -/
inductive Phase.Fails : Phase → Next → Prop
  | opening (call : DirCall) (reply : Reply) (next : Next) :
      (call = .mkdir → reply ≠ .ok ∧ reply ≠ .alreadyExists) → (call ≠ .mkdir → reply ≠ .ok) →
      Phase.Fails (.opening call (some reply) next) next
  | creating (n : Nat) (reply : Reply) (next : Next) : reply ≠ .ok → Phase.Fails (.creating n (some reply) next) next

/-- A move of upload `k`'s task, and the event it is made at. -/
inductive Turn (hash : Bytes → String) (k : Nat) (u : Upload) : DiskEv → Upload → Prop
  | openForChunk (chunk : Bytes) : u.phase = .ready → u.file = none →
      u.written + chunk.length ≤ u.guard.declared →
      Turn hash k u (.chunk k chunk) { u with phase := .opening .mkdir none (.write chunk) }
  | openForNothing : u.phase = .ready → u.temp = none → u.Verified hash →
      Turn hash k u (.endBody k) { u with phase := .opening .mkdir none .finish }
  | inspect (now : Nat) (next : Next) : u.phase = .opening .mkdir (some .alreadyExists) next →
      Turn hash k u (.resume k now) { u with phase := .opening .symlinkMetadata none next }
  | secure (now : Nat) (next : Next) : u.phase = .opening .symlinkMetadata (some .ok) next →
      Turn hash k u (.resume k now) { u with phase := .opening .setPermissions none next }
  | fill (handle : Handle) (chunk : Bytes) : u.phase = .ready → u.file = some handle →
      u.written + chunk.length ≤ u.guard.declared → Turn hash k u (.chunk k chunk) { u with phase := .filling chunk }
  | append (now : Nat) (chunk : Bytes) : u.phase = .filling chunk → (chunk = [] ∨ u.file = some .idle) →
      Turn hash k u (.resume k now) (u.append chunk)
  | appendFirst (now n : Nat) (chunk : Bytes) : u.phase = .creating n (some .ok) (.write chunk) →
      Turn hash k u (.resume k now) ({ u.opened n with file := some .idle }.append chunk)
  | mismatch (error : UploadError) : u.phase = .ready → Turn hash k u (.endBody k) { u with phase := .refused error }
  | openFailed (now : Nat) : u.phase.Fails .finish → Turn hash k u (.resume k now) { u with phase := .refused .io }
  | renameFailed (now : Nat) (source : Path) (reply : Reply) : u.phase = .moving source (some reply) → reply ≠ .ok →
      Turn hash k u (.resume k now) { u with phase := .refused .io }

/-- The upload ends with an error: `put` drops it, or `finish` has cleaned up. -/
inductive Ends (u : Upload) : Prop
  | tooLong : u.phase = .ready → Ends u
  | openFailed (chunk : Bytes) : u.phase.Fails (.write chunk) → Ends u
  | writeFailed (chunk : Bytes) : u.phase = .filling chunk → u.file = some .failed → Ends u
  | nothingToRemove (error : UploadError) : u.phase = .refused error → u.temp = none → Ends u
  | removed (path : Path) (reply : Reply) (error : UploadError) : u.phase = .unlinking path (some reply) error → Ends u
  | dropping (error : UploadError) : u.phase = .dropping error → Ends u

inductive Moves (hash : Bytes → String) (s : Sys) : DiskEv → Sys → Prop
  | reserve (room : RoomId) (digest : String) (bytes now : Nat) :
      Moves hash s (.reserve room digest bytes now) { s with store := (s.store.reserve room digest bytes now).2 }
  | accepted (room : RoomId) (digest : String) (declared now serial : Nat) :
      (s.store.beginUpload room digest declared now).1 = .ok (.upload serial) →
      Moves hash s (.beginUpload room digest declared now)
        ({ s with store := (s.store.beginUpload room digest declared now).2 }.put serial
          { guard := ⟨room, digest, serial, declared⟩ })
  | notAccepted (room : RoomId) (digest : String) (declared now : Nat) :
      (∀ serial, (s.store.beginUpload room digest declared now).1 ≠ .ok (.upload serial)) →
      Moves hash s (.beginUpload room digest declared now)
        { s with store := (s.store.beginUpload room digest declared now).2 }
  | forgetRoom (room : RoomId) :
      Moves hash s (.forgetRoom room)
        { s with store := (s.store.forgetRoom room).2, unsent := s.unsent ++ (s.store.forgetRoom room).1 }
  | sweep (now : Nat) :
      Moves hash s (.sweep now) { s with store := (s.store.sweep now).2, unsent := s.unsent ++ (s.store.sweep now).1.2 }
  | send (i : Nat) (removal : Removal) : s.unsent[i]? = some removal →
      Moves hash s (.send i) { s with unsent := s.unsent.eraseIdx i, queue := s.queue ++ [removal] }
  -- the maintenance task
  | receive (removal : Removal) (rest : List Removal) : s.maint = .idle → s.queue = removal :: rest →
      Moves hash s .maintain { s with queue := rest, maint := .checking removal }
  | skip (removal : Removal) : s.maint = .checking removal → removable s.store.index removal = none →
      Moves hash s .maintain { s with maint := .idle }
  | grant (removal : Removal) (target : Target) : s.maint = .checking removal →
      removable s.store.index removal = some target → Moves hash s .maintain { s with maint := .unlinking target }
  | unlinkFile (path : Path) : s.maint = .unlinking (.file path) →
      Moves hash s .maintain { s with fs := s.fs.unlink path, maint := .idle }
  | noDir (room : RoomId) : s.maint = .unlinking (.dir room) ∨ s.maint = .clearing room none → room ∉ s.fs.dirs →
      Moves hash s .maintain { s with maint := .idle }
  | isDir (room : RoomId) : s.maint = .unlinking (.dir room) →
      Moves hash s .maintain { s with maint := .clearing room none }
  | readDir (room : RoomId) : s.maint = .clearing room none →
      Moves hash s .maintain { s with maint := .clearing room (some (s.fs.names room)) }
  | unlinkNext (room : RoomId) (name : Name) (names : List Name) : s.maint = .clearing room (some (name :: names)) →
      Moves hash s .maintain { s with fs := s.fs.unlink ⟨room, name⟩, maint := .clearing room (some names) }
  | rmdir (room : RoomId) : s.maint = .clearing room (some []) →
      Moves hash s .maintain { s with fs := s.fs.rmdir room, maint := .idle }
  | straggler (room : RoomId) (name : Name) (names : List Name) : s.maint = .clearing room (some names) →
      Moves hash s (.straggler name) { s with fs := s.fs.unlink ⟨room, name⟩ }
  -- an upload's task
  | turn (e : DiskEv) (k : Nat) (u u' : Upload) : s.uploads.lookup k = some u → Turn hash k u e u' →
      Moves hash s e (s.put k u')
  | create (k now : Nat) (u : Upload) (call : DirCall) (next : Next) : s.uploads.lookup k = some u →
      u.phase = .opening call (some .ok) next → Moves hash s (.resume k now) (s.create k u next)
  | close (k : Nat) (u : Upload) (temp : Path) : s.uploads.lookup k = some u → u.phase = .ready →
      u.Verified hash → u.temp = some temp → Moves hash s (.endBody k) (s.rename k u temp)
  | created (k now n : Nat) (u : Upload) : s.uploads.lookup k = some u → u.phase = .creating n (some .ok) .finish →
      Moves hash s (.resume k now) (s.rename k (u.opened n) (tempPath u.guard.room u.guard.digest n))
  | perform (k : Nat) (u : Upload) (op : Op) : s.uploads.lookup k = some u → u.op = some op →
      Moves hash s (.perform k) (s.performed k u op)
  | committed (k now : Nat) (u : Upload) (source : Path) : s.uploads.lookup k = some u →
      u.phase = .moving source (some .ok) → (s.store.commitUpload u.guard now).1 = .ok () →
      Moves hash s (.resume k now)
        ({ s with store := (s.store.commitUpload u.guard now).2 }.settle k { u with temp := none })
  | notCommitted (k now : Nat) (u : Upload) (source : Path) (error : UploadError) : s.uploads.lookup k = some u →
      u.phase = .moving source (some .ok) → (s.store.commitUpload u.guard now).1 = .error error →
      Moves hash s (.resume k now)
        ({ s with store := (s.store.commitUpload u.guard now).2 }.put k
          { u with temp := some u.finalPath, phase := .refused error })
  | recheckOwned (k now : Nat) (u : Upload) (error : UploadError) : s.uploads.lookup k = some u →
      u.phase = .refused error → u.temp = some u.finalPath →
      removable s.store.index (.payload u.guard.room u.guard.digest) = none →
      Moves hash s (.resume k now) (s.put k { u with temp := none, phase := .dropping error })
  | recheck (k now : Nat) (u : Upload) (error : UploadError) (temp : Path) : s.uploads.lookup k = some u →
      u.phase = .refused error → u.temp = some temp →
      (temp = u.finalPath → removable s.store.index (.payload u.guard.room u.guard.digest) ≠ none) →
      Moves hash s (.resume k now) (s.put k { u with temp := none, phase := .unlinking temp none error })
  | fails (e : DiskEv) (k : Nat) (u : Upload) (error : UploadError) : s.uploads.lookup k = some u → Ends u →
      Moves hash s e (s.endUpload k u error)
  | cancel (k : Nat) (u : Upload) : s.uploads.lookup k = some u → u.phase.awaits = true →
      Moves hash s (.cancel k) (s.dropUpload k u)
  -- the background threads
  | background (k n : Nat) (u : Upload) (buffer : Bytes) (short : Option Nat) : s.uploads.lookup k = some u →
      u.created = some n → u.file = some (.pending buffer) →
      Moves hash s (.background k short)
        ((s.wrote n buffer short).put k { u with file := some (if short.isSome then .failed else .idle) })
  | performDetached (i : Nat) (op : Op) : s.detached[i]? = some op →
      Moves hash s (.performDetached i) { s with fs := (s.fs.perform op).1, detached := s.detached.eraseIdx i }
  | backgroundOrphan (n : Nat) (buffer : Bytes) (short : Option Nat) : s.orphans.lookup n = some buffer →
      Moves hash s (.backgroundOrphan n short) { s.wrote n buffer short with orphans := s.orphans.erase n }

variable {hash : Bytes → String} {s t : Sys}

theorem maintain_moves (h : maintain s = some t) : Moves hash s .maintain t := by
  unfold maintain at h
  split at h
  · rename_i hm
    split at h
    · cases h
    · rename_i removal rest hq; cases h; exact .receive removal rest hm hq
  · rename_i removal hm
    split at h
    · rename_i hr; cases h; exact .skip removal hm hr
    · rename_i target hr; cases h; exact .grant removal target hm hr
  · rename_i path hm; cases h; exact .unlinkFile path hm
  · rename_i room hm
    split at h
    · cases h; exact .isDir room hm
    · rename_i hd; cases h; exact .noDir room (.inl hm) hd
  · rename_i room hm
    split at h
    · cases h; exact .readDir room hm
    · rename_i hd; cases h; exact .noDir room (.inr hm) hd
  · rename_i room name names hm; cases h; exact .unlinkNext room name names hm
  · rename_i room hm; cases h; exact .rmdir room hm

theorem writeChunk_moves {k : Nat} {u : Upload} {chunk : Bytes} (hu : s.uploads.lookup k = some u)
    (h : writeChunk s k u chunk = some t) : Moves hash s (.chunk k chunk) t := by
  unfold writeChunk at h
  split at h
  · rename_i hp
    split at h
    · cases h; exact .fails _ k u _ hu (.tooLong hp)
    · rename_i hlen
      split at h
      · rename_i hf; cases h; exact .turn _ k u _ hu (.openForChunk chunk hp hf (by omega))
      · rename_i handle hf; cases h; exact .turn _ k u _ hu (.fill handle chunk hp hf (by omega))
  · cases h

theorem finish_moves {k : Nat} {u : Upload} (hu : s.uploads.lookup k = some u) (h : finish hash s k u = some t) :
    Moves hash s (.endBody k) t := by
  unfold finish at h
  split at h
  · rename_i hp
    split at h
    · cases h; exact .turn _ k u _ hu (.mismatch _ hp)
    · rename_i hw
      split at h
      · cases h; exact .turn _ k u _ hu (.mismatch _ hp)
      · rename_i hh
        have hv : u.Verified hash := ⟨Decidable.not_not.mp hw, Decidable.not_not.mp hh⟩
        split at h
        · rename_i ht; cases h; exact .turn _ k u _ hu (.openForNothing hp ht hv)
        · rename_i temp ht; cases h; exact .close k u temp hu hp hv ht
  · cases h

theorem abort_moves {k now : Nat} {u : Upload} {next : Next} (hu : s.uploads.lookup k = some u)
    (hf : u.phase.Fails next) : Moves hash s (.resume k now) (s.abort k u next) := by
  cases next with
  | write chunk => exact .fails _ k u .io hu (.openFailed chunk hf)
  | finish => exact .turn _ k u _ hu (.openFailed now hf)

theorem resume_moves {k now : Nat} {u : Upload} (hu : s.uploads.lookup k = some u)
    (h : resume s k u now = some t) : Moves hash s (.resume k now) t := by
  unfold resume at h
  split at h
  · rename_i next hp; cases h; exact .create k now u .mkdir next hu hp
  · rename_i next hp; cases h; exact .turn _ k u _ hu (.inspect now next hp)
  · rename_i next hp; cases h; exact .turn _ k u _ hu (.secure now next hp)
  · rename_i next hp; cases h; exact .create k now u .setPermissions next hu hp
  · rename_i call reply next h1 h2 h3 h4 hp
    cases h
    refine abort_moves hu ?_
    rw [hp]
    refine .opening call reply next ?_ ?_
    · rintro rfl
      exact ⟨h1 rfl, h2 rfl⟩
    · intro hc hr
      cases call with
      | mkdir => exact hc rfl
      | symlinkMetadata => exact h3 rfl hr
      | setPermissions => exact h4 rfl hr
  · rename_i n next hp
    cases next with
    | write chunk => cases h; exact .turn _ k u _ hu (.appendFirst now n chunk hp)
    | finish => cases h; exact .created k now n u hu hp
  · rename_i n reply next h1 hp
    cases h
    refine abort_moves hu ?_
    rw [hp]
    exact .creating n reply next h1
  · rename_i chunk hp
    split at h
    · rename_i hc; cases h; exact .turn _ k u _ hu (.append now chunk hp (.inl (List.isEmpty_iff.mp hc)))
    · split at h
      · rename_i hf; cases h; exact .turn _ k u _ hu (.append now chunk hp (.inr hf))
      · rename_i hf; cases h; exact .fails _ k u _ hu (.writeFailed chunk hp hf)
      · cases h
  · rename_i source hp
    dsimp only at h
    split at h
    · rename_i hc; cases h; exact .committed k now u source hu hp hc
    · rename_i error hc; cases h; exact .notCommitted k now u source error hu hp hc
  · rename_i source reply h1 hp
    cases h
    exact .turn _ k u _ hu (.renameFailed now source reply hp h1)
  · rename_i error hp
    split at h
    · rename_i ht; cases h; exact .fails _ k u _ hu (.nothingToRemove error hp ht)
    · rename_i temp ht
      cases h
      split
      · rename_i ho
        exact .recheckOwned k now u error hu hp (by rw [ht, ho.1]) ho.2
      · rename_i ho
        exact .recheck k now u error temp hu hp ht fun hf hr => ho ⟨hf, hr⟩
  · rename_i path reply error hp; cases h; exact .fails _ k u _ hu (.removed path reply error hp)
  · rename_i error hp; cases h; exact .fails _ k u _ hu (.dropping error hp)
  · cases h

theorem diskStep_moves {e : DiskEv} (h : diskStep hash s e = some t) : Moves hash s e t := by
  cases e with
  | reserve room digest bytes now => cases h; exact .reserve room digest bytes now
  | beginUpload room digest declared now =>
    simp only [diskStep] at h
    split at h
    · rename_i serial hr; cases h; exact .accepted room digest declared now serial hr
    · rename_i hr; cases h; exact .notAccepted room digest declared now hr
  | forgetRoom room => cases h; exact .forgetRoom room
  | sweep now => cases h; exact .sweep now
  | send i =>
    obtain ⟨removal, hr, rfl⟩ := Option.map_eq_some_iff.mp h
    exact .send i removal hr
  | maintain => exact maintain_moves h
  | straggler name =>
    simp only [diskStep] at h
    split at h
    · rename_i room names hm; cases h; exact .straggler room name names hm
    · cases h
  | chunk k bytes =>
    obtain ⟨u, hu, h⟩ := Option.bind_eq_some_iff.mp h
    exact writeChunk_moves hu h
  | endBody k =>
    obtain ⟨u, hu, h⟩ := Option.bind_eq_some_iff.mp h
    exact finish_moves hu h
  | perform k =>
    obtain ⟨u, hu, h⟩ := Option.bind_eq_some_iff.mp h
    obtain ⟨op, ho, rfl⟩ := Option.map_eq_some_iff.mp h
    exact .perform k u op hu ho
  | resume k now =>
    obtain ⟨u, hu, h⟩ := Option.bind_eq_some_iff.mp h
    exact resume_moves hu h
  | background k short =>
    obtain ⟨u, hu, h⟩ := Option.bind_eq_some_iff.mp h
    simp only [Blob.background] at h
    split at h
    · rename_i n buffer hn hf; cases h; exact .background k n u buffer short hu hn hf
    · cases h
  | cancel k =>
    obtain ⟨u, hu, h⟩ := Option.bind_eq_some_iff.mp h
    split at h
    · rename_i ha; cases h; exact .cancel k u hu ha
    · cases h
  | performDetached i =>
    obtain ⟨op, ho, rfl⟩ := Option.map_eq_some_iff.mp h
    exact .performDetached i op ho
  | backgroundOrphan n short =>
    obtain ⟨buffer, hb, rfl⟩ := Option.map_eq_some_iff.mp h
    exact .backgroundOrphan n buffer short hb

end OmpRelayd.Blob
