/-
  OmpRelayd.Blob.Content — what the bytes of a file are, at every moment of its life.

  The hasher is fed from memory, the file is written by a background thread, and the rename
  waits for neither. `ContentInv` follows both: while an upload holds the handle the file is
  what has been hashed, short of a write still pending or failed (`Upload.Tracks`); once the
  handle is dropped nobody writes to it but that last pending write (`Sealed`), through the
  rename and for as long as the file has an address. So a file at an address always begins
  a body that hashes to the address. It is that whole body in the runs that drop no handle
  before its last write has completed, which is what the parameter `full` stands for: the
  invariant says more when `full` holds, and its steps then need that much more.

  A body behind an address is one that `finish` hashed. `known` is any property of the bodies
  hashed in the run, so what is assumed of a digest is assumed of those bodies only
  (`CollisionFree`, `hashed_content`).
-/

import OmpRelayd.Blob.Uploads
import OmpRelayd.Lib.Trace

namespace OmpRelayd.Blob

/-! ## The bodies of a run -/

abbrev DiskPast := List (Moment Sys DiskEv)

abbrev DiskHistory (hash : Bytes → String) (ok : Sys → DiskEv → Prop) : Sys × DiskPast → Prop :=
  History (diskStep hash) {} ok

/-- The body that `commit` compares with its address at this event: the declared length has come. -/
def hashedAt (m : Moment Sys DiskEv) : Option Bytes :=
  match m.event with
  | .endBody k => (m.before.uploads.lookup k).bind fun u => if u.written = u.guard.declared then some u.hashed else none
  | _ => none

/-- The bodies whose digests the run has taken. -/
def hashedIn (past : DiskPast) : List Bytes := past.filterMap hashedAt

/-- No two of these bodies are of different lengths and have one digest. -/
def CollisionFree (hash : Bytes → String) (bodies : List Bytes) : Prop :=
  ∀ a ∈ bodies, ∀ b ∈ bodies, hash a = hash b → a.length = b.length

instance (hash : Bytes → String) (bodies : List Bytes) : Decidable (CollisionFree hash bodies) :=
  inferInstanceAs (Decidable (∀ a ∈ bodies, ∀ b ∈ bodies, hash a = hash b → a.length = b.length))

/-- The digest of this body is `digest`, and it was hashed to find that out. -/
structure Digested (known : Bytes → Prop) (hash : Bytes → String) (digest : String) (body : Bytes) : Prop where
  digest : hash body = digest
  known : known body

/-- The body that this step hashes is among the known. -/
def HashesKnown (known : Bytes → Prop) (s : Sys) (e : DiskEv) : Prop := ∀ body, hashedAt ⟨s, e⟩ = some body → known body

/-- The digest was right: what is left is to make the file and to move it. -/
def Phase.verified : Phase → Bool
  | .opening _ _ .finish => true
  | .creating _ _ .finish => true
  | .moving _ _ => true
  | _ => false

def Vouched (known : Bytes → Prop) (s : Sys) : Prop :=
  ∀ k u, s.uploads.lookup k = some u → u.phase.verified = true → known u.hashed

section
variable {known : Bytes → Prop} {hash : Bytes → String} {s t : Sys} {e : DiskEv} {k : Nat} {u u' : Upload}

theorem hashedAt_endBody (hu : s.uploads.lookup k = some u) (hv : u.Verified hash) :
    hashedAt ⟨s, .endBody k⟩ = some u.hashed := by
  simp [hashedAt, hu, hv.1]

theorem Vouched.put (h : Vouched known s) (ht : t.uploads = s.uploads.insert k u')
    (hk : u'.phase.verified = true → known u'.hashed) : Vouched known t := by
  intro j v hv hp
  rw [ht] at hv
  rcases Map.lookup_insert_some hv with ⟨rfl, rfl⟩ | ⟨-, hv⟩
  · exact hk hp
  · exact h j v hv hp

theorem Vouched.erase (h : Vouched known s) (ht : t.uploads = s.uploads.erase k) : Vouched known t := by
  intro j v hv hp
  rw [ht] at hv
  exact h j v (Map.lookup_erase_some hv).2 hp

theorem Phase.verified_answer (phase : Phase) (reply : Reply) : (phase.answer reply).verified = phase.verified := by
  cases phase with
  | opening call answered next => cases next <;> rfl
  | creating n answered next => cases next <;> rfl
  | _ => rfl

/-- The digest is compared at the end of the body, and nothing is hashed after it. -/
theorem Turn.verified (ht : Turn hash k u e u') (h : u'.phase.verified = true) :
    u'.hashed = u.hashed ∧ (u.phase.verified = true ∨ e = .endBody k ∧ u.Verified hash) := by
  cases ht with
  | openForNothing _ _ hv => exact ⟨rfl, .inr ⟨rfl, hv⟩⟩
  | inspect now next hp | secure now next hp =>
    refine ⟨rfl, .inl ?_⟩
    rw [hp]
    cases next with
    | write chunk => cases h
    | finish => rfl
  | _ => cases h

theorem Moves.vouched (hm : Moves hash s e t) (h : Vouched known s) (hk : HashesKnown known s e) : Vouched known t := by
  cases hm with
  | accepted room digest declared now serial _ | notCommitted k now u source error _ _ _
  | recheckOwned k now u error _ _ _ _ | recheck k now u error temp _ _ _ _ => exact h.put rfl fun hv => by cases hv
  | turn e k u u' hu ht =>
    refine h.put rfl fun hv => ?_
    obtain ⟨heq, hv | ⟨rfl, hv⟩⟩ := ht.verified hv
    · rw [heq]
      exact h k u hu hv
    · rw [heq]
      exact hk u.hashed (hashedAt_endBody hu hv)
  | create k now u call next hu hp =>
    refine h.put rfl fun hv => h k u hu ?_
    rw [hp]
    cases next with
    | write chunk => cases hv
    | finish => rfl
  | close k u temp hu _ hv _ => exact h.put rfl fun _ => hk u.hashed (hashedAt_endBody hu hv)
  | created k now n u hu hp => exact h.put rfl fun _ => h k u hu (by rw [hp]; rfl)
  | perform k u op hu _ =>
    refine h.put rfl fun hv => h k u hu ?_
    rwa [Phase.verified_answer] at hv
  | committed k now u source _ _ _ => exact h.erase rfl
  | fails e k u error _ _ => exact h.erase rfl
  | cancel k u _ _ => exact h.erase rfl
  | background k n u buffer short hu _ _ => exact h.put rfl fun hv => h k u hu hv
  | _ => exact h

end

/-! ## What a file holds -/

/-- The upload has the handle of file `n`, or is creating it. -/
def Upload.Writes (u : Upload) (n : Nat) : Prop :=
  (u.created = some n ∧ u.file.isSome = true) ∨ ∃ reply next, u.phase = .creating n reply next

/-- How the content of an open file relates to what has been hashed. -/
def Handle.Tracks (hashed content : Bytes) (faulty : Prop) : Handle → Prop
  | .idle => content = hashed ∧ ¬ faulty
  | .pending buffer => content ++ buffer = hashed ∧ ¬ faulty
  | .failed => content <+: hashed

def Upload.Tracks (u : Upload) (content : Bytes) (faulty : Prop) : Prop :=
  match u.file with
  | some handle => handle.Tracks u.hashed content faulty
  | none => ¬ faulty ∧ ∀ n next, u.phase = .creating n (some .ok) next → content = []

/-- Nobody writes to file `n` any more, except for a write still pending when its handle was
    dropped; with that write it is `body`, without it a beginning of it. -/
structure Sealed (full : Prop) (s : Sys) (n : Nat) (body : Bytes) : Prop where
  drawn : n < s.store.nextSerial
  unwritten : ∀ k u, s.uploads.lookup k = some u → ¬ u.Writes n
  uncreated : ∀ r d, Op.create r d n ∉ s.detached
  begun : s.fs.content n <+: body
  rest : ∀ c, s.orphans.lookup n = some c → s.fs.content n ++ c = body
  whole : full → s.fs.content n = body ∧ s.orphans.lookup n = none ∧ n ∉ s.faults

structure ContentInv (full : Prop) (known : Bytes → Prop) (hash : Bytes → String) (s : Sys) : Prop where
  tracks : ∀ k u n, s.uploads.lookup k = some u → u.Writes n → u.Tracks (s.fs.content n) (n ∈ s.faults) ∧
    s.orphans.lookup n = none ∧ ∀ r d, Op.create r d n ∉ s.detached
  moving : ∀ k u source reply n, s.uploads.lookup k = some u → u.phase = .moving source reply → u.created = some n →
    Sealed full s n u.hashed
  payloads : ∀ r d n, s.fs.files.lookup (payloadPath r d) = some n →
    ∃ body, Digested known hash d body ∧ Sealed full s n body
  temps : ∀ p n, s.fs.files.lookup p = some n → p.IsTemp → ∃ d, p.name = .temp d n
  orphans : ∀ n c, s.orphans.lookup n = some c → n < s.store.nextSerial
  faults : ∀ n ∈ s.faults, n < s.store.nextSerial
  creates : ∀ r d n, Op.create r d n ∈ s.detached → n < s.store.nextSerial ∧
    ∀ k u, s.uploads.lookup k = some u → u.number ≠ some n
  renames : ∀ source target, Op.rename source target ∈ s.detached → ∃ r d n body, source = tempPath r d n ∧
    target = payloadPath r d ∧ Digested known hash d body ∧ Sealed full s n body
  stored : ∀ r d p, storedAt s.store.index r d = some p → ∃ body, Digested known hash d body ∧ body.length = p.bytes
  outcomes : ∀ o ∈ s.outcomes, ∀ bytes n, o.result = .ok bytes → o.file = some n → ∃ body, Sealed full s n body

variable {full : Prop} {known : Bytes → Prop} {hash : Bytes → String} {s t : Sys}

theorem Upload.Writes.number {u : Upload} {n : Nat} (h : u.Writes n) (hs : u.Shape hash) : u.number = some n := by
  rcases h with ⟨hc, hf⟩ | ⟨reply, next, hp⟩
  · have hph := hs.phase
    unfold Upload.number
    split
    · rename_i m reply next hp
      rw [hp] at hph
      rw [hph.1.2.1] at hf; cases hf
    · exact hc
  · rw [Upload.number, hp]

theorem Upload.tracks_some {u : Upload} {handle : Handle} (hf : u.file = some handle) {content : Bytes} {faulty : Prop} :
    u.Tracks content faulty ↔ handle.Tracks u.hashed content faulty := by simp only [Upload.Tracks, hf]

/-- With an open file it matters only what the handle is and what was hashed. -/
theorem Upload.Tracks.congr {u u' : Upload} {content : Bytes} {faulty : Prop} (h : u.Tracks content faulty)
    (hs : u.file.isSome = true) (hf : u'.file = u.file) (hh : u'.hashed = u.hashed) : u'.Tracks content faulty := by
  obtain ⟨handle, hu⟩ := Option.isSome_iff_exists.mp hs
  rw [Upload.tracks_some hu] at h
  rw [Upload.tracks_some (hf.trans hu), hh]
  exact h

/-- Nothing is done to file `n`. -/
structure Sealed.Kept (s t : Sys) (n : Nat) : Prop where
  serial : s.store.nextSerial ≤ t.store.nextSerial
  writers : ∀ k u, t.uploads.lookup k = some u → u.Writes n → ∃ j v, s.uploads.lookup j = some v ∧ v.Writes n
  creates : ∀ r d, Op.create r d n ∈ t.detached → Op.create r d n ∈ s.detached
  content : t.fs.content n = s.fs.content n
  orphans : t.orphans.lookup n = s.orphans.lookup n
  faults : n ∈ t.faults → n ∈ s.faults

theorem untouched (s : Sys) (n : Nat) : Sealed.Kept s s n :=
  ⟨Nat.le_refl _, fun k u hu hw => ⟨k, u, hu, hw⟩, fun _ _ hd => hd, rfl, rfl, id⟩

/-- One upload's record changes, and it writes to no file it did not write to. -/
theorem writers_insert {k n : Nat} {u' : Upload} (hw : u'.Writes n → ∃ j v, s.uploads.lookup j = some v ∧ v.Writes n) (j : Nat)
    (v : Upload) (hv : (s.uploads.insert k u').lookup j = some v) (hwv : v.Writes n) :
    ∃ j v, s.uploads.lookup j = some v ∧ v.Writes n := by
  rcases Map.lookup_insert_some hv with ⟨rfl, rfl⟩ | ⟨-, hv⟩
  · exact hw hwv
  · exact ⟨j, v, hv, hwv⟩

theorem Sealed.of {n : Nat} {body : Bytes} (h : Sealed full s n body) (hk : Sealed.Kept s t n) : Sealed full t n body := by
  refine ⟨Nat.lt_of_lt_of_le h.drawn hk.serial, fun k u hu hwr => ?_, fun r d hmem => h.uncreated r d (hk.creates r d hmem), ?_,
    fun c hc => ?_, fun hx => ?_⟩
  · obtain ⟨j, v, hv, hwv⟩ := hk.writers k u hu hwr
    exact h.unwritten j v hv hwv
  · rw [hk.content]; exact h.begun
  · rw [hk.content]; rw [hk.orphans] at hc; exact h.rest c hc
  · obtain ⟨h1, h2, h3⟩ := h.whole hx
    exact ⟨by rw [hk.content]; exact h1, by rw [hk.orphans]; exact h2, fun hn => h3 (hk.faults hn)⟩

/-- What is neither written nor created: it was there before, or it is as it should be. -/
structure ContentInv.Kept (sealed : Nat → Bytes → Prop) (bound : Nat) (known : Bytes → Prop) (hash : Bytes → String)
    (s t : Sys) : Prop where
  serial : s.store.nextSerial ≤ bound
  moving : ∀ k u source reply n, t.uploads.lookup k = some u → u.phase = .moving source reply → u.created = some n →
    s.uploads.lookup k = some u ∨ sealed n u.hashed
  payloads : ∀ r d n, t.fs.files.lookup (payloadPath r d) = some n → s.fs.files.lookup (payloadPath r d) = some n ∨
    ∃ body, Digested known hash d body ∧ sealed n body
  temps : ∀ p n, t.fs.files.lookup p = some n → p.IsTemp → s.fs.files.lookup p = some n ∨ ∃ d, p.name = .temp d n
  orphans : ∀ n c, t.orphans.lookup n = some c → s.orphans.lookup n = some c ∨ n < bound
  faults : ∀ n ∈ t.faults, n ∈ s.faults ∨ n < bound
  renames : ∀ source target, Op.rename source target ∈ t.detached → Op.rename source target ∈ s.detached ∨
    ∃ r d n body, source = tempPath r d n ∧ target = payloadPath r d ∧ Digested known hash d body ∧ sealed n body
  stored : ∀ r d p, storedAt t.store.index r d = some p → storedAt s.store.index r d = some p ∨
    ∃ body, Digested known hash d body ∧ body.length = p.bytes
  outcomes : ∀ o ∈ t.outcomes, o ∈ s.outcomes ∨ ∀ bytes n, o.result = .ok bytes → o.file = some n → ∃ body, sealed n body

theorem unchanged {sealed : Nat → Bytes → Prop} {bound : Nat} (s : Sys) (h : s.store.nextSerial ≤ bound) :
    ContentInv.Kept sealed bound known hash s s :=
  ⟨h, fun _ _ _ _ _ hu _ _ => .inl hu, fun _ _ _ hf => .inl hf, fun _ _ hf _ => .inl hf, fun _ _ hc => .inl hc,
    fun _ hn => .inl hn, fun _ _ ho => .inl ho, fun _ _ _ hp => .inl hp, fun _ ho => .inl ho⟩

/-- Seals survive, what is written is tracked, and nobody writes to what is being created. -/
theorem ContentInv.of (h : ContentInv full known hash s) (hseal : ∀ n body, Sealed full s n body → Sealed full t n body)
    (htracks : ∀ k u n, t.uploads.lookup k = some u → u.Writes n → u.Tracks (t.fs.content n) (n ∈ t.faults) ∧
      t.orphans.lookup n = none ∧ ∀ r d, Op.create r d n ∉ t.detached)
    (hcreates : ∀ r d n, Op.create r d n ∈ t.detached → n < t.store.nextSerial ∧
      ∀ k u, t.uploads.lookup k = some u → u.number ≠ some n)
    (hkept : Kept (Sealed full t) t.store.nextSerial known hash s t) : ContentInv full known hash t := by
  refine ⟨htracks, fun k u source reply n hu hp hn => ?_, fun r d n hf => ?_, fun p n hf hp => ?_, fun n c hc => ?_,
    fun n hn => ?_, hcreates, fun source target ho => ?_, fun r d p hp => ?_, fun o ho bytes n hr hn => ?_⟩
  · rcases hkept.moving k u source reply n hu hp hn with hu | hnew
    · exact hseal n _ (h.moving k u source reply n hu hp hn)
    · exact hnew
  · rcases hkept.payloads r d n hf with hf | hnew
    · obtain ⟨body, hb, hs⟩ := h.payloads r d n hf
      exact ⟨body, hb, hseal n body hs⟩
    · exact hnew
  · rcases hkept.temps p n hf hp with hf | hnew
    · exact h.temps p n hf hp
    · exact hnew
  · rcases hkept.orphans n c hc with hc | hlt
    · exact Nat.lt_of_lt_of_le (h.orphans n c hc) hkept.serial
    · exact hlt
  · rcases hkept.faults n hn with hn | hlt
    · exact Nat.lt_of_lt_of_le (h.faults n hn) hkept.serial
    · exact hlt
  · rcases hkept.renames source target ho with ho | hnew
    · obtain ⟨r, d, n, body, h1, h2, h3, h4⟩ := h.renames source target ho
      exact ⟨r, d, n, body, h1, h2, h3, hseal n body h4⟩
    · exact hnew
  · rcases hkept.stored r d p hp with hp | hnew
    · exact h.stored r d p hp
    · exact hnew
  · rcases hkept.outcomes o ho with ho | hnew
    · obtain ⟨body, hs⟩ := h.outcomes o ho bytes n hr hn
      exact ⟨body, hseal n body hs⟩
    · exact hnew bytes n hr hn

/-! ## Steps that write nothing -/

/-- Payloads and files may go, and numbers be drawn. -/
theorem ContentInv.frame (h : ContentInv full known hash s) {store : Store} {files : Map Path Nat} {dirs : List RoomId}
    {unsent queue : List Removal} {maint : Maint} (hle : s.store.nextSerial ≤ store.nextSerial)
    (hst : ∀ r d p, storedAt store.index r d = some p → storedAt s.store.index r d = some p)
    (hf : ∀ p n, files.lookup p = some n → s.fs.files.lookup p = some n) :
    ContentInv full known hash { s with
      store := store, fs := ⟨dirs, files, s.fs.content⟩, unsent := unsent, queue := queue, maint := maint } := by
  have hseal : ∀ n body, Sealed full s n body → Sealed full { s with
      store := store, fs := ⟨dirs, files, s.fs.content⟩, unsent := unsent, queue := queue, maint := maint } n body :=
    fun n body hs => hs.of { untouched s n with serial := hle }
  exact h.of hseal h.tracks
    (fun r d n hc => ⟨Nat.lt_of_lt_of_le (h.creates r d n hc).1 hle, (h.creates r d n hc).2⟩)
    { unchanged s hle with payloads := fun r d n hfl => .inl (hf _ n hfl), temps := fun p n hfl _ => .inl (hf p n hfl)
                           stored := fun r d p hp => .inl (hst r d p hp) }

theorem ContentInv.unlink (h : ContentInv full known hash s) (path : Path) (maint : Maint) :
    ContentInv full known hash { s with fs := s.fs.unlink path, maint := maint } :=
  h.frame (Nat.le_refl _) (fun _ _ _ hp => hp) fun _ _ hp => (Map.lookup_erase_some hp).2

theorem ContentInv.rmdir (h : ContentInv full known hash s) (room : RoomId) (maint : Maint) :
    ContentInv full known hash { s with fs := s.fs.rmdir room, maint := maint } := by
  unfold Fs.rmdir
  split <;> exact h.frame (Nat.le_refl _) (fun _ _ _ hp => hp) fun _ _ hp => hp

/-- An upload moves on: it writes to no file it did not write to, takes no new number, and what
    it tracked it still tracks. -/
theorem ContentInv.put (h : ContentInv full known hash s) {k : Nat} {u' : Upload}
    (hw : ∀ n, u'.Writes n → ∃ u, s.uploads.lookup k = some u ∧ u.Writes n ∧
      (u.Tracks (s.fs.content n) (n ∈ s.faults) → u'.Tracks (s.fs.content n) (n ∈ s.faults)))
    (hm : ∀ source reply n, u'.phase = .moving source reply → u'.created = some n → ∃ u source' reply',
      s.uploads.lookup k = some u ∧ u.phase = .moving source' reply' ∧ u.created = some n ∧ u'.hashed = u.hashed)
    (hn : ∀ n, u'.number = some n → ∃ u, s.uploads.lookup k = some u ∧ u.number = some n) :
    ContentInv full known hash (s.put k u') := by
  have hseal : ∀ n body, Sealed full s n body → Sealed full (s.put k u') n body := fun n body hs => by
    refine hs.of { untouched s n with writers := writers_insert fun hwr => ?_ }
    obtain ⟨u, hu, hwu, _⟩ := hw n hwr
    exact ⟨k, u, hu, hwu⟩
  refine h.of hseal (fun j v n hv hwr => ?_) (fun r d n hc => ⟨(h.creates r d n hc).1, fun j v hv hvn => ?_⟩)
    { unchanged s (Nat.le_refl _) with moving := fun j v source reply n hv hp hc => ?_ }
  · rcases Map.lookup_insert_some hv with ⟨rfl, rfl⟩ | ⟨_, hv⟩
    · obtain ⟨u, hu, hwu, ht⟩ := hw n hwr
      obtain ⟨h1, h2⟩ := h.tracks j u n hu hwu
      exact ⟨ht h1, h2⟩
    · exact h.tracks j v n hv hwr
  · rcases Map.lookup_insert_some hv with ⟨rfl, rfl⟩ | ⟨_, hv⟩
    · obtain ⟨u, hu, hun⟩ := hn n hvn
      exact (h.creates r d n hc).2 j u hu hun
    · exact (h.creates r d n hc).2 j v hv hvn
  · rcases Map.lookup_insert_some hv with ⟨rfl, rfl⟩ | ⟨_, hv⟩
    · obtain ⟨u, source', reply', hu, hpu, hcu, heq⟩ := hm source reply n hp hc
      rw [heq]
      exact .inr (hseal n _ (h.moving j u source' reply' n hu hpu hcu))
    · exact .inl hv

theorem Turn.writes {k : Nat} {e : DiskEv} {u u' : Upload} (ht : Turn hash k u e u') (hs : u.Shape hash) {n : Nat}
    (hw : u'.Writes n) : u.Writes n ∧ ∀ content faulty, u.Tracks content faulty → u'.Tracks content faulty := by
  have hph := hs.phase
  cases ht with
  | openForChunk chunk hp hf _ =>
    rcases hw with ⟨_, hf'⟩ | ⟨reply, next, hp'⟩
    · rw [hf] at hf'; cases hf'
    · cases hp'
  | openForNothing hp ht _ =>
    rw [hp] at hph
    rcases hph with hu | ⟨⟨m, _, hm⟩, _⟩
    · rcases hw with ⟨hc, _⟩ | ⟨reply, next, hp'⟩
      · rw [hu.2.2.1] at hc; cases hc
      · cases hp'
    · rw [ht] at hm; cases hm
  | inspect now next hp | secure now next hp =>
    rw [hp] at hph
    rcases hw with ⟨hc, _⟩ | ⟨reply, next, hp'⟩
    · rw [hph.1.2.2.1] at hc; cases hc
    · cases hp'
  | fill handle chunk hp hf _ =>
    rcases hw with hw | ⟨reply, next, hp'⟩
    · exact ⟨.inl hw, fun content faulty htr => htr.congr hw.2 rfl rfl⟩
    · cases hp'
  | append now chunk hp hidle =>
    rw [hp] at hph
    rcases hw with ⟨hc, _⟩ | ⟨reply, next, hp'⟩
    · refine ⟨.inl ⟨hc, hph.1.2⟩, fun content faulty htr => ?_⟩
      cases chunk with
      | nil =>
        have he : (u.append []).hashed = u.hashed := List.append_nil _
        exact htr.congr hph.1.2 rfl he
      | cons b rest =>
        have hf : u.file = some .idle := by
          rcases hidle with hnil | hf
          · cases hnil
          · exact hf
        rw [Upload.tracks_some hf] at htr
        exact ⟨by rw [htr.1]; rfl, htr.2⟩
    · cases hp'
  | appendFirst now m chunk hp =>
    rw [hp] at hph
    rcases hw with ⟨hc, _⟩ | ⟨reply, next, hp'⟩
    · cases hc
      refine ⟨.inr ⟨_, _, hp⟩, fun content faulty htr => ?_⟩
      simp only [Upload.Tracks, hph.1.2.1] at htr
      have hnil := htr.2 n _ hp
      have hh : ({ u.opened n with file := some .idle }.append chunk).hashed = chunk := by
        simp [Upload.append, Upload.opened, hph.1.2.2.2]
      unfold Upload.Tracks
      rw [hh, hnil]
      cases chunk with
      | nil => exact ⟨rfl, htr.1⟩
      | cons b rest => exact ⟨rfl, htr.1⟩
    · cases hp'
  | mismatch error hp =>
    rw [hp] at hph
    rcases hw with hw | ⟨reply, next, hp'⟩
    · exact ⟨.inl hw, fun content faulty htr => htr.congr hw.2 rfl rfl⟩
    · cases hp'
  | openFailed now hf =>
    rcases hw with ⟨hc, _⟩ | ⟨reply, next, hp'⟩
    · rw [(hf.shape hs).2.2.1] at hc; cases hc
    · cases hp'
  | renameFailed now source reply hp _ =>
    rw [hp] at hph
    rcases hw with ⟨_, hf⟩ | ⟨reply, next, hp'⟩
    · rw [hph.2.2.1] at hf; cases hf
    · cases hp'

theorem Turn.not_moving {k : Nat} {e : DiskEv} {u u' : Upload} (ht : Turn hash k u e u') (source : Path)
    (reply : Option Reply) : u'.phase ≠ .moving source reply := by
  cases ht <;> intro h <;> cases h

/-- Two uploads never write to one file. -/
theorem SysInv.writes_once (hi : SysInv hash s) {j k n : Nat} {u v : Upload} (hu : s.uploads.lookup j = some u)
    (hv : s.uploads.lookup k = some v) (hwu : u.Writes n) (hwv : v.Writes n) : j = k :=
  hi.distinct j k u v n hu hv (hwu.number (hi.shape j u hu)) (hwv.number (hi.shape k v hv))

theorem ContentInv.turn (h : ContentInv full known hash s) (hi : SysInv hash s) {k : Nat} {e : DiskEv} {u u' : Upload}
    (hu : s.uploads.lookup k = some u) (ht : Turn hash k u e u') : ContentInv full known hash (s.put k u') := by
  have hs := hi.shape k u hu
  refine h.put (fun n hw => ?_) (fun source reply n hp _ => absurd hp (ht.not_moving source reply))
    fun n hn => ⟨u, hu, ht.number hs hn⟩
  obtain ⟨hwu, htr⟩ := ht.writes hs hw
  exact ⟨u, hu, hwu, htr _ _⟩

/-- A number is drawn that nothing has yet. -/
theorem ContentInv.create (h : ContentInv full known hash s) (hi : SysInv hash s) {k : Nat} {u : Upload} {next : Next}
    {call : DirCall} (hu : s.uploads.lookup k = some u) (hp : u.phase = .opening call (some .ok) next) :
    ContentInv full known hash (s.create k u next) := by
  have hs := (hi.shape k u hu).phase
  rw [hp] at hs
  have hnew : ∀ n, ({ u with phase := .creating s.store.nextSerial none next } : Upload).Writes n →
      n = s.store.nextSerial := by
    rintro n (⟨hc, _⟩ | ⟨reply, next', hp'⟩)
    · change u.created = some n at hc
      rw [hs.1.2.2.1] at hc; cases hc
    · cases hp'; rfl
  have hseal : ∀ n body, Sealed full s n body → Sealed full (s.create k u next) n body := fun n body hsl => by
    refine hsl.of { untouched s n with serial := Nat.le_succ _, writers := writers_insert fun hwr => ?_ }
    have hd := hsl.drawn
    rw [hnew n hwr] at hd
    exact absurd hd (Nat.lt_irrefl _)
  refine h.of hseal (fun j v n hv hwr => ?_)
    (fun r d n hc => ⟨Nat.lt_succ_of_lt (h.creates r d n hc).1, fun j v hv hvn => ?_⟩)
    { unchanged s (Nat.le_succ _) with moving := fun j v source reply n hv hp' hc => ?_ }
  · rcases Map.lookup_insert_some hv with ⟨rfl, rfl⟩ | ⟨_, hv⟩
    · obtain rfl := hnew n hwr
      refine ⟨?_, ?_, fun r d hc => Nat.lt_irrefl _ (h.creates r d _ hc).1⟩
      · simp only [Upload.Tracks, hs.1.2.1]
        exact ⟨fun hn => Nat.lt_irrefl _ (h.faults _ hn), fun m next' hcr => by cases hcr⟩
      · cases ho : s.orphans.lookup s.store.nextSerial with
        | none => exact ho
        | some c => exact absurd (h.orphans _ c ho) (Nat.lt_irrefl _)
    · exact h.tracks j v n hv hwr
  · rcases Map.lookup_insert_some hv with ⟨rfl, rfl⟩ | ⟨_, hv⟩
    · cases hvn
      exact Nat.lt_irrefl _ (h.creates r d _ hc).1
    · exact (h.creates r d n hc).2 j v hv hvn
  · rcases Map.lookup_insert_some hv with ⟨rfl, rfl⟩ | ⟨_, hv⟩
    · cases hp'
    · exact .inl hv

/-! ## The handle is dropped -/

theorem orphaned_of_not_writes {o : Map Nat Bytes} {u : Upload} {n : Nat} (h : ¬ u.Writes n) :
    (orphaned o u).lookup n = o.lookup n := by
  unfold orphaned
  split
  · rename_i m buffer hc hf
    have hne : n ≠ m := fun e => h (.inl ⟨e ▸ hc, by rw [hf]; rfl⟩)
    exact AList.lookup_insert_ne hne
  · rfl

theorem orphaned_some {o : Map Nat Bytes} {u : Upload} {n : Nat} {c : Bytes} (h : (orphaned o u).lookup n = some c) :
    o.lookup n = some c ∨ (u.created = some n ∧ u.file = some (.pending c)) := by
  unfold orphaned at h
  split at h
  · rename_i m buffer hc hf
    rcases Map.lookup_insert_some h with ⟨rfl, rfl⟩ | ⟨_, h⟩
    · exact .inr ⟨hc, hf⟩
    · exact .inl h
  · exact .inl h

/-- The upload drops its handle, if it has one, and submits the rename: the file is sealed from
    here on. -/
theorem ContentInv.rename (h : ContentInv full known hash s) (hi : SysInv hash s) {k n : Nat} {u u₁ : Upload} {temp : Path}
    (hu : s.uploads.lookup k = some u) (hw : u.Writes n) (hc₁ : u₁.created = some n)
    (hbegun : s.fs.content n <+: u₁.hashed)
    (hrest : ∀ b, u₁.file = some (.pending b) → s.fs.content n ++ b = u₁.hashed)
    (hwhole : full → s.fs.content n = u₁.hashed ∧ (∀ b, u₁.file ≠ some (.pending b)) ∧ n ∉ s.faults) :
    ContentInv full known hash (s.rename k u₁ temp) := by
  obtain ⟨_, hnone, hnocr⟩ := h.tracks k u n hu hw
  have hcl : ∀ m, ¬ ({ u₁ with file := none, phase := .moving temp none } : Upload).Writes m := by
    rintro m (⟨_, hf⟩ | ⟨reply, next, hp⟩)
    · cases hf
    · cases hp
  have hother : ∀ j v m, j ≠ k → s.uploads.lookup j = some v → v.Writes m → m ≠ n := fun j v m hj hv hwr e =>
    hj (hi.writes_once hv hu (e ▸ hwr) hw)
  have hkeep : ∀ m, m ≠ n → (orphaned s.orphans u₁).lookup m = s.orphans.lookup m := fun m hm => by
    refine Option.ext fun c => ⟨fun hc => ?_, fun hc => ?_⟩
    · rcases orphaned_some hc with hc | ⟨hcr, _⟩
      · exact hc
      · rw [hc₁] at hcr; cases hcr; exact absurd rfl hm
    · unfold orphaned
      split
      · rename_i m' buffer hcr hf
        rw [hc₁] at hcr; cases hcr
        rw [AList.lookup_insert_ne hm]; exact hc
      · exact hc
  have hown : ∀ c, (orphaned s.orphans u₁).lookup n = some c → u₁.file = some (.pending c) := fun c hc => by
    rcases orphaned_some hc with hc | ⟨_, hf⟩
    · rw [hnone] at hc; cases hc
    · exact hf
  have hwr : ∀ j v m, (s.rename k u₁ temp).uploads.lookup j = some v → v.Writes m →
      j ≠ k ∧ s.uploads.lookup j = some v := fun j v m hv hwv => by
    rcases Map.lookup_insert_some hv with ⟨rfl, rfl⟩ | hv
    · exact absurd hwv (hcl m)
    · exact hv
  have hseal : ∀ m body, Sealed full s m body → Sealed full (s.rename k u₁ temp) m body := fun m body hs => by
    have hm : m ≠ n := fun e => hs.unwritten k u hu (e ▸ hw)
    exact hs.of { untouched s m with writers := fun j v hv hwv => ⟨j, v, (hwr j v m hv hwv).2, hwv⟩, orphans := hkeep m hm }
  have hnew : Sealed full (s.rename k u₁ temp) n u₁.hashed := by
    refine ⟨hi.fresh k u n hu (hw.number (hi.shape k u hu)), fun j v hv hwv => ?_, hnocr, hbegun,
      fun c hc => hrest c (hown c hc), fun hx => ?_⟩
    · obtain ⟨hj, hv⟩ := hwr j v n hv hwv
      exact hother j v n hj hv hwv rfl
    · obtain ⟨h1, h2, h3⟩ := hwhole hx
      refine ⟨h1, ?_, h3⟩
      cases hc : (orphaned s.orphans u₁).lookup n with
      | none => exact hc
      | some c => exact absurd (hown c hc) (h2 c)
  refine h.of hseal (fun j v m hv hwv => ?_) (fun r d m hc => ⟨(h.creates r d m hc).1, fun j v hv hvn => ?_⟩)
    { unchanged s (Nat.le_refl _) with moving := fun j v source reply m hv hp hc => ?_, orphans := fun m c hc => ?_ }
  · obtain ⟨hj, hv⟩ := hwr j v m hv hwv
    obtain ⟨h1, h2, h3⟩ := h.tracks j v m hv hwv
    exact ⟨h1, (hkeep m (hother j v m hj hv hwv)).trans h2, h3⟩
  · rcases Map.lookup_insert_some hv with ⟨rfl, rfl⟩ | ⟨_, hv⟩
    · have hm : u₁.created = some m := hvn
      rw [hc₁] at hm; cases hm
      exact hnocr r d hc
    · exact (h.creates r d m hc).2 j v hv hvn
  · rcases Map.lookup_insert_some hv with ⟨rfl, rfl⟩ | ⟨_, hv⟩
    · have hcm : u₁.created = some m := hc
      rw [hc₁] at hcm; cases hcm
      exact .inr hnew
    · exact .inl hv
  · rcases orphaned_some hc with hc | ⟨hcr, _⟩
    · exact .inl hc
    · rw [hc₁] at hcr; cases hcr
      exact .inr (hi.fresh k u n hu (hw.number (hi.shape k u hu)))

/-- The event drops a handle to make the payload visible while its last write is still pending, or
    has failed. -/
def closesEarly (hash : Bytes → String) (s : Sys) : DiskEv → Bool
  | .endBody k => (s.uploads.lookup k).any fun u =>
    u.written == u.guard.declared && hash u.hashed == u.guard.digest && u.file.any (· != .idle)
  | _ => false

theorem ContentInv.close (h : ContentInv full known hash s) (hi : SysInv hash s) {k : Nat} {u : Upload} {temp : Path}
    (hu : s.uploads.lookup k = some u) (hp : u.phase = .ready) (hv : u.Verified hash) (ht : u.temp = some temp)
    (hok : full → closesEarly hash s (.endBody k) = false) : ContentInv full known hash (s.rename k u temp) := by
  have hs := (hi.shape k u hu).phase
  rw [hp] at hs
  rcases hs with hs | ⟨⟨n, hc, _⟩, hf⟩
  · rw [hs.1] at ht; cases ht
  have hw : u.Writes n := .inl ⟨hc, hf⟩
  obtain ⟨htr, _, _⟩ := h.tracks k u n hu hw
  obtain ⟨handle, hh⟩ := Option.isSome_iff_exists.mp hf
  rw [Upload.tracks_some hh] at htr
  refine h.rename hi hu hw hc ?_ (fun b hb => ?_) fun hx => ?_
  · cases handle with
    | idle => exact htr.1 ▸ List.prefix_rfl
    | pending b => rw [← htr.1]; exact List.prefix_append _ _
    | failed => exact htr
  · rw [hh] at hb; cases hb; exact htr.1
  · have hidle : handle = .idle := by
      have hce := hok hx
      simp only [closesEarly, hu, Option.any_some, hv.1, hv.2, hh, beq_self_eq_true, Bool.true_and] at hce
      simpa using hce
    subst hidle
    exact ⟨htr.1, fun b hb => by (rw [hh] at hb; cases hb), htr.2⟩

/-- A payload of no bytes: its file was created and never opened for writing. -/
theorem ContentInv.created (h : ContentInv full known hash s) (hi : SysInv hash s) {k n : Nat} {u : Upload}
    (hu : s.uploads.lookup k = some u) (hp : u.phase = .creating n (some .ok) .finish) (temp : Path) :
    ContentInv full known hash (s.rename k (u.opened n) temp) := by
  have hs := (hi.shape k u hu).phase
  rw [hp] at hs
  have hw : u.Writes n := .inr ⟨_, _, hp⟩
  obtain ⟨htr, _, _⟩ := h.tracks k u n hu hw
  simp only [Upload.Tracks, hs.1.2.1] at htr
  have hnil : s.fs.content n = (u.opened n).hashed := by rw [htr.2 n _ hp]; exact hs.1.2.2.2.symm
  have hfile : ∀ b, (u.opened n).file ≠ some (.pending b) := fun b hb => by
    change u.file = _ at hb
    rw [hs.1.2.1] at hb; cases hb
  exact h.rename hi hu hw rfl (hnil ▸ List.prefix_rfl) (fun b hb => absurd hb (hfile b)) fun _ => ⟨hnil, hfile, htr.1⟩

/-- The upload is gone; what it left is a pending write, or an operation on its own file. -/
theorem ContentInv.dropUpload (h : ContentInv full known hash s) (hi : SysInv hash s) (hk : Vouched known s) {k : Nat} {u : Upload}
    (hu : s.uploads.lookup k = some u) : ContentInv full known hash (s.dropUpload k u) := by
  obtain ⟨hst, _⟩ := Store.abandonUpload_views hi.store u.guard.room u.guard.digest u.guard.serial
  have hshape := hi.shape k u hu
  have hwr : ∀ j v m, (s.dropUpload k u).uploads.lookup j = some v → v.Writes m → ¬ u.Writes m :=
    fun j v m hv hwv hwu =>
      (Map.lookup_erase_some hv).1 (hi.writes_once (Map.lookup_erase_some hv).2 hu hwv hwu)
  have hop : ∀ r d m, Op.create r d m ∈ (s.dropUpload k u).detached →
      Op.create r d m ∈ s.detached ∨ ∃ next, u.phase = .creating m none next := by
    intro r d m hc
    rcases List.mem_append.mp hc with hc | hc
    · exact .inl hc
    · have ho := Option.mem_toList.mp hc
      unfold Upload.op at ho
      split at ho <;> cases ho
      exact .inr ⟨_, ‹_›⟩
  have hcr : ∀ r d m, ¬ u.Writes m → Op.create r d m ∈ (s.dropUpload k u).detached → Op.create r d m ∈ s.detached := by
    intro r d m hnw hc
    rcases hop r d m hc with hc | ⟨next, hp⟩
    · exact hc
    · exact absurd (.inr ⟨_, _, hp⟩) hnw
  have hseal : ∀ m body, Sealed full s m body → Sealed full (s.dropUpload k u) m body := fun m body hs => by
    have hnw := hs.unwritten k u hu
    exact hs.of { untouched s m with writers := fun j v hv hwv => ⟨j, v, (Map.lookup_erase_some hv).2, hwv⟩
                                     creates := fun r d => hcr r d m hnw, orphans := orphaned_of_not_writes hnw }
  refine h.of hseal (fun j v m hv hwv => ?_) (fun r d m hc => ?_)
    { unchanged s (Nat.le_refl _) with
      moving := fun _ _ _ _ _ hv _ _ => .inl (Map.lookup_erase_some hv).2, orphans := fun m c hc => ?_
      renames := fun source target ho => ?_, stored := fun r d p hp => .inl (by rw [← hst]; exact hp) }
  · obtain ⟨h1, h2, h3⟩ := h.tracks j v m (Map.lookup_erase_some hv).2 hwv
    have hnw := hwr j v m hv hwv
    exact ⟨h1, (orphaned_of_not_writes hnw).trans h2, fun r d hc => h3 r d (hcr r d m hnw hc)⟩
  · rcases hop r d m hc with hc | ⟨next, hp⟩
    · exact ⟨(h.creates r d m hc).1, fun j v hv => (h.creates r d m hc).2 j v (Map.lookup_erase_some hv).2⟩
    · have hn : u.number = some m := by rw [Upload.number, hp]
      have hfree := hi.free hu hn
      exact ⟨hfree.1, fun j v hv => hfree.2 j v (Map.lookup_erase_some hv).1 (Map.lookup_erase_some hv).2⟩
  · rcases orphaned_some hc with hc | ⟨hcr, hf⟩
    · exact .inl hc
    · have hw : u.Writes m := .inl ⟨hcr, by rw [hf]; rfl⟩
      exact .inr (hi.fresh k u m hu (hw.number hshape))
  · rcases List.mem_append.mp ho with ho | ho
    · exact .inl ho
    · obtain ⟨hp, _, rfl, _⟩ := hshape.renames (Option.mem_toList.mp ho)
      have hs := hshape.phase
      rw [hp] at hs
      obtain ⟨⟨n, hc, htemp⟩, htemp', _, hver⟩ := hs
      rw [htemp] at htemp'; cases htemp'
      exact .inr ⟨_, _, n, u.hashed, rfl, rfl, ⟨hver.2, hk k u hu (by rw [hp]; rfl)⟩,
        hseal n _ (h.moving k u _ _ n hu hp hc)⟩

theorem ContentInv.endUpload (h : ContentInv full known hash s) (hi : SysInv hash s) (hk : Vouched known s) {k : Nat}
    {u : Upload} (hu : s.uploads.lookup k = some u) (error : UploadError) :
    ContentInv full known hash (s.endUpload k u error) := by
  have hd := h.dropUpload hi hk hu
  have hseal : ∀ n body, Sealed full (s.dropUpload k u) n body → Sealed full (s.endUpload k u error) n body :=
    fun n body hs => hs.of { untouched _ n with }
  refine hd.of hseal hd.tracks hd.creates { unchanged _ (Nat.le_refl _) with outcomes := fun o ho => ?_ }
  rcases List.mem_append.mp ho with ho | ho
  · exact .inl ho
  · refine .inr fun bytes n hr => ?_
    rw [List.mem_singleton.mp ho] at hr; cases hr

/-! ## Files are written and renamed -/

theorem Fs.append_content_ne (fs : Fs) {m n : Nat} (h : m ≠ n) (bytes : Bytes) :
    (fs.append n bytes).content m = fs.content m := Function.update_of_ne h _ _

theorem Fs.append_content_self (fs : Fs) (n : Nat) (bytes : Bytes) :
    (fs.append n bytes).content n = fs.content n ++ bytes := Function.update_self _ _ _

theorem mem_wrote_faults (s : Sys) (n : Nat) (buffer : Bytes) (short : Option Nat) {m : Nat} :
    m ∈ (s.wrote n buffer short).faults ↔ m ∈ s.faults ∨ (short.isSome = true ∧ m = n) := by
  simp only [Sys.wrote]
  split
  · rename_i h; simp [h]
  · rename_i h; simp [h]

theorem mem_wrote_faults_ne (s : Sys) {n m : Nat} (buffer : Bytes) (short : Option Nat) (hm : m ≠ n) :
    m ∈ (s.wrote n buffer short).faults ↔ m ∈ s.faults := by
  rw [mem_wrote_faults]
  exact or_iff_left fun h => hm h.2

/-- A background write's end: only the upload's own file changes, and the upload keeps track. -/
theorem ContentInv.background (h : ContentInv full known hash s) (hi : SysInv hash s) {k n : Nat} {u : Upload}
    {buffer : Bytes} {short : Option Nat} (hu : s.uploads.lookup k = some u) (hc : u.created = some n)
    (hf : u.file = some (.pending buffer)) :
    ContentInv full known hash
      ((s.wrote n buffer short).put k { u with file := some (if short.isSome then .failed else .idle) }) := by
  have hw : u.Writes n := .inl ⟨hc, by rw [hf]; rfl⟩
  have hshape := hi.shape k u hu
  obtain ⟨htr, hno, hnc⟩ := h.tracks k u n hu hw
  rw [Upload.tracks_some hf] at htr
  have hnow : ∀ m, ({ u with file := some (if short.isSome then .failed else .idle) } : Upload).Writes m → m = n := by
    rintro m (⟨hcm, _⟩ | ⟨reply, next, hp⟩)
    · have hcm' : u.created = some m := hcm
      rw [hc] at hcm'; cases hcm'; rfl
    · have hs := hshape.phase
      have hp' : u.phase = .creating m reply next := hp
      rw [hp'] at hs
      rw [hs.1.2.1] at hf; cases hf
  have hseal : ∀ m body, Sealed full s m body → Sealed full ((s.wrote n buffer short).put k
      { u with file := some (if short.isSome then .failed else .idle) }) m body := fun m body hs => by
    have hm : m ≠ n := fun e => hs.unwritten k u hu (e ▸ hw)
    exact hs.of { untouched s m with writers := writers_insert fun hwm => absurd (hnow m hwm) hm
                                     content := s.fs.append_content_ne hm _
                                     faults := (mem_wrote_faults_ne s buffer short hm).mp }
  refine h.of hseal (fun j v m hv hwv => ?_) (fun r d m hcr => ⟨(h.creates r d m hcr).1, fun j v hv => ?_⟩)
    { unchanged s (Nat.le_refl _) with moving := fun j v source reply m hv hp hcm => ?_, faults := fun m hm => ?_ }
  · rcases Map.lookup_insert_some hv with ⟨rfl, rfl⟩ | ⟨hj, hv⟩
    · obtain rfl := hnow m hwv
      refine ⟨(Upload.tracks_some rfl).mpr ?_, hno, hnc⟩
      have hcontent : ((s.wrote m buffer short).put j
          { u with file := some (if short.isSome then .failed else .idle) }).fs.content m =
          s.fs.content m ++ short.elim buffer buffer.take := s.fs.append_content_self m _
      rw [hcontent]
      cases short with
      | none => exact ⟨htr.1, htr.2⟩
      | some j =>
        show s.fs.content m ++ buffer.take j <+: u.hashed
        rw [← htr.1]
        exact (List.prefix_append_right_inj _).mpr (List.take_prefix _ _)
    · have hm : m ≠ n := fun e => hj (hi.writes_once hv hu (e ▸ hwv) hw)
      obtain ⟨h1, h2, h3⟩ := h.tracks j v m hv hwv
      refine ⟨?_, h2, h3⟩
      have hcontent : ((s.wrote n buffer short).put k
          { u with file := some (if short.isSome then .failed else .idle) }).fs.content m = s.fs.content m :=
        s.fs.append_content_ne hm _
      have hfaults : (m ∈ ((s.wrote n buffer short).put k
          { u with file := some (if short.isSome then .failed else .idle) }).faults) = (m ∈ s.faults) :=
        propext (mem_wrote_faults_ne s buffer short hm)
      rw [hcontent, hfaults]
      exact h1
  · rcases Map.lookup_insert_some hv with ⟨rfl, rfl⟩ | ⟨_, hv⟩
    · exact (h.creates r d m hcr).2 j u hu
    · exact (h.creates r d m hcr).2 j v hv
  · rcases Map.lookup_insert_some hv with ⟨rfl, rfl⟩ | ⟨_, hv⟩
    · have hs := hshape.phase
      have hp' : u.phase = .moving source reply := hp
      rw [hp'] at hs
      rw [hs.2.2.1] at hf; cases hf
    · exact .inl hv
  · rcases (mem_wrote_faults s n buffer short).mp hm with hm | ⟨_, rfl⟩
    · exact .inl hm
    · exact .inr (hi.fresh k u m hu (hw.number hshape))

/-- The write a dropped handle left behind is performed. The file it belongs to may be sealed, and
    then grows towards its body; it is nobody else's. -/
theorem ContentInv.backgroundOrphan (h : ContentInv full known hash s) {n : Nat} {buffer : Bytes} {short : Option Nat}
    (ho : s.orphans.lookup n = some buffer) :
    ContentInv full known hash { s.wrote n buffer short with orphans := s.orphans.erase n } := by
  have hseal : ∀ m body, Sealed full s m body →
      Sealed full { s.wrote n buffer short with orphans := s.orphans.erase n } m body := fun m body hs => by
    by_cases hm : m = n
    · subst hm
      have hrest := hs.rest buffer ho
      refine ⟨hs.drawn, hs.unwritten, hs.uncreated, ?_, fun c hc => ?_, fun hx => ?_⟩
      · show (s.fs.append m _).content m <+: body
        rw [s.fs.append_content_self, ← hrest]
        refine (List.prefix_append_right_inj _).mpr ?_
        cases short with
        | none => exact List.prefix_rfl
        | some j => exact List.take_prefix _ _
      · exact absurd rfl (Map.lookup_erase_some hc).1
      · have hn := (hs.whole hx).2.1
        rw [ho] at hn; cases hn
    · exact hs.of { untouched s m with content := s.fs.append_content_ne hm _, orphans := AList.lookup_erase_ne hm
                                       faults := (mem_wrote_faults_ne s buffer short hm).mp }
  refine h.of hseal (fun j v m hv hwv => ?_) h.creates
    { unchanged s (Nat.le_refl _) with orphans := fun _ _ hc => .inl (Map.lookup_erase_some hc).2, faults := fun m hm => ?_ }
  · obtain ⟨h1, h2, h3⟩ := h.tracks j v m hv hwv
    have hm : m ≠ n := fun e => by rw [e, ho] at h2; cases h2
    refine ⟨?_, (AList.lookup_erase_ne hm).trans h2, h3⟩
    show v.Tracks ((s.fs.append n _).content m) (m ∈ (s.wrote n buffer short).faults)
    rw [s.fs.append_content_ne hm, propext (mem_wrote_faults_ne s buffer short hm)]
    exact h1
  · rcases (mem_wrote_faults s n buffer short).mp hm with hm | ⟨_, rfl⟩
    · exact .inl hm
    · exact .inr (h.orphans m buffer ho)

/-- A temporary file is created, under a number nothing sealed has. -/
theorem ContentInv.makeFile (h : ContentInv full known hash s) {room : RoomId} {digest : String} {n : Nat}
    (hseal : ∀ body, ¬ Sealed full s n body)
    (hw : ∀ k u, s.uploads.lookup k = some u → u.Writes n → u.Tracks [] (n ∈ s.faults)) :
    ContentInv full known hash { s with fs := (s.fs.perform (.create room digest n)).1 } := by
  simp only [Fs.perform]
  split
  · have hs : ∀ m body, Sealed full s m body → Sealed full { s with fs := { s.fs with
        files := s.fs.files.insert (tempPath room digest n) n
        content := Function.update s.fs.content n [] } } m body := fun m body hs => by
      have hm : m ≠ n := fun e => hseal body (e ▸ hs)
      exact hs.of { untouched s m with content := Function.update_of_ne hm _ _ }
    refine h.of hs (fun j v m hv hwv => ?_) h.creates
      { unchanged s (Nat.le_refl _) with payloads := fun r d m hfl => ?_, temps := fun p m hfl hp => ?_ }
    · obtain ⟨h1, h2⟩ := h.tracks j v m hv hwv
      refine ⟨?_, h2⟩
      show v.Tracks (Function.update s.fs.content n [] m) (m ∈ s.faults)
      by_cases hm : m = n
      · subst hm; rw [Function.update_self]; exact hw j v hv hwv
      · rw [Function.update_of_ne hm]; exact h1
    · rcases Map.lookup_insert_some hfl with ⟨he, _⟩ | ⟨_, hfl⟩
      · exact absurd (he ▸ tempPath_isTemp room digest n) (payloadPath_not_isTemp r d)
      · exact .inl hfl
    · rcases Map.lookup_insert_some hfl with ⟨rfl, rfl⟩ | ⟨_, hfl⟩
      · exact .inr ⟨digest, rfl⟩
      · exact .inl hfl
  · exact h

/-- A sealed file is renamed to the address its body hashes to. -/
theorem ContentInv.moveFile (h : ContentInv full known hash s) {r : RoomId} {d : String} {n : Nat} {body : Bytes}
    (hb : Digested known hash d body) (hs : Sealed full s n body) :
    ContentInv full known hash { s with fs := (s.fs.perform (.rename (tempPath r d n) (payloadPath r d))).1 } := by
  simp only [Fs.perform]
  cases hl : s.fs.files.lookup (tempPath r d n) with
  | none => exact h
  | some m =>
    obtain ⟨d', hd'⟩ := h.temps _ m hl (tempPath_isTemp r d n)
    have hmn : m = n := by simp only [tempPath, Name.temp.injEq] at hd'; exact hd'.2.symm
    subst hmn
    have hkeep : ∀ m' body', Sealed full s m' body' → Sealed full { s with fs := { s.fs with
        files := (s.fs.files.erase (tempPath r d m)).insert (payloadPath r d) m } } m' body' := fun m' body' hs' =>
      hs'.of { untouched s m' with }
    refine h.of hkeep h.tracks h.creates
      { unchanged s (Nat.le_refl _) with payloads := fun r' d' m' hfl => ?_, temps := fun p m' hfl hp => ?_ }
    · rcases Map.lookup_insert_some hfl with ⟨he, rfl⟩ | ⟨_, hfl⟩
      · obtain ⟨rfl, rfl⟩ := payloadPath_inj he
        exact .inr ⟨body, hb, hkeep m' body hs⟩
      · exact .inl (Map.lookup_erase_some hfl).2
    · rcases Map.lookup_insert_some hfl with ⟨rfl, _⟩ | ⟨_, hfl⟩
      · exact absurd hp (payloadPath_not_isTemp r d)
      · exact .inl (Map.lookup_erase_some hfl).2

/-- The operations on directories and unlinks leave every remaining file as it is. -/
theorem ContentInv.withOp (h : ContentInv full known hash s) {op : Op}
    (hc : ∀ r d n, op = .create r d n → (∀ body, ¬ Sealed full s n body) ∧
      ∀ k u, s.uploads.lookup k = some u → u.Writes n → u.Tracks [] (n ∈ s.faults))
    (hr : ∀ source target, op = .rename source target → ∃ r d n body, source = tempPath r d n ∧
      target = payloadPath r d ∧ Digested known hash d body ∧ Sealed full s n body) :
    ContentInv full known hash { s with fs := (s.fs.perform op).1 } := by
  cases op with
  | mkdir room =>
    simp only [Fs.perform]
    split
    · exact h
    · exact h.frame (Nat.le_refl _) (fun _ _ _ hp => hp) fun _ _ hp => hp
  | symlinkMetadata room => exact h
  | setPermissions room => exact h
  | create room digest n => exact h.makeFile (hc room digest n rfl).1 (hc room digest n rfl).2
  | rename source target =>
    obtain ⟨r, d, n, body, rfl, rfl, hb, hs⟩ := hr source target rfl
    exact h.moveFile hb hs
  | unlink path => exact h.unlink path s.maint

theorem Fs.create_ok {fs : Fs} {room : RoomId} {digest : String} {n : Nat}
    (h : (fs.perform (.create room digest n)).2 = .ok) : (fs.perform (.create room digest n)).1.content n = [] := by
  simp only [Fs.perform] at h ⊢
  split at h
  · rename_i hd; rw [if_pos hd]; exact Function.update_self _ _ _
  · cases h

/-- The operation an upload awaits is one on its own file. -/
theorem ContentInv.performed (h : ContentInv full known hash s) (hi : SysInv hash s) (hk : Vouched known s) {k : Nat}
    {u : Upload} {op : Op} (hu : s.uploads.lookup k = some u) (ho : u.op = some op) : ContentInv full known hash (s.performed k u op) := by
  have hshape := hi.shape k u hu
  have hs := hshape.phase
  have hnum : ∀ n, ({ u with phase := u.phase.answer (s.fs.perform op).2 } : Upload).number = some n →
      ∃ u, s.uploads.lookup k = some u ∧ u.number = some n := fun n hn =>
    ⟨u, hu, by rw [Upload.number_answer] at hn; exact hn⟩
  cases Upload.awaits_of_op ho with
  | opening call next _ hp hop =>
    rw [hp] at hs
    have hf : ContentInv full known hash { s with fs := (s.fs.perform op).1 } := by
      refine h.withOp (fun r d n he => ?_) fun source target he => ?_ <;> subst he <;>
        rcases hop with hop | hop | hop <;> cases hop
    refine hf.put (fun n hw => ?_) (fun source reply n hm _ => ?_) hnum
    · rcases hw with ⟨hc, _⟩ | ⟨reply, next', hp'⟩
      · have hc' : u.created = some n := hc
        rw [hs.1.2.2.1] at hc'; cases hc'
      · simp only [hp] at hp'; cases hp'
    · simp only [hp] at hm; cases hm
  | creating n next hp =>
    rw [hp] at hs
    have hw : u.Writes n := .inr ⟨_, _, hp⟩
    have htr := (h.tracks k u n hu hw).1
    simp only [Upload.Tracks, hs.1.2.1] at htr
    have hf : ContentInv full known hash
        { s with fs := (s.fs.perform (.create u.guard.room u.guard.digest n)).1 } := by
      refine h.makeFile (fun body hsl => hsl.unwritten k u hu hw) fun j v hv hwv => ?_
      obtain rfl := hi.writes_once hv hu hwv hw
      rw [hu] at hv; cases hv
      simp only [Upload.Tracks, hs.1.2.1]
      exact ⟨htr.1, fun _ _ _ => trivial⟩
    refine hf.put (fun m hwm => ?_) (fun source reply m hm _ => ?_) hnum
    · have hmn : m = n := by
        rcases hwm with ⟨hc, _⟩ | ⟨reply, next', hp'⟩
        · have hc' : u.created = some m := hc
          rw [hs.1.2.2.1] at hc'; cases hc'
        · simp only [hp] at hp'; cases hp'; rfl
      subst hmn
      refine ⟨u, hu, hw, fun _ => ?_⟩
      simp only [Upload.Tracks, hs.1.2.1]
      refine ⟨htr.1, fun m' next' hok => ?_⟩
      simp only [hp, Phase.answer, Phase.creating.injEq, Option.some.injEq] at hok
      exact Fs.create_ok hok.2.1
    · simp only [hp] at hm; cases hm
  | moving source hp =>
    rw [hp] at hs
    obtain ⟨⟨n, hc, htemp⟩, htemp', hfile, hver⟩ := hs
    rw [htemp] at htemp'; cases htemp'
    have hf : ContentInv full known hash { s with
        fs := (s.fs.perform (.rename (tempPath u.guard.room u.guard.digest n) u.finalPath)).1 } :=
      h.moveFile ⟨hver.2, hk k u hu (by rw [hp]; rfl)⟩ (h.moving k u _ _ n hu hp hc)
    refine hf.put (fun m hw => ?_) (fun source reply m _ hcm => ⟨u, _, _, hu, hp, hcm, rfl⟩) hnum
    rcases hw with ⟨_, hfm⟩ | ⟨reply, next', hp'⟩
    · have hfm' : u.file.isSome = true := hfm
      rw [hfile] at hfm'; cases hfm'
    · simp only [hp] at hp'; cases hp'
  | unlinking path error hp =>
    have hf : ContentInv full known hash { s with fs := (s.fs.perform (.unlink path)).1 } := h.unlink path s.maint
    refine hf.put (fun m hw => ?_) (fun source reply m hm _ => ?_) hnum
    · rcases hw with hw | ⟨reply, next', hp'⟩
      · exact ⟨u, hu, .inl hw, fun htr => htr.congr hw.2 rfl rfl⟩
      · simp only [hp] at hp'; cases hp'
    · simp only [hp] at hm; cases hm

theorem ContentInv.performDetached (h : ContentInv full known hash s) (hi : SysInv hash s) {i : Nat} {op : Op}
    (ho : s.detached[i]? = some op) :
    ContentInv full known hash { s with fs := (s.fs.perform op).1, detached := s.detached.eraseIdx i } := by
  have hmem := List.mem_of_getElem? ho
  have hop : ContentInv full known hash { s with fs := (s.fs.perform op).1 } := by
    refine h.withOp (fun r d n he => ?_) fun source target he => ?_
    · subst he
      refine ⟨fun body hs => hs.uncreated r d hmem, fun k u hu hw => ?_⟩
      exact absurd (hw.number (hi.shape k u hu)) ((h.creates r d n hmem).2 k u hu)
    · subst he; exact h.renames source target hmem
  have hseal : ∀ n body, Sealed full { s with fs := (s.fs.perform op).1 } n body →
      Sealed full { s with fs := (s.fs.perform op).1, detached := s.detached.eraseIdx i } n body := fun n body hs =>
    hs.of { untouched _ n with creates := fun _ _ hd => List.mem_of_mem_eraseIdx hd }
  refine hop.of hseal (fun j v n hv hwv => ?_) (fun r d n hc => hop.creates r d n (List.mem_of_mem_eraseIdx hc))
    { unchanged _ (Nat.le_refl _) with renames := fun _ _ hr => .inl (List.mem_of_mem_eraseIdx hr) }
  obtain ⟨h1, h2, h3⟩ := hop.tracks j v n hv hwv
  exact ⟨h1, h2, fun r d hc => h3 r d (List.mem_of_mem_eraseIdx hc)⟩

/-- The upload settles: its body is what the new entry stands for, and its file is sealed. -/
theorem ContentInv.committed (h : ContentInv full known hash s) (hi : SysInv hash s) (hk : Vouched known s) {k now : Nat}
    {u : Upload} {source : Path} (hu : s.uploads.lookup k = some u) (hp : u.phase = .moving source (some .ok)) :
    ContentInv full known hash
      ({ s with store := (s.store.commitUpload u.guard now).2 }.settle k { u with temp := none }) := by
  have hs := hi.shape k u hu
  have hph := hs.phase
  rw [hp] at hph
  obtain ⟨⟨n, hc, _⟩, _, _, hver⟩ := hph
  have hseal : ∀ m body, Sealed full s m body → Sealed full
      ({ s with store := (s.store.commitUpload u.guard now).2 }.settle k { u with temp := none }) m body :=
    fun m body hsl => hsl.of { untouched s m with writers := fun j v hv hwv => ⟨j, v, (Map.lookup_erase_some hv).2, hwv⟩ }
  refine h.of hseal (fun j v m hv => h.tracks j v m (Map.lookup_erase_some hv).2)
    (fun r d m hcr => ⟨(h.creates r d m hcr).1, fun j v hv => (h.creates r d m hcr).2 j v (Map.lookup_erase_some hv).2⟩)
    { unchanged s (Nat.le_refl _) with
      moving := fun _ _ _ _ _ hv _ _ => .inl (Map.lookup_erase_some hv).2
      stored := fun r d p hpl => ?_, outcomes := fun o ho => ?_ }
  · change storedAt (s.store.commitUpload u.guard now).2.index r d = some p at hpl
    rcases Store.commitUpload_views hi.store (hi.guard k u hu).1 now with ⟨_, _, hst, _⟩ | ⟨_, hidx⟩
    · rw [hst] at hpl
      split at hpl
      · rename_i hat
        cases hpl
        have hknown := hk k u hu (by rw [hp]; rfl)
        exact .inr ⟨u.hashed, ⟨by rw [hat.2]; exact hver.2, hknown⟩, by rw [← hs.written]; exact hver.1⟩
      · exact .inl hpl
    · rw [hidx] at hpl; exact .inl hpl
  · rcases List.mem_append.mp ho with ho | ho
    · exact .inl ho
    · refine .inr fun bytes m _ hm => ⟨u.hashed, ?_⟩
      rw [List.mem_singleton.mp ho] at hm
      have hm' : u.created = some m := hm
      exact hseal m _ (h.moving k u source _ m hu hp hm')

theorem Moves.content {e : DiskEv} (hm : Moves hash s e t) (hi : SysInv hash s) (hk : Vouched known s)
    (h : ContentInv full known hash s) (hok : full → closesEarly hash s e = false) : ContentInv full known hash t := by
  cases hm with
  | reserve room digest bytes now =>
    obtain ⟨hst, _⟩ := Store.reserve_views hi.store room digest bytes now
    exact h.frame (Nat.le_refl _) (fun r d p hp => by rw [← hst]; exact hp) fun _ _ hp => hp
  | accepted room digest declared now serial _ =>
    obtain ⟨hst, _⟩ := Store.beginUpload_views hi.store room digest declared now
    have hf : ContentInv full known hash { s with store := (s.store.beginUpload room digest declared now).2 } :=
      h.frame (beginUpload_draws hi.store _ _ _ _) (fun r d p hp => by rw [← hst]; exact hp) fun _ _ hp => hp
    refine hf.put (fun n hw => ?_) (fun source reply n hp _ => ?_) fun n hn => ?_
    · rcases hw with ⟨hc, _⟩ | ⟨reply, next, hp⟩
      · cases hc
      · cases hp
    · cases hp
    · cases hn
  | notAccepted room digest declared now _ =>
    obtain ⟨hst, _⟩ := Store.beginUpload_views hi.store room digest declared now
    exact h.frame (beginUpload_draws hi.store _ _ _ _) (fun r d p hp => by rw [← hst]; exact hp) fun _ _ hp => hp
  | forgetRoom room =>
    obtain ⟨hst, _⟩ := Store.forgetRoom_views hi.store room
    refine h.frame (Nat.le_refl _) (fun r d p hp => ?_) fun _ _ hp => hp
    rw [hst] at hp
    split at hp
    · cases hp
    · exact hp
  | sweep now =>
    obtain ⟨hst, _⟩ := Store.sweep_views hi.store now
    exact h.frame (Nat.le_refl _) hst fun _ _ hp => hp
  | unlinkFile path _ => exact h.unlink path _
  | unlinkNext room name names _ => exact h.unlink _ _
  | rmdir room _ => exact h.rmdir room _
  | straggler room name names _ => exact h.unlink _ s.maint
  | turn e k u u' hu ht => exact h.turn hi hu ht
  | create k now u call next hu hp => exact h.create hi hu hp
  | close k u temp hu hp hv ht => exact h.close hi hu hp hv ht hok
  | created k now n u hu hp => exact h.created hi hu hp _
  | perform k u op hu ho => exact h.performed hi hk hu ho
  | committed k now u source hu hp _ => exact h.committed hi hk hu hp
  | notCommitted k now u source error hu hp hc =>
    have hs := (hi.shape k u hu).phase
    rw [hp] at hs
    have hf : ContentInv full known hash { s with store := (s.store.commitUpload u.guard now).2 } := by
      rcases Store.commitUpload_views hi.store (hi.guard k u hu).1 now with ⟨he, _⟩ | ⟨_, hidx⟩
      · rw [he] at hc; cases hc
      · exact h.frame (Nat.le_refl _) (fun r d p hp => by rw [hidx] at hp; exact hp) fun _ _ hp => hp
    refine hf.put (fun n hw => ?_) (fun source reply n hm _ => ?_) fun n hn => ⟨u, hu, ?_⟩
    · rcases hw with ⟨_, hfile⟩ | ⟨reply, next, hp'⟩
      · have hfile' : u.file.isSome = true := hfile
        rw [hs.2.2.1] at hfile'; cases hfile'
      · cases hp'
    · cases hm
    · rw [Upload.number, hp]; exact hn
  | recheckOwned k now u error hu hp _ _ | recheck k now u error temp hu hp _ _ =>
    refine h.put (fun n hw => ?_) (fun source reply n hm _ => ?_) fun n hn => ⟨u, hu, ?_⟩
    · rcases hw with hw | ⟨reply, next, hp'⟩
      · exact ⟨u, hu, .inl hw, fun htr => htr.congr hw.2 rfl rfl⟩
      · cases hp'
    · cases hm
    · rw [Upload.number, hp]; exact hn
  | fails e k u error hu _ =>
    exact h.endUpload hi hk hu error
  | cancel k u hu _ => exact h.dropUpload hi hk hu
  | background k n u buffer short hu hc hf => exact h.background hi hu hc hf
  | performDetached i op ho => exact h.performDetached hi ho
  | backgroundOrphan n buffer short ho => exact h.backgroundOrphan ho
  | _ => exact h.frame (Nat.le_refl _) (fun _ _ _ hp => hp) fun _ _ hp => hp

theorem ContentInv.init : ContentInv full known hash {} := by
  refine ⟨?_, ?_, ?_, ?_, ?_, ?_, ?_, ?_, ?_, ?_⟩
  · intro k u n h; cases h
  · intro k u source reply n h; cases h
  · intro r d n h; cases h
  · intro p n h; cases h
  · intro n c h; cases h
  · intro n h; cases h
  · intro r d n h; cases h
  · intro source target h; cases h
  · intro r d p h; cases h
  · intro o h; cases h

/-- The content of every file, in every run; in full where no handle is dropped early. -/
theorem content_inv (full : Prop) (known : Bytes → Prop) {ok : Sys → DiskEv → Prop}
    (hok : full → ∀ s e, ok s e → closesEarly hash s e = false) (hknown : ∀ s e, ok s e → HashesKnown known s e)
    (h : DiskReach hash ok s) : SysInv hash s ∧ ContentInv full known hash s := by
  have hinv := h.inv (P := fun s => SysInv hash s ∧ Vouched known s ∧ ContentInv full known hash s) ⟨.init, ?_, .init⟩ ?_
  · exact ⟨hinv.1, hinv.2.2⟩
  · intro k u hu
    cases hu
  · rintro s e t ⟨hi, hv, hc⟩ hoks he
    have hm := diskStep_moves he
    exact ⟨hm.sysInv hi, hm.vouched hv (hknown s e hoks), hm.content hi hv hc fun hx => hok hx s e hoks⟩

/-- And behind every address is a body that the run has hashed. -/
theorem hashed_content (full : Prop) {ok : Sys → DiskEv → Prop} {past : DiskPast}
    (hok : full → ∀ s e, ok s e → closesEarly hash s e = false) (h : DiskHistory hash ok (s, past)) :
    DiskReach hash ok s ∧ ContentInv full (· ∈ hashedIn past) hash s := by
  have hr := h.within
  refine ⟨hr.mono fun _ _ ho => ho.1, (content_inv full (· ∈ hashedIn past) (fun hx s e ho => hok hx s e ho.1) ?_ hr).2⟩
  intro s e ho body hb
  exact List.mem_filterMap.mpr ⟨⟨s, e⟩, ho.2, hb⟩

end OmpRelayd.Blob
