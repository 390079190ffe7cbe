/-
  OmpRelayd.Blob.Uploads — what is true of every upload, removal and file in every run.

  `Upload.Shape` says what an upload holds in each phase: whether its temporary file has
  been created and opened, what `temp` names, and that nothing is renamed before the body
  was found to be as long as declared and to hash to its address. `SysInv` adds that a
  removal of a temporary file really names one, that a file lies in a directory that
  exists, and that the store underneath is in a state its own runs reach (`StoreInv`).
-/

import OmpRelayd.Blob.Moves

namespace OmpRelayd.Blob

def Path.IsTemp (p : Path) : Prop := ∃ d n, p.name = .temp d n

theorem tempPath_isTemp (room : RoomId) (digest : String) (n : Nat) : (tempPath room digest n).IsTemp := ⟨digest, n, rfl⟩

theorem payloadPath_not_isTemp (room : RoomId) (digest : String) : ¬ (payloadPath room digest).IsTemp := by
  rintro ⟨d, n, h⟩; cases h

theorem payloadPath_inj {r r' : RoomId} {d d' : String} (h : payloadPath r d = payloadPath r' d') : r = r' ∧ d = d' := by
  simp only [payloadPath, Path.mk.injEq, Name.payload.injEq] at h; exact h

/-! ## The shape of an upload -/

/-- Nothing created, nothing hashed. -/
def Upload.Untouched (u : Upload) : Prop := u.temp = none ∧ u.file = none ∧ u.created = none ∧ u.hashed = []

/-- `temp` names the temporary file the upload created. -/
def Upload.HasTemp (u : Upload) : Prop :=
  ∃ n, u.created = some n ∧ u.temp = some (tempPath u.guard.room u.guard.digest n)

/-- The chunk fits what was declared; a payload of no bytes has been verified. -/
def Next.Fits (hash : Bytes → String) (u : Upload) : Next → Prop
  | .write chunk => u.written + chunk.length ≤ u.guard.declared
  | .finish => u.Verified hash

def Phase.Shape (hash : Bytes → String) (u : Upload) : Phase → Prop
  | .ready => u.Untouched ∨ (u.HasTemp ∧ u.file.isSome)
  | .opening _ _ next => u.Untouched ∧ next.Fits hash u
  | .creating _ _ next => u.Untouched ∧ next.Fits hash u
  | .filling chunk => (u.HasTemp ∧ u.file.isSome) ∧ u.written + chunk.length ≤ u.guard.declared
  | .moving source _ => u.HasTemp ∧ u.temp = some source ∧ u.file = none ∧ u.Verified hash
  | .refused _ => u.temp = none ∨ u.HasTemp ∨ u.temp = some u.finalPath
  | .unlinking _ _ _ => u.temp = none
  | .dropping _ => u.temp = none

structure Upload.Shape (hash : Bytes → String) (u : Upload) : Prop where
  phase : u.phase.Shape hash u
  written : u.written = u.hashed.length
  fits : u.written ≤ u.guard.declared

variable {hash : Bytes → String}

theorem Upload.Shape.fresh (g : Guard) : Upload.Shape hash { guard := g } :=
  ⟨.inl ⟨rfl, rfl, rfl, rfl⟩, rfl, Nat.zero_le _⟩

theorem Phase.Fails.shape {u : Upload} {next : Next} (hf : u.phase.Fails next) (h : u.Shape hash) : u.Untouched := by
  have hp := h.phase
  generalize hph : u.phase = phase at hf hp
  cases hf with
  | opening _ _ _ _ _ => exact hp.1
  | creating _ _ _ _ => exact hp.1

theorem Upload.append_hasTemp {u : Upload} (h : u.HasTemp) (hf : u.file.isSome) (chunk : Bytes) :
    (u.append chunk).HasTemp ∧ (u.append chunk).file.isSome := by
  refine ⟨h, ?_⟩
  simp only [Upload.append]
  split
  · exact hf
  · rfl

section
variable {k : Nat} {e : DiskEv} {u u' : Upload}

theorem Turn.guard (ht : Turn hash k u e u') : u'.guard = u.guard := by cases ht <;> rfl

theorem Turn.shape (ht : Turn hash k u e u') (h : u.Shape hash) : u'.Shape hash := by
  obtain ⟨hp, hw, hfit⟩ := h
  cases ht with
  | openForChunk chunk hr hf hlen =>
    rw [hr] at hp
    rcases hp with hu | ⟨_, hs⟩
    · exact ⟨⟨hu, hlen⟩, hw, hfit⟩
    · rw [hf] at hs; cases hs
  | openForNothing hr htemp hv =>
    rw [hr] at hp
    rcases hp with hu | ⟨⟨n, _, hs⟩, _⟩
    · exact ⟨⟨hu, hv⟩, hw, hfit⟩
    · rw [htemp] at hs; cases hs
  | inspect now next hr => rw [hr] at hp; exact ⟨hp, hw, hfit⟩
  | secure now next hr => rw [hr] at hp; exact ⟨hp, hw, hfit⟩
  | fill handle chunk hr hf hlen =>
    rw [hr] at hp
    rcases hp with hu | ho
    · rw [hu.2.1] at hf; cases hf
    · exact ⟨⟨ho, hlen⟩, hw, hfit⟩
  | append now chunk hr _ =>
    rw [hr] at hp
    refine ⟨.inr (Upload.append_hasTemp hp.1.1 hp.1.2 chunk), ?_, hp.2⟩
    simp [Upload.append, hw]
  | appendFirst now n chunk hr =>
    rw [hr] at hp
    refine ⟨.inr (Upload.append_hasTemp ⟨n, rfl, rfl⟩ rfl chunk), ?_, hp.2⟩
    simp [Upload.append, Upload.opened, hw]
  | mismatch error hr =>
    rw [hr] at hp
    rcases hp with hu | ho
    · exact ⟨.inl hu.1, hw, hfit⟩
    · exact ⟨.inr (.inl ho.1), hw, hfit⟩
  | openFailed now hf => exact ⟨.inl (Phase.Fails.shape hf ⟨hp, hw, hfit⟩).1, hw, hfit⟩
  | renameFailed now source reply hr _ => rw [hr] at hp; exact ⟨.inr (.inl hp.1), hw, hfit⟩

/-- The number of the temporary file the upload has created or is creating. -/
def Upload.number (u : Upload) : Option Nat :=
  match u.phase with
  | .creating n _ _ => some n
  | _ => u.created

theorem Turn.number (ht : Turn hash k u e u') (h : u.Shape hash) {n : Nat} (hn : u'.number = some n) :
    u.number = some n := by
  have hs := h.phase
  cases ht with
  | openForChunk chunk hp _ _ | openForNothing hp _ _ | inspect now next hp | secure now next hp
  | fill handle chunk hp _ _ | mismatch error hp | renameFailed now source reply hp _ =>
    simp only [Upload.number, hp] at hn ⊢; exact hn
  | append now chunk hp _ => simp only [Upload.number, Upload.append, hp] at hn ⊢; exact hn
  | appendFirst now m chunk hp => simp only [Upload.number, Upload.append, Upload.opened, hp] at hn ⊢; exact hn
  | openFailed now hf =>
    simp only [Upload.number] at hn
    rw [(hf.shape h).2.2.1] at hn; cases hn

end

theorem Upload.number_answer (u : Upload) (reply : Reply) :
    ({ u with phase := u.phase.answer reply } : Upload).number = u.number := by
  unfold Upload.number
  generalize u.phase = phase
  cases phase <;> rfl

/-- An upload can be dropped here: an await, or one of the ends of `finish`. -/
def Upload.Droppable (u : Upload) : Prop := u.phase.awaits = true ∨ u.temp = none

theorem Ends.droppable {u : Upload} (he : Ends u) (h : u.Shape hash) : u.Droppable := by
  cases he with
  | tooLong hp => exact .inl (by rw [hp]; rfl)
  | openFailed chunk hf => exact .inr (Phase.Fails.shape hf h).1
  | writeFailed chunk hp _ => exact .inl (by rw [hp]; rfl)
  | nothingToRemove error _ ht => exact .inr ht
  | removed path reply error hp => exact .inl (by rw [hp]; rfl)
  | dropping error hp => have := h.phase; rw [hp] at this; exact .inr this

/-- What `Drop` hands to the queue is a temporary name. -/
theorem Upload.Shape.drop_isTemp {u : Upload} (h : u.Shape hash) (hd : u.Droppable) {p : Path} (hp : u.temp = some p) :
    p.IsTemp := by
  have hs := h.phase
  rcases hd with ha | hn
  · generalize hph : u.phase = phase at ha hs
    have hof : u.HasTemp → p.IsTemp := by
      rintro ⟨n, _, ht⟩
      rw [hp] at ht; cases ht; exact tempPath_isTemp _ _ n
    cases phase with
    | ready =>
      rcases hs with hu | ho
      · rw [hu.1] at hp; cases hp
      · exact hof ho.1
    | opening call reply next => rw [hs.1.1] at hp; cases hp
    | creating n reply next => rw [hs.1.1] at hp; cases hp
    | filling chunk => exact hof hs.1.1
    | moving source reply => exact hof hs.1
    | refused error => cases ha
    | unlinking path reply error => rw [hs] at hp; cases hp
    | dropping error => cases ha
  · rw [hn] at hp; cases hp

/-- The phases with an operation outstanding, and which it is. -/
inductive Upload.Awaits (u : Upload) : Op → Prop
  | opening (call : DirCall) (next : Next) (op : Op) : u.phase = .opening call none next →
      op = .mkdir u.guard.room ∨ op = .symlinkMetadata u.guard.room ∨ op = .setPermissions u.guard.room →
      u.Awaits op
  | creating (n : Nat) (next : Next) : u.phase = .creating n none next →
      u.Awaits (.create u.guard.room u.guard.digest n)
  | moving (source : Path) : u.phase = .moving source none → u.Awaits (.rename source u.finalPath)
  | unlinking (path : Path) (error : UploadError) : u.phase = .unlinking path none error → u.Awaits (.unlink path)

theorem Upload.awaits_of_op {u : Upload} {op : Op} (ho : u.op = some op) : u.Awaits op := by
  unfold Upload.op at ho
  split at ho
  · rename_i next hp; cases ho; exact .opening _ next _ hp (.inl rfl)
  · rename_i next hp; cases ho; exact .opening _ next _ hp (.inr (.inl rfl))
  · rename_i next hp; cases ho; exact .opening _ next _ hp (.inr (.inr rfl))
  · rename_i n next hp; cases ho; exact .creating n next hp
  · rename_i source hp; cases ho; exact .moving source hp
  · rename_i path error hp; cases ho; exact .unlinking path error hp
  · cases ho

/-- What an outstanding rename moves. -/
theorem Upload.Shape.renames {u : Upload} (h : u.Shape hash) {source target : Path}
    (ho : u.op = some (.rename source target)) :
    u.phase = .moving source none ∧ source.IsTemp ∧ target = u.finalPath ∧ target.room = source.room := by
  have hs := h.phase
  cases Upload.awaits_of_op ho with
  | opening call next _ hp hop => rcases hop with hop | hop | hop <;> cases hop
  | moving _ hp =>
    rw [hp] at hs
    obtain ⟨⟨n, _, ht⟩, ht', _⟩ := hs
    rw [ht] at ht'; cases ht'
    exact ⟨hp, tempPath_isTemp _ _ n, rfl, rfl⟩

/-- Answering an operation leaves the shape as it is. -/
theorem Upload.Shape.answer {u : Upload} (h : u.Shape hash) (reply : Reply) :
    Upload.Shape hash { u with phase := u.phase.answer reply } := by
  obtain ⟨hp, hw, hfit⟩ := h
  refine ⟨?_, hw, hfit⟩
  generalize u.phase = phase at hp
  cases phase <;> exact hp

/-- So does a background write's end. -/
theorem Upload.Shape.withHandle {u : Upload} (h : u.Shape hash) (hf : u.file.isSome) {handle : Handle} :
    Upload.Shape hash { u with file := some handle } := by
  obtain ⟨hp, hw, hfit⟩ := h
  refine ⟨?_, hw, hfit⟩
  have hn : u.file ≠ none := fun e => by rw [e] at hf; cases hf
  show u.phase.Shape hash { u with file := some handle }
  generalize u.phase = phase at hp
  cases phase with
  | ready =>
    rcases hp with hu | ho
    · exact absurd hu.2.1 hn
    · exact .inr ⟨ho.1, rfl⟩
  | opening call reply next => exact absurd hp.1.2.1 hn
  | creating n reply next => exact absurd hp.1.2.1 hn
  | filling chunk => exact ⟨⟨hp.1.1, rfl⟩, hp.2⟩
  | moving source reply => exact absurd hp.2.2.1 hn
  | refused error => exact hp
  | unlinking path reply error => exact hp
  | dropping error => exact hp

/-! ## Removals and files -/

/-- The removal the maintenance task has taken and not looked up yet. -/
def Maint.removal : Maint → Option Removal
  | .checking removal => some removal
  | _ => none

/-- The removals decided and not carried out. -/
def Sys.removals (s : Sys) : List Removal := s.unsent ++ s.queue ++ s.maint.removal.toList

variable {s t : Sys}

theorem mem_removals {s : Sys} {r : Removal} :
    r ∈ s.removals ↔ r ∈ s.unsent ∨ r ∈ s.queue ∨ s.maint.removal = some r := by
  unfold Sys.removals
  rw [List.mem_append, List.mem_append, Option.mem_toList, or_assoc]

/-! ### Operations and directories -/

/-- Every file lies in a directory that exists. -/
def Fs.InDirs (fs : Fs) : Prop := ∀ p n, fs.files.lookup p = some n → p.room ∈ fs.dirs

theorem Fs.InDirs.unlink {fs : Fs} (h : fs.InDirs) (path : Path) : (fs.unlink path).InDirs := fun p n hp =>
  h p n (Map.lookup_erase_some hp).2

theorem Fs.names_nil {fs : Fs} {room : RoomId} (h : (fs.names room).isEmpty = true) {p : Path} {n : Nat}
    (hp : fs.files.lookup p = some n) : p.room ≠ room := by
  rintro rfl
  have hm : p.name ∈ fs.names p.room :=
    List.mem_map.mpr ⟨⟨p, n⟩, List.mem_filter.mpr ⟨Map.mem_entries_of_lookup hp, by simp⟩, rfl⟩
  rw [List.isEmpty_iff.mp h] at hm; cases hm

theorem Fs.InDirs.rmdir {fs : Fs} (h : fs.InDirs) (room : RoomId) : (fs.rmdir room).InDirs := by
  intro p n hp
  unfold Fs.rmdir at hp ⊢
  split
  · rename_i he
    rw [if_pos he] at hp
    have hne := Fs.names_nil he hp
    exact List.mem_filter.mpr ⟨h p n hp, by simpa using hne⟩
  · rename_i he
    rw [if_neg he] at hp
    exact h p n hp

/-- A rename stays within a directory that exists. -/
theorem Fs.InDirs.perform {fs : Fs} (h : fs.InDirs) {op : Op}
    (hr : ∀ source target, op = .rename source target → target.room = source.room) : (fs.perform op).1.InDirs := by
  intro p n hp
  cases op with
  | mkdir room =>
    simp only [Fs.perform] at hp ⊢
    split
    · rename_i hd; rw [if_pos hd] at hp; exact h p n hp
    · rename_i hd; rw [if_neg hd] at hp; exact List.mem_cons_of_mem _ (h p n hp)
  | symlinkMetadata room => exact h p n hp
  | setPermissions room => exact h p n hp
  | create room digest m =>
    simp only [Fs.perform] at hp ⊢
    split
    · rename_i hd
      rw [if_pos hd] at hp
      rcases Map.lookup_insert_some hp with ⟨rfl, _⟩ | ⟨_, hp⟩
      · exact hd
      · exact h p n hp
    · rename_i hd; rw [if_neg hd] at hp; exact h p n hp
  | rename source target =>
    simp only [Fs.perform] at hp ⊢
    cases hs : fs.files.lookup source with
    | none => rw [hs] at hp; exact h p n hp
    | some m =>
      rw [hs] at hp
      rcases Map.lookup_insert_some hp with ⟨rfl, _⟩ | ⟨_, hp⟩
      · rw [hr source _ rfl]; exact h source m hs
      · exact h p n (Map.lookup_erase_some hp).2
  | unlink path => exact h.unlink path p n hp

/-! ## The invariant -/

structure SysInv (hash : Bytes → String) (s : Sys) : Prop where
  store : StoreInv s.store
  guard : ∀ k u, s.uploads.lookup k = some u → u.guard ∈ s.store.accepted ∧ u.guard.serial = k
  shape : ∀ k u, s.uploads.lookup k = some u → u.Shape hash
  temps : ∀ p, Removal.temp p ∈ s.removals → p.IsTemp
  detached : ∀ source target, Op.rename source target ∈ s.detached → source.IsTemp ∧ target.room = source.room
  dirs : s.fs.InDirs
  fresh : ∀ k u n, s.uploads.lookup k = some u → u.number = some n → n < s.store.nextSerial
  distinct : ∀ j k u v n, s.uploads.lookup j = some u → s.uploads.lookup k = some v → u.number = some n →
    v.number = some n → j = k

/-- No upload but `k` has this number. -/
def Sys.Free (s : Sys) (k n : Nat) : Prop :=
  n < s.store.nextSerial ∧ ∀ j v, j ≠ k → s.uploads.lookup j = some v → v.number ≠ some n

theorem SysInv.init : SysInv hash {} := by
  refine ⟨.empty, ?_, ?_, ?_, ?_, ?_, ?_, ?_⟩
  · intro k u h; cases h
  · intro k u h; cases h
  · intro p h; cases h
  · intro source target h; cases h
  · intro p n h; cases h
  · intro k u n h; cases h
  · intro j k u v n h; cases h

theorem SysInv.free (h : SysInv hash s) {k n : Nat} {u : Upload} (hu : s.uploads.lookup k = some u)
    (hn : u.number = some n) : s.Free k n :=
  ⟨h.fresh k u n hu hn, fun j v hj hv hn' => hj (h.distinct j k v u n hv hu hn' hn)⟩

theorem SysInv.put (h : SysInv hash s) {k : Nat} {u : Upload} (hg : u.guard ∈ s.store.accepted ∧ u.guard.serial = k)
    (hs : u.Shape hash) (hn : ∀ n, u.number = some n → s.Free k n) : SysInv hash (s.put k u) := by
  refine ⟨h.store, fun j v hv => ?_, fun j v hv => ?_, h.temps, h.detached, h.dirs, fun j v n hv hvn => ?_,
    fun i j v w n hv hw hvn hwn => ?_⟩
  · rcases Map.lookup_insert_some hv with ⟨rfl, rfl⟩ | ⟨_, hv⟩
    · exact hg
    · exact h.guard j v hv
  · rcases Map.lookup_insert_some hv with ⟨rfl, rfl⟩ | ⟨_, hv⟩
    · exact hs
    · exact h.shape j v hv
  · rcases Map.lookup_insert_some hv with ⟨rfl, rfl⟩ | ⟨_, hv⟩
    · exact (hn n hvn).1
    · exact h.fresh j v n hv hvn
  · rcases Map.lookup_insert_some hv with ⟨rfl, rfl⟩ | ⟨hi, hv'⟩
    · rcases Map.lookup_insert_some hw with ⟨rfl, _⟩ | ⟨hj, hw'⟩
      · rfl
      · exact absurd hwn ((hn n hvn).2 j w hj hw')
    · rcases Map.lookup_insert_some hw with ⟨rfl, rfl⟩ | ⟨_, hw'⟩
      · exact absurd hvn ((hn n hwn).2 i v hi hv')
      · exact h.distinct i j v w n hv' hw' hvn hwn

/-- An upload that moves on without taking a new number. -/
theorem SysInv.update (h : SysInv hash s) {k : Nat} {u u' : Upload} (hu : s.uploads.lookup k = some u)
    (hg : u'.guard = u.guard) (hs : u'.Shape hash) (hn : ∀ n, u'.number = some n → u.number = some n) :
    SysInv hash (s.put k u') :=
  h.put (hg ▸ h.guard k u hu) hs fun n hn' => h.free hu (hn n hn')

theorem SysInv.withStore (h : SysInv hash s) {store : Store} (hi : StoreInv store)
    (ha : ∀ g ∈ s.store.accepted, g ∈ store.accepted) (hle : s.store.nextSerial ≤ store.nextSerial) :
    SysInv hash { s with store := store } :=
  ⟨hi, fun k u hu => ⟨ha _ (h.guard k u hu).1, (h.guard k u hu).2⟩, h.shape, h.temps, h.detached, h.dirs,
    fun k u n hu hn => Nat.lt_of_lt_of_le (h.fresh k u n hu hn) hle, h.distinct⟩

theorem SysInv.withFs (h : SysInv hash s) {fs : Fs} (hd : fs.InDirs) : SysInv hash { s with fs := fs } :=
  ⟨h.store, h.guard, h.shape, h.temps, h.detached, hd, h.fresh, h.distinct⟩

theorem SysInv.withRemovals (h : SysInv hash s) {unsent queue : List Removal} {maint : Maint}
    (hr : ∀ p, Removal.temp p ∈ unsent ∨ Removal.temp p ∈ queue ∨ maint.removal = some (.temp p) →
      Removal.temp p ∈ s.removals) :
    SysInv hash { s with unsent := unsent, queue := queue, maint := maint } :=
  ⟨h.store, h.guard, h.shape, fun p hp => h.temps p (hr p (mem_removals.mp hp)), h.detached, h.dirs, h.fresh, h.distinct⟩

/-- The maintenance task moves on, holding no removal. -/
theorem SysInv.withMaint (h : SysInv hash s) {maint : Maint} (hm : maint.removal = none) :
    SysInv hash { s with maint := maint } :=
  h.withRemovals fun p hp => by
    rw [mem_removals]
    rcases hp with hp | hp | hp
    · exact .inl hp
    · exact .inr (.inl hp)
    · rw [hm] at hp; cases hp

theorem SysInv.withOrphans (h : SysInv hash s) (orphans : Map Nat Bytes) : SysInv hash { s with orphans := orphans } :=
  ⟨h.store, h.guard, h.shape, h.temps, h.detached, h.dirs, h.fresh, h.distinct⟩

theorem SysInv.withOutcomes (h : SysInv hash s) (outcomes : List Outcome) : SysInv hash { s with outcomes := outcomes } :=
  ⟨h.store, h.guard, h.shape, h.temps, h.detached, h.dirs, h.fresh, h.distinct⟩

theorem SysInv.withoutUpload (h : SysInv hash s) (k : Nat) : SysInv hash { s with uploads := s.uploads.erase k } :=
  ⟨h.store, fun j v hv => h.guard j v (Map.lookup_erase_some hv).2, fun j v hv => h.shape j v (Map.lookup_erase_some hv).2,
    h.temps, h.detached, h.dirs, fun j v n hv => h.fresh j v n (Map.lookup_erase_some hv).2,
    fun i j v w n hv hw => h.distinct i j v w n (Map.lookup_erase_some hv).2 (Map.lookup_erase_some hw).2⟩

theorem SysInv.dropUpload (h : SysInv hash s) {k : Nat} {u : Upload} (hu : s.uploads.lookup k = some u)
    (hd : u.Droppable) : SysInv hash (s.dropUpload k u) := by
  have hs := h.shape k u hu
  refine ⟨h.store.abandonUpload _ _ _, fun j v hv => h.guard j v (Map.lookup_erase_some hv).2,
    fun j v hv => h.shape j v (Map.lookup_erase_some hv).2, fun p hp => ?_, fun source target ho => ?_, h.dirs,
    fun j v n hv => h.fresh j v n (Map.lookup_erase_some hv).2,
    fun i j v w n hv hw => h.distinct i j v w n (Map.lookup_erase_some hv).2 (Map.lookup_erase_some hw).2⟩
  · rcases mem_removals.mp hp with hp | hp | hp
    · rcases List.mem_append.mp hp with hp | hp
      · exact h.temps p (mem_removals.mpr (.inl hp))
      · obtain ⟨q, hq, he⟩ := Option.map_eq_some_iff.mp (Option.mem_toList.mp hp)
        cases he
        exact hs.drop_isTemp hd hq
    · exact h.temps p (mem_removals.mpr (.inr (.inl hp)))
    · exact h.temps p (mem_removals.mpr (.inr (.inr hp)))
  · rcases List.mem_append.mp ho with ho | ho
    · exact h.detached source target ho
    · obtain ⟨_, ht, _, hr⟩ := hs.renames (Option.mem_toList.mp ho)
      exact ⟨ht, hr⟩

theorem SysInv.wrote (h : SysInv hash s) (n : Nat) (buffer : Bytes) (short : Option Nat) :
    SysInv hash (s.wrote n buffer short) :=
  ⟨h.store, h.guard, h.shape, h.temps, h.detached, h.dirs, h.fresh, h.distinct⟩

theorem beginUpload_accepted {store : Store} (h : StoreInv store) {room : RoomId} {digest : String}
    {declared now serial : Nat} (hr : (store.beginUpload room digest declared now).1 = .ok (.upload serial)) :
    serial = store.nextSerial ∧
      (store.beginUpload room digest declared now).2.accepted = store.accepted ++ [⟨room, digest, serial, declared⟩] := by
  obtain ⟨v, ⟨hv, _⟩, hb⟩ := beginUpload_spec h.books store.nextSerial room digest declared now
  simp only [Store.beginUpload, hv] at hr ⊢
  cases hb with
  | refused r => cases hr
  | held state p _ _ _ => cases hr
  | concurrent state r f _ _ _ => cases hr
  | accepted state r _ _ _ _ _ _ => cases hr; exact ⟨rfl, rfl⟩

theorem beginUpload_draws {store : Store} (h : StoreInv store) (room : RoomId) (digest : String) (declared now : Nat) :
    store.nextSerial ≤ (store.beginUpload room digest declared now).2.nextSerial := by
  obtain ⟨v, ⟨hv, _⟩, hb⟩ := beginUpload_spec h.books store.nextSerial room digest declared now
  simp only [Store.beginUpload, hv]
  cases hb with
  | refused r => exact Nat.le_refl _
  | held state p _ _ _ => exact Nat.le_refl _
  | concurrent state r f _ _ _ => exact Nat.le_succ _
  | accepted state r _ _ _ _ _ _ => exact Nat.le_succ _

theorem beginUpload_accepts_more (store : Store) (room : RoomId) (digest : String) (declared now : Nat) :
    ∀ g ∈ store.accepted, g ∈ (store.beginUpload room digest declared now).2.accepted := fun _ hg =>
  List.mem_append_left _ hg

theorem Moves.sysInv {e : DiskEv} (h : SysInv hash s) (hm : Moves hash s e t) : SysInv hash t := by
  cases hm with
  | reserve room digest bytes now => exact h.withStore (h.store.reserve _ _ _ _) (fun _ hg => hg) (Nat.le_refl _)
  | accepted room digest declared now serial hr =>
    obtain ⟨_, hacc⟩ := beginUpload_accepted h.store hr
    refine (h.withStore (h.store.beginUpload _ _ _ _) (beginUpload_accepts_more _ _ _ _ _)
      (beginUpload_draws h.store _ _ _ _)).put ⟨?_, rfl⟩ (.fresh _) fun n hn => by cases hn
    exact hacc ▸ List.mem_append_right _ (List.mem_singleton.mpr rfl)
  | notAccepted room digest declared now _ =>
    exact h.withStore (h.store.beginUpload _ _ _ _) (beginUpload_accepts_more _ _ _ _ _)
      (beginUpload_draws h.store _ _ _ _)
  | forgetRoom room =>
    have hf := Store.forgetRoom_views h.store room
    refine (h.withStore (h.store.forgetRoom room) (fun _ hg => hg) (Nat.le_refl _)).withRemovals fun p hp => mem_removals.mpr ?_
    rcases hp with hp | hp
    · rcases List.mem_append.mp hp with hp | hp
      · exact .inl hp
      · rcases hf.2.2 with he | ⟨he, _⟩ <;> rw [he] at hp <;> simp at hp
    · exact .inr hp
  | sweep now =>
    refine (h.withStore (h.store.sweep now) (fun _ hg => hg) (Nat.le_refl _)).withRemovals fun p hp => mem_removals.mpr ?_
    rcases hp with hp | hp
    · rcases List.mem_append.mp hp with hp | hp
      · exact .inl hp
      · -- a sweep queues payloads only
        have hv := (sweep_spec h.store.books now).1
        simp only [Store.sweep, hv, sweptRemovals, List.mem_flatMap, List.mem_map, reduceCtorEq, and_false,
          exists_false] at hp
    · exact .inr hp
  | send i removal hi =>
    refine h.withRemovals fun p hp => mem_removals.mpr ?_
    rcases hp with hp | hp | hp
    · exact .inl (List.mem_of_mem_eraseIdx hp)
    · rcases List.mem_append.mp hp with hp | hp
      · exact .inr (.inl hp)
      · rw [List.mem_singleton.mp hp]; exact .inl (List.mem_of_getElem? hi)
    · exact .inr (.inr hp)
  | receive removal rest hm hq =>
    refine h.withRemovals fun p hp => mem_removals.mpr ?_
    rcases hp with hp | hp | hp
    · exact .inl hp
    · exact .inr (.inl (hq ▸ List.mem_cons_of_mem _ hp))
    · cases hp; exact .inr (.inl (hq ▸ List.mem_cons_self))
  | skip removal _ _ => exact h.withMaint rfl
  | grant removal target _ _ => exact h.withMaint rfl
  | unlinkFile path _ => exact (h.withFs (h.dirs.unlink path)).withMaint rfl
  | noDir room _ _ => exact h.withMaint rfl
  | isDir room _ => exact h.withMaint rfl
  | readDir room _ => exact h.withMaint rfl
  | unlinkNext room name names _ => exact (h.withFs (h.dirs.unlink _)).withMaint rfl
  | rmdir room _ => exact (h.withFs (h.dirs.rmdir room)).withMaint rfl
  | straggler room name names _ => exact h.withFs (h.dirs.unlink _)
  | turn e k u u' hu ht =>
    exact h.update hu ht.guard (ht.shape (h.shape k u hu)) fun _ hn => ht.number (h.shape k u hu) hn
  | create k now u call next hu hp =>
    refine (h.withStore h.store.drawSerial (fun _ hg => hg) (Nat.le_succ _)).put (h.guard k u hu) ?_ fun n hn => ?_
    · obtain ⟨hs, hw, hf⟩ := h.shape k u hu
      rw [hp] at hs
      exact ⟨hs, hw, hf⟩
    · cases hn
      exact ⟨Nat.lt_succ_self _, fun j v _ hv hn => Nat.lt_irrefl _ (h.fresh j v _ hv hn)⟩
  | close k u temp hu hp hv ht =>
    refine (h.withOrphans _).update hu rfl ?_ fun n hn => ?_
    · obtain ⟨hs, hw, hf⟩ := h.shape k u hu
      rw [hp] at hs
      rcases hs with hs | hs
      · rw [hs.1] at ht; cases ht
      · exact ⟨⟨hs.1, ht, rfl, hv⟩, hw, hf⟩
    · rw [Upload.number, hp]; exact hn
  | created k now n u hu hp =>
    refine (h.withOrphans _).update hu rfl ?_ fun m hm => ?_
    · obtain ⟨hs, hw, hf⟩ := h.shape k u hu
      rw [hp] at hs
      exact ⟨⟨⟨n, rfl, rfl⟩, rfl, rfl, hs.2⟩, hw, hf⟩
    · rw [Upload.number, hp]; exact hm
  | perform k u op hu ho =>
    refine (h.withFs (h.dirs.perform fun source target he => ?_)).update hu rfl ((h.shape k u hu).answer _)
      fun n hn => ?_
    · subst he; exact ((h.shape k u hu).renames ho).2.2.2
    · rw [Upload.number_answer] at hn; exact hn
  | committed k now u source hu hp hc =>
    exact ((h.withStore (h.store.commitUpload (h.guard k u hu).1 now) (fun _ hg => hg) (Nat.le_refl _)).withoutUpload
      k).withOutcomes _
  | notCommitted k now u source error hu hp hc =>
    obtain ⟨_, hw, hf⟩ := h.shape k u hu
    refine (h.withStore (h.store.commitUpload (h.guard k u hu).1 now) (fun _ hg => hg) (Nat.le_refl _)).update hu rfl
      ⟨.inr (.inr rfl), hw, hf⟩ fun n hn => ?_
    rw [Upload.number, hp]; exact hn
  | recheckOwned k now u error hu hp _ _ | recheck k now u error temp hu hp _ _ =>
    obtain ⟨_, hw, hf⟩ := h.shape k u hu
    refine h.update hu rfl ⟨rfl, hw, hf⟩ fun n hn => ?_
    rw [Upload.number, hp]; exact hn
  | fails e k u error hu he =>
    exact (h.dropUpload hu (he.droppable (h.shape k u hu))).withOutcomes _
  | cancel k u hu ha => exact h.dropUpload hu (.inl ha)
  | background k n u buffer short hu hn hf =>
    exact (h.wrote n buffer short).update hu rfl ((h.shape k u hu).withHandle (by rw [hf]; rfl)) fun n hn => hn
  | performDetached i op hi =>
    have hd : (s.fs.perform op).1.InDirs := by
      refine h.dirs.perform fun source target he => ?_
      subst he
      exact (h.detached source target (List.mem_of_getElem? hi)).2
    exact ⟨h.store, h.guard, h.shape, h.temps,
      fun source target ho => h.detached source target (List.mem_of_mem_eraseIdx ho), hd, h.fresh, h.distinct⟩
  | backgroundOrphan n buffer short _ => exact (h.wrote n buffer short).withOrphans _

/-- A step of the disk system leaves the store alone or takes one of the store's own steps. -/
theorem Moves.store {e : DiskEv} (h : SysInv hash s) (hm : Moves hash s e t) :
    t.store = s.store ∨ ∃ e', storeStep s.store e' = some t.store := by
  cases hm with
  | reserve room digest bytes now => exact .inr ⟨.reserve room digest bytes now, rfl⟩
  | accepted room digest declared now serial _ => exact .inr ⟨.beginUpload room digest declared now, rfl⟩
  | notAccepted room digest declared now _ => exact .inr ⟨.beginUpload room digest declared now, rfl⟩
  | forgetRoom room => exact .inr ⟨.forgetRoom room, rfl⟩
  | sweep now => exact .inr ⟨.sweep now, rfl⟩
  | create k now u call next _ _ => exact .inr ⟨.drawSerial, rfl⟩
  | committed k now u source hu _ _ => exact .inr ⟨.commitUpload u.guard now, if_pos (h.guard k u hu).1⟩
  | notCommitted k now u source error hu _ _ => exact .inr ⟨.commitUpload u.guard now, if_pos (h.guard k u hu).1⟩
  | fails e k u error _ _ => exact .inr ⟨.abandonUpload u.guard.room u.guard.digest u.guard.serial, rfl⟩
  | cancel k u _ _ => exact .inr ⟨.abandonUpload u.guard.room u.guard.digest u.guard.serial, rfl⟩
  | _ => exact .inl rfl

theorem disk_inv {ok : Sys → DiskEv → Prop} (h : DiskReach hash ok s) : SysInv hash s :=
  h.inv .init fun _ _ _ hs _ he => (diskStep_moves he).sysInv hs

/-- The store inside the disk system runs as the store by itself does, so what is proved of
    that one holds here too. -/
theorem disk_runs_store {ok : Sys → DiskEv → Prop} (h : DiskReach hash ok s) : StoreReach s.store := by
  refine (h.inv (P := fun s => SysInv hash s ∧ StoreReach s.store) ⟨.init, .init⟩ fun s e t hs _ he => ?_).2
  have hm := diskStep_moves he
  refine ⟨hm.sysInv hs.1, ?_⟩
  rcases hm.store hs.1 with heq | ⟨e', he'⟩
  · rw [heq]; exact hs.2
  · exact .step e' hs.2 trivial he'

end OmpRelayd.Blob
