/-
  OmpRelayd.Blob.Held — does the index ever promise a file that is gone?

  `Store::removable` is asked under the index lock and the unlink it allows is made after
  the lock is released. In between the same address can be uploaded again: the new file is
  renamed into place and committed, and then the old removal takes it
  (`a_granted_removal_takes_a_reupload`). `Upload::finish` and `remove_dir_all` have the same
  gap.

  Proved: nothing else can separate the two. In every run in which no upload that still owns
  its in-flight entry renames onto an address a decided removal is still to unlink
  (`Unraced`), every stored payload has its file, and no decided removal covers the address
  of a stored payload (`held_while_unraced`). The invariant (`Held`) speaks of the addresses
  the index claims: those stored, and those an upload has renamed its file to and is about
  to commit.
-/

import OmpRelayd.Blob.Uploads

namespace OmpRelayd.Blob

/-! ## Decided removals -/

/-- The maintenance task has been allowed to unlink `path` and may still do so. -/
def Maint.dooms (path : Path) : Maint → Bool
  | .unlinking (.file target) => target == path
  | .unlinking (.dir room) => path.room == room
  | .clearing room _ => path.room == room
  | _ => false

/-- Somebody has: the maintenance task, an upload's `finish`, or one that was dropped there. -/
def Sys.doomed (s : Sys) (path : Path) : Bool :=
  s.maint.dooms path || s.uploads.entries.any (fun e => e.2.op == some (.unlink path)) ||
    s.detached.contains (.unlink path)

theorem doomed_iff {s : Sys} {path : Path} : s.doomed path = true ↔
    s.maint.dooms path = true ∨ (∃ k u, s.uploads.lookup k = some u ∧ u.op = some (.unlink path)) ∨
      Op.unlink path ∈ s.detached := by
  unfold Sys.doomed
  rw [Bool.or_eq_true, Bool.or_eq_true, or_assoc, List.any_eq_true, List.contains_iff_mem]
  refine or_congr_right (or_congr_left ⟨?_, ?_⟩)
  · rintro ⟨e, he, ho⟩
    exact ⟨e.1, e.2, Map.lookup_of_mem_entries he, by simpa using ho⟩
  · rintro ⟨k, u, hu, ho⟩
    exact ⟨⟨k, u⟩, Map.mem_entries_of_lookup hu, by simpa using ho⟩

/-- The in-flight entry at the upload's address is its own. -/
def Guard.owns (g : Guard) (index : Index) : Bool := (flightAt index g.room g.digest).any (·.serial == g.serial)

theorem owns_iff {g : Guard} {index : Index} : g.owns index = true ↔ g.Owns index := by
  unfold Guard.owns Guard.Owns
  rw [Option.any_eq_true]
  simp

/-- The event renames an upload's file to an address that a decided removal will still unlink. -/
def racesRemoval (s : Sys) : DiskEv → Bool
  | .perform k => (s.uploads.lookup k).any fun u =>
    match u.op with
    | some (.rename _ target) => u.guard.owns s.store.index && s.doomed target
    | _ => false
  | _ => false

def Unraced (s : Sys) (e : DiskEv) : Prop := racesRemoval s e = false

/-! ## The invariant -/

/-- The index promises a payload at this address, or is about to. -/
def Sys.Claims (s : Sys) (room : RoomId) (digest : String) : Prop :=
  (∃ p, storedAt s.store.index room digest = some p) ∨
    ∃ k u source, s.uploads.lookup k = some u ∧ u.phase = .moving source (some .ok) ∧
      u.finalPath = payloadPath room digest ∧ u.guard.Owns s.store.index

def Sys.Present (s : Sys) (path : Path) : Prop := ∃ n, s.fs.files.lookup path = some n

def Held (s : Sys) : Prop :=
  ∀ room digest, s.Claims room digest → s.Present (payloadPath room digest) ∧ s.doomed (payloadPath room digest) = false

variable {hash : Bytes → String} {s t : Sys}

theorem Held.of (h : Held s) (hc : ∀ r d, t.Claims r d → s.Claims r d)
    (hf : ∀ r d, t.Claims r d → s.Present (payloadPath r d) → t.Present (payloadPath r d))
    (hd : ∀ r d, t.Claims r d → t.doomed (payloadPath r d) = true → s.doomed (payloadPath r d) = true) : Held t := by
  intro r d hct
  obtain ⟨hp, hnd⟩ := h r d (hc r d hct)
  refine ⟨hf r d hct hp, ?_⟩
  cases hdt : t.doomed (payloadPath r d) with
  | false => rfl
  | true => rw [hd r d hct hdt] at hnd; cases hnd

/-- A claim survives only through the index and the uploads. -/
theorem Sys.Claims.of_index {r : RoomId} {d : String} (h : t.Claims r d)
    (hs : ∀ r d p, storedAt t.store.index r d = some p → storedAt s.store.index r d = some p)
    (hf : ∀ k u, s.uploads.lookup k = some u → u.guard.Owns t.store.index → u.guard.Owns s.store.index)
    (hu : ∀ k u, t.uploads.lookup k = some u → s.uploads.lookup k = some u) : s.Claims r d := by
  rcases h with ⟨p, hp⟩ | ⟨k, u, source, hl, hp, hfin, ho⟩
  · exact .inl ⟨p, hs r d p hp⟩
  · exact .inr ⟨k, u, source, hu k u hl, hp, hfin, hf k u (hu k u hl) ho⟩

/-- A step that only touches the store, without giving the index a payload or an old upload an
    entry. -/
theorem Held.withStore (h : Held s) {store : Store} {unsent : List Removal}
    (hs : ∀ r d p, storedAt store.index r d = some p → storedAt s.store.index r d = some p)
    (hf : ∀ k u, s.uploads.lookup k = some u → u.guard.Owns store.index → u.guard.Owns s.store.index) :
    Held { s with store := store, unsent := unsent } :=
  h.of (fun _ _ hc => hc.of_index hs hf fun _ _ hl => hl) (fun _ _ _ hp => hp) (fun _ _ _ hd => hd)

theorem Guard.Owns.of_flights {g : Guard} {index index' : Index}
    (h : ∀ r d f, flightAt index' r d = some f → flightAt index r d = some f) (ho : g.Owns index') : g.Owns index := by
  obtain ⟨f, hf, hs⟩ := ho
  exact ⟨f, h _ _ f hf, hs⟩

/-- A step of the maintenance task that touches no file and dooms no claimed address. -/
theorem Held.withMaint (h : Held s) {maint : Maint} {queue : List Removal}
    (hd : ∀ r d, s.Claims r d → maint.dooms (payloadPath r d) = true → s.maint.dooms (payloadPath r d) = true) :
    Held { s with maint := maint, queue := queue } := by
  refine h.of (fun _ _ hc => hc) (fun _ _ _ hp => hp) fun r d hc hdoom => ?_
  rcases doomed_iff.mp hdoom with hm | hr
  · exact doomed_iff.mpr (.inl (hd r d hc hm))
  · exact doomed_iff.mpr (.inr hr)

/-- Files may go that the index does not claim, and names may come. -/
theorem Held.withFs (h : Held s) {fs : Fs}
    (hf : ∀ r d, s.Claims r d → s.Present (payloadPath r d) → ∃ n, fs.files.lookup (payloadPath r d) = some n) :
    Held { s with fs := fs } := h.of (fun _ _ hc => hc) (fun r d hc hp => hf r d hc hp) (fun _ _ _ hd => hd)

theorem Held.unlink (h : Held s) {path : Path} (hd : ∀ r d, path = payloadPath r d → s.doomed path = true) :
    Held { s with fs := s.fs.unlink path } := by
  refine h.withFs fun r d hc hp => ?_
  have hne : payloadPath r d ≠ path := fun e => by
    have hnd := (h r d hc).2
    rw [e, hd r d e.symm] at hnd
    cases hnd
  obtain ⟨n, hn⟩ := hp
  exact ⟨n, by rw [Fs.unlink, AList.lookup_erase_ne hne]; exact hn⟩

/-- An upload moves on without claiming its address, and without being allowed an unlink of a
    claimed one. -/
theorem Held.put (h : Held s) {k : Nat} {u' : Upload} (hm : ∀ source, u'.phase ≠ .moving source (some .ok))
    (hd : ∀ r d, s.Claims r d → u'.op ≠ some (.unlink (payloadPath r d))) : Held (s.put k u') := by
  have hc : ∀ r d, (s.put k u').Claims r d → s.Claims r d := by
    rintro r d (hp | ⟨j, v, source, hl, hp, hfin, ho⟩)
    · exact .inl hp
    · rcases Map.lookup_insert_some hl with ⟨rfl, rfl⟩ | ⟨_, hl⟩
      · exact absurd hp (hm source)
      · exact .inr ⟨j, v, source, hl, hp, hfin, ho⟩
  refine h.of hc (fun _ _ _ hp => hp) fun r d hct hdoom => ?_
  rcases doomed_iff.mp hdoom with hdoom | ⟨j, v, hl, ho⟩ | hdoom
  · exact doomed_iff.mpr (.inl hdoom)
  · rcases Map.lookup_insert_some hl with ⟨rfl, rfl⟩ | ⟨_, hl⟩
    · exact absurd ho (hd r d (hc r d hct))
    · exact doomed_iff.mpr (.inr (.inl ⟨j, v, hl, ho⟩))
  · exact doomed_iff.mpr (.inr (.inr hdoom))

/-- An upload goes, and its address with it unless the index has it stored; an unlink it has
    submitted stays decided. -/
theorem Held.dropUpload (h : Held s) (hi : SysInv hash s) {k : Nat} {u : Upload} (hu : s.uploads.lookup k = some u) :
    Held (s.dropUpload k u) := by
  obtain ⟨hs, hf⟩ := Store.abandonUpload_views hi.store u.guard.room u.guard.digest u.guard.serial
  refine h.of (fun r d hc => ?_) (fun _ _ _ hp => hp) fun r d _ hdoom => ?_
  · exact hc.of_index (fun r d p hp => by rw [← hs]; exact hp) (fun _ _ _ ho => ho.of_flights hf)
      fun j v hv => (Map.lookup_erase_some hv).2
  · rcases doomed_iff.mp hdoom with hdoom | ⟨j, v, hl, ho⟩ | hdoom
    · exact doomed_iff.mpr (.inl hdoom)
    · exact doomed_iff.mpr (.inr (.inl ⟨j, v, (Map.lookup_erase_some hl).2, ho⟩))
    · rcases List.mem_append.mp hdoom with hdoom | hdoom
      · exact doomed_iff.mpr (.inr (.inr hdoom))
      · exact doomed_iff.mpr (.inr (.inl ⟨k, u, hu, Option.mem_toList.mp hdoom⟩))

/-! ## The steps that decide and perform -/

theorem Turn.quiet {k : Nat} {e : DiskEv} {u u' : Upload} (ht : Turn hash k u e u') :
    (∀ source, u'.phase ≠ .moving source (some .ok)) ∧ ∀ path, u'.op ≠ some (.unlink path) := by
  cases ht <;> refine ⟨fun _ h => ?_, fun _ h => ?_⟩ <;> cases h

/-- What `removable` allows is nothing the index claims. -/
theorem removable_dooms {index : Index} {removal : Removal} {target : Target} {r : RoomId} {d : String}
    (hr : removable index removal = some target) (ht : ∀ p, removal = .temp p → p.IsTemp)
    (hd : (Maint.unlinking target).dooms (payloadPath r d) = true) : ownsPayload index r d = false := by
  cases removal with
  | payload room digest =>
    simp only [removable] at hr
    split at hr
    · cases hr
    · rename_i ho
      cases hr
      simp only [Maint.dooms, beq_iff_eq] at hd
      obtain ⟨rfl, rfl⟩ := payloadPath_inj hd
      simpa using ho
  | room room =>
    simp only [removable] at hr
    split at hr
    · cases hr
    · rename_i ho
      cases hr
      simp only [Maint.dooms, beq_iff_eq] at hd
      subst hd
      cases hl : index.rooms.lookup r with
      | none => simp [ownsPayload, storedAt, flightAt, hl]
      | some state => exact absurd (by simp [ownsRoom, payloadPath, hl]) ho
  | temp path =>
    simp only [removable, Option.some.injEq] at hr
    subst hr
    simp only [Maint.dooms, beq_iff_eq] at hd
    subst hd
    exact absurd (ht _ rfl) (payloadPath_not_isTemp r d)

theorem Sys.Claims.owned {r : RoomId} {d : String} (h : s.Claims r d) : ownsPayload s.store.index r d = true := by
  rcases h with ⟨p, hp⟩ | ⟨k, u, source, _, _, hfin, f, hf, _⟩
  · simp [ownsPayload, hp]
  · obtain ⟨rfl, rfl⟩ := payloadPath_inj hfin
    simp [ownsPayload, hf]

/-- Of the operations a task submits, an unlink takes away its own path and a rename a temporary
    name; nothing else removes a file. -/
theorem Fs.perform_present {fs : Fs} {op : Op} {r : RoomId} {d : String}
    (hr : ∀ source target, op = .rename source target → source.IsTemp) (hu : op ≠ .unlink (payloadPath r d))
    (hp : ∃ n, fs.files.lookup (payloadPath r d) = some n) :
    ∃ n, (fs.perform op).1.files.lookup (payloadPath r d) = some n := by
  obtain ⟨n, hn⟩ := hp
  cases op with
  | mkdir room => exact ⟨n, by simp only [Fs.perform]; split <;> exact hn⟩
  | symlinkMetadata room => exact ⟨n, hn⟩
  | setPermissions room => exact ⟨n, hn⟩
  | create room digest m =>
    refine ⟨n, ?_⟩
    simp only [Fs.perform]
    split
    · have hne : payloadPath r d ≠ tempPath room digest m := fun e =>
        payloadPath_not_isTemp r d (e ▸ tempPath_isTemp room digest m)
      exact (AList.lookup_insert_ne hne).trans hn
    · exact hn
  | rename source target =>
    simp only [Fs.perform]
    cases hs : fs.files.lookup source with
    | none => exact ⟨n, hn⟩
    | some m =>
      by_cases e : payloadPath r d = target
      · rw [e]; exact ⟨m, AList.lookup_insert _⟩
      · have hne : payloadPath r d ≠ source := fun e' => payloadPath_not_isTemp r d (e' ▸ hr source target rfl)
        exact ⟨n, (AList.lookup_insert_ne e).trans ((AList.lookup_erase_ne hne).trans hn)⟩
  | unlink path =>
    have hne : payloadPath r d ≠ path := fun e => hu (by rw [e])
    exact ⟨n, (AList.lookup_erase_ne hne).trans hn⟩

theorem Fs.rename_ok {fs : Fs} {source target : Path} (h : (fs.perform (.rename source target)).2 = .ok) :
    ∃ n, (fs.perform (.rename source target)).1.files.lookup target = some n := by
  simp only [Fs.perform] at h ⊢
  cases hs : fs.files.lookup source with
  | none => rw [hs] at h; cases h
  | some n => exact ⟨n, AList.lookup_insert _⟩

theorem Fs.rmdir_files (fs : Fs) (room : RoomId) : (fs.rmdir room).files = fs.files := by
  unfold Fs.rmdir; split <;> rfl

theorem Upload.answer_moving {u : Upload} {op : Op} {reply : Reply} (ho : u.op = some op) {source : Path}
    (hp : u.phase.answer reply = .moving source (some .ok)) : op = .rename source u.finalPath ∧ reply = .ok := by
  cases Upload.awaits_of_op ho with
  | opening call next _ hph _ => rw [hph] at hp; cases hp
  | creating n next hph => rw [hph] at hp; cases hp
  | moving source' hph => rw [hph] at hp; cases hp; exact ⟨rfl, rfl⟩
  | unlinking path error hph => rw [hph] at hp; cases hp

theorem Upload.answer_op {u : Upload} {op : Op} {reply : Reply} (ho : u.op = some op) :
    ({ u with phase := u.phase.answer reply } : Upload).op = none := by
  cases Upload.awaits_of_op ho with
  | opening call next _ hph _ => rw [hph]; cases call <;> rfl
  | creating n next hph => rw [hph]; rfl
  | moving source' hph => rw [hph]; rfl
  | unlinking path error hph => rw [hph]; rfl

theorem Held.wrote (h : Held s) (n : Nat) (buffer : Bytes) (short : Option Nat) : Held (s.wrote n buffer short) :=
  h.withFs fun _ _ _ hp => hp

/-- A background write's end leaves the upload in its phase. -/
theorem Held.withHandle (h : Held s) (hi : SysInv hash s) {k : Nat} {u : Upload} (hu : s.uploads.lookup k = some u)
    (hf : u.file.isSome) (handle : Handle) : Held (s.put k { u with file := some handle }) := by
  refine h.put (fun source hp => ?_) fun r d hc ho => ?_
  · have hs := (hi.shape k u hu).phase
    change u.phase = _ at hp
    rw [hp] at hs
    rw [hs.2.2.1] at hf; cases hf
  · have hnd := (h r d hc).2
    rw [doomed_iff.mpr (.inr (.inl ⟨k, u, hu, ho⟩))] at hnd
    cases hnd

theorem Held.beginUpload (h : Held s) (hi : SysInv hash s) (room : RoomId) (digest : String) (declared now : Nat) :
    Held { s with store := (s.store.beginUpload room digest declared now).2 } := by
  obtain ⟨hst, hfl⟩ := Store.beginUpload_views hi.store room digest declared now
  refine h.withStore (fun r d p hp => by rw [← hst]; exact hp) fun k u hu ⟨f, hf, hs⟩ => ?_
  rcases hfl _ _ f hf with hf | hnew
  · exact ⟨f, hf, hs⟩
  · have := hi.store.drawn _ (hi.guard k u hu).1
    omega

/-- A rename gives the upload its claim, if it still owns its entry; nothing else adds one. -/
theorem Sys.Claims.of_performed {k : Nat} {u : Upload} {op : Op} (ho : u.op = some op) {r : RoomId} {d : String}
    (hc : (s.performed k u op).Claims r d) : s.Claims r d ∨
      ∃ source, op = .rename source (payloadPath r d) ∧ (s.fs.perform op).2 = .ok ∧ u.guard.Owns s.store.index := by
  rcases hc with hst | ⟨j, v, source, hl, hp, hfin, hown⟩
  · exact .inl (.inl hst)
  · rcases Map.lookup_insert_some hl with ⟨rfl, rfl⟩ | ⟨_, hl⟩
    · obtain ⟨hop, hrep⟩ := Upload.answer_moving ho hp
      have hfin' : u.finalPath = payloadPath r d := hfin
      exact .inr ⟨source, by rw [hop, hfin'], hrep, hown⟩
    · exact .inl (.inr ⟨j, v, source, hl, hp, hfin, hown⟩)

theorem doomed_of_performed {k : Nat} {u : Upload} {op : Op} (ho : u.op = some op) {path : Path}
    (hd : (s.performed k u op).doomed path = true) : s.doomed path = true := by
  rcases doomed_iff.mp hd with hd | ⟨j, v, hl, hv⟩ | hd
  · exact doomed_iff.mpr (.inl hd)
  · rcases Map.lookup_insert_some hl with ⟨rfl, rfl⟩ | ⟨_, hl⟩
    · rw [Upload.answer_op ho] at hv; cases hv
    · exact doomed_iff.mpr (.inr (.inl ⟨j, v, hl, hv⟩))
  · exact doomed_iff.mpr (.inr (.inr hd))

theorem Held.performed (h : Held s) (hi : SysInv hash s) {k : Nat} {u : Upload} {op : Op}
    (hu : s.uploads.lookup k = some u) (ho : u.op = some op) (hok : Unraced s (.perform k)) :
    Held (s.performed k u op) := by
  intro r d hc
  rcases hc.of_performed ho with hcs | ⟨source, rfl, hrep, hown⟩
  · obtain ⟨hp, hnd⟩ := h r d hcs
    constructor
    · refine Fs.perform_present (fun source target he => ?_) (fun he => ?_) hp
      · subst he; exact ((hi.shape k u hu).renames ho).2.1
      · subst he
        rw [doomed_iff.mpr (.inr (.inl ⟨k, u, hu, ho⟩))] at hnd
        cases hnd
    · cases hd : (s.performed k u op).doomed (payloadPath r d) with
      | false => rfl
      | true => rw [doomed_of_performed ho hd] at hnd; cases hnd
  · refine ⟨Fs.rename_ok hrep, ?_⟩
    cases hd : (s.performed k u (.rename source (payloadPath r d))).doomed (payloadPath r d) with
    | false => rfl
    | true =>
      have hrace : racesRemoval s (.perform k) = true := by
        simp only [racesRemoval, hu, Option.any_some, ho, Bool.and_eq_true]
        exact ⟨owns_iff.mpr hown, doomed_of_performed ho hd⟩
      rw [hok] at hrace; cases hrace

/-- What the index claims after a commit it claimed before: the new payload's file is there since
    the rename. -/
theorem Held.committed (h : Held s) (hi : SysInv hash s) {k now : Nat} {u u' : Upload} {source : Path}
    (hu : s.uploads.lookup k = some u) (hp : u.phase = .moving source (some .ok))
    (hc : (s.store.commitUpload u.guard now).1 = .ok ()) :
    Held ({ s with store := (s.store.commitUpload u.guard now).2 }.settle k u') := by
  rcases Store.commitUpload_views hi.store (hi.guard k u hu).1 now with ⟨_, hown, hst, hfl⟩ | ⟨he, _⟩
  · have hcl : ∀ r d, ({ s with store := (s.store.commitUpload u.guard now).2 }.settle k u').Claims r d →
        s.Claims r d := by
      rintro r d (⟨p, hpl⟩ | ⟨j, v, src, hl, hv, hfin, ho⟩)
      · change storedAt (s.store.commitUpload u.guard now).2.index r d = some p at hpl
        rw [hst] at hpl
        split at hpl
        · rename_i hat
          exact .inr ⟨k, u, source, hu, hp, by rw [hat.1, hat.2]; rfl, hown⟩
        · exact .inl ⟨p, hpl⟩
      · exact .inr ⟨j, v, src, (Map.lookup_erase_some hl).2, hv, hfin, ho.of_flights hfl⟩
    refine h.of hcl (fun _ _ _ hp => hp) fun r d _ hd => ?_
    rcases doomed_iff.mp hd with hd | ⟨j, v, hl, hv⟩ | hd
    · exact doomed_iff.mpr (.inl hd)
    · exact doomed_iff.mpr (.inr (.inl ⟨j, v, (Map.lookup_erase_some hl).2, hv⟩))
    · exact doomed_iff.mpr (.inr (.inr hd))
  · rw [he] at hc; cases hc

theorem Held.performDetached (h : Held s) (hi : SysInv hash s) {i : Nat} {op : Op} (ho : s.detached[i]? = some op) :
    Held { s with fs := (s.fs.perform op).1, detached := s.detached.eraseIdx i } := by
  have hmem := List.mem_of_getElem? ho
  refine h.of (fun _ _ hc => hc) (fun r d hc hp => ?_) fun r d _ hd => ?_
  · refine Fs.perform_present (fun source target he => ?_) (fun he => ?_) hp
    · subst he; exact (hi.detached source target hmem).1
    · subst he
      have hnd := (h r d hc).2
      rw [doomed_iff.mpr (.inr (.inr hmem))] at hnd
      cases hnd
  · rcases doomed_iff.mp hd with hd | hd | hd
    · exact doomed_iff.mpr (.inl hd)
    · exact doomed_iff.mpr (.inr (.inl hd))
    · exact doomed_iff.mpr (.inr (.inr (List.mem_of_mem_eraseIdx hd)))

theorem Moves.held {e : DiskEv} (hm : Moves hash s e t) (hi : SysInv hash s) (h : Held s) (hok : Unraced s e) : Held t := by
  cases hm with
  | reserve room digest bytes now =>
    obtain ⟨hst, hfl⟩ := Store.reserve_views hi.store room digest bytes now
    exact h.withStore (fun r d p hp => by rw [← hst]; exact hp) fun _ _ _ ho =>
      ho.of_flights fun r d f hf => by rw [← hfl]; exact hf
  | accepted room digest declared now serial _ =>
    refine (h.beginUpload hi room digest declared now).put (fun source hp => ?_) fun r d _ ho => ?_
    · cases hp
    · cases ho
  | notAccepted room digest declared now _ => exact h.beginUpload hi room digest declared now
  | forgetRoom room =>
    obtain ⟨hst, hfl, _⟩ := Store.forgetRoom_views hi.store room
    refine h.withStore (fun r d p hp => ?_) fun _ _ _ ho => ho.of_flights fun r d f hf => ?_
    · rw [hst] at hp; split at hp
      · cases hp
      · exact hp
    · rw [hfl] at hf; split at hf
      · cases hf
      · exact hf
  | sweep now =>
    obtain ⟨hst, _, hfl⟩ := Store.sweep_views hi.store now
    exact h.withStore hst fun _ _ _ ho => ho.of_flights fun r d f hf => by rw [← hfl]; exact hf
  | send i removal _ => exact h
  | receive removal rest _ _ | skip removal _ _ | noDir room _ _ => exact h.withMaint fun r d _ hd => by cases hd
  | grant removal target hm hr =>
    refine h.withMaint fun r d hc hd => ?_
    have ht : ∀ p, removal = .temp p → p.IsTemp := fun p hp => by
      subst hp
      exact hi.temps p (mem_removals.mpr (.inr (.inr (by rw [hm]; rfl))))
    have hno := removable_dooms hr ht hd
    rw [hc.owned] at hno; cases hno
  | unlinkFile path hm =>
    have hd : s.doomed path = true := doomed_iff.mpr (.inl (by rw [hm]; exact beq_self_eq_true path))
    exact (h.unlink fun _ _ _ => hd).withMaint fun r d _ hd => by cases hd
  | isDir room hm => exact h.withMaint fun r d _ hd => by rw [hm]; exact hd
  | readDir room hm => exact h.withMaint fun r d _ hd => by rw [hm]; exact hd
  | unlinkNext room name names hm =>
    have hd : s.doomed ⟨room, name⟩ = true := doomed_iff.mpr (.inl (by rw [hm]; exact beq_self_eq_true room))
    exact (h.unlink fun _ _ _ => hd).withMaint fun r d _ hd => by rw [hm]; exact hd
  | rmdir room _ =>
    have hf : Held { s with fs := s.fs.rmdir room } := h.withFs fun r d _ hp => by rw [Fs.rmdir_files]; exact hp
    exact hf.withMaint fun r d _ hd => by cases hd
  | straggler room name names hm =>
    exact h.unlink fun _ _ _ => doomed_iff.mpr (.inl (by rw [hm]; exact beq_self_eq_true room))
  | turn e k u u' hu ht => exact h.put ht.quiet.1 fun r d _ => ht.quiet.2 (payloadPath r d)
  | create k now u call next hu _ =>
    have hd : Held { s with store := s.store.drawSerial.2 } := h
    refine hd.put (fun source hp => ?_) fun r d _ ho => ?_
    · cases hp
    · cases ho
  | close k u temp hu _ _ _ =>
    have ho : Held { s with orphans := orphaned s.orphans u } := h
    refine ho.put (fun source hp => ?_) fun r d _ hop => ?_
    · cases hp
    · cases hop
  | created k now n u hu _ =>
    have ho : Held { s with orphans := orphaned s.orphans (u.opened n) } := h
    refine ho.put (fun source hp => ?_) fun r d _ hop => ?_
    · cases hp
    · cases hop
  | perform k u op hu ho => exact h.performed hi hu ho hok
  | committed k now u source hu hp hc => exact h.committed hi hu hp hc
  | notCommitted k now u source error hu hp hc =>
    have hst : Held { s with store := (s.store.commitUpload u.guard now).2 } := by
      rcases Store.commitUpload_views hi.store (hi.guard k u hu).1 now with ⟨he, _⟩ | ⟨_, hidx⟩
      · rw [he] at hc; cases hc
      · refine h.withStore (fun r d p hp => ?_) fun _ _ _ ho => ?_
        · rw [hidx] at hp; exact hp
        · rw [hidx] at ho; exact ho
    refine hst.put (fun source hp => ?_) fun r d _ hop => ?_
    · cases hp
    · cases hop
  | recheckOwned k now u error hu _ _ _ =>
    refine h.put (fun source hp => ?_) fun r d _ hop => ?_
    · cases hp
    · cases hop
  | recheck k now u error temp hu hp ht hno =>
    refine h.put (fun source hp => ?_) fun r d hc hop => ?_
    · cases hp
    · -- a temporary name is no payload's, and the final one was found to have no owner
      simp only [Upload.op, Option.some.injEq, Op.unlink.injEq] at hop
      subst hop
      have hs := (hi.shape k u hu).phase
      rw [hp] at hs
      rcases hs with hs | ⟨n, _, hs⟩ | hs
      · rw [ht] at hs; cases hs
      · rw [ht] at hs
        exact payloadPath_not_isTemp r d (Option.some.inj hs ▸ tempPath_isTemp _ _ n)
      · rw [ht] at hs
        have hfin : payloadPath r d = u.finalPath := Option.some.inj hs
        obtain ⟨rfl, rfl⟩ := payloadPath_inj hfin
        exact hno hfin (by simp only [removable, hc.owned, if_true])
  | fails e k u error hu _ => exact h.dropUpload hi hu
  | cancel k u hu _ => exact h.dropUpload hi hu
  | background k n u buffer short hu _ hf =>
    exact (h.wrote n buffer short).withHandle (hi.wrote n buffer short) hu (by rw [hf]; rfl) _
  | performDetached i op ho => exact h.performDetached hi ho
  | backgroundOrphan n buffer short _ => exact h.wrote n buffer short

theorem Held.init : Held {} := by
  rintro r d (⟨p, hp⟩ | ⟨k, u, source, hu, _⟩)
  · cases hp
  · cases hu

theorem held_inv (h : DiskReach hash Unraced s) : SysInv hash s ∧ Held s :=
  h.inv (P := fun s => SysInv hash s ∧ Held s) ⟨.init, .init⟩ fun _ _ _ hs hok he =>
    have hm := diskStep_moves he
    ⟨hm.sysInv hs.1, hm.held hs.1 hs.2 hok⟩

/-! ## The two halves agree, if no rename races a removal -/

theorem storedAt_of_payloadLen {index : Index} {room : RoomId} {digest : String} {now len : Nat}
    (h : payloadLen index room digest now = some len) : ∃ p, storedAt index room digest = some p := by
  obtain ⟨state, hl, hb⟩ := Option.bind_eq_some_iff.mp h
  obtain ⟨p, hp, _⟩ := Option.map_eq_some_iff.mp hb
  exact ⟨p, (storedAt_of_lookup hl digest).trans (Option.filter_eq_some_iff.mp hp).1⟩

/-- In every run whose renames never race a decided removal, an address the index reports a
    length for has its file, and whatever a decided removal is still to unlink is not stored. -/
theorem held_while_unraced (h : DiskReach hash Unraced s) :
    (∀ room digest now len, payloadLen s.store.index room digest now = some len →
      ∃ n, s.fs.files.lookup (payloadPath room digest) = some n) ∧
    ∀ room digest, s.doomed (payloadPath room digest) = true → storedAt s.store.index room digest = none := by
  have hh := (held_inv h).2
  constructor
  · intro room digest now len hlen
    exact (hh room digest (.inl (storedAt_of_payloadLen hlen))).1
  · intro room digest hd
    cases hp : storedAt s.store.index room digest with
    | none => rfl
    | some p =>
      have hnd := (hh room digest (.inl ⟨p, hp⟩)).2
      rw [hd] at hnd; cases hnd

/-- A stand-in that agrees with SHA-256 on no bytes and on "abc", and separates lengths. -/
def sampleHash (bytes : Bytes) : String :=
  if bytes = [] then emptyDigest
  else if bytes = [97, 98, 99] then "ungWv48Bz-pBQUDeXa4iI7ADYaOWF3qctBD_YfIAFa0"
  else String.ofList ('=' :: bytes.map fun b => Char.ofNat b.toNat)

/-- Reserve and upload no bytes as upload `k`, at instant `now`, into a directory not yet there. -/
def uploadNothing (k now : Nat) : List DiskEv :=
  [.reserve sampleRoom emptyDigest 0 now, .beginUpload sampleRoom emptyDigest 0 now, .endBody k,
    .perform k, .resume k now, .perform k, .resume k now, .perform k, .resume k now]

/-- The same into a directory that exists, which is inspected and secured first. -/
def uploadNothingAgain (k now : Nat) : List DiskEv :=
  [.reserve sampleRoom emptyDigest 0 now, .beginUpload sampleRoom emptyDigest 0 now, .endBody k,
    .perform k, .resume k now, .perform k, .resume k now, .perform k, .resume k now, .perform k, .resume k now,
    .perform k, .resume k now]

/-- The payload expires and is swept; the maintenance task is allowed its file. The payload is
    uploaded again and committed, and only then does the unlink happen. -/
def raceEvents : List DiskEv :=
  uploadNothing 0 0 ++ [.sweep payloadTimeToLive, .send 0, .maintain, .maintain] ++
    uploadNothingAgain 2 payloadTimeToLive ++ [.maintain]

def raceEnd : Sys := (run (diskStep sampleHash) {} raceEvents).getD {}

theorem a_granted_removal_takes_a_reupload :
    ¬ ∀ (hash : Bytes → String) (s : Sys), DiskReach hash Always s →
      ∀ room digest now len, payloadLen s.store.index room digest now = some len →
        ∃ n, s.fs.files.lookup (payloadPath room digest) = some n := by
  intro h
  have hr : DiskReach sampleHash Always raceEnd := .of_run raceEvents .init rfl
  obtain ⟨n, hn⟩ := h sampleHash raceEnd hr sampleRoom emptyDigest payloadTimeToLive 0 rfl
  have hgone : raceEnd.fs.files.lookup (payloadPath sampleRoom emptyDigest) = none := rfl
  rw [hgone] at hn; cases hn

/-- The same uploads with the removal carried out in between. -/
def unracedEvents : List DiskEv :=
  uploadNothing 0 0 ++ [.sweep payloadTimeToLive, .send 0, .maintain, .maintain, .maintain] ++
    uploadNothingAgain 2 payloadTimeToLive

def unracedEnd : Sys := (runIf (diskStep sampleHash) (fun s e => !racesRemoval s e) {} unracedEvents).getD {}

theorem held_while_unraced_sample :
    DiskReach sampleHash Unraced unracedEnd ∧
      payloadLen unracedEnd.store.index sampleRoom emptyDigest payloadTimeToLive = some 0 ∧
      ∃ n, unracedEnd.fs.files.lookup (payloadPath sampleRoom emptyDigest) = some n := by
  have hr : DiskReach sampleHash Unraced unracedEnd :=
    .of_runIf (fun s e => !racesRemoval s e) (fun _ _ => (Bool.not_eq_true' _).mp) unracedEvents .init rfl
  exact ⟨hr, rfl, (held_while_unraced hr).1 sampleRoom emptyDigest payloadTimeToLive 0 rfl⟩

end OmpRelayd.Blob
