/-
  OmpRelayd.Blob.Residue — does a payload file outlive its room?

  A room leaves the index by `forget_room`, by a sweep and by `drop_room_if_idle`, and only
  the first queues its directory. A queued directory is skipped when the room exists again,
  "which leaves the stragglers to that room's own end"; but the new room may end by a sweep,
  which queues nothing, and then its predecessor's files stay
  (`a_skipped_room_removal_strands_a_file`). A payload's removal skipped for the sake of an
  upload that is then dropped strands its file the same way, and so does an upload dropped
  while its `File::create` or its rename is outstanding, because `temp` does not name the
  file at that moment.

  Proved: nothing else strands a file (`nothing_outlives_its_room`). In every run without
  such an event, whenever no upload, removal or filesystem operation is under way, every
  file on disk is that of a payload the index holds, and all of them together take no more
  bytes than the index has charged, unless two of the bodies hashed in that run are of different
  lengths and have one digest. The invariant (`Tidy`) names, for every file and at every moment,
  who will remove it or make it a stored payload's.
-/

import OmpRelayd.Blob.Content
import OmpRelayd.Blob.Held

namespace OmpRelayd.Blob

/-! ## Who answers for a file -/

def Removal.Covers (p : Path) : Removal → Prop
  | .payload r d => p = payloadPath r d
  | .room r => p.room = r
  | .temp path => p = path

/-- The maintenance task is on its way to unlinking `p`. -/
def Maint.Condemns (p : Path) : Maint → Prop
  | .unlinking (.file path) => p = path
  | .unlinking (.dir room) => p.room = room
  | .clearing room none => p.room = room
  | .clearing room (some names) => p.room = room ∧ p.name ∈ names
  | _ => False

/-- The upload will remove `p`, queue its removal, or commit it. -/
def Upload.Keeps (u : Upload) (p : Path) : Prop :=
  u.temp = some p ∨ (∃ source, u.phase = .moving source (some .ok) ∧ p = u.finalPath) ∨
    (∃ n next, u.phase = .creating n (some .ok) next ∧ p = tempPath u.guard.room u.guard.digest n) ∨
    u.op = some (.unlink p)

inductive Accounted (s : Sys) (p : Path) : Prop
  | stored (d : String) (payload : Payload) : p = payloadPath p.room d →
      storedAt s.store.index p.room d = some payload → Accounted s p
  | owed (r : Removal) : r ∈ s.removals → r.Covers p → Accounted s p
  | condemned : s.maint.Condemns p → Accounted s p
  | kept (k : Nat) (u : Upload) : s.uploads.lookup k = some u → u.Keeps p → Accounted s p
  | detached : Op.unlink p ∈ s.detached → Accounted s p

/-- Nothing dropped with its upload can still make a file. -/
def Op.MakesFile : Op → Prop
  | .create _ _ _ => True
  | .rename _ _ => True
  | _ => False

structure Tidy (s : Sys) : Prop where
  accounted : ∀ p n, s.fs.files.lookup p = some n → Accounted s p
  moved : ∀ k u source, s.uploads.lookup k = some u → u.phase = .moving source (some .ok) →
    s.fs.files.lookup source = none
  detached : ∀ op ∈ s.detached, ¬ op.MakesFile

/-- An upload in flight is the only owner of the address. -/
def onlyInFlight (index : Index) (room : RoomId) (digest : String) : Bool :=
  (storedAt index room digest).isNone && (flightAt index room digest).isSome

/-- The event leaves a file that nobody answers for: a removal is skipped because its room exists
    again or because of an upload still in flight, or an upload is dropped while the operation that
    makes or moves its file is outstanding. -/
def strands (s : Sys) : DiskEv → Bool
  | .maintain =>
    match s.maint with
    | .checking (.payload room digest) => onlyInFlight s.store.index room digest
    | .checking (.room room) => ownsRoom s.store.index room
    | _ => false
  | .resume k _ => (s.uploads.lookup k).any fun u =>
    match u.phase with
    | .refused _ => u.temp == some u.finalPath && onlyInFlight s.store.index u.guard.room u.guard.digest
    | _ => false
  | .cancel k => (s.uploads.lookup k).any fun u =>
    match u.phase with
    | .creating _ reply _ => reply.all (· == .ok)
    | .moving _ reply => reply.all (· == .ok)
    | _ => false
  | _ => false

def Kept (s : Sys) (e : DiskEv) : Prop := strands s e = false

variable {hash : Bytes → String} {s t : Sys}

theorem mem_or_mem_eraseIdx {α : Type} {l : List α} {i : Nat} {a b : α} (hi : l[i]? = some a) (hb : b ∈ l) :
    b = a ∨ b ∈ l.eraseIdx i := by
  obtain ⟨hlt, rfl⟩ := List.getElem?_eq_some_iff.mp hi
  exact List.mem_cons.mp ((List.getElem_cons_eraseIdx_perm hlt).mem_iff.mpr hb)

/-! ## Steps that leave the filesystem alone -/

/-- Nobody's part in it changes. -/
theorem Tidy.of_same (h : Tidy s) (hst : t.store.index = s.store.index) (hun : t.unsent = s.unsent)
    (hq : t.queue = s.queue) (hm : t.maint = s.maint) (hu : t.uploads = s.uploads) (hd : t.detached = s.detached)
    (hf : t.fs.files = s.fs.files) : Tidy t := by
  refine ⟨fun p n hp => ?_, by rw [hu, hf]; exact h.moved, by rw [hd]; exact h.detached⟩
  rw [hf] at hp
  cases h.accounted p n hp with
  | stored d payload he hs => exact .stored d payload he (by rw [hst]; exact hs)
  | owed r hr hc => exact .owed r (by rw [mem_removals] at hr ⊢; rw [hun, hq, hm]; exact hr) hc
  | condemned hc => exact .condemned (by rw [hm]; exact hc)
  | kept k u hk hkv => exact .kept k u (by rw [hu]; exact hk) hkv
  | detached hop => exact .detached (by rw [hd]; exact hop)

/-- The store moves on: what it no longer holds is queued for removal. -/
theorem Tidy.withStore (h : Tidy s) {store : Store} {unsent : List Removal} (hun : ∀ r ∈ s.unsent, r ∈ unsent)
    (hst : ∀ room digest payload, storedAt s.store.index room digest = some payload →
      (∃ payload', storedAt store.index room digest = some payload') ∨
        ∃ r ∈ unsent, r.Covers (payloadPath room digest)) :
    Tidy { s with store := store, unsent := unsent } := by
  refine ⟨fun p n hp => ?_, h.moved, h.detached⟩
  cases h.accounted p n hp with
  | stored d payload he hs =>
    rcases hst p.room d payload hs with ⟨payload', hs'⟩ | ⟨r, hr, hc⟩
    · exact .stored d payload' he hs'
    · exact .owed r (mem_removals.mpr (.inl hr)) (he ▸ hc)
  | owed r hr hc =>
    refine .owed r (mem_removals.mpr ?_) hc
    rcases mem_removals.mp hr with hr | hr
    · exact .inl (hun r hr)
    · exact .inr hr
  | condemned hc => exact .condemned hc
  | kept k u hu hk => exact .kept k u hu hk
  | detached hd => exact .detached hd

/-- Removals and the maintenance task move on: everything they covered is covered still. -/
theorem Tidy.withRemovals (h : Tidy s) {unsent queue : List Removal} {maint : Maint}
    (hr : ∀ p n, s.fs.files.lookup p = some n → ∀ r ∈ s.removals, r.Covers p →
      Accounted { s with unsent := unsent, queue := queue, maint := maint } p)
    (hc : ∀ p n, s.fs.files.lookup p = some n → s.maint.Condemns p →
      Accounted { s with unsent := unsent, queue := queue, maint := maint } p) :
    Tidy { s with unsent := unsent, queue := queue, maint := maint } := by
  refine ⟨fun p n hp => ?_, h.moved, h.detached⟩
  cases h.accounted p n hp with
  | stored d payload he hs => exact .stored d payload he hs
  | owed r hm hcov => exact hr p n hp r hm hcov
  | condemned hcon => exact hc p n hp hcon
  | kept k u hu hk => exact .kept k u hu hk
  | detached hd => exact .detached hd

/-- An upload moves on, and answers for what it answered for. -/
theorem Tidy.put (h : Tidy s) {k : Nat} {u' : Upload}
    (hk : ∀ u p n, s.uploads.lookup k = some u → s.fs.files.lookup p = some n → u.Keeps p → Accounted (s.put k u') p)
    (hm : ∀ source, u'.phase = .moving source (some .ok) → s.fs.files.lookup source = none) : Tidy (s.put k u') := by
  refine ⟨fun p n hp => ?_, fun j v source hv hpv => ?_, h.detached⟩
  · cases h.accounted p n hp with
    | stored d payload he hs => exact .stored d payload he hs
    | owed r hr hc => exact .owed r hr hc
    | condemned hc => exact .condemned hc
    | kept j v hv hkv =>
      by_cases hj : j = k
      · subst hj; exact hk v p n hv hp hkv
      · exact .kept j v ((AList.lookup_insert_ne hj).trans hv) hkv
    | detached hd => exact .detached hd
  · rcases Map.lookup_insert_some hv with ⟨rfl, rfl⟩ | ⟨_, hv⟩
    · exact hm source hpv
    · exact h.moved j v source hv hpv

/-- In these phases the upload answers for what `temp` names and no more. -/
def Phase.plain : Phase → Bool
  | .moving _ (some .ok) => false
  | .creating _ (some .ok) _ => false
  | .unlinking _ none _ => false
  | _ => true

theorem Upload.Keeps.temp {u : Upload} {p : Path} (h : u.Keeps p) (hp : u.phase.plain = true) : u.temp = some p := by
  rcases h with ht | ⟨source, hph, _⟩ | ⟨n, next, hph, _⟩ | ho
  · exact ht
  · rw [hph] at hp; cases hp
  · rw [hph] at hp; cases hp
  · cases Upload.awaits_of_op ho with
    | opening call next _ _ hop => rcases hop with hop | hop | hop <;> cases hop
    | unlinking _ error hph => rw [hph] at hp; cases hp

theorem Phase.Fails.plain {phase : Phase} {next : Next} (h : phase.Fails next) : phase.plain = true := by
  cases h with
  | opening call reply next _ _ => rfl
  | creating n reply next hr =>
    cases reply with
    | ok => exact absurd rfl hr
    | alreadyExists => rfl
    | notFound => rfl

theorem Ends.plain {u : Upload} (he : Ends u) : u.phase.plain = true := by
  cases he with
  | tooLong hp => rw [hp]; rfl
  | openFailed chunk hf => exact hf.plain
  | writeFailed chunk hp _ => rw [hp]; rfl
  | nothingToRemove error hp _ => rw [hp]; rfl
  | removed path reply error hp => rw [hp]; rfl
  | dropping error hp => rw [hp]; rfl

theorem Turn.keeps {k : Nat} {e : DiskEv} {u u' : Upload} (ht : Turn hash k u e u') (hs : u.Shape hash) {p : Path}
    (hk : u.Keeps p) : u'.Keeps p := by
  cases ht with
  | openForChunk chunk hp _ _ | openForNothing hp _ _ | inspect now next hp | secure now next hp
  | fill handle chunk hp _ _ | append now chunk hp _ | mismatch error hp => exact .inl (hk.temp (by rw [hp]; rfl))
  | appendFirst now n chunk hp =>
    -- the file the creation made is what `temp` names now
    have hph := hs.phase
    rw [hp] at hph
    rcases hk with hk | ⟨source, hp', _⟩ | ⟨m, next, hp', hm⟩ | ho
    · rw [hph.1.1] at hk; cases hk
    · rw [hp] at hp'; cases hp'
    · rw [hp] at hp'; cases hp'
      exact .inl (by rw [hm]; rfl)
    · simp [Upload.op, hp] at ho
  | openFailed now hf => exact .inl (hk.temp hf.plain)
  | renameFailed now source reply hp hr =>
    refine .inl (hk.temp ?_)
    rw [hp]
    cases reply with
    | ok => exact absurd rfl hr
    | alreadyExists => rfl
    | notFound => rfl

/-! ## An upload is dropped -/

/-- It hands over what it answered for: a temporary file to the queue, an unlink to its thread. -/
theorem Tidy.dropUpload (h : Tidy s) (hi : SysInv hash s) {k : Nat} {u : Upload} (hu : s.uploads.lookup k = some u)
    (hk : ∀ p, u.Keeps p → u.temp = some p ∨ u.op = some (.unlink p)) (ho : ∀ op, u.op = some op → ¬ op.MakesFile) :
    Tidy (s.dropUpload k u) := by
  obtain ⟨hst, _⟩ := Store.abandonUpload_views hi.store u.guard.room u.guard.digest u.guard.serial
  refine ⟨fun p n hp => ?_, fun j v source hv => h.moved j v source (Map.lookup_erase_some hv).2, fun op hop => ?_⟩
  · cases h.accounted p n hp with
    | stored d payload he hs => exact .stored d payload he (by rw [← hst] at hs; exact hs)
    | owed r hr hc =>
      refine .owed r (mem_removals.mpr ?_) hc
      rcases mem_removals.mp hr with hr | hr
      · exact .inl (List.mem_append_left _ hr)
      · exact .inr hr
    | condemned hc => exact .condemned hc
    | kept j v hv hkv =>
      by_cases hj : j = k
      · subst hj
        rw [hu] at hv; cases hv
        rcases hk p hkv with ht | hop
        · refine .owed (.temp p) (mem_removals.mpr (.inl (List.mem_append_right _ ?_))) rfl
          exact Option.mem_toList.mpr (by rw [ht]; rfl)
        · exact .detached (List.mem_append_right _ (Option.mem_toList.mpr hop))
      · exact .kept j v ((AList.lookup_erase_ne hj).trans hv) hkv
    | detached hd => exact .detached (List.mem_append_left _ hd)
  · rcases List.mem_append.mp hop with hop | hop
    · exact h.detached op hop
    · exact ho op (Option.mem_toList.mp hop)

theorem Ends.no_op {u : Upload} (he : Ends u) (op : Op) : u.op ≠ some op := by
  intro ho
  have hop := Upload.awaits_of_op ho
  cases he with
  | tooLong hp | writeFailed chunk hp _ | nothingToRemove error hp _ | removed path reply error hp
  | dropping error hp => simp [Upload.op, hp] at ho
  | openFailed chunk hf =>
    cases hop with
    | opening call next _ hp _ => rw [hp] at hf; cases hf
    | creating n next hp => rw [hp] at hf; cases hf
    | moving source hp => rw [hp] at hf; cases hf
    | unlinking path error hp => rw [hp] at hf; cases hf

theorem Tidy.endUpload (h : Tidy s) (hi : SysInv hash s) {k : Nat} {u : Upload} (hu : s.uploads.lookup k = some u)
    (he : Ends u) (error : UploadError) : Tidy (s.endUpload k u error) := by
  have hd := h.dropUpload hi hu (fun p hkp => .inl (hkp.temp he.plain)) fun op hop => absurd hop (he.no_op op)
  exact hd.of_same rfl rfl rfl rfl rfl rfl rfl

/-- A dropped task strands nothing unless it was making or moving its file. -/
theorem Tidy.cancel (h : Tidy s) (hi : SysInv hash s) {k : Nat} {u : Upload} (hu : s.uploads.lookup k = some u)
    (hok : Kept s (.cancel k)) : Tidy (s.dropUpload k u) := by
  simp only [Kept, strands, hu, Option.any_some] at hok
  refine h.dropUpload hi hu (fun p hkp => ?_) fun op hop => ?_
  · rcases hkp with ht | ⟨source, hp, _⟩ | ⟨n, next, hp, _⟩ | ho
    · exact .inl ht
    · rw [hp] at hok; cases hok
    · rw [hp] at hok; cases hok
    · exact .inr ho
  · cases Upload.awaits_of_op hop with
    | opening call next _ _ hc => rcases hc with rfl | rfl | rfl <;> exact id
    | creating n next hp => rw [hp] at hok; cases hok
    | moving source hp => rw [hp] at hok; cases hok
    | unlinking path error _ => exact id

/-! ## Files come and go -/

/-- The maintenance task unlinks `path` and goes on with the rest. -/
theorem Tidy.unlink (h : Tidy s) {path : Path} {maint : Maint} (hr : maint.removal = s.maint.removal)
    (hc : ∀ p, p ≠ path → s.maint.Condemns p → maint.Condemns p) :
    Tidy { s with fs := s.fs.unlink path, maint := maint } := by
  refine ⟨fun p n hp => ?_, fun k u source hu hp => ?_, h.detached⟩
  · obtain ⟨hne, hp⟩ := Map.lookup_erase_some hp
    cases h.accounted p n hp with
    | stored d payload he hs => exact .stored d payload he hs
    | owed r hrem hcov => exact .owed r (by rw [mem_removals] at hrem ⊢; rw [hr]; exact hrem) hcov
    | condemned hcon => exact .condemned (hc p hne hcon)
    | kept k u hu hk => exact .kept k u hu hk
    | detached hd => exact .detached hd
  · exact Map.lookup_erase_none (h.moved k u source hu hp)

theorem Fs.perform_dir_files (fs : Fs) {op : Op} {room : RoomId}
    (h : op = .mkdir room ∨ op = .symlinkMetadata room ∨ op = .setPermissions room) :
    (fs.perform op).1.files = fs.files := by
  rcases h with rfl | rfl | rfl
  · simp only [Fs.perform]; split <;> rfl
  · rfl
  · rfl

/-- What a creation adds. -/
theorem Fs.perform_create_files {fs : Fs} {room : RoomId} {digest : String} {m n : Nat} {p : Path}
    (h : (fs.perform (.create room digest m)).1.files.lookup p = some n) :
    (p = tempPath room digest m ∧ (fs.perform (.create room digest m)).2 = .ok) ∨ fs.files.lookup p = some n := by
  simp only [Fs.perform] at h ⊢
  split at h
  · rename_i hd
    rcases Map.lookup_insert_some h with ⟨rfl, _⟩ | ⟨_, h⟩
    · exact .inl ⟨rfl, by rw [if_pos hd]⟩
    · exact .inr h
  · exact .inr h

/-- What a rename leaves. -/
theorem Fs.perform_rename_files {fs : Fs} {source target p : Path} {n : Nat}
    (h : (fs.perform (.rename source target)).1.files.lookup p = some n) :
    (p = target ∧ (fs.perform (.rename source target)).2 = .ok) ∨
      (fs.files.lookup p = some n ∧ ((fs.perform (.rename source target)).2 = .ok → p ≠ source)) := by
  simp only [Fs.perform] at h ⊢
  cases hs : fs.files.lookup source with
  | none => rw [hs] at h; exact .inr ⟨h, fun hr => by cases hr⟩
  | some m =>
    rw [hs] at h
    rcases Map.lookup_insert_some h with ⟨rfl, _⟩ | ⟨_, h⟩
    · exact .inl ⟨rfl, rfl⟩
    · exact .inr ⟨(Map.lookup_erase_some h).2, fun _ => (Map.lookup_erase_some h).1⟩

/-- The source of a finished rename is a temporary name under the upload's own number. -/
theorem SysInv.moving_source (hi : SysInv hash s) {k : Nat} {u : Upload} {source : Path} {reply : Option Reply}
    (hu : s.uploads.lookup k = some u) (hp : u.phase = .moving source reply) :
    ∃ n, source = tempPath u.guard.room u.guard.digest n ∧ u.number = some n ∧ u.temp = some source := by
  have hs := (hi.shape k u hu).phase
  rw [hp] at hs
  obtain ⟨⟨n, hc, ht⟩, ht', _⟩ := hs
  rw [ht] at ht'; cases ht'
  exact ⟨n, rfl, by rw [Upload.number, hp]; exact hc, ht⟩

/-- The upload's outstanding operation is performed: it answers for the file that made. -/
theorem Tidy.performed (h : Tidy s) (hi : SysInv hash s) {k : Nat} {u : Upload} {op : Op}
    (hu : s.uploads.lookup k = some u) (ho : u.op = some op) : Tidy (s.performed k u op) := by
  -- whatever the operation, everyone else answers for what they did
  have hrest : ∀ p, Accounted s p → (u.Keeps p → Accounted (s.performed k u op) p) → Accounted (s.performed k u op) p := by
    intro p ha hk
    cases ha with
    | stored d payload he hs => exact .stored d payload he hs
    | owed r hr hc => exact .owed r hr hc
    | condemned hc => exact .condemned hc
    | kept j v hv hkv =>
      by_cases hj : j = k
      · subst hj; rw [hu] at hv; cases hv; exact hk hkv
      · exact .kept j v ((AList.lookup_insert_ne hj).trans hv) hkv
    | detached hd => exact .detached hd
  have hkept : ∀ p, ({ u with phase := u.phase.answer (s.fs.perform op).2 } : Upload).Keeps p →
      Accounted (s.performed k u op) p := fun p hk => .kept k _ (AList.lookup_insert _) hk
  cases Upload.awaits_of_op ho with
  | opening call next _ hp hop =>
    have hfiles : (s.performed k u op).fs.files = s.fs.files := s.fs.perform_dir_files hop
    refine ⟨fun p n hpn => ?_, fun j v source hv hpv => ?_, h.detached⟩
    · rw [hfiles] at hpn
      exact hrest p (h.accounted p n hpn) fun hk => hkept p (.inl (hk.temp (by rw [hp]; rfl)))
    · rw [hfiles]
      rcases Map.lookup_insert_some hv with ⟨rfl, rfl⟩ | ⟨_, hv⟩
      · simp only [hp] at hpv; cases hpv
      · exact h.moved j v source hv hpv
  | creating m next hp =>
    refine ⟨fun p n hpn => ?_, fun j v source hv hpv => ?_, h.detached⟩
    · rcases Fs.perform_create_files hpn with ⟨rfl, hok⟩ | hpn
      · exact hkept _ (.inr (.inr (.inl ⟨m, next, by rw [hp, hok]; rfl, rfl⟩)))
      · exact hrest p (h.accounted p n hpn) fun hk => hkept p (.inl (hk.temp (by rw [hp]; rfl)))
    · rcases Map.lookup_insert_some hv with ⟨rfl, rfl⟩ | ⟨hj, hv⟩
      · simp only [hp] at hpv; cases hpv
      · cases hl : (s.fs.perform (.create u.guard.room u.guard.digest m)).1.files.lookup source with
        | none => exact hl
        | some n =>
          rcases Fs.perform_create_files hl with ⟨he, _⟩ | hl
          · -- only one upload has this number, and it is creating
            obtain ⟨n', hsrc, hnum, _⟩ := hi.moving_source hv hpv
            rw [hsrc] at he
            simp only [tempPath, Path.mk.injEq, Name.temp.injEq] at he
            have hnu : u.number = some m := by rw [Upload.number, hp]
            exact absurd (hi.distinct j k v u m hv hu (he.2.2 ▸ hnum) hnu) hj
          · have := h.moved j v source hv hpv
            rw [hl] at this; cases this
  | moving source hp =>
    obtain ⟨n', hsrc, _, htemp⟩ := hi.moving_source hu hp
    have hns : ∀ src : Path, src.IsTemp → src ≠ u.finalPath := by
      rintro _ hs rfl
      exact payloadPath_not_isTemp u.guard.room u.guard.digest hs
    refine ⟨fun p n hpn => ?_, fun j v src hv hpv => ?_, h.detached⟩
    · rcases Fs.perform_rename_files hpn with ⟨rfl, hok⟩ | ⟨hpn, _⟩
      · exact hkept _ (.inr (.inl ⟨source, by rw [hp, hok]; rfl, rfl⟩))
      · exact hrest p (h.accounted p n hpn) fun hk => hkept p (.inl (hk.temp (by rw [hp]; rfl)))
    · cases hl : (s.fs.perform (.rename source u.finalPath)).1.files.lookup src with
      | none => exact hl
      | some n =>
        rcases Map.lookup_insert_some hv with ⟨rfl, rfl⟩ | ⟨hj, hv⟩
        · simp only [hp, Phase.answer, Phase.moving.injEq, Option.some.injEq] at hpv
          obtain ⟨rfl, hok⟩ := hpv
          rcases Fs.perform_rename_files hl with ⟨he, _⟩ | ⟨_, hne⟩
          · exact absurd he (hns source (hsrc ▸ tempPath_isTemp _ _ n'))
          · exact absurd rfl (hne hok)
        · obtain ⟨m, hvs, _, _⟩ := hi.moving_source hv hpv
          rcases Fs.perform_rename_files hl with ⟨he, _⟩ | ⟨hl, _⟩
          · exact absurd he (hns src (hvs ▸ tempPath_isTemp _ _ m))
          · have := h.moved j v src hv hpv
            rw [hl] at this; cases this
  | unlinking path error hp =>
    refine ⟨fun p n hpn => ?_, fun j v src hv hpv => ?_, h.detached⟩
    · obtain ⟨hne, hpn⟩ := Map.lookup_erase_some hpn
      refine hrest p (h.accounted p n hpn) fun hk => hkept p ?_
      rcases hk with ht | ⟨_, hp', _⟩ | ⟨_, _, hp', _⟩ | hop
      · exact .inl ht
      · rw [hp] at hp'; cases hp'
      · rw [hp] at hp'; cases hp'
      · rw [ho] at hop; cases hop; exact absurd rfl hne
    · rcases Map.lookup_insert_some hv with ⟨rfl, rfl⟩ | ⟨_, hv⟩
      · simp only [hp] at hpv; cases hpv
      · exact Map.lookup_erase_none (h.moved j v src hv hpv)

/-- An operation left behind by a dropped upload is performed. -/
theorem Tidy.performDetached (h : Tidy s) {i : Nat} {op : Op} (ho : s.detached[i]? = some op) :
    Tidy { s with fs := (s.fs.perform op).1, detached := s.detached.eraseIdx i } := by
  have hrest : ∀ p, op ≠ .unlink p → Accounted s p →
      Accounted { s with fs := (s.fs.perform op).1, detached := s.detached.eraseIdx i } p := by
    intro p hne ha
    cases ha with
    | stored d payload he hs => exact .stored d payload he hs
    | owed r hr hc => exact .owed r hr hc
    | condemned hc => exact .condemned hc
    | kept k u hu hk => exact .kept k u hu hk
    | detached hd =>
      rcases mem_or_mem_eraseIdx ho hd with he | hd
      · exact absurd he.symm hne
      · exact .detached hd
  have hdet : ∀ op' ∈ s.detached.eraseIdx i, ¬ op'.MakesFile := fun op' hop =>
    h.detached op' (List.mem_of_mem_eraseIdx hop)
  have hmem := h.detached op (List.mem_of_getElem? ho)
  -- no operation left here makes a file, so only an unlink changes anything
  have hsame : (∀ p, op ≠ .unlink p) → (s.fs.perform op).1.files = s.fs.files →
      Tidy { s with fs := (s.fs.perform op).1, detached := s.detached.eraseIdx i } := fun hne hf =>
    ⟨fun p n hp => hrest p (hne p) (h.accounted p n (hf ▸ hp)), by rw [hf]; exact h.moved, hdet⟩
  cases op with
  | mkdir room => exact hsame (fun _ he => by cases he) (s.fs.perform_dir_files (.inl rfl))
  | symlinkMetadata room => exact hsame (fun _ he => by cases he) rfl
  | setPermissions room => exact hsame (fun _ he => by cases he) rfl
  | create room digest n => exact absurd trivial hmem
  | rename source target => exact absurd trivial hmem
  | unlink path =>
    refine ⟨fun p n hp => ?_, fun k u source hu hp => ?_, hdet⟩
    · obtain ⟨hne, hp⟩ := Map.lookup_erase_some hp
      exact hrest p (fun he => hne (by cases he; rfl)) (h.accounted p n hp)
    · exact Map.lookup_erase_none (h.moved k u source hu hp)

/-! ## The maintenance task -/

theorem Tidy.send (h : Tidy s) {i : Nat} {removal : Removal} (hi : s.unsent[i]? = some removal) :
    Tidy { s with unsent := s.unsent.eraseIdx i, queue := s.queue ++ [removal] } := by
  refine h.withRemovals (fun p n _ r hr hc => .owed r (mem_removals.mpr ?_) hc) fun p n _ hc => .condemned hc
  rcases mem_removals.mp hr with hr | hr | hr
  · rcases mem_or_mem_eraseIdx hi hr with rfl | hr
    · exact .inr (.inl (List.mem_append_right _ (List.mem_singleton.mpr rfl)))
    · exact .inl hr
  · exact .inr (.inl (List.mem_append_left _ hr))
  · exact .inr (.inr hr)

theorem Tidy.receive (h : Tidy s) {removal : Removal} {rest : List Removal} (hm : s.maint = .idle)
    (hq : s.queue = removal :: rest) : Tidy { s with queue := rest, maint := .checking removal } := by
  refine h.withRemovals (fun p n _ r hr hc => .owed r (mem_removals.mpr ?_) hc) fun p n _ hc => ?_
  · rcases mem_removals.mp hr with hr | hr | hr
    · exact .inl hr
    · rw [hq] at hr
      rcases List.mem_cons.mp hr with rfl | hr
      · exact .inr (.inr rfl)
      · exact .inr (.inl hr)
    · rw [hm] at hr; cases hr
  · rw [hm] at hc; cases hc

/-- The maintenance task finishes with the removal it was looking up, having done `maint` about it. -/
theorem Tidy.looked (h : Tidy s) {removal : Removal} {maint : Maint} (hm : s.maint = .checking removal)
    (hc : ∀ p, removal.Covers p → Accounted { s with maint := maint } p) : Tidy { s with maint := maint } := by
  refine h.withRemovals (fun p n _ r hr hcov => ?_) fun p n _ hcon => ?_
  · rcases mem_removals.mp hr with hr | hr | hr
    · exact .owed r (mem_removals.mpr (.inl hr)) hcov
    · exact .owed r (mem_removals.mpr (.inr (.inl hr))) hcov
    · rw [hm] at hr; cases hr; exact hc p hcov
  · rw [hm] at hcon; cases hcon

/-- The address is owned, and not only by an upload in flight. -/
theorem stored_of_owned {index : Index} {room : RoomId} {digest : String}
    (hr : removable index (.payload room digest) = none) (hf : onlyInFlight index room digest = false) :
    ∃ payload, storedAt index room digest = some payload := by
  cases hs : storedAt index room digest with
  | some payload => exact ⟨payload, rfl⟩
  | none =>
    simp only [onlyInFlight, hs, Option.isNone_none, Bool.true_and] at hf
    simp [removable, ownsPayload, hs, hf] at hr

theorem Tidy.skip (h : Tidy s) {removal : Removal} (hm : s.maint = .checking removal)
    (hr : removable s.store.index removal = none) (hok : Kept s .maintain) : Tidy { s with maint := .idle } := by
  refine h.looked hm fun p hc => ?_
  cases removal with
  | payload room digest =>
    simp only [Kept, strands, hm] at hok
    obtain ⟨payload, hs⟩ := stored_of_owned hr hok
    cases hc
    exact .stored digest payload rfl hs
  | room room =>
    simp only [Kept, strands, hm] at hok
    simp [removable, hok] at hr
  | temp path => cases hr

theorem Tidy.grant (h : Tidy s) {removal : Removal} {target : Target} (hm : s.maint = .checking removal)
    (hr : removable s.store.index removal = some target) : Tidy { s with maint := .unlinking target } := by
  refine h.looked hm fun p hc => .condemned ?_
  cases removal with
  | payload room digest => simp only [removable] at hr; split at hr <;> cases hr; exact hc
  | room room => simp only [removable] at hr; split at hr <;> cases hr; exact hc
  | temp path => cases hr; exact hc

/-- The maintenance task goes on with the files it was on its way to unlinking. -/
theorem Tidy.goesOn (h : Tidy s) {maint : Maint} (hr : s.maint.removal = none)
    (hc : ∀ p n, s.fs.files.lookup p = some n → s.maint.Condemns p → maint.Condemns p) :
    Tidy { s with maint := maint } := by
  refine h.withRemovals (fun p n _ r hm hcov => .owed r (mem_removals.mpr ?_) hcov) fun p n hp hcon =>
    .condemned (hc p n hp hcon)
  rcases mem_removals.mp hm with hm | hm | hm
  · exact .inl hm
  · exact .inr (.inl hm)
  · rw [hr] at hm; cases hm

/-! ## An upload's task -/

/-- The handle is dropped and the rename submitted. -/
theorem Tidy.rename (h : Tidy s) {k : Nat} {u u' : Upload} {temp : Path} (hu : s.uploads.lookup k = some u)
    (ht : u'.temp = some temp) (hk : ∀ p, u.Keeps p → p = temp) : Tidy (s.rename k u' temp) := by
  have h' : Tidy { s with orphans := orphaned s.orphans u' } := h.of_same rfl rfl rfl rfl rfl rfl rfl
  refine h'.put (fun v p n hv _ hkv => .kept k _ (AList.lookup_insert _) (.inl ?_)) fun source hp => by cases hp
  cases hu.symm.trans hv
  exact ht.trans (congrArg some (hk p hkv).symm)

/-- A creation that succeeded is resumed by `commit`: its file is what `temp` names from now on. -/
theorem Tidy.created (h : Tidy s) (hi : SysInv hash s) {k n : Nat} {u : Upload} {next : Next}
    (hu : s.uploads.lookup k = some u) (hp : u.phase = .creating n (some .ok) next) :
    Tidy (s.rename k (u.opened n) (tempPath u.guard.room u.guard.digest n)) := by
  have hs := (hi.shape k u hu).phase
  rw [hp] at hs
  refine h.rename hu rfl fun p hk => ?_
  rcases hk with ht | ⟨source, hp', _⟩ | ⟨m, next', hp', he⟩ | ho
  · rw [hs.1.1] at ht; cases ht
  · rw [hp] at hp'; cases hp'
  · rw [hp] at hp'; cases hp'; exact he
  · simp [Upload.op, hp] at ho

/-- What a finished rename leaves to its upload is the payload's file. -/
theorem Tidy.kept_final (h : Tidy s) (hi : SysInv hash s) {k : Nat} {u : Upload} {source p : Path} {n : Nat}
    (hu : s.uploads.lookup k = some u) (hp : u.phase = .moving source (some .ok))
    (hf : s.fs.files.lookup p = some n) (hk : u.Keeps p) : p = u.finalPath := by
  obtain ⟨_, _, _, htemp⟩ := hi.moving_source hu hp
  rcases hk with ht | ⟨_, _, he⟩ | ⟨_, _, hp', _⟩ | ho
  · rw [htemp] at ht; cases ht
    rw [h.moved k u source hu hp] at hf; cases hf
  · exact he
  · rw [hp] at hp'; cases hp'
  · simp [Upload.op, hp] at ho

theorem Tidy.committed (h : Tidy s) (hi : SysInv hash s) {k now : Nat} {u : Upload} {source : Path}
    (hu : s.uploads.lookup k = some u) (hp : u.phase = .moving source (some .ok))
    (hc : (s.store.commitUpload u.guard now).1 = .ok ()) :
    Tidy ({ s with store := (s.store.commitUpload u.guard now).2 }.settle k { u with temp := none }) := by
  rcases Store.commitUpload_views hi.store (hi.guard k u hu).1 now with ⟨_, _, hst, _⟩ | ⟨he, _⟩
  swap
  · rw [hc] at he; cases he
  refine ⟨fun p n hf => ?_, fun j v src hv => h.moved j v src (Map.lookup_erase_some hv).2, h.detached⟩
  cases h.accounted p n hf with
  | stored d payload hn hs =>
    by_cases hx : p.room = u.guard.room ∧ d = u.guard.digest
    · exact .stored d _ hn ((hst _ _).trans (if_pos hx))
    · exact .stored d payload hn (((hst _ _).trans (if_neg hx)).trans hs)
  | owed r hr hcov => exact .owed r hr hcov
  | condemned hcon => exact .condemned hcon
  | kept j v hv hkv =>
    by_cases hj : j = k
    · subst hj
      rw [hu] at hv; cases hv
      cases h.kept_final hi hu hp hf hkv
      exact .stored u.guard.digest _ rfl ((hst _ _).trans (if_pos ⟨rfl, rfl⟩))
    · exact .kept j v ((AList.lookup_erase_ne hj).trans hv) hkv
  | detached hd => exact .detached hd

theorem Tidy.notCommitted (h : Tidy s) (hi : SysInv hash s) {k now : Nat} {u : Upload} {source : Path}
    {error : UploadError} (hu : s.uploads.lookup k = some u) (hp : u.phase = .moving source (some .ok))
    (hc : (s.store.commitUpload u.guard now).1 = .error error) :
    Tidy ({ s with store := (s.store.commitUpload u.guard now).2 }.put k
      { u with temp := some u.finalPath, phase := .refused error }) := by
  rcases Store.commitUpload_views hi.store (hi.guard k u hu).1 now with ⟨he, _⟩ | ⟨_, hsame⟩
  · rw [hc] at he; cases he
  have h' : Tidy { s with store := (s.store.commitUpload u.guard now).2 } := h.of_same hsame rfl rfl rfl rfl rfl rfl
  refine h'.put (fun v p n hv hf hkv => .kept k _ (AList.lookup_insert _) (.inl ?_)) fun source hp => by cases hp
  cases hu.symm.trans hv
  exact congrArg some (h.kept_final hi hu hp hf hkv).symm

/-- `finish` looks for what to remove: a file it leaves is a stored payload's. -/
theorem Tidy.recheckOwned (h : Tidy s) {k now : Nat} {u : Upload} {error : UploadError}
    (hu : s.uploads.lookup k = some u) (hp : u.phase = .refused error) (ht : u.temp = some u.finalPath)
    (hr : removable s.store.index (.payload u.guard.room u.guard.digest) = none) (hok : Kept s (.resume k now)) :
    Tidy (s.put k { u with temp := none, phase := .dropping error }) := by
  have hown : onlyInFlight s.store.index u.guard.room u.guard.digest = false := by
    simpa [Kept, strands, hu, hp, ht] using hok
  obtain ⟨payload, hs⟩ := stored_of_owned hr hown
  refine h.put (fun v p n hv _ hkv => ?_) fun source hp => by cases hp
  cases hu.symm.trans hv
  have hpt := hkv.temp (by rw [hp]; rfl)
  rw [ht] at hpt; cases hpt
  exact .stored u.guard.digest payload rfl hs

theorem Tidy.recheck (h : Tidy s) {k : Nat} {u : Upload} {error : UploadError} {temp : Path}
    (hu : s.uploads.lookup k = some u) (hp : u.phase = .refused error) (ht : u.temp = some temp) :
    Tidy (s.put k { u with temp := none, phase := .unlinking temp none error }) := by
  refine h.put (fun v p n hv _ hkv => .kept k _ (AList.lookup_insert _) ?_) fun source hp => by cases hp
  cases hu.symm.trans hv
  have hpt := hkv.temp (by rw [hp]; rfl)
  rw [ht] at hpt; cases hpt
  exact .inr (.inr (.inr rfl))

/-- A write ends: only the handle changes. -/
theorem Tidy.background (h : Tidy s) {k n : Nat} {u : Upload} {buffer : Bytes} {short : Option Nat} {handle : Handle}
    (hu : s.uploads.lookup k = some u) :
    Tidy ((s.wrote n buffer short).put k { u with file := some handle }) := by
  have h' : Tidy (s.wrote n buffer short) := h.of_same rfl rfl rfl rfl rfl rfl rfl
  refine h'.put (fun v p m hv _ hkv => .kept k _ (AList.lookup_insert _) ?_) fun source hp => h.moved k u source hu hp
  cases hu.symm.trans hv
  exact hkv

/-! ## Every step -/

theorem Tidy.beginUpload (h : Tidy s) (hi : SysInv hash s) (room : RoomId) (digest : String) (declared now : Nat) :
    Tidy { s with store := (s.store.beginUpload room digest declared now).2 } := by
  obtain ⟨hst, _⟩ := Store.beginUpload_views hi.store room digest declared now
  exact h.withStore (fun _ hr => hr) fun r d p hp => .inl ⟨p, by rw [hst]; exact hp⟩

theorem Moves.tidy {e : DiskEv} (hm : Moves hash s e t) (hi : SysInv hash s) (h : Tidy s) (hok : Kept s e) : Tidy t := by
  cases hm with
  | reserve room digest bytes now =>
    obtain ⟨hst, _⟩ := Store.reserve_views hi.store room digest bytes now
    exact h.withStore (fun _ hr => hr) fun r d p hp => .inl ⟨p, by rw [hst]; exact hp⟩
  | accepted room digest declared now serial hr =>
    refine (h.beginUpload hi room digest declared now).put (fun v p n hv _ _ => ?_) fun source hp => by cases hp
    -- the serial is new, so no upload had this key
    obtain ⟨hacc, hser⟩ := hi.guard serial v hv
    have hlt := hi.store.drawn v.guard hacc
    have heq := (beginUpload_accepted hi.store hr).1
    omega
  | notAccepted room digest declared now _ => exact h.beginUpload hi room digest declared now
  | forgetRoom room =>
    obtain ⟨hst, _, hrem⟩ := Store.forgetRoom_views hi.store room
    refine h.withStore (fun _ hr => List.mem_append_left _ hr) fun r d p hp => ?_
    by_cases hr : r = room
    · subst hr
      rcases hrem with hrem | ⟨_, hno⟩
      · exact .inr ⟨.room r, List.mem_append_right _ (by rw [hrem]; exact List.mem_singleton.mpr rfl), rfl⟩
      · rw [ownsRoom_of_storedAt hp] at hno; cases hno
    · exact .inl ⟨p, by rw [hst, if_neg hr]; exact hp⟩
  | sweep now =>
    obtain ⟨_, hst, _⟩ := Store.sweep_views hi.store now
    refine h.withStore (fun _ hr => List.mem_append_left _ hr) fun r d p hp => ?_
    rcases hst r d p hp with hp | hrem
    · exact .inl ⟨p, hp⟩
    · exact .inr ⟨.payload r d, List.mem_append_right _ hrem, rfl⟩
  | send i removal hget => exact h.send hget
  | receive removal rest hm hq => exact h.receive hm hq
  | skip removal hm hr => exact h.skip hm hr hok
  | grant removal target hm hr => exact h.grant hm hr
  | unlinkFile path hm =>
    exact h.unlink (by rw [hm]; rfl) fun p hne hc => by rw [hm] at hc; exact absurd hc hne
  | noDir room hm hdir =>
    -- with no directory there is no file either
    have hno : ∀ p n, s.fs.files.lookup p = some n → p.room ≠ room := fun p n hp he =>
      hdir (he ▸ hi.dirs p n hp)
    refine h.goesOn ?_ fun p n hp hc => ?_
    · rcases hm with hm | hm <;> rw [hm] <;> rfl
    · rcases hm with hm | hm <;> rw [hm] at hc <;> exact absurd hc (hno p n hp)
  | isDir room hm => exact h.goesOn (by rw [hm]; rfl) fun p n _ hc => by rw [hm] at hc; exact hc
  | readDir room hm =>
    refine h.goesOn (by rw [hm]; rfl) fun p n hp hc => ?_
    rw [hm] at hc
    refine ⟨hc, List.mem_map.mpr ⟨⟨p, n⟩, List.mem_filter.mpr ⟨Map.mem_entries_of_lookup hp, ?_⟩, rfl⟩⟩
    exact beq_iff_eq.mpr hc
  | unlinkNext room name names hm =>
    refine h.unlink (by rw [hm]; rfl) fun p hne hc => ?_
    rw [hm] at hc
    obtain ⟨hroom, hname⟩ := hc
    refine ⟨hroom, (List.mem_cons.mp hname).resolve_left fun he => hne ?_⟩
    cases p
    cases hroom
    cases he
    rfl
  | rmdir room hm =>
    have h' : Tidy { s with fs := s.fs.rmdir room } := h.of_same rfl rfl rfl rfl rfl rfl (Fs.rmdir_files _ _)
    refine h'.goesOn (by rw [hm]; rfl) fun p n _ hc => ?_
    rw [hm] at hc
    cases hc.2
  | straggler room name names hm => exact h.unlink rfl fun _ _ hc => hc
  | turn e k u u' hu ht =>
    refine h.put (fun v p n hv _ hkv => .kept k _ (AList.lookup_insert _) ?_) fun source hp => absurd hp (ht.quiet.1 source)
    cases hu.symm.trans hv
    exact ht.keeps (hi.shape k u hu) hkv
  | create k now u call next hu hp =>
    have h' : Tidy { s with store := s.store.drawSerial.2 } := h.of_same rfl rfl rfl rfl rfl rfl rfl
    refine h'.put (fun v p n hv _ hkv => .kept k _ (AList.lookup_insert _) (.inl ?_)) fun source hp => by cases hp
    cases hu.symm.trans hv
    exact hkv.temp (by rw [hp]; rfl)
  | close k u temp hu hp _ ht =>
    refine h.rename hu ht fun p hk => ?_
    have hpt := hk.temp (by rw [hp]; rfl)
    rw [ht] at hpt; cases hpt; rfl
  | created k now n u hu hp => exact h.created hi hu hp
  | perform k u op hu ho => exact h.performed hi hu ho
  | committed k now u source hu hp hc => exact h.committed hi hu hp hc
  | notCommitted k now u source error hu hp hc => exact h.notCommitted hi hu hp hc
  | recheckOwned k now u error hu hp ht hr => exact h.recheckOwned hu hp ht hr hok
  | recheck k now u error temp hu hp ht _ => exact h.recheck hu hp ht
  | fails e k u error hu he => exact h.endUpload hi hu he error
  | cancel k u hu _ => exact h.cancel hi hu hok
  | background k n u buffer short hu _ _ => exact h.background hu
  | performDetached i op ho => exact h.performDetached ho
  | backgroundOrphan n buffer short _ => exact h.of_same rfl rfl rfl rfl rfl rfl rfl

theorem Tidy.init : Tidy {} := by
  refine ⟨?_, ?_, ?_⟩
  · intro p n hp; cases hp
  · intro k u source hu; cases hu
  · intro op hop; cases hop

theorem tidy_inv (h : DiskReach hash Kept s) : SysInv hash s ∧ Tidy s :=
  h.inv (P := fun s => SysInv hash s ∧ Tidy s) ⟨.init, .init⟩ fun _ _ _ hs hok he =>
    have hm := diskStep_moves he
    ⟨hm.sysInv hs.1, hm.tidy hs.1 hs.2 hok⟩

/-! ## At rest -/

/-- No upload is in flight and no removal or filesystem operation is outstanding. -/
structure Quiescent (s : Sys) : Prop where
  uploads : s.uploads.isEmpty = true
  detached : s.detached = []
  unsent : s.unsent = []
  queue : s.queue = []
  maint : s.maint = .idle

theorem Quiescent.removals (hq : Quiescent s) {r : Removal} : r ∉ s.removals := by
  intro hr
  rcases mem_removals.mp hr with hr | hr | hr
  · rw [hq.unsent] at hr; cases hr
  · rw [hq.queue] at hr; cases hr
  · rw [hq.maint] at hr; cases hr

/-- With nobody else to answer for it, a file is a stored payload's. -/
theorem Tidy.rest (h : Tidy s) (hq : Quiescent s) {p : Path} {n : Nat} (hp : s.fs.files.lookup p = some n) :
    ∃ d payload, p = payloadPath p.room d ∧ storedAt s.store.index p.room d = some payload := by
  cases h.accounted p n hp with
  | stored d payload he hs => exact ⟨d, payload, he, hs⟩
  | owed r hr _ => exact absurd hr hq.removals
  | condemned hc => rw [hq.maint] at hc; cases hc
  | kept k u hu _ =>
    rw [Map.isEmpty_iff.mp hq.uploads] at hu; cases hu
  | detached hd => rw [hq.detached] at hd; cases hd

/-- The bytes on disk. -/
def diskUse (fs : Fs) : Nat := fs.files.sumBy fun n => (fs.content n).length

/-- What the index charges for its stored payloads, by file. -/
def storedCharges (index : Index) : List (Path × Nat) :=
  index.rooms.entries.flatMap fun room => room.2.stored.entries.map fun e => (payloadPath room.1 e.1, e.2.charged)

theorem mem_storedCharges {index : Index} {room : RoomId} {d : String} {payload : Payload}
    (h : storedAt index room d = some payload) : (payloadPath room d, payload.charged) ∈ storedCharges index := by
  obtain ⟨state, hl, hp⟩ := Option.bind_eq_some_iff.mp h
  exact List.mem_flatMap.mpr ⟨⟨room, state⟩, Map.mem_entries_of_lookup hl,
    List.mem_map.mpr ⟨⟨d, payload⟩, Map.mem_entries_of_lookup hp, rfl⟩⟩

theorem storedCharges_sum (index : Index) :
    ((storedCharges index).map (·.2)).sum = index.rooms.sumBy fun state => state.stored.sumBy (·.charged) := by
  unfold storedCharges Map.sumBy
  generalize index.rooms.entries = rooms
  induction rooms with
  | nil => rfl
  | cons room rooms ih =>
    simp only [List.flatMap_cons, List.map_append, List.sum_append, List.map_cons, List.sum_cons, ih, List.map_map]
    rfl

theorem storedCharges_le {index : Index} (h : IndexBooks index) : ((storedCharges index).map (·.2)).sum ≤ index.charged := by
  rw [storedCharges_sum, h.charged]
  refine Map.sumBy_le_sumBy fun room state hl => ?_
  rw [(h.room room state hl).1.charged]
  exact Nat.le_add_left _ _

/-- A payload's file holds no more than the index charges for it. -/
theorem ContentInv.file_le_charge {full : Prop} {bodies : List Bytes} (h : ContentInv full (· ∈ bodies) hash s)
    (hi : SysInv hash s) (hcf : CollisionFree hash bodies) {room : RoomId} {d : String} {n : Nat} {payload : Payload}
    (hf : s.fs.files.lookup (payloadPath room d) = some n) (hs : storedAt s.store.index room d = some payload) :
    (s.fs.content n).length ≤ payload.charged := by
  obtain ⟨body, hbody, hsealed⟩ := h.payloads room d n hf
  obtain ⟨body', hbody', hlen⟩ := h.stored room d payload hs
  obtain ⟨state, hl, hp⟩ := Option.bind_eq_some_iff.mp hs
  have hcharge := (hi.store.books.room room state hl).1.storedFloor d payload hp
  calc (s.fs.content n).length ≤ body.length := hsealed.begun.length_le
    _ = body'.length := hcf body hbody.known body' hbody'.known (hbody.digest.trans hbody'.digest.symm)
    _ = payload.bytes := hlen
    _ ≤ payload.charged := hcharge ▸ le_charge payload.bytes

theorem Tidy.diskUse_le (h : Tidy s) (hi : SysInv hash s) {bodies : List Bytes}
    (hc : ContentInv False (· ∈ bodies) hash s) (hq : Quiescent s) (hcf : CollisionFree hash bodies) : diskUse s.fs ≤ s.store.index.charged := by
  refine Nat.le_trans (Map.sumBy_le_of_keys fun p n hp => ?_) (storedCharges_le hi.store.books)
  obtain ⟨d, payload, he, hs⟩ := h.rest hq hp
  rw [he] at hp ⊢
  exact ⟨payload.charged, mem_storedCharges hs, hc.file_le_charge hi hcf hp hs⟩

/-- In every run that strands nothing, whenever everything is at rest, every file on disk is that
    of a payload the index holds in a room it holds, and together they take what is charged at most. -/
theorem nothing_outlives_its_room {past : DiskPast} (h : DiskHistory hash Kept (s, past)) (hq : Quiescent s) :
    (∀ p n, s.fs.files.lookup p = some n → ownsRoom s.store.index p.room = true ∧
      ∃ d payload, p = payloadPath p.room d ∧ storedAt s.store.index p.room d = some payload) ∧
    (CollisionFree hash (hashedIn past) → diskUse s.fs ≤ s.store.index.charged) ∧
    s.store.index.charged ≤ maxStoreBytes := by
  obtain ⟨hr, hc⟩ := hashed_content False (fun hf => hf.elim) h
  obtain ⟨hi, ht⟩ := tidy_inv hr
  refine ⟨fun p n hp => ?_, ht.diskUse_le hi hc hq, hi.store.books.bound⟩
  obtain ⟨d, payload, he, hs⟩ := ht.rest hq hp
  exact ⟨ownsRoom_of_storedAt hs, d, payload, he, hs⟩

/-- The room ends while its directory's removal is still queued, and a new one of its name is there
    when the removal is looked up. Then the new room's only reservation expires. -/
def strandedEvents : List DiskEv :=
  uploadNothing 0 0 ++ [.forgetRoom sampleRoom, .send 0, .reserve sampleRoom emptyDigest 0 0, .maintain, .maintain,
    .sweep payloadTimeToLive]

def strandedEnd : Sys := (run (diskStep sampleHash) {} strandedEvents).getD {}

theorem a_skipped_room_removal_strands_a_file :
    ¬ ∀ (hash : Bytes → String) (s : Sys), DiskReach hash Always s → Quiescent s →
      ∀ p n, s.fs.files.lookup p = some n → ownsRoom s.store.index p.room = true := by
  intro h
  have hr : DiskReach sampleHash Always strandedEnd := .of_run strandedEvents .init rfl
  have hq : Quiescent strandedEnd := ⟨rfl, rfl, rfl, rfl, rfl⟩
  have hown := h sampleHash strandedEnd hr hq (payloadPath sampleRoom emptyDigest) 1 (by decide)
  exact absurd hown (by decide)

/-- The removal is carried out before the room exists again, and the new room uploads too. -/
def keptEvents : List DiskEv :=
  uploadNothing 0 0 ++ [.forgetRoom sampleRoom, .send 0, .maintain, .maintain, .maintain, .maintain, .maintain,
    .maintain] ++ uploadNothing 2 0

def keptRun : Sys × DiskPast :=
  (runIf (traced (diskStep sampleHash)) (fun s e => !strands s.1 e) ({}, []) keptEvents).getD ({}, [])

theorem keptRun_reached : DiskHistory sampleHash Kept keptRun := by
  have hsome : (runIf (traced (diskStep sampleHash)) (fun s e => !strands s.1 e) ({}, []) keptEvents).isSome = true := by
    decide +kernel
  exact .of_runIf _ (fun _ _ => (Bool.not_eq_true' _).mp) keptEvents .init (some_getD_of_isSome hsome _)

theorem nothing_outlives_its_room_sample :
    DiskHistory sampleHash Kept keptRun ∧ Quiescent keptRun.1 ∧
      keptRun.1.fs.files.lookup (payloadPath sampleRoom emptyDigest) = some 3 ∧
      ownsRoom keptRun.1.store.index sampleRoom = true ∧ CollisionFree sampleHash (hashedIn keptRun.2) ∧
      diskUse keptRun.1.fs ≤ keptRun.1.store.index.charged := by
  have hq : Quiescent keptRun.1 := by constructor <;> decide +kernel
  have hfile : keptRun.1.fs.files.lookup (payloadPath sampleRoom emptyDigest) = some 3 := by decide +kernel
  have hfree : CollisionFree sampleHash (hashedIn keptRun.2) := by decide +kernel
  obtain ⟨hown, huse, -⟩ := nothing_outlives_its_room keptRun_reached hq
  exact ⟨keptRun_reached, hq, hfile, (hown _ 3 hfile).1, hfree, huse hfree⟩

end OmpRelayd.Blob
