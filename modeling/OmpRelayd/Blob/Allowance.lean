/-
  OmpRelayd.Blob.Allowance — whose allowance an in-flight entry is.

  `begin_upload` turns a reservation into an entry of the room's `uploading` map and hands
  out a guard with the entry's serial; `finish` and `Drop` later settle or return what that
  entry holds. Address and time do not pair the two: the room can end under the guard, be
  created again and admit a successor at the same address. The serial does.

  `Owned` says it of a state: behind every entry stands the live upload of that serial, at
  that address. It is an invariant of every run of the disk system, because a step adds an
  entry only with its upload, and ends an upload only with the entry it still has.

  Proved (`uploads_own_their_allowance`): entries and live guards correspond by serial, an
  upload whose entry is gone or somebody else's can do nothing to the index, and without
  live uploads the room totals are made of reservations and payloads alone.
-/

import OmpRelayd.Blob.Ledger
import OmpRelayd.Blob.Held

namespace OmpRelayd.Blob

/-! ## Where an entry comes from -/

/-- An entry was there and is not the one the change ends, or the change makes it. -/
theorem Ledger.uploading_from (l : Ledger) (change : Change) {room : RoomId} {digest : String} {f : InFlight}
    (h : (l.apply change).uploading room digest = some f) :
    (l.uploading room digest = some f ∧ change ≠ .abandoned room digest ∧
      ∀ bytes now, change ≠ .settled room digest bytes now) ∨
    ∃ serial charged, change = .taken room digest serial charged ∧ f = ⟨serial, charged⟩ := by
  cases change with
  | taken r d serial charged =>
    rcases Table.set_some h with ⟨⟨rfl, rfl⟩, hf⟩ | ⟨_, h⟩
    · cases hf; exact .inr ⟨serial, charged, rfl, rfl⟩
    · exact .inl ⟨h, nofun, nofun⟩
  | abandoned r d =>
    rcases Table.set_some h with ⟨_, hf⟩ | ⟨hne, h⟩
    · cases hf
    · exact .inl ⟨h, fun e => by cases e; exact hne ⟨rfl, rfl⟩, nofun⟩
  | settled r d bytes now =>
    rcases Table.set_some h with ⟨_, hf⟩ | ⟨hne, h⟩
    · cases hf
    · exact .inl ⟨h, nofun, fun _ _ e => by cases e; exact hne ⟨rfl, rfl⟩⟩
  | forgot r => exact .inl ⟨(Table.clear_some h).2, nofun, nofun⟩
  | _ => exact .inl ⟨h, nofun, nofun⟩

/-! ## A guard without its entry -/

/-- Every room of an index whose books balance has an entry, so none is dropped as idle. -/
theorem IndexBooks.dropRoomIfIdle_eq {index : Index} (h : IndexBooks index) (room : RoomId) :
    dropRoomIfIdle index room = index := by
  unfold dropRoomIfIdle
  split
  · rename_i hidle
    obtain ⟨state, hl, hb⟩ := (Option.any_eq_true _ _).mp hidle
    obtain ⟨hr, hpos⟩ := h.room room state hl
    simp only [isIdle, Bool.and_eq_true, beq_iff_eq] at hb
    have hcount := hr.count
    simp only [hb.1.1.1, minChargeBytes, maxFrameBytes] at hcount
    omega
  · rfl

theorem notMine_of_not_owns {g : Guard} {index : Index} (h : ¬ g.Owns index) :
    NotMine index g.room g.digest g.serial := fun _ f hl hf hs => h ⟨f, (flightAt_of_lookup hl _).trans hf, hs⟩

theorem Store.abandonUpload_of_not_owns {s : Store} (h : StoreInv s) {g : Guard} (hn : ¬ g.Owns s.index) :
    (s.abandonUpload g.room g.digest g.serial).index = s.index := by
  obtain ⟨v, ⟨hv, _⟩, hab⟩ := abandonUpload_spec h.books g.room g.digest g.serial
  simp only [Store.abandonUpload, hv]
  cases hab with
  | foreign _ => exact h.books.dropRoomIfIdle_eq g.room
  | mine state f hl hf hs => exact absurd hs (notMine_of_not_owns hn state f hl hf)

theorem Store.commitUpload_of_not_owns {s : Store} (h : StoreInv s) {g : Guard} (hg : g ∈ s.accepted)
    (hn : ¬ g.Owns s.index) (now : Nat) :
    (s.commitUpload g now).1 = .error .roomGone ∧ (s.commitUpload g now).2.index = s.index := by
  rcases Store.commitUpload_views h hg now with ⟨_, ho, _⟩ | hgone
  · exact absurd ho hn
  · exact hgone

/-! ## The steps of one upload's task -/

/-- The upload whose task, operation or handle the event is about. -/
def DiskEv.upload : DiskEv → Option Nat
  | .chunk k _ => some k
  | .endBody k => some k
  | .perform k => some k
  | .resume k _ => some k
  | .background k _ => some k
  | .cancel k => some k
  | _ => none

/-- What a step of an upload's task does to the index: nothing, its commit, or its drop. -/
inductive Touches (s : Sys) (u : Upload) (index : Index) : Prop
  | nothing : index = s.store.index → Touches s u index
  | commit (now : Nat) : index = (s.store.commitUpload u.guard now).2.index → Touches s u index
  | drop : index = (s.store.abandonUpload u.guard.room u.guard.digest u.guard.serial).index → Touches s u index

variable {hash : Bytes → String} {s t : Sys}

theorem writeChunk_touches {k : Nat} {u : Upload} {chunk : Bytes} (h : writeChunk s k u chunk = some t) :
    Touches s u t.store.index := by
  unfold writeChunk at h
  split at h
  · split at h
    · cases h; exact .drop rfl
    · split at h <;> (cases h; exact .nothing rfl)
  · cases h

theorem finish_touches {k : Nat} {u : Upload} (h : finish hash s k u = some t) : Touches s u t.store.index := by
  unfold finish at h
  split at h
  · split at h
    · cases h; exact .nothing rfl
    · split at h
      · cases h; exact .nothing rfl
      · split at h <;> (cases h; exact .nothing rfl)
  · cases h

theorem abort_touches (s : Sys) (k : Nat) (u : Upload) (next : Next) : Touches s u (s.abort k u next).store.index := by
  cases next with
  | write chunk => exact .drop rfl
  | finish => exact .nothing rfl

theorem resume_touches {k now : Nat} {u : Upload} (h : resume s k u now = some t) : Touches s u t.store.index := by
  unfold resume at h
  split at h
  · cases h; exact .nothing rfl
  · cases h; exact .nothing rfl
  · cases h; exact .nothing rfl
  · cases h; exact .nothing rfl
  · cases h; exact abort_touches s k u _
  · split at h <;> (cases h; exact .nothing rfl)
  · cases h; exact abort_touches s k u _
  · split at h
    · cases h; exact .nothing rfl
    · split at h
      · cases h; exact .nothing rfl
      · cases h; exact .drop rfl
      · cases h
  · dsimp only at h
    split at h <;> (cases h; exact .commit now rfl)
  · cases h; exact .nothing rfl
  · split at h
    · cases h; exact .drop rfl
    · cases h; exact .nothing rfl
  · cases h; exact .drop rfl
  · cases h; exact .drop rfl
  · cases h

theorem diskStep_touches {e : DiskEv} {k : Nat} {u : Upload} (hk : e.upload = some k) (hu : s.uploads.lookup k = some u)
    (h : diskStep hash s e = some t) : Touches s u t.store.index := by
  cases e with
  | chunk j bytes => cases hk; simp only [diskStep, hu, Option.bind_some] at h; exact writeChunk_touches h
  | endBody j => cases hk; simp only [diskStep, hu, Option.bind_some] at h; exact finish_touches h
  | perform j =>
    cases hk
    simp only [diskStep, hu, Option.bind_some] at h
    obtain ⟨op, _, rfl⟩ := Option.map_eq_some_iff.mp h
    exact .nothing rfl
  | resume j now => cases hk; simp only [diskStep, hu, Option.bind_some] at h; exact resume_touches h
  | background j short =>
    cases hk
    simp only [diskStep, hu, Option.bind_some, Blob.background] at h
    split at h
    · cases h; exact .nothing rfl
    · cases h
  | cancel j =>
    cases hk
    simp only [diskStep, hu, Option.bind_some] at h
    split at h
    · cases h; exact .drop rfl
    · cases h
  | _ => cases hk

/-! ## Entries and uploads -/

/-- Behind every in-flight entry stands the live upload of its serial, at its address. -/
def Owned (s : Sys) : Prop :=
  ∀ room digest f, flightAt s.store.index room digest = some f →
    ∃ u, s.uploads.lookup f.serial = some u ∧ u.guard.room = room ∧ u.guard.digest = digest

/-- An upload that moves on keeps its serial and its address. -/
theorem Owned.put (h : Owned s) {k : Nat} {u u' : Upload} (hu : s.uploads.lookup k = some u)
    (hg : u'.guard = u.guard) : Owned (s.put k u') := by
  intro r d f hf
  obtain ⟨v, hv, hr, hd⟩ := h r d f hf
  by_cases e : f.serial = k
  · subst e
    cases hu.symm.trans hv
    exact ⟨u', AList.lookup_insert _, hg ▸ hr, hg ▸ hd⟩
  · exact ⟨v, (AList.lookup_insert_ne e).trans hv, hr, hd⟩

/-- A section that makes no entry keeps the uploads there are behind those left. -/
theorem Owned.withStore (h : Owned s) {store : Store}
    (hf : ∀ r d f, flightAt store.index r d = some f → flightAt s.store.index r d = some f) :
    Owned { s with store := store } := fun r d f hf' => h r d f (hf r d f hf')

/-- An upload ends together with the entry it still has. -/
theorem Owned.without (h : Owned s) {k : Nat} {store : Store}
    (hf : ∀ r d f, flightAt store.index r d = some f → flightAt s.store.index r d = some f ∧ f.serial ≠ k) :
    Owned { s with store := store, uploads := s.uploads.erase k } := by
  intro r d f hf'
  obtain ⟨hold, hne⟩ := hf r d f hf'
  obtain ⟨v, hv, hr, hd⟩ := h r d f hold
  exact ⟨v, (AList.lookup_erase_ne hne).trans hv, hr, hd⟩

/-- Of the entries left by a change that ends an upload's own, if it has one, none is its. -/
theorem Owned.others (h : Owned s) {k : Nat} {u : Upload} (hu : s.uploads.lookup k = some u) {index : Index}
    {change : Change} (hl : ledgerOf index = (ledgerOf s.store.index).apply change)
    (htaken : ∀ r d serial charged, change ≠ .taken r d serial charged)
    (hends : ∀ f, flightAt s.store.index u.guard.room u.guard.digest = some f → f.serial = k →
      change = .abandoned u.guard.room u.guard.digest ∨
        ∃ bytes now, change = .settled u.guard.room u.guard.digest bytes now)
    (r : RoomId) (d : String) (f : InFlight) (hf : flightAt index r d = some f) :
    flightAt s.store.index r d = some f ∧ f.serial ≠ k := by
  have hafter : ((ledgerOf s.store.index).apply change).uploading r d = some f := hl ▸ hf
  rcases Ledger.uploading_from _ _ hafter with ⟨hold, hna, hns⟩ | ⟨serial, charged, ht, _⟩
  · refine ⟨hold, fun hk => ?_⟩
    obtain ⟨v, hv, rfl, rfl⟩ := h r d f hold
    rw [hk] at hv
    cases hu.symm.trans hv
    rcases hends f hold hk with he | ⟨bytes, now, he⟩
    · exact hna he
    · exact hns bytes now he
  · exact absurd ht (htaken _ _ _ _)

theorem Owned.dropUpload (h : Owned s) (hi : SysInv hash s) {k : Nat} {u : Upload} (hu : s.uploads.lookup k = some u) :
    Owned (s.dropUpload k u) := by
  obtain ⟨change, hallows, hl⟩ := storeStep_makes (e := .abandonUpload u.guard.room u.guard.digest u.guard.serial)
    hi.store rfl
  refine h.without (h.others hu hl (fun r d serial charged e => ?_) fun f hf hk => ?_)
  · subst e; cases hallows
  · cases hallows with
    | notAbandoned _ _ _ hne => exact absurd (hk.trans (hi.guard k u hu).2.symm) (hne f hf)
    | abandoned _ _ _ _ _ _ => exact .inl rfl

theorem Owned.committed (h : Owned s) (hi : SysInv hash s) {k : Nat} {u : Upload} (hu : s.uploads.lookup k = some u)
    (now : Nat) :
    Owned { s with store := (s.store.commitUpload u.guard now).2, uploads := s.uploads.erase k } := by
  obtain ⟨change, hallows, hl⟩ := storeStep_makes (e := .commitUpload u.guard now) hi.store (if_pos (hi.guard k u hu).1)
  refine h.without (h.others hu hl (fun r d serial charged e => ?_) fun f hf hk => ?_)
  · subst e; cases hallows
  · cases hallows with
    | notSettled _ _ hne => exact absurd (hk.trans (hi.guard k u hu).2.symm) (hne f hf)
    | settled _ _ _ _ _ => exact .inr ⟨_, now, rfl⟩

/-- A new entry and its upload come together. -/
theorem Owned.accepted (h : Owned s) (hi : SysInv hash s) {room : RoomId} {digest : String} {declared now serial : Nat}
    (hr : (s.store.beginUpload room digest declared now).1 = .ok (.upload serial)) :
    Owned ({ s with store := (s.store.beginUpload room digest declared now).2 }.put serial
      { guard := ⟨room, digest, serial, declared⟩ }) := by
  obtain ⟨hserial, _⟩ := beginUpload_accepted hi.store hr
  obtain ⟨change, hallows, hl⟩ := storeStep_makes (e := .beginUpload room digest declared now) hi.store rfl
  intro r d f hf
  have hafter : ((ledgerOf s.store.index).apply change).uploading r d = some f := by rw [← hl]; exact hf
  rcases Ledger.uploading_from _ _ hafter with ⟨hold, _⟩ | ⟨n, charged, rfl, rfl⟩
  · -- an old entry's upload has drawn its serial before
    obtain ⟨v, hv, hvr, hvd⟩ := h r d f hold
    have hlt : v.guard.serial < s.store.nextSerial := hi.store.drawn _ (hi.guard _ v hv).1
    rw [(hi.guard _ v hv).2] at hlt
    exact ⟨v, (AList.lookup_insert_ne (by omega)).trans hv, hvr, hvd⟩
  · cases hallows with
    | taken _ _ _ _ _ _ _ _ _ _ =>
      refine ⟨{ guard := ⟨room, digest, serial, declared⟩ }, ?_, rfl, rfl⟩
      rw [← hserial]
      exact AList.lookup_insert _

theorem Moves.owned {e : DiskEv} (hi : SysInv hash s) (h : Owned s) (hm : Moves hash s e t) : Owned t := by
  cases hm with
  | reserve room digest bytes now =>
    exact h.withStore fun r d f hf => by rwa [(Store.reserve_views hi.store room digest bytes now).2] at hf
  | accepted room digest declared now serial hr => exact h.accepted hi hr
  | notAccepted room digest declared now hr =>
    refine h.withStore fun r d f hf => ?_
    obtain ⟨v, ⟨hv, _⟩, hb⟩ := beginUpload_spec hi.store.books s.store.nextSerial room digest declared now
    simp only [Store.beginUpload, hv] at hr hf
    cases hb with
    | refused _ => exact hf
    | held _ _ _ _ _ => exact hf
    | concurrent state reservation _ hl _ _ =>
      have hsame : flightAt (s.store.index.setRoom room (releasedRoom state digest reservation.charged)
          (s.store.index.charged - reservation.charged)) = flightAt s.store.index :=
        flightAt_setRoom_same fun d => (flightAt_of_lookup hl d).symm
      exact hsame ▸ hf
    | accepted _ _ _ _ _ _ _ _ => exact absurd rfl (hr _)
  | forgetRoom room =>
    refine h.withStore fun r d f hf => ?_
    rw [(Store.forgetRoom_views hi.store room).2.1] at hf
    split at hf
    · cases hf
    · exact hf
  | sweep now => exact h.withStore fun r d f hf => by rwa [(Store.sweep_views hi.store now).2.2] at hf
  | turn e k u u' hu ht => exact h.put hu ht.guard
  | create k now u call next hu _ => exact Owned.put (s := { s with store := s.store.drawSerial.2 }) h hu rfl
  | close k u temp hu _ _ _ => exact Owned.put (s := { s with orphans := orphaned s.orphans u }) h hu rfl
  | created k now n u hu _ => exact Owned.put (s := { s with orphans := orphaned s.orphans (u.opened n) }) h hu rfl
  | perform k u op hu _ => exact Owned.put (s := { s with fs := (s.fs.perform op).1 }) h hu rfl
  | committed k now u source hu _ _ => exact h.committed hi hu now
  | notCommitted k now u source error hu _ hc =>
    refine Owned.put (h.withStore fun r d f hf => ?_) hu rfl
    rcases Store.commitUpload_views hi.store (hi.guard k u hu).1 now with ⟨hok, _⟩ | ⟨_, hsame⟩
    · rw [hc] at hok; cases hok
    · rwa [hsame] at hf
  | recheckOwned k now u error hu _ _ _ => exact h.put hu rfl
  | recheck k now u error temp hu _ _ _ => exact h.put hu rfl
  | fails e k u error hu _ => exact h.dropUpload hi hu
  | cancel k u hu _ => exact h.dropUpload hi hu
  | background k n u buffer short hu _ _ => exact Owned.put (s := s.wrote n buffer short) h hu rfl
  | _ => exact h

theorem owned_inv {ok : Sys → DiskEv → Prop} (h : DiskReach hash ok s) : SysInv hash s ∧ Owned s := by
  refine h.inv (P := fun s => SysInv hash s ∧ Owned s) ⟨.init, fun r d f hf => ?_⟩ fun _ _ _ hs _ he =>
    have hm := diskStep_moves he
    ⟨hm.sysInv hs.1, hm.owned hs.1 hs.2⟩
  cases hf

/-! ## Every upload owns its allowance, and nobody else's -/

/-- An upload without its entry cannot touch the index, whatever its task does next. -/
theorem SysInv.index_of_not_owns (hi : SysInv hash s) {e : DiskEv} {k : Nat} {u : Upload}
    (hu : s.uploads.lookup k = some u) (hn : ¬ u.guard.Owns s.store.index) (hk : e.upload = some k)
    (he : diskStep hash s e = some t) : t.store.index = s.store.index := by
  cases diskStep_touches hk hu he with
  | nothing h => exact h
  | commit now h => exact h.trans (Store.commitUpload_of_not_owns hi.store (hi.guard k u hu).1 hn now).2
  | drop h => exact h.trans (Store.abandonUpload_of_not_owns hi.store hn)

theorem Owned.uploading_empty (h : Owned s) (hn : s.uploads = ∅) {room : RoomId} {state : RoomState}
    (hl : s.store.index.rooms.lookup room = some state) : state.uploading.isEmpty = true := by
  refine Map.isEmpty_iff.mpr fun d => ?_
  cases hf : state.uploading.lookup d with
  | none => rfl
  | some f =>
    obtain ⟨u, hu, _⟩ := h room d f ((flightAt_of_lookup hl d).trans hf)
    rw [hn] at hu; cases hu

theorem RoomBooks.charged_of_idle {state : RoomState} (h : RoomBooks state) (he : state.uploading.isEmpty = true) :
    state.charged = state.reserved.sumBy (·.charged) + state.stored.sumBy (·.charged) := by
  have hz : state.uploading.sumBy (·.charged) = 0 := by
    simp only [Map.isEmpty, List.isEmpty_iff] at he
    simp [Map.sumBy, he]
  have hc := h.charged
  simp only [entriesCharged, hz] at hc
  omega

/-- In every run: an in-flight entry is that of exactly one live upload, the one of its serial;
    no two live uploads share a serial; the task of an upload whose entry is absent or another's
    leaves the index as it is, in its commit and its drop too; and when no upload is alive no
    entry is, so that every charge is a reservation's or a stored payload's. -/
theorem uploads_own_their_allowance {ok : Sys → DiskEv → Prop} (h : DiskReach hash ok s) :
    (∀ room digest f, flightAt s.store.index room digest = some f →
      ∃ u, s.uploads.lookup f.serial = some u ∧ u.guard.room = room ∧ u.guard.digest = digest ∧
        ∀ k v, s.uploads.lookup k = some v → v.guard.serial = f.serial → k = f.serial ∧ v = u) ∧
    (∀ j k u v, s.uploads.lookup j = some u → s.uploads.lookup k = some v → u.guard.serial = v.guard.serial → j = k) ∧
    (∀ k u e t, s.uploads.lookup k = some u → ¬ u.guard.Owns s.store.index → e.upload = some k →
      diskStep hash s e = some t → t.store.index = s.store.index) ∧
    (s.uploads = ∅ → ∀ room state, s.store.index.rooms.lookup room = some state →
      state.uploading.isEmpty = true ∧
        state.charged = state.reserved.sumBy (·.charged) + state.stored.sumBy (·.charged)) := by
  obtain ⟨hi, ho⟩ := owned_inv h
  refine ⟨fun room digest f hf => ?_, fun j k u v hu hv he => ?_, fun k u e t hu hn hk he => ?_,
    fun hn room state hl => ?_⟩
  · obtain ⟨u, hu, hr, hd⟩ := ho room digest f hf
    refine ⟨u, hu, hr, hd, fun k v hv hs => ?_⟩
    have hk : k = f.serial := (hi.guard k v hv).2.symm.trans hs
    subst hk
    cases hu.symm.trans hv
    exact ⟨rfl, rfl⟩
  · rw [← (hi.guard j u hu).2, ← (hi.guard k v hv).2]; exact he
  · exact hi.index_of_not_owns hu hn hk he
  · have he := ho.uploading_empty hn hl
    exact ⟨he, (hi.store.books.room room state hl).1.charged_of_idle he⟩

/-- The room ends under an upload and is created again; a successor takes the same address. -/
def successorEvents : List DiskEv :=
  [.reserve sampleRoom emptyDigest 0 0, .beginUpload sampleRoom emptyDigest 0 0, .forgetRoom sampleRoom,
    .reserve sampleRoom emptyDigest 0 1, .beginUpload sampleRoom emptyDigest 0 1]

def successorEnd : Sys := (run (diskStep sampleHash) {} successorEvents).getD {}

def predecessorGone : Sys := (run (diskStep sampleHash) successorEnd [.cancel 0]).getD {}

/-- The predecessor's drop leaves the successor its entry. -/
theorem uploads_own_their_allowance_sample :
    DiskReach sampleHash Always successorEnd ∧
      flightAt successorEnd.store.index sampleRoom emptyDigest = some ⟨1, minChargeBytes⟩ ∧
      (∃ u, successorEnd.uploads.lookup 0 = some u ∧ u.guard.room = sampleRoom ∧ u.guard.digest = emptyDigest) ∧
      diskStep sampleHash successorEnd (.cancel 0) = some predecessorGone ∧
      predecessorGone.store.index = successorEnd.store.index := by
  have hr : DiskReach sampleHash Always successorEnd := .of_run successorEvents .init rfl
  have hu : successorEnd.uploads.lookup 0 = some { guard := ⟨sampleRoom, emptyDigest, 0, 0⟩ } := rfl
  refine ⟨hr, rfl, ⟨_, hu, rfl, rfl⟩, rfl, ?_⟩
  refine (uploads_own_their_allowance hr).2.2.1 0 _ (.cancel 0) predecessorGone hu ?_ rfl rfl
  rintro ⟨f, hf, hs⟩
  cases hf
  cases hs

end OmpRelayd.Blob
