/-
  OmpRelayd.Blob.Bodies — what an upload has been given, whatever became of it since.

  A piece of a body is in the hands of its upload before it is hashed: while the temporary file is
  being opened for it, and while `write_all` waits for the write before. `Sys.bodies` forgets the
  rest and keeps, of every upload alive, whose it is and all it was given.

  Proved: to `bodies` a step of an upload's own task adds the piece it brings, or ends the upload
  (`diskStep_own`); a request begins one that was given nothing (`diskStep_begin`), dropping its task
  removes it (`diskStep_cancel`), and nothing else in the system touches it (`diskStep_elsewhere`).
  An upload ends well only with a body of the declared length that hashes to its address.
-/

import OmpRelayd.Blob.Uploads
import OmpRelayd.Blob.Lifetimes

namespace OmpRelayd.Blob

def Next.inHand : Next → Bytes
  | .write chunk => chunk
  | .finish => []

/-- The piece that an operation under way is for. -/
def Phase.inHand : Phase → Bytes
  | .opening _ _ next => next.inHand
  | .creating _ _ next => next.inHand
  | .filling chunk => chunk
  | _ => []

/-- All of the body that has come. -/
def Upload.given (u : Upload) : Bytes := u.hashed ++ u.phase.inHand

/-- The uploads alive, each with what it was given. -/
def Sys.bodies (s : Sys) (k : Nat) : Option (Guard × Bytes) := (s.uploads.lookup k).map fun u => (u.guard, u.given)

/-- The code of an upload's own task, with the piece of the body that it brings. -/
inductive DiskEv.Own (k : Nat) : Bytes → DiskEv → Prop
  | chunk (bytes : Bytes) : DiskEv.Own k bytes (.chunk k bytes)
  | endBody : DiskEv.Own k [] (.endBody k)
  | resume (now : Nat) : DiskEv.Own k [] (.resume k now)

/-- Nothing that the task of an upload does. -/
def DiskEv.elsewhere : DiskEv → Bool
  | .beginUpload _ _ _ _ => false
  | .chunk _ _ => false
  | .endBody _ => false
  | .resume _ _ => false
  | .cancel _ => false
  | _ => true

variable {hash : Bytes → String} {s t : Sys} {k : Nat} {u : Upload}

theorem Sys.bodies_of_lookup (h : s.uploads.lookup k = some u) : s.bodies k = some (u.guard, u.given) := by
  rw [Sys.bodies, h, Option.map_some]

theorem Sys.bodies_eq_none : s.bodies k = none ↔ s.uploads.lookup k = none := Option.map_eq_none_iff

theorem Sys.bodies_insert (u' : Upload) (h : t.uploads = s.uploads.insert k u') :
    t.bodies = Function.update s.bodies k (some (u'.guard, u'.given)) := by
  funext j
  simp only [Sys.bodies, h]
  by_cases hj : j = k
  · subst hj
    rw [AList.lookup_insert, Function.update_self, Option.map_some]
  · rw [AList.lookup_insert_ne hj, Function.update_of_ne hj, Sys.bodies]

theorem Sys.bodies_erase (h : t.uploads = s.uploads.erase k) : t.bodies = Function.update s.bodies k none := by
  funext j
  simp only [Sys.bodies, h]
  by_cases hj : j = k
  · subst hj
    rw [AList.lookup_erase, Function.update_self, Option.map_none]
  · rw [AList.lookup_erase_ne hj, Function.update_of_ne hj, Sys.bodies]

theorem Sys.bodies_same (h : t.uploads = s.uploads) : t.bodies = s.bodies := by
  funext j
  simp only [Sys.bodies, h]

/-- The record of an upload changes, and not what it was given. -/
theorem Sys.bodies_kept (hu : s.uploads.lookup k = some u) {u' : Upload} (h : t.uploads = s.uploads.insert k u')
    (hg : u'.guard = u.guard) (hb : u'.given = u.given) : t.bodies = s.bodies := by
  rw [Sys.bodies_insert u' h, hg, hb]
  exact Function.update_eq_self_iff.mpr (Sys.bodies_of_lookup hu).symm

/-! ## The upload's own task -/

/-- What one step of its task does to an upload that `body` has come for, with this step's piece. -/
inductive Advances (hash : Bytes → String) (s : Sys) (e : DiskEv) (k : Nat) (g : Guard) (body : Bytes) (t : Sys) : Prop
  | goesOn : t.bodies = Function.update s.bodies k (some (g, body)) → Advances hash s e k g body t
  | fails (file : Option Nat) (error : UploadError) : t.bodies = Function.update s.bodies k none →
      t.outcomes = s.outcomes ++ [⟨g, file, .error error⟩] → Advances hash s e k g body t
  | settles (file : Option Nat) (now : Nat) : t.bodies = Function.update s.bodies k none →
      t.outcomes = s.outcomes ++ [⟨g, file, .ok g.declared⟩] → e = .resume k now → body.length = g.declared →
      hash body = g.digest → payloadLen t.store.index g.room g.digest now = some g.declared →
      Advances hash s e k g body t

theorem Advances.put (e : DiskEv) {u' : Upload} {body : Bytes} (h : t.uploads = s.uploads.insert k u')
    (hg : u'.guard = u.guard) (hb : u'.given = body) : Advances hash s e k u.guard body t := by
  refine .goesOn ?_
  rw [Sys.bodies_insert u' h, hg, hb]

theorem Advances.endUpload (e : DiskEv) (error : UploadError) (body : Bytes) :
    Advances hash s e k u.guard body (s.endUpload k u error) :=
  .fails u.created error (Sys.bodies_erase rfl) rfl

theorem Upload.given_of {phase : Phase} (hp : u.phase = phase) : u.given = u.hashed ++ phase.inHand := by
  rw [Upload.given, hp]

theorem writeChunk_advances {e : DiskEv} {chunk : Bytes} (h : writeChunk s k u chunk = some t) :
    Advances hash s e k u.guard (u.given ++ chunk) t := by
  unfold writeChunk at h
  split at h
  · rename_i hp
    have hgiven : u.given = u.hashed := by simp [Upload.given_of hp, Phase.inHand]
    split at h
    · cases h
      exact .endUpload e _ _
    · split at h
      · cases h
        exact .put e rfl rfl (by rw [hgiven]; rfl)
      · cases h
        exact .put e rfl rfl (by rw [hgiven]; rfl)
  · cases h

theorem finish_advances {e : DiskEv} (h : finish hash s k u = some t) : Advances hash s e k u.guard u.given t := by
  unfold finish at h
  split at h
  · rename_i hp
    have hgiven : u.given = u.hashed ++ [] := Upload.given_of hp
    split at h
    · cases h
      exact .put e rfl rfl hgiven.symm
    · split at h
      · cases h
        exact .put e rfl rfl hgiven.symm
      · split at h
        · cases h
          exact .put e rfl rfl hgiven.symm
        · cases h
          exact .put e rfl rfl hgiven.symm
  · cases h

theorem abort_advances {e : DiskEv} {next : Next} (hp : next = .finish → u.given = u.hashed) :
    Advances hash s e k u.guard u.given (s.abort k u next) := by
  cases next with
  | write chunk => exact .endUpload e _ _
  | finish =>
    refine .put e rfl rfl ?_
    rw [hp rfl]
    exact List.append_nil _

/-- A payload that was just committed is found at once. -/
theorem payloadLen_committed (hi : SysInv hash s) (hu : s.uploads.lookup k = some u) {now : Nat}
    (hc : (s.store.commitUpload u.guard now).1 = .ok ()) :
    payloadLen (s.store.commitUpload u.guard now).2.index u.guard.room u.guard.digest now = some u.guard.declared := by
  rcases Store.commitUpload_views hi.store (hi.guard k u hu).1 now with ⟨-, -, hstored, -⟩ | ⟨herror, -⟩
  · refine payloadLen_iff.mpr ⟨_, (hstored _ _).trans (if_pos ⟨rfl, rfl⟩), ?_, rfl⟩
    show now < now + payloadTimeToLive
    simp only [payloadTimeToLive, nanos]
    omega
  · rw [hc] at herror
    cases herror

theorem resume_advances (hi : SysInv hash s) (hu : s.uploads.lookup k = some u) {now : Nat}
    (h : resume s k u now = some t) : Advances hash s (.resume k now) k u.guard u.given t := by
  unfold resume at h
  split at h
  · rename_i next hp
    cases h
    exact .put _ rfl rfl (by rw [Upload.given_of hp]; rfl)
  · rename_i next hp
    cases h
    exact .put _ rfl rfl (by rw [Upload.given_of hp]; rfl)
  · rename_i next hp
    cases h
    exact .put _ rfl rfl (by rw [Upload.given_of hp]; rfl)
  · rename_i next hp
    cases h
    exact .put _ rfl rfl (by rw [Upload.given_of hp]; rfl)
  · rename_i call reply next _ _ _ _ hp
    cases h
    refine abort_advances fun hn => ?_
    subst hn
    rw [Upload.given_of hp]
    exact List.append_nil _
  · rename_i n next hp
    cases next with
    | write chunk =>
      cases h
      exact .put _ rfl rfl (by rw [Upload.given_of hp]; exact List.append_nil _)
    | finish =>
      cases h
      exact .put _ rfl rfl (by rw [Upload.given_of hp]; rfl)
  · rename_i n reply next _ hp
    cases h
    refine abort_advances fun hn => ?_
    subst hn
    rw [Upload.given_of hp]
    exact List.append_nil _
  · rename_i chunk hp
    have happend : (u.append chunk).given = u.given := by
      rw [Upload.given_of hp]
      exact List.append_nil _
    split at h
    · cases h
      exact .put _ rfl rfl happend
    · split at h
      · cases h
        exact .put _ rfl rfl happend
      · cases h
        exact .endUpload _ _ _
      · cases h
  · rename_i source hp
    have hshape := hi.shape k u hu
    have hv : u.Verified hash := by
      have := hshape.phase
      rw [hp] at this
      exact this.2.2.2
    have hgiven : u.given = u.hashed := by
      rw [Upload.given_of hp]
      exact List.append_nil _
    dsimp only at h
    split at h
    · rename_i hc
      cases h
      refine .settles u.created now (Sys.bodies_erase rfl) ?_ rfl ?_ ?_ (payloadLen_committed hi hu hc)
      · show s.outcomes ++ [⟨u.guard, u.created, .ok u.written⟩] = _
        rw [hv.1]
      · rw [hgiven, ← hshape.written, hv.1]
      · rw [hgiven, hv.2]
    · cases h
      exact .put _ rfl rfl (by rw [hgiven]; exact List.append_nil _)
  · rename_i source reply _ hp
    cases h
    exact .put _ rfl rfl (by rw [Upload.given_of hp]; rfl)
  · rename_i error hp
    split at h
    · cases h
      exact .endUpload _ _ _
    · cases h
      refine .put _ rfl rfl ?_
      rw [Upload.given_of hp]
      dsimp only [Upload.given]
      split <;> rfl
  · cases h
    exact .endUpload _ _ _
  · cases h
    exact .endUpload _ _ _
  · cases h

/-- A step of its own task adds to the body what it brings, or is the upload's last. -/
theorem diskStep_own (hi : SysInv hash s) {e : DiskEv} {bytes : Bytes} (ho : DiskEv.Own k bytes e)
    (h : diskStep hash s e = some t) :
    ∃ g body, s.bodies k = some (g, body) ∧ Advances hash s e k g (body ++ bytes) t := by
  cases ho with
  | chunk bytes =>
    obtain ⟨u, hu, h⟩ := Option.bind_eq_some_iff.mp h
    exact ⟨u.guard, u.given, Sys.bodies_of_lookup hu, writeChunk_advances h⟩
  | endBody =>
    obtain ⟨u, hu, h⟩ := Option.bind_eq_some_iff.mp h
    refine ⟨u.guard, u.given, Sys.bodies_of_lookup hu, ?_⟩
    rw [List.append_nil]
    exact finish_advances h
  | resume now =>
    obtain ⟨u, hu, h⟩ := Option.bind_eq_some_iff.mp h
    refine ⟨u.guard, u.given, Sys.bodies_of_lookup hu, ?_⟩
    rw [List.append_nil]
    exact resume_advances hi hu h

/-! ## Everything else -/

theorem diskStep_cancel (h : diskStep hash s (.cancel k) = some t) :
    (∃ g body, s.bodies k = some (g, body)) ∧ t.bodies = Function.update s.bodies k none ∧ t.outcomes = s.outcomes := by
  obtain ⟨u, hu, h⟩ := Option.bind_eq_some_iff.mp h
  split at h
  · cases h
    exact ⟨⟨u.guard, u.given, Sys.bodies_of_lookup hu⟩, Sys.bodies_erase rfl, rfl⟩
  · cases h

/-- An accepted request begins an upload under a serial that no other has. -/
theorem diskStep_begin (hi : SysInv hash s) {room : RoomId} {digest : String} {declared now : Nat}
    (h : diskStep hash s (.beginUpload room digest declared now) = some t) :
    (∃ serial, (s.store.beginUpload room digest declared now).1 = .ok (.upload serial) ∧ s.bodies serial = none ∧
      t.bodies = Function.update s.bodies serial (some (⟨room, digest, serial, declared⟩, []))) ∨
    ((∀ serial, (s.store.beginUpload room digest declared now).1 ≠ .ok (.upload serial)) ∧ t.bodies = s.bodies ∧
      t.store = (s.store.beginUpload room digest declared now).2) := by
  simp only [diskStep] at h
  split at h
  · rename_i serial hr
    cases h
    refine .inl ⟨serial, hr, ?_, @Sys.bodies_insert s _ serial { guard := ⟨room, digest, serial, declared⟩ } rfl⟩
    obtain ⟨hserial, -⟩ := beginUpload_accepted hi.store hr
    rw [Sys.bodies_eq_none]
    cases hu : s.uploads.lookup serial with
    | none => rfl
    | some u =>
      obtain ⟨hmem, hk⟩ := hi.guard serial u hu
      have hlt := hi.store.drawn u.guard hmem
      omega
  · rename_i hr
    cases h
    exact .inr ⟨hr, Sys.bodies_same rfl, rfl⟩

/-- An address that is already held is found at that moment. -/
theorem beginUpload_held {store : Store} (h : StoreInv store) {room : RoomId} {digest : String} {declared now : Nat}
    (hr : (store.beginUpload room digest declared now).1 = .ok .alreadyHeld) :
    ∃ bytes, payloadLen (store.beginUpload room digest declared now).2.index room digest now = some bytes := by
  obtain ⟨v, ⟨hv, -⟩, hb⟩ := beginUpload_spec h.books store.nextSerial room digest declared now
  simp only [Store.beginUpload, hv] at hr ⊢
  cases hb with
  | held state p hl hp hlive =>
    exact ⟨p.bytes, payloadLen_iff.mpr ⟨p, (storedAt_of_lookup hl digest).trans hp, hlive, rfl⟩⟩
  | refused r => cases hr
  | concurrent state r f _ _ _ => cases hr
  | accepted state r _ _ _ _ _ _ => cases hr

theorem Upload.given_answer (u : Upload) (reply : Reply) : { u with phase := u.phase.answer reply }.given = u.given := by
  unfold Upload.given
  congr 1
  cases u.phase <;> rfl

theorem diskStep_elsewhere {e : DiskEv} (he : e.elsewhere = true) (h : diskStep hash s e = some t) :
    t.bodies = s.bodies := by
  cases e with
  | reserve room digest bytes now => cases h; rfl
  | forgetRoom room => cases h; rfl
  | sweep now => cases h; rfl
  | send i =>
    obtain ⟨removal, -, rfl⟩ := Option.map_eq_some_iff.mp h
    rfl
  | maintain =>
    -- the maintenance task has no part in uploads
    refine Sys.bodies_same ?_
    simp only [diskStep, maintain] at h
    split at h <;> (try split at h) <;> cases h <;> rfl
  | straggler name =>
    simp only [diskStep] at h
    split at h <;> cases h
    rfl
  | perform k =>
    obtain ⟨u, hu, h⟩ := Option.bind_eq_some_iff.mp h
    obtain ⟨op, -, rfl⟩ := Option.map_eq_some_iff.mp h
    exact Sys.bodies_kept hu rfl rfl (Upload.given_answer u _)
  | background k short =>
    obtain ⟨u, hu, h⟩ := Option.bind_eq_some_iff.mp h
    unfold background at h
    split at h
    · cases h
      exact Sys.bodies_kept hu rfl rfl rfl
    · cases h
  | performDetached i =>
    obtain ⟨op, -, rfl⟩ := Option.map_eq_some_iff.mp h
    rfl
  | backgroundOrphan n short =>
    obtain ⟨buffer, -, rfl⟩ := Option.map_eq_some_iff.mp h
    rfl
  | beginUpload room digest declared now => cases he
  | chunk k bytes => cases he
  | endBody k => cases he
  | resume k now => cases he
  | cancel k => cases he

end OmpRelayd.Blob
