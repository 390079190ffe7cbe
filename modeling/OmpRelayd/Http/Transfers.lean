/-
  OmpRelayd.Http.Transfers — what a transfer comes to, whatever else is going on.

  A request is answered from the state of the store at some moment, and its bytes come and go at
  others: a payload can expire, be swept, or be uploaded again between the length in the head and
  the last piece of the body, and an upload can be cut off at any await.

  Proved, over every run:
  (1) Uploads and the requests that are being handled correspond (`Handled`): behind every
      allowance that an upload in flight keeps from its room stands one request that has not been
      answered (`allowances_are_held_by_requests`).
  (2) A `PUT` that is answered with `201` or `204` is true at that moment as far as the index goes:
      a `HEAD` of the address would be answered with a length, and `201` means that the body received
      is of that length and hashes to the address (`a_stored_payload_is_listed`). Its file may still
      be short, or be removed by an unlink already granted (`Blob.Visible`, `Blob.Held`).
  (3) The bytes of a fetch begin a body that some request of the run brought and that hashes to the
      address asked for. Unless two bodies of the run collide it is as long as the head states, and a
      fetch that was sent in full is that body (`a_fetch_is_what_it_asked_for`). This does not need
      the file to be complete when it is opened, which it need not be.
-/

import OmpRelayd.Blob.Allowance
import OmpRelayd.Blob.Readers
import OmpRelayd.Blob.Visible
import OmpRelayd.Http.Server

namespace OmpRelayd.Http

open Blob (DiskEv DiskReach diskStep payloadPath payloadLen storedAt flightAt UploadError Guard Sealed SysInv Moves
  CollisionFree Advances Digested)

variable {hash : Bytes → String} {known : Bytes → Prop}

/-! ## Requests and uploads -/

def Put.guard (put : Put) (serial : Nat) : Guard := ⟨put.target.room, put.target.digest, serial, put.declared⟩

/-- The upload a task drives, and what has come for it. -/
def holds : Option Task → Nat → Option (Guard × Bytes)
  | some (.uploading put serial) => Function.update (fun _ => none) serial (some (put.guard serial, put.body))
  | _ => fun _ => none

/-- Every upload is driven by one task, and every task that drives one drives its own. -/
structure Handled (tasks : Map Nat Task) (bodies : Nat → Option (Guard × Bytes)) : Prop where
  held : ∀ k v, bodies k = some v ↔ ∃ id, holds (tasks.lookup id) k = some v
  alone : ∀ k id id', (holds (tasks.lookup id) k).isSome = true → (holds (tasks.lookup id') k).isSome = true → id = id'

theorem holds_uploading (put : Put) (serial k : Nat) :
    holds (some (.uploading put serial)) k = if k = serial then some (put.guard serial, put.body) else none := by
  simp only [holds, Function.update_apply]

theorem holds_eq_some {task : Option Task} {k : Nat} {v : Guard × Bytes} (h : holds task k = some v) :
    ∃ put, task = some (.uploading put k) ∧ v = (put.guard k, put.body) := by
  cases task with
  | none => cases h
  | some task =>
    cases task with
    | uploading put serial =>
      rw [holds_uploading] at h
      by_cases hk : k = serial
      · subst hk
        rw [if_pos rfl] at h
        cases h
        exact ⟨put, rfl, rfl⟩
      · rw [if_neg hk] at h
        cases h
    | _ => cases h

/-- One task changes, and the uploads change where it drove one or drives one now. -/
theorem Handled.moved {tasks tasks' : Map Nat Task} {bodies bodies' : Nat → Option (Guard × Bytes)} (id : Nat)
    (h : Handled tasks bodies) (hother : ∀ j, j ≠ id → tasks'.lookup j = tasks.lookup j)
    (hfresh : ∀ k, (holds (tasks'.lookup id) k).isSome = true →
      (holds (tasks.lookup id) k).isSome = true ∨ bodies k = none)
    (hbodies : ∀ k, bodies' k =
      if (holds (tasks'.lookup id) k).isSome = true ∨ (holds (tasks.lookup id) k).isSome = true then
        holds (tasks'.lookup id) k
      else bodies k) : Handled tasks' bodies' := by
  -- where this task is concerned, no other task is
  have hmine : ∀ k j, (holds (tasks'.lookup id) k).isSome = true ∨ (holds (tasks.lookup id) k).isSome = true →
      (holds (tasks'.lookup j) k).isSome = true → j = id := by
    intro k j hk hj
    by_contra hne
    rw [hother j hne] at hj
    have hold : (holds (tasks.lookup id) k).isSome = true ∨ bodies k = none := hk.elim (hfresh k) .inl
    rcases hold with hold | hnone
    · exact hne (h.alone k j id hj hold)
    · obtain ⟨v, hv⟩ := Option.isSome_iff_exists.mp hj
      rw [(h.held k v).mpr ⟨j, hv⟩] at hnone
      cases hnone
  refine ⟨fun k v => ?_, fun k i j hi hj => ?_⟩
  · rw [hbodies k]
    by_cases hk : (holds (tasks'.lookup id) k).isSome = true ∨ (holds (tasks.lookup id) k).isSome = true
    · rw [if_pos hk]
      refine ⟨fun hv => ⟨id, hv⟩, ?_⟩
      intro ⟨j, hj⟩
      have : j = id := hmine k j hk (by rw [hj]; rfl)
      rw [← this]
      exact hj
    · rw [if_neg hk, h.held k v]
      obtain ⟨hnew, hold⟩ := not_or.mp hk
      constructor
      · intro ⟨j, hj⟩
        have hne : j ≠ id := fun e => hold (by rw [← e, hj]; rfl)
        exact ⟨j, by rw [hother j hne]; exact hj⟩
      · intro ⟨j, hj⟩
        have hne : j ≠ id := fun e => hnew (by rw [← e, hj]; rfl)
        exact ⟨j, by rw [← hother j hne]; exact hj⟩
  · by_cases hi' : i = id
    · subst hi'
      exact (hmine k j (.inl hi) hj).symm
    · by_cases hj' : j = id
      · subst hj'
        exact hmine k i (.inl hj) hi
      · rw [hother i hi'] at hi
        rw [hother j hj'] at hj
        exact h.alone k i j hi hj

/-! ## What a task knows -/

/-- Some known body that hashes to the address is this long. -/
def Stated (known : Bytes → Prop) (hash : Bytes → String) (target : Target) (bytes : Nat) : Prop :=
  ∃ body, Digested known hash target.digest body ∧ body.length = bytes

/-- What was sent is at the beginning of the open file, and the file of a body that hashes to the address. -/
def Fetch.Sound (known : Bytes → Prop) (hash : Bytes → String) (disk : Blob.Sys) (fetch : Fetch) : Prop :=
  Stated known hash fetch.target fetch.bytes ∧ fetch.sent.length ≤ fetch.bytes ∧
    fetch.sent <+: disk.fs.content fetch.file ∧
    ∃ body, Digested known hash fetch.target.digest body ∧ Sealed False disk fetch.file body

def Task.Sound (known : Bytes → Prop) (hash : Bytes → String) (disk : Blob.Sys) : Task → Prop
  | .uploading _ _ => True
  | .uploaded put response => response.status = .created → put.body.length = put.declared ∧ hash put.body = put.target.digest
  | .opening target bytes => Stated known hash target bytes
  | .streaming fetch => fetch.Sound known hash disk
  | .cut fetch => fetch.Sound known hash disk
  | .answered target response => ∀ asked bytes, target = some asked → Header.contentLength bytes ∈ response.headers →
      Stated known hash asked bytes

/-- The disk is where it was, or took a step that hashes nothing unknown. -/
def DiskGoes (known : Bytes → Prop) (hash : Bytes → String) (d d' : Blob.Sys) : Prop :=
  d' = d ∨ ∃ e, Blob.HashesKnown known d e ∧ diskStep hash d e = some d'

theorem DiskGoes.step {d d' : Blob.Sys} {e : DiskEv} (hk : Blob.hashedAt ⟨d, e⟩ = none)
    (he : diskStep hash d e = some d') : DiskGoes known hash d d' := by
  refine .inr ⟨e, fun body hb => ?_, he⟩
  rw [hk] at hb
  cases hb

theorem hashedAt_elsewhere (d : Blob.Sys) {e : DiskEv} (he : e.elsewhere = true) : Blob.hashedAt ⟨d, e⟩ = none := by
  cases e with
  | endBody k => cases he
  | _ => rfl

theorem Fetch.Sound.goes {d d' : Blob.Sys} {fetch : Fetch} (h : fetch.Sound known hash d) (hi : SysInv hash d)
    (hd : DiskGoes known hash d d') : fetch.Sound known hash d' := by
  obtain ⟨hstated, hlen, hsent, body, hb, hsealed⟩ := h
  rcases hd with rfl | ⟨e, -, he⟩
  · exact ⟨hstated, hlen, hsent, body, hb, hsealed⟩
  · obtain ⟨hsealed', hlonger⟩ := (Blob.diskStep_moves he).reads_on hi hsealed
    exact ⟨hstated, hlen, hsent.trans hlonger, body, hb, hsealed'⟩

theorem Task.Sound.goes {d d' : Blob.Sys} {task : Task} (h : task.Sound known hash d) (hi : SysInv hash d)
    (hd : DiskGoes known hash d d') : task.Sound known hash d' := by
  cases task with
  | streaming fetch => exact Fetch.Sound.goes h hi hd
  | cut fetch => exact Fetch.Sound.goes h hi hd
  | _ => exact h

theorem refuseUpload_status (error : UploadError) : (refuseUpload error).status ≠ .created := by
  cases error <;> simp [refuseUpload, empty]

theorem Task.sound_empty (known : Bytes → Prop) (hash : Bytes → String) (disk : Blob.Sys) (target : Option Target) (status : Status) :
    (Task.answered target (empty status)).Sound known hash disk := by
  intro asked bytes _ hmem
  simp [empty] at hmem

/-! ## The invariant -/

structure ServerInv (known : Bytes → Prop) (hash : Bytes → String) (s : Server) : Prop where
  disk : DiskReach hash (Blob.HashesKnown known) s.disk
  numbered : ∀ id task, s.tasks.lookup id = some task → id < s.nextTask
  handled : Handled s.tasks s.disk.bodies
  sound : ∀ id task, s.tasks.lookup id = some task → task.Sound known hash s.disk

variable {s t : Server}

theorem ServerInv.sys (h : ServerInv known hash s) : SysInv hash s.disk := Blob.disk_inv h.disk

theorem ServerInv.brings (h : ServerInv known hash s) {id serial : Nat} {put : Put}
    (hid : s.tasks.lookup id = some (.uploading put serial)) : s.disk.bodies serial = some (put.guard serial, put.body) := by
  refine (h.handled.held _ _).mpr ⟨id, ?_⟩
  rw [hid, holds_uploading, if_pos rfl]

theorem ServerInv.goes (h : ServerInv known hash s) (hd : DiskGoes known hash s.disk t.disk) :
    DiskReach hash (Blob.HashesKnown known) t.disk := by
  rcases hd with heq | ⟨e, hk, he⟩
  · rw [heq]
    exact h.disk
  · exact .step e h.disk hk he

/-- A step moves the disk and changes one task. -/
theorem ServerInv.moved (h : ServerInv known hash s) (id : Nat) (hd : DiskGoes known hash s.disk t.disk)
    (hother : ∀ j, j ≠ id → t.tasks.lookup j = s.tasks.lookup j) (hnext : s.nextTask ≤ t.nextTask)
    (hid : ∀ task, t.tasks.lookup id = some task → id < t.nextTask ∧ task.Sound known hash t.disk)
    (hhandled : Handled t.tasks t.disk.bodies) : ServerInv known hash t := by
  refine ⟨h.goes hd, fun j task hj => ?_, hhandled, fun j task hj => ?_⟩
  · by_cases hji : j = id
    · subst hji
      exact (hid task hj).1
    · rw [hother j hji] at hj
      exact Nat.lt_of_lt_of_le (h.numbered j task hj) hnext
  · by_cases hji : j = id
    · subst hji
      exact (hid task hj).2
    · rw [hother j hji] at hj
      exact (h.sound j task hj).goes h.sys hd

/-- One task is replaced by another. -/
theorem ServerInv.put (h : ServerInv known hash s) {id : Nat} {old new : Task} {disk : Blob.Sys}
    (hold : s.tasks.lookup id = some old) (hd : DiskGoes known hash s.disk disk) (hsound : new.Sound known hash disk)
    (hfresh : ∀ k, (holds (some new) k).isSome = true → (holds (some old) k).isSome = true)
    (hbodies : ∀ k, disk.bodies k =
      if (holds (some new) k).isSome = true ∨ (holds (some old) k).isSome = true then holds (some new) k
      else s.disk.bodies k) : ServerInv known hash ({ s with disk := disk }.put id new) := by
  have hother : ∀ j, j ≠ id → ({ s with disk := disk }.put id new).tasks.lookup j = s.tasks.lookup j :=
    fun j hj => AList.lookup_insert_ne hj
  have hnew : ({ s with disk := disk }.put id new).tasks.lookup id = some new := AList.lookup_insert _
  refine h.moved id hd hother (Nat.le_refl _) (fun task ht => ?_) (h.handled.moved id hother ?_ ?_)
  · cases hnew.symm.trans ht
    exact ⟨h.numbered id old hold, hsound⟩
  · intro k hk
    rw [hnew] at hk
    rw [hold]
    exact .inl (hfresh k hk)
  · intro k
    rw [hnew, hold]
    exact hbodies k

/-- Neither task drives an upload. -/
theorem ServerInv.turned (h : ServerInv known hash s) {id : Nat} {old new : Task} (hold : s.tasks.lookup id = some old)
    (hsound : new.Sound known hash s.disk) (ho : holds (some old) = fun _ => none) (hn : holds (some new) = fun _ => none) :
    ServerInv known hash (s.put id new) := by
  refine h.put hold (.inl rfl) hsound (fun k hk => ?_) fun k => ?_
  · rw [hn] at hk
    cases hk
  · simp [ho, hn]

/-- The task lets go of its upload. -/
theorem ServerInv.lets_go (h : ServerInv known hash s) {id serial : Nat} {put : Put} {new : Task} {disk : Blob.Sys}
    (hold : s.tasks.lookup id = some (.uploading put serial)) (hd : DiskGoes known hash s.disk disk)
    (hsound : new.Sound known hash disk) (hn : holds (some new) = fun _ => none)
    (hbodies : disk.bodies = Function.update s.disk.bodies serial none) :
    ServerInv known hash ({ s with disk := disk }.put id new) := by
  refine h.put hold hd hsound (fun k hk => ?_) fun k => ?_
  · rw [hn] at hk
    cases hk
  · rw [hbodies, Function.update_apply, hn, holds_uploading]
    by_cases hk : k = serial
    · simp [hk]
    · simp [hk]

/-! ### The task of an upload -/

/-- What a step of its upload leaves a task with. -/
inductive Progress (hash : Bytes → String) (d : Blob.Sys) (e : DiskEv) (put : Put) (serial : Nat) (disk : Blob.Sys) :
    Task → Prop
  | waits : disk.bodies = Function.update d.bodies serial (some (put.guard serial, put.body)) →
      Progress hash d e put serial disk (.uploading put serial)
  | refused (response : Response) : disk.bodies = Function.update d.bodies serial none → response.status ≠ .created →
      Progress hash d e put serial disk (.uploaded put response)
  | stored (now : Nat) : disk.bodies = Function.update d.bodies serial none → e = .resume serial now →
      put.body.length = put.declared → hash put.body = put.target.digest →
      payloadLen disk.store.index put.target.room put.target.digest now = some put.declared →
      Progress hash d e put serial disk (.uploaded put (empty .created))

theorem progress_of_advances {d disk : Blob.Sys} {e : DiskEv} {put : Put} {serial : Nat}
    (h : Advances hash d e serial (put.guard serial) put.body disk) :
    Progress hash d e put serial disk (Server.progress disk put serial) := by
  have hended : ∀ o, disk.bodies = Function.update d.bodies serial none → disk.outcomes = d.outcomes ++ [o] →
      Server.progress disk put serial = .uploaded put (uploadResponse o.result) := by
    intro o hb ho
    have hnone : disk.uploads.lookup serial = none := by
      rw [← Blob.Sys.bodies_eq_none, hb, Function.update_self]
    simp [Server.progress, hnone, ho]
  cases h with
  | goesOn hb =>
    have hsome : (disk.uploads.lookup serial).isSome = true := by
      by_contra hnone
      rw [Option.not_isSome_iff_eq_none, ← Blob.Sys.bodies_eq_none, hb, Function.update_self] at hnone
      cases hnone
    rw [Server.progress, if_pos hsome]
    exact .waits hb
  | fails file error hb ho =>
    rw [hended _ hb ho]
    exact .refused _ hb (refuseUpload_status error)
  | settles file now hb ho he hlen hhash hfound =>
    rw [hended _ hb ho]
    exact .stored now hb he hlen hhash hfound

/-- A step of its own upload, as its task sees it. -/
theorem advance_progress (h : ServerInv known hash s) {id : Nat} {e : Nat → DiskEv} {grow : Bytes}
    (ho : ∀ serial, DiskEv.Own serial grow (e serial)) (hs : s.advance hash id e grow = some t) :
    ∃ put serial disk task, s.tasks.lookup id = some (.uploading put serial) ∧ diskStep hash s.disk (e serial) = some disk ∧
      t = { s with disk := disk }.put id task ∧
      Progress hash s.disk (e serial) { put with body := put.body ++ grow } serial disk task := by
  unfold Server.advance at hs
  split at hs
  · rename_i put serial hid
    obtain ⟨disk, hd, rfl⟩ := Option.map_eq_some_iff.mp hs
    obtain ⟨g, body, hb, ha⟩ := Blob.diskStep_own h.sys (ho serial) hd
    cases (h.brings hid).symm.trans hb
    exact ⟨put, serial, disk, _, hid, hd, rfl,
      @progress_of_advances hash s.disk disk (e serial) { put with body := put.body ++ grow } serial ha⟩
  · cases hs

theorem ServerInv.advance (h : ServerInv known hash s) {id : Nat} {e : Nat → DiskEv} {grow : Bytes}
    (ho : ∀ serial, DiskEv.Own serial grow (e serial))
    (hk : ∀ put serial disk, s.tasks.lookup id = some (.uploading put serial) →
      diskStep hash s.disk (e serial) = some disk → Blob.HashesKnown known s.disk (e serial))
    (hs : s.advance hash id e grow = some t) : ServerInv known hash t := by
  obtain ⟨put, serial, disk, task, hid, hd, rfl, hp⟩ := advance_progress h ho hs
  have hgoes : DiskGoes known hash s.disk disk := .inr ⟨_, hk put serial disk hid hd, hd⟩
  cases hp with
  | waits hb =>
    refine h.put hid hgoes trivial (fun k hk => ?_) fun k => ?_
    · rw [holds_uploading] at hk ⊢
      by_cases hks : k = serial
      · simp [hks]
      · simp [hks] at hk
    · rw [hb, Function.update_apply, holds_uploading, holds_uploading]
      by_cases hks : k = serial
      · simp [hks]
      · simp [hks]
  | refused response hb hstatus => exact h.lets_go hid hgoes (fun hcreated => absurd hcreated hstatus) rfl hb
  | stored now hb _ hlen hhash _ => exact h.lets_go hid hgoes (fun _ => ⟨hlen, hhash⟩) rfl hb

theorem waiting_uploading {id serial : Nat} {put : Put} (h : s.waiting id = some (put, serial)) :
    s.tasks.lookup id = some (.uploading put serial) := by
  unfold Server.waiting at h
  split at h
  · rename_i put' serial' hid
    split at h
    · cases h
      exact hid
    · cases h
  · cases h

theorem ServerInv.giveUp (h : ServerInv known hash s) {id : Nat} {status : Status} (hstatus : status ≠ .created)
    (hs : s.giveUp hash id status = some t) : ServerInv known hash t := by
  obtain ⟨⟨put, serial⟩, hw, hs⟩ := Option.bind_eq_some_iff.mp hs
  obtain ⟨disk, hd, rfl⟩ := Option.map_eq_some_iff.mp hs
  have hbodies := (Blob.diskStep_cancel hd).2.1
  exact h.lets_go (waiting_uploading hw) (.step rfl hd) (fun hcreated => absurd hcreated hstatus) rfl hbodies

/-! ### A new request -/

theorem ServerInv.arrives (h : ServerInv known hash s) {disk : Blob.Sys} {task : Task} (hd : DiskGoes known hash s.disk disk)
    (hsound : task.Sound known hash disk) (hfresh : ∀ k, (holds (some task) k).isSome = true → s.disk.bodies k = none)
    (hbodies : ∀ k, disk.bodies k = if (holds (some task) k).isSome = true then holds (some task) k else s.disk.bodies k) :
    ServerInv known hash { disk := disk, tasks := s.tasks.insert s.nextTask task, nextTask := s.nextTask + 1 } := by
  have hnone : s.tasks.lookup s.nextTask = none := by
    cases ht : s.tasks.lookup s.nextTask with
    | none => rfl
    | some old => exact absurd (h.numbered _ _ ht) (Nat.lt_irrefl _)
  have hnew : (s.tasks.insert s.nextTask task).lookup s.nextTask = some task := AList.lookup_insert _
  have hother : ∀ j, j ≠ s.nextTask → (s.tasks.insert s.nextTask task).lookup j = s.tasks.lookup j :=
    fun j hj => AList.lookup_insert_ne hj
  refine h.moved s.nextTask hd hother (Nat.le_succ _) (fun new hn => ?_) (h.handled.moved s.nextTask hother ?_ ?_)
  · cases hnew.symm.trans hn
    exact ⟨Nat.lt_succ_self _, hsound⟩
  · intro k hk
    rw [hnew] at hk
    exact .inr (hfresh k hk)
  · intro k
    show disk.bodies k = _
    have hold : holds (none : Option Task) k = none := rfl
    rw [hnew, hnone, hbodies k, hold]
    simp

/-- One that drives no upload. -/
theorem ServerInv.arrives_aside (h : ServerInv known hash s) {disk : Blob.Sys} {task : Task} (hd : DiskGoes known hash s.disk disk)
    (hsound : task.Sound known hash disk) (hn : holds (some task) = fun _ => none) (hb : disk.bodies = s.disk.bodies) :
    ServerInv known hash { disk := disk, tasks := s.tasks.insert s.nextTask task, nextTask := s.nextTask + 1 } := by
  refine h.arrives hd hsound (fun k hk => ?_) fun k => ?_
  · rw [hn] at hk
    cases hk
  · simp [hn, hb]

theorem stated_of_payloadLen {disk : Blob.Sys} (h : DiskReach hash (Blob.HashesKnown known) disk) {target : Target} {now bytes : Nat}
    (hlen : payloadLen disk.store.index target.room target.digest now = some bytes) : Stated known hash target bytes := by
  obtain ⟨p, hp, -, rfl⟩ := Blob.payloadLen_iff.mp hlen
  exact Blob.stated_length h hp

theorem ServerInv.beginGet (h : ServerInv known hash s) (target : Target) (withBody : Bool) (now : Nat) :
    (s.beginGet target withBody now).Sound known hash s.disk ∧
      holds (some (s.beginGet target withBody now)) = fun _ => none := by
  unfold Server.beginGet
  split
  · exact ⟨Task.sound_empty known hash _ _ _, rfl⟩
  · rename_i bytes hlen
    have hstated := stated_of_payloadLen h.disk hlen
    split
    · exact ⟨hstated, rfl⟩
    · refine ⟨fun asked bytes' hasked hmem => ?_, rfl⟩
      cases hasked
      simp only [payloadHead, List.mem_cons, reduceCtorEq, Header.contentLength.injEq, false_or, List.not_mem_nil,
        or_false] at hmem
      rw [hmem]
      exact hstated

theorem ServerInv.request (h : ServerInv known hash s) {request : Request} {now : Nat} {begun : Blob.Sys × Task}
    (hb : s.begin hash request now = some begun) :
    ServerInv known hash { disk := begun.1, tasks := s.tasks.insert s.nextTask begun.2, nextTask := s.nextTask + 1 } := by
  unfold Server.begin at hb
  split at hb
  · -- answered at once, and never with a length
    rename_i response hr
    cases hb
    exact h.arrives_aside (.inl rfl) (fun asked bytes hasked => by cases hasked) rfl rfl
  · rename_i target hr
    unfold Server.beginPut at hb
    split at hb
    · cases hb
      exact h.arrives_aside (.inl rfl) (Task.sound_empty known hash _ _ _) rfl rfl
    · rename_i declared hdeclared
      obtain ⟨disk, hd, rfl⟩ := Option.map_eq_some_iff.mp hb
      rcases Blob.diskStep_begin h.sys hd with ⟨serial, haccepted, hnone, hbodies⟩ | ⟨hnot, hbodies, -⟩
      · simp only [haccepted]
        refine h.arrives (.step rfl hd) trivial (fun k hk => ?_) fun k => ?_
        · rw [holds_uploading] at hk
          by_cases hks : k = serial
          · rw [hks]
            exact hnone
          · simp [hks] at hk
        · rw [hbodies, Function.update_apply, holds_uploading]
          by_cases hks : k = serial
          · simp [hks, Put.guard]
          · simp [hks]
      · dsimp only
        split
        · exact h.arrives_aside (.step rfl hd) (Task.sound_empty known hash _ _ _) rfl hbodies
        · exact h.arrives_aside (.step rfl hd) (Task.sound_empty known hash _ _ _) rfl hbodies
        · exact h.arrives_aside (.step rfl hd) (Task.sound_empty known hash _ _ _) rfl hbodies
        · rename_i serial haccepted
          exact absurd haccepted (hnot serial)
  · rename_i target withBody hr
    cases hb
    obtain ⟨hsound, hn⟩ := h.beginGet target withBody now
    exact h.arrives_aside (.inl rfl) hsound hn rfl

/-! ### Reading -/

theorem sending_streaming {id : Nat} {fetch : Fetch} (h : s.sending id = some fetch) :
    s.tasks.lookup id = some (.streaming fetch) ∧ fetch.sent.length < fetch.bytes := by
  unfold Server.sending at h
  split at h
  · rename_i fetch' hid
    split at h
    · rename_i hlt
      cases h
      exact ⟨hid, hlt⟩
    · cases h
  · cases h

theorem ServerInv.opened (h : ServerInv known hash s) {target : Target} {bytes : Nat} (hstated : Stated known hash target bytes)
    (fails : Bool) :
    (s.opened target bytes fails).Sound known hash s.disk ∧ holds (some (s.opened target bytes fails)) = fun _ => none := by
  unfold Server.opened
  split
  · exact ⟨Task.sound_empty known hash _ _ _, rfl⟩
  · rename_i file hfile
    split
    · exact ⟨Task.sound_empty known hash _ _ _, rfl⟩
    · obtain ⟨body, hb, hsealed⟩ := Blob.opened_sealed h.disk hfile
      exact ⟨⟨hstated, Nat.zero_le _, List.nil_prefix, body, hb, hsealed⟩, rfl⟩

/-- A piece that starts where the last one ended continues what was sent. -/
theorem prefix_append_piece {sent content : Bytes} (h : sent <+: content) (length most : Nat) :
    sent ++ ((content.drop sent.length).take length).take most <+: content := by
  obtain ⟨rest, rfl⟩ := h
  rw [List.drop_left, List.take_take]
  exact (List.prefix_append_right_inj _).mpr (List.take_prefix _ _)

theorem ServerInv.read (h : ServerInv known hash s) {id : Nat} {fetch : Fetch} (hs : s.sending id = some fetch) (length : Nat) :
    (s.read fetch length).Sound known hash s.disk ∧ holds (some (s.read fetch length)) = fun _ => none := by
  obtain ⟨hid, hlt⟩ := sending_streaming hs
  obtain ⟨hstated, hlen, hsent, hsealed⟩ : fetch.Sound known hash s.disk := h.sound id _ hid
  unfold Server.read
  dsimp only
  split
  · exact ⟨⟨hstated, hlen, hsent, hsealed⟩, rfl⟩
  · refine ⟨⟨hstated, ?_, prefix_append_piece hsent _ _, hsealed⟩, rfl⟩
    show (fetch.sent ++ List.take (fetch.bytes - fetch.sent.length) _).length ≤ fetch.bytes
    rw [List.length_append]
    have := List.length_take_le (fetch.bytes - fetch.sent.length)
      (List.take length (List.drop fetch.sent.length (s.disk.fs.content fetch.file)))
    omega

/-! ### Every step -/

theorem ServerInv.hangUp (h : ServerInv known hash s) {id : Nat} {old : Task} {disk : Blob.Sys}
    (hold : s.tasks.lookup id = some old) (hd : DiskGoes known hash s.disk disk)
    (hbodies : ∀ k, disk.bodies k = if (holds (some old) k).isSome = true then none else s.disk.bodies k) :
    ServerInv known hash { s with disk := disk, tasks := s.tasks.erase id } := by
  have hgone : (s.tasks.erase id).lookup id = none := AList.lookup_erase _ _
  have hother : ∀ j, j ≠ id → (s.tasks.erase id).lookup j = s.tasks.lookup j := fun j hj => AList.lookup_erase_ne hj
  refine h.moved id hd hother (Nat.le_refl _) (fun task ht => ?_) (h.handled.moved id hother ?_ ?_)
  · cases hgone.symm.trans ht
  · intro k hk
    rw [hgone] at hk
    cases hk
  · intro k
    show disk.bodies k = _
    have hnone : holds (none : Option Task) k = none := rfl
    rw [hgone, hold, hbodies k, hnone]
    simp

/-- The body of the request, where it has come whole and is compared with its address. -/
def receivedAt (m : Moment Server Ev) : Option Bytes :=
  match m.event with
  | .endBody id =>
    match m.before.tasks.lookup id with
    | some (.uploading put _) => if put.body.length = put.declared then some put.body else none
    | _ => none
  | _ => none

/-- What the disk hashes when a body ends is what the request brought. -/
theorem ServerInv.hashes (h : ServerInv known hash s) {id serial : Nat} {put : Put} {disk : Blob.Sys}
    (hid : s.tasks.lookup id = some (.uploading put serial)) (hd : diskStep hash s.disk (.endBody serial) = some disk) :
    Blob.hashedAt ⟨s.disk, .endBody serial⟩ = receivedAt ⟨s, .endBody id⟩ := by
  obtain ⟨u, hu, hfinish⟩ := Option.bind_eq_some_iff.mp hd
  obtain ⟨hguard, hgiven⟩ := Prod.mk.inj (Option.some.inj ((Blob.Sys.bodies_of_lookup hu).symm.trans (h.brings hid)))
  have hready : u.phase = .ready := by
    unfold Blob.finish at hfinish
    split at hfinish
    · rename_i hp
      exact hp
    · cases hfinish
  have hhashed : u.hashed = put.body := by
    rw [← hgiven, Blob.Upload.given_of hready]
    exact (List.append_nil _).symm
  simp only [Blob.hashedAt, receivedAt, hid, hu, Option.bind_some, (h.sys.shape serial u hu).written, hhashed, hguard,
    Put.guard]

theorem ServerInv.step (h : ServerInv known hash s) {e : Ev} (hk : ∀ body, receivedAt ⟨s, e⟩ = some body → known body)
    (he : s.step hash e = some t) : ServerInv known hash t := by
  cases e with
  | request request now =>
    obtain ⟨begun, hb, rfl⟩ := Option.map_eq_some_iff.mp he
    exact h.request hb
  | frame id chunk => exact h.advance (fun serial => .chunk chunk) (fun _ _ _ _ _ body hb => by cases hb) he
  | trailers id =>
    obtain ⟨w, -, rfl⟩ := Option.map_eq_some_iff.mp he
    exact h
  | endBody id =>
    refine h.advance (fun serial => .endBody) (fun put serial disk hid hd body hb => ?_) he
    rw [h.hashes hid hd] at hb
    exact hk body hb
  | bodyFails id => exact h.giveUp (by decide) he
  | stall id => exact h.giveUp (by decide) he
  | resume id now => exact h.advance (fun serial => .resume now) (fun _ _ _ _ _ body hb => by cases hb) he
  | openFile id fails =>
    simp only [Server.step] at he
    split at he
    · rename_i target bytes hid
      cases he
      obtain ⟨hsound, hn⟩ := h.opened (h.sound id _ hid) fails
      exact h.turned hid hsound rfl hn
    · cases he
  | pull id length =>
    simp only [Server.step] at he
    split at he
    · obtain ⟨fetch, hs, rfl⟩ := Option.map_eq_some_iff.mp he
      obtain ⟨hsound, hn⟩ := h.read hs length
      exact h.turned (sending_streaming hs).1 hsound rfl hn
    · cases he
  | readFails id =>
    obtain ⟨fetch, hs, rfl⟩ := Option.map_eq_some_iff.mp he
    have hid := (sending_streaming hs).1
    have hsound : (Task.cut fetch).Sound known hash s.disk := h.sound id (.streaming fetch) hid
    exact h.turned hid hsound rfl rfl
  | hangUp id =>
    simp only [Server.step] at he
    split at he
    · rename_i put serial hid
      obtain ⟨disk, hd, rfl⟩ := Option.map_eq_some_iff.mp he
      refine h.hangUp hid (.step rfl hd) fun k => ?_
      rw [(Blob.diskStep_cancel hd).2.1, Function.update_apply, holds_uploading]
      by_cases hks : k = serial
      · simp [hks]
      · simp [hks]
    · rename_i task hnot hid
      cases he
      refine h.hangUp hid (.inl rfl) fun k => ?_
      have hnone : holds (some task) = fun _ => none := by
        cases task with
        | uploading put serial => exact absurd rfl (hnot put serial)
        | _ => rfl
      simp [hnone]
    · cases he
  | disk e =>
    simp only [Server.step] at he
    split at he
    · rename_i helse
      obtain ⟨disk, hd, rfl⟩ := Option.map_eq_some_iff.mp he
      have hgoes : DiskGoes known hash s.disk disk := .step (hashedAt_elsewhere _ helse) hd
      refine ⟨@ServerInv.goes _ _ s { s with disk := disk } h hgoes, h.numbered, ?_, fun j task hj => (h.sound j task hj).goes h.sys hgoes⟩
      show Handled s.tasks disk.bodies
      rw [Blob.diskStep_elsewhere helse hd]
      exact h.handled
    · cases he

theorem server_inv {ok : Server → Ev → Prop} (hok : ∀ s e body, ok s e → receivedAt ⟨s, e⟩ = some body → known body)
    (h : Reach (Server.step hash) {} ok s) : ServerInv known hash s := by
  refine h.inv ⟨.init, ?_, ⟨?_, ?_⟩, ?_⟩ fun s e _ hs ho he => hs.step (fun body => hok s e body ho) he
  · intro id task ht
    cases ht
  · intro k v
    constructor
    · intro hv
      cases hv
    · intro ⟨id, hv⟩
      cases hv
  · intro k id id' hid
    cases hid
  · intro id task ht
    cases ht

/-- A run of the server, with its past. -/
abbrev ServerHistory (hash : Bytes → String) : Server × List (Moment Server Ev) → Prop := History (Server.step hash) {} Always

/-- The bodies that requests of the run have brought whole. -/
def receivedIn (past : List (Moment Server Ev)) : List Bytes := past.filterMap receivedAt

theorem history_inv {past : List (Moment Server Ev)} (h : ServerHistory hash (s, past)) :
    ServerInv (· ∈ receivedIn past) hash s :=
  server_inv (fun s e _ hin hb => List.mem_filterMap.mpr ⟨⟨s, e⟩, hin.2, hb⟩) h.within

/-! ## Allowances -/

/-- In every run: an in-flight entry of the index belongs to one request, which is at that address
    and has not been answered; every upload that is alive is such a request's; and such a request's
    upload has been given exactly what came of its body. -/
theorem allowances_are_held_by_requests (h : ServerReach hash s) :
    (∀ room digest f, flightAt s.disk.store.index room digest = some f →
      ∃ id put, s.tasks.lookup id = some (.uploading put f.serial) ∧ put.target = ⟨room, digest⟩ ∧
        ∀ id' put', s.tasks.lookup id' = some (.uploading put' f.serial) → id' = id) ∧
    (∀ serial u, s.disk.uploads.lookup serial = some u → ∃ id put, s.tasks.lookup id = some (.uploading put serial)) ∧
    ∀ id put serial, s.tasks.lookup id = some (.uploading put serial) →
      ∃ u, s.disk.uploads.lookup serial = some u ∧ u.guard = put.guard serial ∧ u.given = put.body := by
  have hi : ServerInv (fun _ => True) hash s := server_inv (fun _ _ _ _ _ => trivial) h
  -- an upload is held by a task, and a task that holds anything is uploading
  have htask : ∀ serial u, s.disk.uploads.lookup serial = some u →
      ∃ id put, s.tasks.lookup id = some (.uploading put serial) ∧ u.guard = put.guard serial ∧ u.given = put.body := by
    intro serial u hu
    obtain ⟨id, hid⟩ := (hi.handled.held serial _).mp (Blob.Sys.bodies_of_lookup hu)
    obtain ⟨put, hput, hv⟩ := holds_eq_some hid
    obtain ⟨hguard, hgiven⟩ := Prod.mk.inj hv
    exact ⟨id, put, hput, hguard, hgiven⟩
  refine ⟨fun room digest f hf => ?_, fun serial u hu => ?_, fun id put serial hid => ?_⟩
  · obtain ⟨u, hu, hroom, hdigest⟩ := (Blob.owned_inv hi.disk).2 room digest f hf
    obtain ⟨id, put, hid, hguard, -⟩ := htask f.serial u hu
    refine ⟨id, put, hid, ?_, fun id' put' hid' => ?_⟩
    · rw [← hroom, ← hdigest, hguard]
      rfl
    · refine hi.handled.alone f.serial id' id ?_ ?_
      · rw [hid', holds_uploading, if_pos rfl]
        rfl
      · rw [hid, holds_uploading, if_pos rfl]
        rfl
  · obtain ⟨id, put, hid, -⟩ := htask serial u hu
    exact ⟨id, put, hid⟩
  · obtain ⟨u, hu, heq⟩ := Option.map_eq_some_iff.mp (hi.brings hid)
    obtain ⟨hguard, hgiven⟩ := Prod.mk.inj heq
    exact ⟨u, hu, hguard, hgiven⟩

/-- "abc" in the sample room. -/
def sampleTarget : Target := ⟨Blob.sampleRoom, "ungWv48Bz-pBQUDeXa4iI7ADYaOWF3qctBD_YfIAFa0"⟩

def samplePath : Bytes := utf8 "/blob/omp-relayd/attachments/ungWv48Bz-pBQUDeXa4iI7ADYaOWF3qctBD_YfIAFa0"

/-- The body comes in two frames, and the second is in the hands of its upload. -/
def twoFrames : List Ev :=
  [.disk (.reserve Blob.sampleRoom "ungWv48Bz-pBQUDeXa4iI7ADYaOWF3qctBD_YfIAFa0" 3 0),
    .request ⟨.put, samplePath, some (utf8 " 3")⟩ 0, .frame 0 [97], .disk (.perform 0), .resume 0 0, .disk (.perform 0),
    .resume 0 0, .frame 0 [98, 99]]

def halfway : Server := (run (Server.step Blob.sampleHash) {} twoFrames).getD {}

theorem halfway_reached : ServerReach Blob.sampleHash halfway := by
  have hsome : (run (Server.step Blob.sampleHash) {} twoFrames).isSome = true := by decide +kernel
  exact .of_run twoFrames .init (some_getD_of_isSome hsome _)

theorem half_an_upload_is_held :
    ServerReach Blob.sampleHash halfway ∧
      flightAt halfway.disk.store.index sampleTarget.room sampleTarget.digest = some ⟨0, Blob.minChargeBytes⟩ ∧
      halfway.tasks.lookup 0 = some (.uploading ⟨sampleTarget, 3, [97, 98, 99]⟩ 0) ∧
      ∃ u, halfway.disk.uploads.lookup 0 = some u ∧ u.guard = ⟨sampleTarget.room, sampleTarget.digest, 0, 3⟩ ∧
        u.given = [97, 98, 99] := by
  have htask : halfway.tasks.lookup 0 = some (.uploading ⟨sampleTarget, 3, [97, 98, 99]⟩ 0) := by decide +kernel
  exact ⟨halfway_reached, by decide +kernel, htask,
    (allowances_are_held_by_requests halfway_reached).2.2 0 _ 0 htask⟩

/-! ## Answers to a `PUT` -/

/-- The answers that tell the uploader that its payload is there: `201` and `204`. -/
inductive Task.Stored : Task → Target → Prop
  | created (put : Put) : Task.Stored (.uploaded put (empty .created)) put.target
  | held (target : Target) : Task.Stored (.answered (some target) (empty .noContent)) target

/-- When the event asks the clock. -/
def Ev.now : Ev → Option Nat
  | .request _ now => some now
  | .resume _ now => some now
  | _ => none

/-- What the answer is worth: a `HEAD` at that moment is answered with the length of a body that a
    request of the run brought and that hashes to the address, and `201` is for that body. -/
def Listed (known : Bytes → Prop) (hash : Bytes → String) (t : Server) (now : Nat) (task : Task) (target : Target) : Prop :=
  ∃ bytes, t.beginGet target false now = .answered (some target) (payloadHead bytes) ∧ Stated known hash target bytes ∧
    ∀ put response, task = .uploaded put response →
      put.declared = bytes ∧ put.body.length = bytes ∧ hash put.body = target.digest

theorem beginGet_head {now bytes : Nat} {target : Target}
    (h : payloadLen s.disk.store.index target.room target.digest now = some bytes) :
    s.beginGet target false now = .answered (some target) (payloadHead bytes) := by
  simp [Server.beginGet, h]

/-! A fetch is no such answer, however far it gets. -/

theorem beginGet_not_stored (s : Server) (asked : Target) (withBody : Bool) (now : Nat) (target : Target) :
    ¬ (s.beginGet asked withBody now).Stored target := by
  intro hs
  unfold Server.beginGet at hs
  split at hs
  · cases hs
  · split at hs <;> cases hs

theorem opened_not_stored (s : Server) (asked : Target) (bytes : Nat) (fails : Bool) (target : Target) :
    ¬ (s.opened asked bytes fails).Stored target := by
  intro hs
  unfold Server.opened at hs
  split at hs
  · cases hs
  · split at hs <;> cases hs

theorem read_not_stored (s : Server) (fetch : Fetch) (length : Nat) (target : Target) : ¬ (s.read fetch length).Stored target := by
  intro hs
  unfold Server.read at hs
  dsimp only at hs
  split at hs <;> cases hs

/-- Only the task of this request can have become an answer. -/
theorem put_changes {id j : Nat} {task new : Task} (hnew : (s.put id new).tasks.lookup j = some task)
    (hold : s.tasks.lookup j ≠ some task) : task = new := by
  rcases Map.lookup_insert_some hnew with ⟨-, heq⟩ | ⟨-, hsame⟩
  · exact heq
  · exact absurd hsame hold

theorem advance_listed (h : ServerInv known hash s) {id j : Nat} {e : Nat → DiskEv} {grow : Bytes}
    (ho : ∀ serial, DiskEv.Own serial grow (e serial)) (hs : s.advance hash id e grow = some t) {task : Task}
    {target : Target} (hnew : t.tasks.lookup j = some task) (hold : s.tasks.lookup j ≠ some task)
    (hstored : task.Stored target) :
    ∃ serial now, e serial = .resume serial now ∧ Listed known hash t now task target := by
  obtain ⟨put, serial, disk, new, -, hd, rfl, hp⟩ := advance_progress h ho hs
  cases put_changes hnew hold
  cases hp with
  | waits _ => cases hstored
  | refused response _ hstatus =>
    cases hstored
    exact absurd rfl hstatus
  | stored now _ he hlen hhash hfound =>
    cases hstored
    have hknown : Blob.HashesKnown known s.disk (e serial) := by
      rw [he]
      intro body hb
      cases hb
    have hstated := stated_of_payloadLen (.step _ h.disk hknown hd) hfound
    refine ⟨serial, now, he, put.declared, beginGet_head hfound, hstated, fun put' response heq => ?_⟩
    cases heq
    exact ⟨rfl, hlen, hhash⟩

theorem request_listed (h : ServerInv known hash s) {request : Request} {now : Nat} {begun : Blob.Sys × Task}
    (hb : s.begin hash request now = some begun) {target : Target} (hstored : begun.2.Stored target)
    (ht : t.disk = begun.1) : Listed known hash t now begun.2 target := by
  unfold Server.begin at hb
  split at hb
  · cases hb
    cases hstored
  · rename_i asked hr
    unfold Server.beginPut at hb
    split at hb
    · cases hb
      cases hstored
    · rename_i declared hdeclared
      obtain ⟨disk, hd, rfl⟩ := Option.map_eq_some_iff.mp hb
      rcases Blob.diskStep_begin h.sys hd with ⟨serial, haccepted, -, -⟩ | ⟨hnot, -, hstore⟩
      · simp only [haccepted] at hstored
        cases hstored
      · dsimp only at hstored ⊢
        split at hstored
        · cases hstored
        · cases hstored
        · rename_i hheld
          cases hstored
          obtain ⟨bytes, hfound⟩ := Blob.beginUpload_held h.sys.store hheld
          have hdisk : t.disk = disk := ht
          rw [← hstore, ← hdisk] at hfound
          have hstated := stated_of_payloadLen (h.goes (hdisk ▸ .step rfl hd)) hfound
          refine ⟨bytes, beginGet_head hfound, hstated, fun put response heq => ?_⟩
          cases heq
        · cases hstored
  · rename_i asked withBody hr
    cases hb
    exact absurd hstored (beginGet_not_stored s asked withBody now target)

/-- In every run, when a `PUT` is answered with `201` or `204`, a `HEAD` of its address at that moment
    is answered with a length, that of a body which a request of the run brought and which hashes to
    the address; with `201` the body received is of that length, as declared, and hashes to it. -/
theorem a_stored_payload_is_listed {past : List (Moment Server Ev)} (h : ServerHistory hash (s, past)) {e : Ev}
    (he : s.step hash e = some t) {id : Nat} {task : Task} {target : Target} (hnew : t.tasks.lookup id = some task)
    (hold : s.tasks.lookup id ≠ some task) (hstored : task.Stored target) :
    ∃ now, e.now = some now ∧ Listed (· ∈ receivedIn past) hash t now task target := by
  have hi := history_inv h
  -- a task that is answered otherwise
  have hother : ∀ {j : Nat} {disk : Blob.Sys} {new : Task}, t = { s with disk := disk }.put j new →
      (∀ target, ¬ new.Stored target) → False := by
    intro j disk new ht hnot
    subst ht
    cases put_changes hnew hold
    exact hnot target hstored
  cases e with
  | request request now =>
    obtain ⟨begun, hb, rfl⟩ := Option.map_eq_some_iff.mp he
    rcases Map.lookup_insert_some hnew with ⟨-, rfl⟩ | ⟨-, hsame⟩
    · exact ⟨now, rfl, request_listed hi hb hstored rfl⟩
    · exact absurd hsame hold
  | frame j chunk =>
    obtain ⟨serial, now, heq, -⟩ := advance_listed hi (fun serial => .chunk chunk) he hnew hold hstored
    cases heq
  | endBody j =>
    obtain ⟨serial, now, heq, -⟩ := advance_listed hi (fun serial => .endBody) he hnew hold hstored
    cases heq
  | resume j now =>
    obtain ⟨serial, now', heq, hfound⟩ := advance_listed hi (fun serial => .resume now) he hnew hold hstored
    cases heq
    exact ⟨now, rfl, hfound⟩
  | trailers j =>
    obtain ⟨w, -, rfl⟩ := Option.map_eq_some_iff.mp he
    exact absurd hnew hold
  | bodyFails j | stall j =>
    obtain ⟨w, -, he⟩ := Option.bind_eq_some_iff.mp he
    obtain ⟨disk, -, ht⟩ := Option.map_eq_some_iff.mp he
    exact (hother ht.symm (by intro target hs; cases hs)).elim
  | openFile j fails =>
    simp only [Server.step] at he
    split at he
    · exact (hother (Option.some.inj he).symm (opened_not_stored s _ _ fails)).elim
    · cases he
  | pull j length =>
    simp only [Server.step] at he
    split at he
    · obtain ⟨fetch, -, ht⟩ := Option.map_eq_some_iff.mp he
      exact (hother ht.symm (read_not_stored s fetch length)).elim
    · cases he
  | readFails j =>
    obtain ⟨fetch, -, ht⟩ := Option.map_eq_some_iff.mp he
    exact (hother ht.symm (by intro target hs; cases hs)).elim
  | hangUp j =>
    simp only [Server.step] at he
    split at he
    · obtain ⟨disk, -, rfl⟩ := Option.map_eq_some_iff.mp he
      exact absurd (Map.lookup_erase_some hnew).2 hold
    · cases he
      exact absurd (Map.lookup_erase_some hnew).2 hold
    · cases he
  | disk e =>
    simp only [Server.step] at he
    split at he
    · obtain ⟨disk, -, rfl⟩ := Option.map_eq_some_iff.mp he
      exact absurd hnew hold
    · cases he

/-- The first write completes and the second is handed over, the body ends, and the file is renamed. -/
def renamed : List Ev :=
  twoFrames ++ [.disk (.background 0 none), .resume 0 0, .endBody 0, .disk (.perform 0)]

def beforeRun : Server × List (Moment Server Ev) :=
  (run (traced (Server.step Blob.sampleHash)) ({}, []) renamed).getD ({}, [])

def afterAnswer : Server := (beforeRun.1.step Blob.sampleHash (.resume 0 0)).getD {}

theorem beforeRun_reached : ServerHistory Blob.sampleHash beforeRun := by
  have hsome : (run (traced (Server.step Blob.sampleHash)) ({}, []) renamed).isSome = true := by decide +kernel
  exact .of_run renamed .init (some_getD_of_isSome hsome _)

theorem answer_step : beforeRun.1.step Blob.sampleHash (.resume 0 0) = some afterAnswer := by
  have hsome : (beforeRun.1.step Blob.sampleHash (.resume 0 0)).isSome = true := by decide +kernel
  exact some_getD_of_isSome hsome _

theorem an_upload_is_created_and_listed :
    ServerHistory Blob.sampleHash beforeRun ∧ beforeRun.1.step Blob.sampleHash (.resume 0 0) = some afterAnswer ∧
      afterAnswer.tasks.lookup 0 = some (.uploaded ⟨sampleTarget, 3, [97, 98, 99]⟩ (empty .created)) ∧
      receivedIn beforeRun.2 = [[97, 98, 99]] ∧
      ∃ now, (Ev.resume 0 0).now = some now ∧ Listed (· ∈ receivedIn beforeRun.2) Blob.sampleHash afterAnswer now
        (.uploaded ⟨sampleTarget, 3, [97, 98, 99]⟩ (empty .created)) sampleTarget := by
  have htask : afterAnswer.tasks.lookup 0 = some (.uploaded ⟨sampleTarget, 3, [97, 98, 99]⟩ (empty .created)) := by
    decide +kernel
  exact ⟨beforeRun_reached, answer_step, htask, by decide +kernel,
    @a_stored_payload_is_listed _ beforeRun.1 afterAnswer beforeRun.2 beforeRun_reached _ answer_step 0 _ _ htask
      (by decide +kernel) (.created _)⟩

/-! ## Fetches -/

/-- In every run, what a fetch has sent, cut off or not, begins a body that some request brought and
    that hashes to the address asked for. Where no two bodies of the run collide that body is of the
    length in the head, and once the fetch has sent that length it has sent that body. A length that
    is answered to `HEAD` is the length of such a body. -/
theorem a_fetch_is_what_it_asked_for {past : List (Moment Server Ev)} (h : ServerHistory hash (s, past)) :
    (∀ id fetch, s.tasks.lookup id = some (.streaming fetch) ∨ s.tasks.lookup id = some (.cut fetch) →
      ∃ body ∈ receivedIn past, hash body = fetch.target.digest ∧ fetch.sent <+: body ∧
        (CollisionFree hash (receivedIn past) →
          body.length = fetch.bytes ∧ (fetch.sent.length = fetch.bytes → fetch.sent = body))) ∧
    ∀ id target response bytes, s.tasks.lookup id = some (.answered (some target) response) →
      Header.contentLength bytes ∈ response.headers →
      ∃ body ∈ receivedIn past, hash body = target.digest ∧ body.length = bytes := by
  have hi := history_inv h
  refine ⟨fun id fetch hid => ?_, fun id target response bytes hid hmem => ?_⟩
  · have hsound : fetch.Sound (· ∈ receivedIn past) hash s.disk := hid.elim (hi.sound id _) (hi.sound id _)
    obtain ⟨⟨stated, hstated, hbytes⟩, -, hsent, body, hbody, hsealed⟩ := hsound
    have hbegins : fetch.sent <+: body := hsent.trans hsealed.begun
    refine ⟨body, hbody.known, hbody.digest, hbegins, fun hfree => ?_⟩
    have hlen : body.length = fetch.bytes := by
      rw [← hbytes]
      exact hfree body hbody.known stated hstated.known (hbody.digest.trans hstated.digest.symm)
    exact ⟨hlen, fun hall => hbegins.eq_of_length (hall.trans hlen.symm)⟩
  · obtain ⟨body, hbody, hlen⟩ := hi.sound id _ hid target bytes rfl hmem
    exact ⟨body, hbody.known, hbody.digest, hlen⟩

/-- The file is opened and read while the last write is still under way; then the payload expires
    and its file is unlinked; the write is performed, and the reader goes on. -/
def readThrough : List Ev :=
  renamed ++ [.resume 0 0, .request ⟨.get, samplePath, none⟩ 0, .openFile 1 false, .pull 1 4096,
    .disk (.sweep Blob.payloadTimeToLive), .disk (.send 0), .disk .maintain, .disk .maintain, .disk .maintain,
    .disk (.backgroundOrphan 1 none), .pull 1 4096]

def readRun : Server × List (Moment Server Ev) :=
  (run (traced (Server.step Blob.sampleHash)) ({}, []) readThrough).getD ({}, [])

theorem readRun_reached : ServerHistory Blob.sampleHash readRun := by
  have hsome : (run (traced (Server.step Blob.sampleHash)) ({}, []) readThrough).isSome = true := by decide +kernel
  exact .of_run readThrough .init (some_getD_of_isSome hsome _)

theorem an_unlinked_payload_is_read_to_its_end :
    ServerHistory Blob.sampleHash readRun ∧ CollisionFree Blob.sampleHash (receivedIn readRun.2) ∧
      readRun.1.disk.fs.files.lookup (payloadPath sampleTarget.room sampleTarget.digest) = none ∧
      readRun.1.tasks.lookup 1 = some (.streaming ⟨sampleTarget, 3, 1, [97, 98, 99]⟩) ∧
      [97, 98, 99] ∈ receivedIn readRun.2 ∧ Blob.sampleHash [97, 98, 99] = sampleTarget.digest := by
  have htask : readRun.1.tasks.lookup 1 = some (.streaming ⟨sampleTarget, 3, 1, [97, 98, 99]⟩) := by decide +kernel
  have hfree : CollisionFree Blob.sampleHash (receivedIn readRun.2) := by decide +kernel
  obtain ⟨body, hmem, hhash, -, hall⟩ :=
    (@a_fetch_is_what_it_asked_for _ readRun.1 readRun.2 readRun_reached).1 1 _ (.inl htask)
  have hbody := (hall hfree).2 rfl
  subst hbody
  exact ⟨readRun_reached, hfree, by decide +kernel, htask, hmem, hhash⟩

end OmpRelayd.Http
