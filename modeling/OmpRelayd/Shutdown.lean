/-
  OmpRelayd.Shutdown — what a graceful shutdown leaves of the store (server/src/main.rs: `run`;
  server/src/blob.rs: `Maintenance::run`).

  Nothing makes the maintenance wait for the connections. It may have listed the root when a
  connection that is still there is granted a reservation, begins an upload and makes the room's
  directory; the `rmdir` at the end is then refused, which is logged, and `run` returns success
  with the store where it was (`a_late_upload_keeps_the_root`).

  Were the connections gone by the time the removal begins, with the listener closed and no
  operation of a dropped upload still to be performed (`Stilled`), nobody would be left to add a
  name: every upload belongs to a connection (`Attended`), and what is listed stays all that is there
  (`Removing.Covers`).

  Proved (`no_store_is_left_behind`): in every run in which the removal begins so, no reservation
  is granted and no upload accepted once it has, and the root is gone when `run` returns. Until
  it begins, the process takes no step that is not one of the store's own system
  (`disk_of_process`).
-/

import OmpRelayd.Process

namespace OmpRelayd

open Blob

variable {hash : Bytes → String} {p q : Process}

/-! ## Uploads have an owner -/

/-- Every upload is that of a connection. -/
def Attended (p : Process) : Prop :=
  ∀ k u, p.sys.uploads.lookup k = some u → ∃ c, p.conns.lookup c = some (.transfer (some k))

/-- An upload that is there after a step was there before, or was accepted in it. -/
theorem Blob.Moves.upload_of {s t : Sys} {e : DiskEv} {k : Nat} {u : Upload} (h : Moves hash s e t)
    (hu : t.uploads.lookup k = some u) :
    (∃ v, s.uploads.lookup k = some v) ∨
      ∃ room digest declared now, e = .beginUpload room digest declared now ∧
        (s.store.beginUpload room digest declared now).1 = .ok (.upload k) := by
  have hput {j : Nat} {v w : Upload} (hj : s.uploads.lookup j = some v) (hw : (s.uploads.insert j w).lookup k = some u) :
      ∃ v, s.uploads.lookup k = some v := by
    rcases Map.lookup_insert_some hw with ⟨rfl, -⟩ | ⟨-, hold⟩
    · exact ⟨v, hj⟩
    · exact ⟨u, hold⟩
  have herase {j : Nat} (hw : (s.uploads.erase j).lookup k = some u) : ∃ v, s.uploads.lookup k = some v :=
    ⟨u, (Map.lookup_erase_some hw).2⟩
  cases h with
  | accepted room digest declared now serial haccepted =>
    rcases Map.lookup_insert_some hu with ⟨rfl, -⟩ | ⟨-, hold⟩
    · exact .inr ⟨room, digest, declared, now, rfl, haccepted⟩
    · exact .inl ⟨u, hold⟩
  | turn _ j v v' hj | create j _ v _ _ hj | close j v _ hj | created j _ _ v hj | perform j v _ hj
  | notCommitted j _ v _ _ hj | recheckOwned j _ v _ hj | recheck j _ v _ _ hj | background j _ v _ _ hj =>
    exact .inl (hput hj hu)
  | committed j _ v => exact .inl (herase hu)
  | fails _ j v => exact .inl (herase hu)
  | cancel j v => exact .inl (herase hu)
  | _ => exact .inl ⟨u, hu⟩

theorem upload_of_rootedStep {root : Bool} {s t : Sys} {e : DiskEv} {k : Nat} {u : Upload}
    (h : rootedStep hash root s e = some t) (hu : t.uploads.lookup k = some u) :
    (∃ v, s.uploads.lookup k = some v) ∨
      ∃ room digest declared now, e = .beginUpload room digest declared now ∧
        (s.store.beginUpload room digest declared now).1 = .ok (.upload k) := by
  rcases rootedStep_moves h with hmoves | ⟨-, ⟨j, v, -, hj, rfl⟩ | ⟨i, op, -, -, rfl⟩⟩
  · exact hmoves.upload_of hu
  · rcases Map.lookup_insert_some hu with ⟨rfl, -⟩ | ⟨-, hold⟩
    · exact .inl ⟨v, hj⟩
    · exact .inl ⟨u, hold⟩
  · exact .inl ⟨u, hu⟩

namespace Attended

/-- A step of nobody's connection accepts no upload. -/
theorem aside {root : Bool} {sys : Sys} {e : DiskEv} (h : Attended p) (hs : rootedStep hash root p.sys e = some sys)
    (hbegin : ∀ room digest declared now, e ≠ .beginUpload room digest declared now) : Attended { p with sys := sys } := by
  intro k u hu
  rcases upload_of_rootedStep hs hu with ⟨v, hv⟩ | ⟨room, digest, declared, now, heq, -⟩
  · exact h k v hv
  · exact absurd heq (hbegin room digest declared now)

/-- The step of a connection leaves it the upload it had, if that is there, or gives it the new one. -/
theorem turn {sys : Sys} {e : DiskEv} {c : Nat} {role : Role} (h : Attended p) (hc : p.conns.lookup c = some role)
    (htakes : role.takes e = true) (hs : rootedStep hash p.root p.sys e = some sys) :
    Attended { p with sys := sys, conns := p.conns.insert c (role.after p.sys sys e) } := by
  intro k u hu
  rcases upload_of_rootedStep hs hu with ⟨v, hv⟩ | ⟨room, digest, declared, now, rfl, hbegun⟩
  · obtain ⟨d, hd⟩ := h k v hv
    by_cases heq : d = c
    · subst heq
      refine ⟨d, ?_⟩
      cases hc.symm.trans hd
      have hafter : Role.after p.sys sys (.transfer (some k)) e = .transfer (some k) := by
        simp [Role.after, hu]
      rw [AList.lookup_insert, hafter]
    · exact ⟨d, by rw [AList.lookup_insert_ne heq]; exact hd⟩
  · refine ⟨c, ?_⟩
    rw [AList.lookup_insert]
    cases role with
    | transfer upload =>
      cases upload with
      | none => simp only [Role.after, hbegun]
      | some j => cases htakes
    | _ => cases htakes

theorem close {sys : Sys} {c k : Nat} (h : Attended p) (hc : p.conns.lookup c = some (.transfer (some k)))
    (hs : rootedStep hash p.root p.sys (.cancel k) = some sys) :
    Attended { p with sys := sys, conns := p.conns.erase c } := by
  intro j u hu
  have hdropped : sys.uploads = p.sys.uploads.erase k := by
    have hs : diskStep hash p.sys (.cancel k) = some sys := by
      unfold rootedStep at hs
      split at hs
      · exact hs
      · exact hs
    obtain ⟨v, -, hs⟩ := Option.bind_eq_some_iff.1 hs
    split at hs
    · cases hs
      rfl
    · cases hs
  rw [hdropped] at hu
  obtain ⟨hne, hold⟩ := Map.lookup_erase_some hu
  obtain ⟨d, hd⟩ := h j u hold
  have hother : d ≠ c := by
    intro heq
    rw [heq, hc] at hd
    cases hd
    exact hne rfl
  exact ⟨d, by rw [AList.lookup_erase_ne hother]; exact hd⟩

/-- A connection that has no upload. -/
theorem without {c : Nat} {role : Role} (h : Attended p) (hc : p.conns.lookup c = some role)
    (hrole : ∀ k, role ≠ .transfer (some k)) {conns : Map Nat Role}
    (hconns : ∀ d, d ≠ c → conns.lookup d = p.conns.lookup d) : Attended { p with conns := conns } := by
  intro k u hu
  obtain ⟨d, hd⟩ := h k u hu
  refine ⟨d, (hconns d ?_).trans hd⟩
  intro heq
  rw [heq, hc] at hd
  exact hrole k (Option.some.inj hd)

end Attended

/-! ## The removal -/

/-- What it has listed is all that is there. -/
def Removing.Covers (fs : Fs) : Removing → Prop
  | .opening => True
  | .listed rooms => ∀ room ∈ fs.dirs, room ∈ rooms
  | .emptying room names rooms => (∀ other ∈ fs.dirs, other ∈ room :: rooms) ∧ ∀ name ∈ fs.names room, name ∈ names

def Keeping.Covers (fs : Fs) (root : Bool) : Keeping → Prop
  | .removing at_ => at_.Covers fs
  | .ended => root = false
  | _ => True

theorem Keeping.Covers.of_same {fs fs' : Fs} {root : Bool} {keeping : Keeping} (h : keeping.Covers fs root)
    (hdirs : fs'.dirs = fs.dirs) (hfiles : fs'.files = fs.files) : keeping.Covers fs' root := by
  have hnames (room : RoomId) : fs'.names room = fs.names room := by rw [Fs.names, Fs.names, hfiles]
  cases keeping with
  | removing at_ =>
    cases at_ with
    | opening => trivial
    | listed rooms =>
      intro room hroom
      rw [hdirs] at hroom
      exact h room hroom
    | emptying room names rooms =>
      obtain ⟨hleft, hlisted⟩ := h
      refine ⟨?_, ?_⟩
      · intro other hother
        rw [hdirs] at hother
        exact hleft other hother
      · intro name hname
        rw [hnames] at hname
        exact hlisted name hname
  | ended => exact h
  | sweeping => trivial
  | draining => trivial

theorem Blob.Fs.mem_names {fs : Fs} {room : RoomId} {name : Name} :
    name ∈ fs.names room ↔ ∃ n, fs.files.lookup ⟨room, name⟩ = some n := by
  unfold Fs.names
  constructor
  · intro h
    obtain ⟨entry, hentry, rfl⟩ := List.mem_map.1 h
    obtain ⟨hmem, hroom⟩ := List.mem_filter.1 hentry
    obtain ⟨⟨other, name⟩, n⟩ := entry
    cases eq_of_beq hroom
    exact ⟨n, Map.lookup_of_mem_entries hmem⟩
  · intro h
    obtain ⟨n, hn⟩ := h
    exact List.mem_map.2 ⟨_, List.mem_filter.2 ⟨Map.mem_entries_of_lookup hn, beq_self_eq_true room⟩, rfl⟩

/-- With nobody to add a name, each of its steps leaves it with less to remove. -/
theorem Removing.Covers.remove {at_ : Removing} (h : at_.Covers p.sys.fs) :
    (p.remove at_).keeping.Covers (p.remove at_).sys.fs (p.remove at_).root := by
  cases at_ with
  | opening =>
    intro room hroom
    exact hroom
  | listed rooms =>
    cases rooms with
    | nil =>
      have hempty : p.sys.fs.dirs = [] := List.eq_nil_iff_forall_not_mem.2 fun room hroom => by cases h room hroom
      show (!p.sys.fs.dirs.isEmpty) = false
      rw [hempty]
      rfl
    | cons room rooms =>
      by_cases hroom : room ∈ p.sys.fs.dirs
      · have heq : p.remove (.listed (room :: rooms)) =
            { p with keeping := .removing (.emptying room (p.sys.fs.names room) rooms) } := if_pos hroom
        rw [heq]
        exact ⟨h, fun name hname => hname⟩
      · have heq : p.remove (.listed (room :: rooms)) = { p with keeping := .removing (.listed rooms) } := if_neg hroom
        rw [heq]
        intro other hother
        rcases List.mem_cons.1 (h other hother) with rfl | hmem
        · exact absurd hother hroom
        · exact hmem
  | emptying room names rooms =>
    obtain ⟨hdirs, hnames⟩ := h
    cases names with
    | nil =>
      have hempty : (p.sys.fs.names room).isEmpty = true :=
        List.isEmpty_iff.2 (List.eq_nil_iff_forall_not_mem.2 fun name hname => by cases hnames name hname)
      have heq : p.remove (.emptying room [] rooms) =
          { p with sys := { p.sys with fs := p.sys.fs.rmdir room }, keeping := .removing (.listed rooms) } := if_pos hempty
      rw [heq]
      intro other hother
      change other ∈ (p.sys.fs.rmdir room).dirs at hother
      rw [Fs.rmdir, if_pos hempty] at hother
      obtain ⟨hmem, hne⟩ := List.mem_filter.1 hother
      rcases List.mem_cons.1 (hdirs other hmem) with rfl | hrest
      · simp at hne
      · exact hrest
    | cons name names =>
      refine ⟨hdirs, ?_⟩
      intro other hother
      obtain ⟨n, hn⟩ := Fs.mem_names.1 hother
      obtain ⟨hne, hold⟩ := Map.lookup_erase_some hn
      rcases List.mem_cons.1 (hnames other (Fs.mem_names.2 ⟨n, hold⟩)) with rfl | hrest
      · exact absurd rfl hne
      · exact hrest

/-! ## Runs -/

def ProcessEv.removesRoot : ProcessEv → Bool
  | .removeRoot => true
  | _ => false

/-- The removal begins when the listener is closed, no connection's task is left, and no operation
of a dropped upload is still to be performed. -/
def Stilled (p : Process) (e : ProcessEv) : Prop :=
  e.removesRoot = true → p.serving ≠ .accepting ∧ p.conns.entries = [] ∧ p.sys.detached = []

instance (p : Process) (e : ProcessEv) : Decidable (Stilled p e) := inferInstanceAs (Decidable (_ → _))

/-- Nobody is left who could add a name to the store. -/
structure Still (p : Process) : Prop where
  serving : p.serving ≠ .accepting
  conns : ∀ c, p.conns.lookup c = none
  uploads : ∀ k, p.sys.uploads.lookup k = none
  detached : p.sys.detached = []

theorem lookup_of_entries_nil {κ ν : Type} [DecidableEq κ] {m : Map κ ν} (h : m.entries = []) (k : κ) : m.lookup k = none := by
  cases hk : m.lookup k with
  | none => rfl
  | some v =>
    have hmem := Map.mem_entries_of_lookup hk
    rw [h] at hmem
    cases hmem

structure ProcessInv (p : Process) : Prop where
  fresh : ∀ c role, p.conns.lookup c = some role → c < p.accepted
  attended : Attended p
  still : p.keeping.begun = true → Still p
  covers : p.keeping.Covers p.sys.fs p.root
  returned : p.running = .returned → p.keeping = .ended

/-- Where nobody is left, the threads only finish what is written to files that have lost their handle. -/
theorem Still.thread {sys : Sys} {e : DiskEv} (h : Still p) (hthread : e.ofThread = true)
    (hs : rootedStep hash p.root p.sys e = some sys) :
    sys.uploads = p.sys.uploads ∧ sys.detached = p.sys.detached ∧ sys.fs.dirs = p.sys.fs.dirs ∧ sys.fs.files = p.sys.fs.files := by
  rcases rootedStep_moves hs with hmoves | ⟨-, ⟨k, u, -, hu, -⟩ | ⟨i, op, -, hop, -⟩⟩
  · have hnone {k : Nat} {u : Upload} (hu : p.sys.uploads.lookup k = some u) : False := by
      rw [h.uploads k] at hu
      cases hu
    cases hmoves with
    | send => exact ⟨rfl, rfl, rfl, rfl⟩
    | backgroundOrphan => exact ⟨rfl, rfl, rfl, rfl⟩
    | perform k u op hu => exact (hnone hu).elim
    | background k n u buffer short hu => exact (hnone hu).elim
    | turn e k u u' hu => exact (hnone hu).elim
    | fails e k u error hu => exact (hnone hu).elim
    | performDetached i op hop =>
      rw [h.detached] at hop
      cases hop
    | _ => cases hthread
  · rw [h.uploads k] at hu
    cases hu
  · rw [h.detached] at hop
    cases hop

/-- Of the process the removal changes the directory, the root and how far it has come. -/
theorem remove_frame (p : Process) (at_ : Removing) :
    ∃ fs root keeping, p.remove at_ = { p with sys := { p.sys with fs := fs }, root := root, keeping := keeping } ∧
      keeping.begun = true := by
  cases at_ with
  | opening => exact ⟨_, _, _, rfl, rfl⟩
  | listed rooms =>
    cases rooms with
    | nil => exact ⟨_, _, _, rfl, rfl⟩
    | cons room rooms =>
      by_cases hroom : room ∈ p.sys.fs.dirs
      · exact ⟨_, _, _, if_pos hroom, rfl⟩
      · exact ⟨_, _, _, if_neg hroom, rfl⟩
  | emptying room names rooms =>
    cases names with
    | nil =>
      by_cases hempty : (p.sys.fs.names room).isEmpty = true
      · exact ⟨_, _, _, if_pos hempty, rfl⟩
      · exact ⟨_, _, _, if_neg hempty, rfl⟩
    | cons name names => exact ⟨_, _, _, rfl, rfl⟩

namespace ProcessInv

theorem not_returned (h : ProcessInv p) (hbegun : p.keeping.begun = false) : p.running ≠ .returned := by
  intro hreturned
  rw [h.returned hreturned] at hbegun
  cases hbegun

/-- A connection is there only before the removal. -/
theorem not_begun {c : Nat} {role : Role} (h : ProcessInv p) (hc : p.conns.lookup c = some role) : p.keeping.begun = false := by
  by_contra hbegun
  rw [(h.still (Bool.eq_true_of_not_eq_false hbegun)).conns c] at hc
  cases hc

/-- What changes neither the store nor who uses it. -/
theorem aside {running : Running} {serving : Serving} (h : ProcessInv p) (hserving : p.serving ≠ .accepting → serving ≠ .accepting)
    (hreturned : running = .returned → p.keeping = .ended) : ProcessInv { p with running := running, serving := serving } := by
  refine ⟨h.fresh, h.attended, ?_, h.covers, hreturned⟩
  intro hbegun
  have still := h.still hbegun
  exact ⟨hserving still.serving, still.conns, still.uploads, still.detached⟩

/-- While the removal has not begun, all that matters is who has which upload. -/
theorem before (hbegun : q.keeping.begun = false) (hrunning : q.running ≠ .returned)
    (hfresh : ∀ c role, q.conns.lookup c = some role → c < q.accepted) (hattended : Attended q) : ProcessInv q := by
  refine ⟨hfresh, hattended, ?_, ?_, fun hreturned => absurd hreturned hrunning⟩
  · intro hyes
    rw [hbegun] at hyes
    cases hyes
  · cases hkeeping : q.keeping with
    | sweeping => trivial
    | draining => trivial
    | removing at_ => rw [hkeeping] at hbegun; cases hbegun
    | ended => rw [hkeeping] at hbegun; cases hbegun

theorem fresh_insert {c : Nat} {role role' : Role} (h : ProcessInv p) (hc : p.conns.lookup c = some role) :
    ∀ d found, (p.conns.insert c role').lookup d = some found → d < p.accepted := by
  intro d found hd
  rcases Map.lookup_insert_some hd with ⟨rfl, -⟩ | ⟨-, hold⟩
  · exact h.fresh d role hc
  · exact h.fresh d found hold

theorem fresh_erase (h : ProcessInv p) (c : Nat) : ∀ d role, (p.conns.erase c).lookup d = some role → d < p.accepted := by
  intro d role hd
  exact h.fresh d role (Map.lookup_erase_some hd).2

theorem accept (h : ProcessInv p) (haccepting : p.serving = .accepting) :
    ProcessInv { p with conns := p.conns.insert p.accepted .dispatch, accepted := p.accepted + 1 } := by
  have hbegun : p.keeping.begun = false := by
    by_contra hbegun
    exact (h.still (Bool.eq_true_of_not_eq_false hbegun)).serving haccepting
  refine before hbegun (h.not_returned hbegun) ?_ ?_
  · intro d role hd
    rcases Map.lookup_insert_some hd with ⟨rfl, -⟩ | ⟨-, hold⟩
    · exact Nat.lt_succ_self _
    · exact Nat.lt_succ_of_lt (h.fresh d role hold)
  · intro k u hu
    obtain ⟨d, hd⟩ := h.attended k u hu
    refine ⟨d, ?_⟩
    rw [AList.lookup_insert_ne (Nat.ne_of_lt (h.fresh d _ hd))]
    exact hd

theorem thread {sys : Sys} {e : DiskEv} (h : ProcessInv p) (hthread : e.ofThread = true)
    (hs : rootedStep hash p.root p.sys e = some sys) : ProcessInv { p with sys := sys } := by
  have hattended : Attended { p with sys := sys } := by
    refine h.attended.aside hs ?_
    intro room digest declared now heq
    rw [heq] at hthread
    cases hthread
  cases hbegun : p.keeping.begun with
  | false => exact before hbegun (h.not_returned hbegun) h.fresh hattended
  | true =>
    have still := h.still hbegun
    obtain ⟨huploads, hdetached, hdirs, hfiles⟩ := still.thread hthread hs
    refine ⟨h.fresh, hattended, ?_, ?_, h.returned⟩
    · intro _
      exact ⟨still.serving, still.conns, fun k => by rw [huploads]; exact still.uploads k, hdetached.trans still.detached⟩
    · exact h.covers.of_same hdirs hfiles

/-- A step of the maintenance's loop. -/
theorem loop {sys : Sys} {e : DiskEv} (h : ProcessInv p) (hbegun : p.keeping.begun = false) (hs : diskStep hash p.sys e = some sys)
    (hbegin : ∀ room digest declared now, e ≠ .beginUpload room digest declared now) : ProcessInv { p with sys := sys } := by
  have hstore : rootedStep hash true p.sys e = some sys := hs
  exact before hbegun (h.not_returned hbegun) h.fresh (h.attended.aside hstore hbegin)

theorem removeRoot (h : ProcessInv p) (hkeeping : p.keeping = .draining)
    (hstilled : p.serving ≠ .accepting ∧ p.conns.entries = [] ∧ p.sys.detached = []) :
    ProcessInv { p with keeping := .removing .opening } := by
  obtain ⟨hserving, hconns, hdetached⟩ := hstilled
  refine ⟨h.fresh, h.attended, ?_, trivial, ?_⟩
  · intro _
    refine ⟨hserving, lookup_of_entries_nil hconns, ?_, hdetached⟩
    intro k
    by_contra hsome
    obtain ⟨u, hu⟩ := Option.ne_none_iff_exists'.1 hsome
    obtain ⟨c, hc⟩ := h.attended k u hu
    rw [lookup_of_entries_nil hconns] at hc
    cases hc
  · intro hreturned
    rw [h.returned hreturned] at hkeeping
    cases hkeeping

theorem remove {at_ : Removing} (h : ProcessInv p) (hkeeping : p.keeping = .removing at_) : ProcessInv (p.remove at_) := by
  have hbegun : p.keeping.begun = true := by rw [hkeeping]; rfl
  have still := h.still hbegun
  have hcovers : at_.Covers p.sys.fs := by
    have := h.covers
    rw [hkeeping] at this
    exact this
  have hnext := hcovers.remove
  obtain ⟨fs, root, keeping, heq, -⟩ := remove_frame p at_
  rw [heq] at hnext ⊢
  refine ⟨h.fresh, h.attended, fun _ => ⟨still.serving, still.conns, still.uploads, still.detached⟩, hnext, ?_⟩
  intro hreturned
  rw [h.returned hreturned] at hkeeping
  cases hkeeping

theorem step {e : ProcessEv} (h : ProcessInv p) (hok : Stilled p e) (hs : p.Advances hash e q) : ProcessInv q := by
  cases hs with
  | terminate => exact h.aside id (by intro hreturned; cases hreturned)
  | joinServe => exact h.aside id (by intro hreturned; cases hreturned)
  | joinMaintenance _ hended => exact h.aside id fun _ => hended
  | accept haccepting => exact h.accept haccepting
  | speak c frames hc =>
    have hbegun := h.not_begun hc
    refine before hbegun (h.not_returned hbegun) (h.fresh_insert hc) ?_
    exact h.attended.without hc (by intro k heq; cases heq) fun d hd => AList.lookup_insert_ne hd
  | turn c e role sys hc htakes hsys =>
    have hbegun := h.not_begun hc
    exact before hbegun (h.not_returned hbegun) (h.fresh_insert hc) (h.attended.turn hc htakes hsys)
  | drop c k sys hc hsys =>
    have hbegun := h.not_begun hc
    exact before hbegun (h.not_returned hbegun) (h.fresh_erase c) (h.attended.close hc hsys)
  | close c role hc hrole =>
    have hbegun := h.not_begun hc
    refine before hbegun (h.not_returned hbegun) (h.fresh_erase c) ?_
    exact h.attended.without hc hrole fun d hd => AList.lookup_erase_ne hd
  | stopAccepting => exact h.aside (fun _ heq => by cases heq) h.returned
  | serveEnds => exact h.aside (fun _ heq => by cases heq) h.returned
  | thread e sys hthread hsys => exact h.thread hthread hsys
  | stopSweeping hkeeping =>
    have hbegun : p.keeping.begun = false := by rw [hkeeping]; rfl
    exact before rfl (h.not_returned hbegun) h.fresh h.attended
  | loop _ d sys _ hbegun hsys hbegin => exact h.loop hbegun hsys hbegin
  | removeRoot hkeeping => exact h.removeRoot hkeeping (hok rfl)
  | remove at_ hkeeping => exact h.remove hkeeping

theorem of_reach (h : Reach (processStep hash) {} Stilled p) : ProcessInv p := by
  have hinit : ProcessInv {} := before rfl (by intro hreturned; cases hreturned) (by intro c role hc; cases hc)
    (by intro k u hu; cases hu)
  exact h.inv hinit fun p e q hp hok hs => hp.step hok (processStep_advances hs)

end ProcessInv

/-- What is admitted is admitted to a connection. -/
theorem conn_of_admits {e : ProcessEv} (h : p.admits e = true) (hs : p.Advances hash e q) :
    ∃ c role, p.conns.lookup c = some role := by
  cases hs with
  | turn c e role sys hc => exact ⟨c, role, hc⟩
  | loop e d sys hturn =>
    cases e with
    | turn c d => exact absurd rfl (hturn c d)
    | _ => cases h
  | _ => cases h

/-! ## The store's own runs -/

/-- Until the removal begins, the root is there and the store in a state of its own system. -/
theorem disk_of_process (h : Reach (processStep hash) {} Always p) (hbegun : p.keeping.begun = false) :
    p.root = true ∧ DiskReach hash Always p.sys := by
  refine Reach.inv (P := fun p => p.keeping.begun = false → p.root = true ∧ DiskReach hash Always p.sys) ?_ ?_ h hbegun
  · intro _
    exact ⟨rfl, .init⟩
  · intro p e q ih _ hs hbegun
    have hstore {e : DiskEv} {sys : Sys} (hold : p.keeping.begun = false) (hsys : rootedStep hash p.root p.sys e = some sys) :
        p.root = true ∧ DiskReach hash Always sys := by
      obtain ⟨hroot, hreach⟩ := ih hold
      unfold rootedStep at hsys
      rw [if_pos hroot] at hsys
      exact ⟨hroot, .step e hreach trivial hsys⟩
    cases processStep_advances hs with
    | turn c e role sys _ _ hsys => exact hstore hbegun hsys
    | drop c k sys _ hsys => exact hstore hbegun hsys
    | thread e sys _ hsys => exact hstore hbegun hsys
    | loop _ d sys _ _ hsys => exact ⟨(ih hbegun).1, .step d (ih hbegun).2 trivial hsys⟩
    | stopSweeping hkeeping => exact ih (by rw [hkeeping]; rfl)
    | removeRoot => cases hbegun
    | remove at_ hkeeping =>
      obtain ⟨fs, root, keeping, heq, hyes⟩ := remove_frame p at_
      rw [heq] at hbegun
      exact absurd (hyes.symm.trans hbegun) (by decide)
    | _ => exact ih hbegun

/-! ## Main theorem -/

theorem no_store_is_left_behind (hash : Bytes → String) (p : Process) (h : Reach (processStep hash) {} Stilled p) :
    (p.keeping.begun = true → ∀ e q, processStep hash p e = some q → p.admits e = false) ∧
      (p.running = .returned → p.root = false) := by
  have hinv := ProcessInv.of_reach h
  refine ⟨?_, ?_⟩
  · intro hbegun e q hs
    by_contra hadmits
    obtain ⟨c, role, hc⟩ := conn_of_admits (Bool.eq_true_of_not_eq_false hadmits) (processStep_advances hs)
    rw [(hinv.still hbegun).conns c] at hc
    cases hc
  · intro hreturned
    have hcovers := hinv.covers
    rw [hinv.returned hreturned] at hcovers
    exact hcovers

def lateRoom : RoomId := ⟨"relay", "build"⟩

/-- A frame connection and one for transfers. -/
def twoConnections : List ProcessEv := [.accept, .speak 0 true, .accept, .speak 1 false]

/-- The reservation and the upload of one byte, up to the room's directory. -/
def reserveOne : ProcessEv := .turn 0 (.reserve lateRoom "d" 1 0)

def uploadOne : ProcessEv := .turn 1 (.beginUpload lateRoom "d" 1 0)

def makeDirectory : List ProcessEv := [.turn 1 (.chunk 0 [7]), .thread (.perform 0)]

/-- An upload is under way at the signal; its connection is dropped before the removal begins. -/
def stilledShutdown : List ProcessEv :=
  twoConnections ++ [reserveOne, uploadOne] ++ makeDirectory ++
    [.terminate, .stopAccepting, .stopSweeping, .close 0, .close 1, .serveEnds, .join, .removeRoot, .remove, .remove, .remove,
      .remove, .join]

theorem a_stilled_shutdown_leaves_no_root :
    ∃ p, runIf (processStep fun _ => "d") (fun p e => decide (Stilled p e)) {} stilledShutdown = some p ∧
      p.running = .returned ∧ p.root = false := by
  have hreturned : (runIf (processStep fun _ => "d") (fun p e => decide (Stilled p e)) {} stilledShutdown).map (·.running) =
      some .returned := by
    decide +kernel
  obtain ⟨p, hp, hrunning⟩ := Option.map_eq_some_iff.1 hreturned
  have hreach : Reach (processStep fun _ => "d") {} Stilled p :=
    Reach.of_runIf _ (fun _ _ hok => of_decide_eq_true hok) stilledShutdown .init hp
  exact ⟨p, hp, hrunning, (no_store_is_left_behind _ p hreach).2 hrunning⟩

/-- The maintenance is the first to find the flag set, and lists the root. -/
def removalBegun : List ProcessEv := twoConnections ++ [.terminate, .stopSweeping, .removeRoot, .remove]

/-- The reservation is granted and the upload accepted after that, the `rmdir` is refused, and `run` returns. -/
theorem a_late_upload_keeps_the_root :
    (run (processStep fun _ => "d") {} removalBegun).map (fun p => (p.keeping.begun, p.admits reserveOne)) = some (true, true) ∧
    (run (processStep fun _ => "d") {} (removalBegun ++ [reserveOne])).map (fun p => (p.keeping.begun, p.admits uploadOne)) =
      some (true, true) ∧
    (run (processStep fun _ => "d") {} (removalBegun ++ [reserveOne, uploadOne] ++ makeDirectory ++
      [.remove, .stopAccepting, .close 0, .close 1, .serveEnds, .join, .join])).map (fun p => (p.running, p.root)) =
        some (.returned, true) := by
  decide +kernel

end OmpRelayd
