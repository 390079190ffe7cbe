/-
  OmpRelayd.Process — the relay's process around its store, to its end (server/src/main.rs:
  `run`; server/src/relay.rs: `serve`, `dispatch`; server/src/http.rs: `serve_connection`;
  server/src/blob.rs: `Maintenance::run`).

  `run` spawns two tasks, the accept loop and the store's maintenance, and waits for the signal.
  Then it sets the one flag both look at, and awaits first the one task and then the other. It
  orders these awaits and nothing else: the accept loop stops when it finds the flag set, a frame
  connection when it does, and the maintenance when it does, each at its own time; a connection
  that transfers payloads does not look.

  The accept loop ends when its connections have, or when the grace has elapsed. Those that are
  left are aborted then: each is dropped at an await at some later moment, and until it is, a poll
  of it may be under way. So a connection may go on, here, for as long as it is there.

  The maintenance, once it has seen the flag, performs the removals that are queued and then
  removes the root: it lists the directory, removes each listed entry in turn, a room's directory
  in the same way, and ends with an `rmdir`, which a directory that is not empty refuses. Whatever
  comes of that, the task returns. A directory cannot be made in a root that is gone.

  The store itself and the threads that perform its filesystem operations are those of
  `Blob.Disk`, every event of which is now somebody's.
-/

import OmpRelayd.Blob.Moves

namespace OmpRelayd

open Blob

/-! ## The store in its root -/

/-- Without a root there is nothing to make a directory in. -/
def Blob.Fs.performIn (root : Bool) (fs : Fs) : Op → Fs × Reply
  | .mkdir room => if root then fs.perform (.mkdir room) else (fs, .notFound)
  | op => fs.perform op

/-- `diskStep`, of a store whose root may be gone. -/
def rootedStep (hash : Bytes → String) (root : Bool) (s : Sys) (e : DiskEv) : Option Sys :=
  if root then diskStep hash s e
  else match e with
    | .perform k => (s.uploads.lookup k).bind fun u => u.op.map fun op =>
      let done := s.fs.performIn root op
      { s with fs := done.1 }.put k { u with phase := u.phase.answer done.2 }
    | .performDetached i => (s.detached[i]?).map fun op =>
      { s with fs := (s.fs.performIn root op).1, detached := s.detached.eraseIdx i }
    | e => diskStep hash s e

/-! ## Tasks -/

/-- What a connection's task is: `dispatch`, before the first byte, or one of the two protocols.
    Requests on one connection come one after the other, so it has one upload at most. -/
inductive Role where
  | dispatch
  | frames
  | transfer (upload : Option Nat)
  deriving DecidableEq, Repr

namespace Role

/-- The events of the store that are a step of such a task. -/
def takes : Role → DiskEv → Bool
  | .frames, .reserve _ _ _ _ => true
  | .frames, .forgetRoom _ => true
  | .transfer none, .beginUpload _ _ _ _ => true
  | .transfer (some k), .chunk j _ => j = k
  | .transfer (some k), .endBody j => j = k
  | .transfer (some k), .resume j _ => j = k
  | .transfer (some k), .cancel j => j = k
  | _, _ => false

/-- The upload of the task after such a step. -/
def after (before after : Sys) : Role → DiskEv → Role
  | .transfer none, .beginUpload room digest declared now =>
    match (before.store.beginUpload room digest declared now).1 with
    | .ok (.upload serial) => .transfer (some serial)
    | _ => .transfer none
  | .transfer (some k), _ => .transfer (if (after.uploads.lookup k).isSome then some k else none)
  | role, _ => role

end Role

/-- A step of a blocking thread, or a removal that reaches the channel. -/
def Blob.DiskEv.ofThread : DiskEv → Bool
  | .send _ => true
  | .perform _ => true
  | .background _ _ => true
  | .performDetached _ => true
  | .backgroundOrphan _ _ => true
  | _ => false

inductive Serving where
  | accepting
  /-- The listener is closed, and the connections are awaited. -/
  | draining
  | ended
  deriving DecidableEq, Repr

/-- How far `remove_dir_all` has come with the root. -/
inductive Removing where
  | opening
  /-- The directories it has listed and has still to remove. -/
  | listed (rooms : List RoomId)
  /-- One of them, with the names it has listed in it. -/
  | emptying (room : RoomId) (names : List Name) (rooms : List RoomId)
  deriving DecidableEq, Repr

/-- `Maintenance::run`. -/
inductive Keeping where
  | sweeping
  /-- What is already queued. -/
  | draining
  | removing (at_ : Removing)
  | ended
  deriving DecidableEq, Repr

/-- The root's removal has begun. -/
def Keeping.begun : Keeping → Bool
  | .removing _ => true
  | .ended => true
  | _ => false

/-- Where `run` waits. -/
inductive Running where
  | forSignal
  | forServe
  | forMaintenance
  /-- `ExitCode::SUCCESS` -/
  | returned
  deriving DecidableEq, Repr

structure Process where
  sys : Sys := {}
  root : Bool := true
  /-- The connections whose tasks are there, in the order they were accepted. -/
  conns : Map Nat Role := ∅
  accepted : Nat := 0
  serving : Serving := .accepting
  keeping : Keeping := .sweeping
  running : Running := .forSignal

namespace Process

variable (p : Process)

/-- What `shutdown` holds. -/
def flag : Bool := p.running ≠ .forSignal

/-- `remove_dir_all` takes its next step; an error ends it. -/
def remove : Removing → Process
  | .opening => { p with keeping := .removing (.listed p.sys.fs.dirs) }
  | .listed [] => { p with root := !p.sys.fs.dirs.isEmpty, keeping := .ended }
  | .listed (room :: rooms) =>
    if room ∈ p.sys.fs.dirs then { p with keeping := .removing (.emptying room (p.sys.fs.names room) rooms) }
    else { p with keeping := .removing (.listed rooms) }
  | .emptying room (name :: names) rooms => { p with
      sys := { p.sys with fs := p.sys.fs.unlink ⟨room, name⟩ }
      keeping := .removing (.emptying room names rooms) }
  | .emptying room [] rooms =>
    if (p.sys.fs.names room).isEmpty then { p with
      sys := { p.sys with fs := p.sys.fs.rmdir room }
      keeping := .removing (.listed rooms) }
    else { p with keeping := .ended }

end Process

/-! ## Steps -/

inductive ProcessEv where
  /-- The termination signal, on which `run` sets the flag. -/
  | terminate
  /-- `run` is done with an await. -/
  | join
  | accept
  /-- The first byte of a connection names its protocol. -/
  | speak (c : Nat) (frames : Bool)
  | turn (c : Nat) (e : DiskEv)
  /-- The connection's task ends or is dropped, and what it holds with it. -/
  | close (c : Nat)
  | stopAccepting
  /-- Every connection has ended, or the grace has elapsed. -/
  | serveEnds
  | thread (e : DiskEv)
  /-- The maintenance finds the flag set. -/
  | stopSweeping
  | sweep (now : Nat)
  | maintain
  | straggler (name : Name)
  /-- Nothing is queued any more, and `remove_dir_all` is called. -/
  | removeRoot
  | remove
  deriving Repr

def processStep (hash : Bytes → String) (p : Process) : ProcessEv → Option Process
  | .terminate => if p.running = .forSignal then some { p with running := .forServe } else none
  | .join =>
    match p.running with
    | .forServe => if p.serving = .ended then some { p with running := .forMaintenance } else none
    | .forMaintenance => if p.keeping = .ended then some { p with running := .returned } else none
    | _ => none
  | .accept =>
    if p.serving = .accepting then some { p with conns := p.conns.insert p.accepted .dispatch, accepted := p.accepted + 1 }
    else none
  | .speak c frames =>
    if p.conns.lookup c = some .dispatch then
      some { p with conns := p.conns.insert c (if frames then .frames else .transfer none) }
    else none
  | .turn c e =>
    match p.conns.lookup c with
    | some role =>
      if role.takes e then (rootedStep hash p.root p.sys e).map fun sys =>
        { p with sys := sys, conns := p.conns.insert c (role.after p.sys sys e) }
      else none
    | none => none
  | .close c =>
    match p.conns.lookup c with
    | some (.transfer (some k)) => (rootedStep hash p.root p.sys (.cancel k)).map fun sys =>
      { p with sys := sys, conns := p.conns.erase c }
    | some _ => some { p with conns := p.conns.erase c }
    | none => none
  | .stopAccepting => if p.serving = .accepting ∧ p.flag then some { p with serving := .draining } else none
  | .serveEnds => if p.serving = .draining then some { p with serving := .ended } else none
  | .thread e =>
    if e.ofThread then (rootedStep hash p.root p.sys e).map fun sys => { p with sys := sys } else none
  -- the arms of the maintenance's `select!`; while it removes something it waits for nothing else
  | .stopSweeping =>
    if p.keeping = .sweeping ∧ p.sys.maint = .idle ∧ p.flag then some { p with keeping := .draining } else none
  | .sweep now =>
    if p.keeping = .sweeping ∧ p.sys.maint = .idle then
      (diskStep hash p.sys (.sweep now)).map fun sys => { p with sys := sys }
    else none
  | .maintain =>
    if p.keeping.begun then none else (diskStep hash p.sys .maintain).map fun sys => { p with sys := sys }
  | .straggler name =>
    if p.keeping.begun then none else (diskStep hash p.sys (.straggler name)).map fun sys => { p with sys := sys }
  | .removeRoot =>
    if p.keeping = .draining ∧ p.sys.maint = .idle ∧ p.sys.queue = [] then some { p with keeping := .removing .opening }
    else none
  | .remove =>
    match p.keeping with
    | .removing at_ => some (p.remove at_)
    | _ => none

/-- A reservation is granted or an upload accepted. -/
def Process.admits (p : Process) : ProcessEv → Bool
  | .turn _ (.reserve room digest bytes now) => (p.sys.store.reserve room digest bytes now).1.isOk
  | .turn _ (.beginUpload room digest declared now) => (p.sys.store.beginUpload room digest declared now).1.isOk
  | _ => false

/-! ## What a step is -/

/-- A step of the store is one of `diskStep`, unless it makes a directory where the root is gone. -/
theorem rootedStep_moves {hash : Bytes → String} {root : Bool} {s t : Sys} {e : DiskEv}
    (h : rootedStep hash root s e = some t) :
    Moves hash s e t ∨
      root = false ∧
        ((∃ k u, e = .perform k ∧ s.uploads.lookup k = some u ∧ t = s.put k { u with phase := u.phase.answer .notFound }) ∨
          ∃ i op, e = .performDetached i ∧ s.detached[i]? = some op ∧ t = { s with detached := s.detached.eraseIdx i }) := by
  unfold rootedStep at h
  split at h
  · exact .inl (diskStep_moves h)
  · rename_i hroot
    have hgone : root = false := Bool.eq_false_iff.2 hroot
    split at h
    · rename_i k
      obtain ⟨u, hu, h⟩ := Option.bind_eq_some_iff.1 h
      obtain ⟨op, hop, rfl⟩ := Option.map_eq_some_iff.1 h
      cases op with
      | mkdir room =>
        refine .inr ⟨hgone, .inl ⟨k, u, rfl, hu, ?_⟩⟩
        rw [hgone]
        rfl
      | _ => exact .inl (.perform k u _ hu hop)
    · rename_i i
      obtain ⟨op, hop, rfl⟩ := Option.map_eq_some_iff.1 h
      cases op with
      | mkdir room =>
        refine .inr ⟨hgone, .inr ⟨i, _, rfl, hop, ?_⟩⟩
        rw [hgone]
        rfl
      | _ => exact .inl (.performDetached i _ hop)
    · exact .inl (diskStep_moves h)

/-- What each event does, where it can happen. -/
inductive Process.Advances (hash : Bytes → String) (p : Process) : ProcessEv → Process → Prop
  | terminate : p.running = .forSignal → Advances hash p .terminate { p with running := .forServe }
  | joinServe : p.running = .forServe → p.serving = .ended → Advances hash p .join { p with running := .forMaintenance }
  | joinMaintenance : p.running = .forMaintenance → p.keeping = .ended → Advances hash p .join { p with running := .returned }
  | accept : p.serving = .accepting →
      Advances hash p .accept { p with conns := p.conns.insert p.accepted .dispatch, accepted := p.accepted + 1 }
  | speak (c : Nat) (frames : Bool) : p.conns.lookup c = some .dispatch →
      Advances hash p (.speak c frames) { p with conns := p.conns.insert c (if frames then .frames else .transfer none) }
  | turn (c : Nat) (e : DiskEv) (role : Role) (sys : Sys) : p.conns.lookup c = some role → role.takes e = true →
      rootedStep hash p.root p.sys e = some sys →
      Advances hash p (.turn c e) { p with sys := sys, conns := p.conns.insert c (role.after p.sys sys e) }
  | drop (c k : Nat) (sys : Sys) : p.conns.lookup c = some (.transfer (some k)) →
      rootedStep hash p.root p.sys (.cancel k) = some sys →
      Advances hash p (.close c) { p with sys := sys, conns := p.conns.erase c }
  | close (c : Nat) (role : Role) : p.conns.lookup c = some role → (∀ k, role ≠ .transfer (some k)) →
      Advances hash p (.close c) { p with conns := p.conns.erase c }
  | stopAccepting : p.serving = .accepting → p.flag = true → Advances hash p .stopAccepting { p with serving := .draining }
  | serveEnds : p.serving = .draining → Advances hash p .serveEnds { p with serving := .ended }
  | thread (e : DiskEv) (sys : Sys) : e.ofThread = true → rootedStep hash p.root p.sys e = some sys →
      Advances hash p (.thread e) { p with sys := sys }
  | stopSweeping : p.keeping = .sweeping → p.flag = true → Advances hash p .stopSweeping { p with keeping := .draining }
  /-- A step of the maintenance's loop, which is no connection's and accepts no upload. -/
  | loop (e : ProcessEv) (d : DiskEv) (sys : Sys) : (∀ c d, e ≠ .turn c d) → p.keeping.begun = false →
      diskStep hash p.sys d = some sys →
      (∀ room digest declared now, d ≠ .beginUpload room digest declared now) → Advances hash p e { p with sys := sys }
  | removeRoot : p.keeping = .draining → Advances hash p .removeRoot { p with keeping := .removing .opening }
  | remove (at_ : Removing) : p.keeping = .removing at_ → Advances hash p .remove (p.remove at_)

theorem processStep_advances {hash : Bytes → String} {p q : Process} {e : ProcessEv} (h : processStep hash p e = some q) :
    p.Advances hash e q := by
  cases e with
  | terminate =>
    obtain ⟨hrunning, h⟩ := Option.ite_none_right_eq_some.1 h
    cases h
    exact .terminate hrunning
  | join =>
    simp only [processStep] at h
    split at h
    · rename_i hrunning
      obtain ⟨hended, h⟩ := Option.ite_none_right_eq_some.1 h
      cases h
      exact .joinServe hrunning hended
    · rename_i hrunning
      obtain ⟨hended, h⟩ := Option.ite_none_right_eq_some.1 h
      cases h
      exact .joinMaintenance hrunning hended
    · cases h
  | accept =>
    obtain ⟨haccepting, h⟩ := Option.ite_none_right_eq_some.1 h
    cases h
    exact .accept haccepting
  | speak c frames =>
    obtain ⟨hc, h⟩ := Option.ite_none_right_eq_some.1 h
    cases h
    exact .speak c frames hc
  | turn c e =>
    simp only [processStep] at h
    split at h
    · rename_i role hc
      obtain ⟨htakes, h⟩ := Option.ite_none_right_eq_some.1 h
      obtain ⟨sys, hsys, rfl⟩ := Option.map_eq_some_iff.1 h
      exact .turn c e role sys hc htakes hsys
    · cases h
  | close c =>
    simp only [processStep] at h
    split at h
    · rename_i k hc
      obtain ⟨sys, hsys, rfl⟩ := Option.map_eq_some_iff.1 h
      exact .drop c k sys hc hsys
    · rename_i role hrole hc
      cases h
      exact .close c role hc hrole
    · cases h
  | stopAccepting =>
    obtain ⟨⟨haccepting, hflag⟩, h⟩ := Option.ite_none_right_eq_some.1 h
    cases h
    exact .stopAccepting haccepting hflag
  | serveEnds =>
    obtain ⟨hdraining, h⟩ := Option.ite_none_right_eq_some.1 h
    cases h
    exact .serveEnds hdraining
  | thread e =>
    obtain ⟨hthread, h⟩ := Option.ite_none_right_eq_some.1 h
    obtain ⟨sys, hsys, rfl⟩ := Option.map_eq_some_iff.1 h
    exact .thread e sys hthread hsys
  | stopSweeping =>
    obtain ⟨⟨hkeeping, -, hflag⟩, h⟩ := Option.ite_none_right_eq_some.1 h
    cases h
    exact .stopSweeping hkeeping hflag
  | sweep now =>
    obtain ⟨⟨hkeeping, -⟩, h⟩ := Option.ite_none_right_eq_some.1 h
    obtain ⟨sys, hsys, rfl⟩ := Option.map_eq_some_iff.1 h
    exact .loop _ _ sys (by intro _ _ heq; cases heq) (by rw [hkeeping]; rfl) hsys (by intro _ _ _ _ heq; cases heq)
  | maintain | straggler name =>
    obtain ⟨hbegun, h⟩ := Option.ite_none_left_eq_some.1 h
    obtain ⟨sys, hsys, rfl⟩ := Option.map_eq_some_iff.1 h
    exact .loop _ _ sys (by intro _ _ heq; cases heq) (Bool.eq_false_iff.2 hbegun) hsys (by intro _ _ _ _ heq; cases heq)
  | removeRoot =>
    obtain ⟨⟨hkeeping, -⟩, h⟩ := Option.ite_none_right_eq_some.1 h
    cases h
    exact .removeRoot hkeeping
  | remove =>
    simp only [processStep] at h
    split at h
    · rename_i at_ hkeeping
      cases h
      exact .remove at_ hkeeping
    · cases h

end OmpRelayd
