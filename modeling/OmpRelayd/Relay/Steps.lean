/-
  OmpRelayd.Relay.Steps — what one step of the relay can do.

  `Drives` lists what a connection's own task does outside its handlers, `Step` every step of
  the relay, each with the facts that hold when it is taken. Both are proved complete once
  (`relayStep_step`), and the invariants of the later modules go by cases on them.
-/

import OmpRelayd.Relay.System

namespace OmpRelayd.Relay

inductive Conn.Drives (c : Nat) (flag : Bool) (conn : Conn) : RelayEv → Conn → Prop
  | greeted : conn.stage = .greeting →
      conn.Drives c flag (.ready c true)
        { conn with sent := conn.sent ++ [.plain (.ready protocolVersion)], stage := .pumping .awaiting .top }
  | unready : conn.stage = .greeting → conn.Drives c flag (.ready c false) conn.close
  -- the writer
  | poll (o : WriteOutcome) (reader : Reader) (writer writer' : Writer) : conn.stage = .pumping reader writer →
      reader.isBusy = false → (∀ item, writer ≠ .writing item ∧ writer' ≠ .writing item) → writer ≠ .replaced →
      (writer' = .replaced → flag = true) →
      conn.Drives c flag (.write c o) { conn with stage := .pumping reader writer' }
  | takeReply (o : WriteOutcome) (reader : Reader) (reply : Reply) (rest : List Reply) :
      conn.stage = .pumping reader .polled → reader.isBusy = false → conn.replies = reply :: rest →
      conn.Drives c flag (.write c o) { conn with replies := rest, stage := .pumping reader (.writing (.reply reply)) }
  | takeDelivery (o : WriteOutcome) (reader : Reader) (payload : Bytes) (rest : List Bytes) :
      conn.stage = .pumping reader .starved → reader.isBusy = false → conn.queue = payload :: rest →
      conn.Drives c flag (.write c o) { conn with queue := rest, stage := .pumping reader (.writing (.delivery payload)) }
  | wrote (reader : Reader) (item : Item) : conn.stage = .pumping reader (.writing item) → reader.isBusy = false →
      conn.Drives c flag (.write c .ok)
        { conn with buffer := [], sent := conn.sent ++ conn.buffer ++ [item], stage := .pumping reader .top }
  | cancelled (reader : Reader) (item : Item) (fed : Bool) : conn.stage = .pumping reader (.writing item) →
      reader.isBusy = false → flag = true →
      conn.Drives c flag (.write c (.replaced fed))
        { conn with buffer := if fed then conn.buffer ++ [item] else conn.buffer, stage := .pumping reader .replaced }
  -- the ways a pumped connection ends
  | drained (o : WriteOutcome) : conn.stage = .pumping .ended .polled → conn.replies = [] →
      conn.Drives c flag (.write c o) conn.close
  | unsent (reader : Reader) : conn.stage = .pumping reader .starved → reader.isBusy = false → conn.queue = [] →
      conn.Drives c flag (.write c .closed) conn.close
  | failed (reader : Reader) (item : Item) : conn.stage = .pumping reader (.writing item) → reader.isBusy = false →
      conn.Drives c flag (.write c .failed) conn.close
  | told (reader : Reader) : conn.stage = .pumping reader .replaced → reader.isBusy = false →
      conn.Drives c flag (.write c .ok)
        { conn with sent := conn.sent ++ conn.buffer ++ [Item.plain replacedDiagnostic] }.close
  | untold (o : WriteOutcome) (reader : Reader) : conn.stage = .pumping reader .replaced → reader.isBusy = false →
      o ≠ .ok → conn.Drives c flag (.write c o) conn.close
  | expired (writer : Writer) : conn.stage = .pumping .ended writer → conn.Drives c flag (.expire c) conn.close
  | aborted : (conn.stage = .greeting ∨ ∃ reader writer, conn.stage = .pumping reader writer ∧ reader.isBusy = false) →
      conn.Drives c flag (.abort c) conn.close

inductive Step (env : Env) (s : Sys) : RelayEv → Sys → Prop
  | hello (frame : ClientFrame) (name : Name) : admitted env frame = .ok name →
      Step env s (.hello frame) { s.put s.registry.nextConnectionId { name := name } with registry := s.registry.draw name }
  | insert (c : Nat) (conn : Conn) (registry : Registry) : s.conns.lookup c = some conn →
      registryStep s.registry (.insert c) = some registry →
      Step env s (.insert c) { s.put c { conn with stage := .greeting } with registry := registry }
  | drive (e : RelayEv) (c : Nat) (conn conn' : Conn) : s.conns.lookup c = some conn →
      conn.Drives c (s.evicted c) e conn' → Step env s e (s.put c conn')
  | read (c : Nat) (branch : Branch) (conn : Conn) (writer : Writer) : s.conns.lookup c = some conn →
      conn.stage = .pumping .awaiting writer → branch.ready s c = true →
      Step env s (.read c branch) (s.put c { conn with
        turns := conn.turns ++ [branch]
        stage := .pumping (.of (s.evicted c) (.fresh none) (readerTurn env (registeredPeer c conn) branch)) writer })
  | act (c now : Nat) (order : List Nat) (conn conn' : Conn) (late : Bool) (turn : Turn) (call : Call)
      (rest : call.Answer → Handler ControlFlow) (writer : Writer) (answer : call.Answer) (s' : Sys) :
      s.conns.lookup c = some conn → conn.stage = .pumping (.busy late turn (.call call rest)) writer →
      s.answer c now order call = some (answer, s') → s'.conns.lookup c = some conn' →
      Step env s (.act c now order) (s'.put c { conn' with
        stage := .pumping (.of late (nextTurn conn.current turn call answer) (rest answer)) writer })
  | drop (c : Nat) (conn : Conn) (registry : Registry) : s.conns.lookup c = some conn → conn.stage = .closed →
      registryStep s.registry (.drop c) = some registry →
      Step env s (.drop c) { s.put c { conn with
        stage := if (deregister s.registry.rooms conn.name.room conn.name.peer c).emptied && env.blobs then .forgetting
          else .gone } with registry := registry }
  | forget (c : Nat) (conn : Conn) : s.conns.lookup c = some conn → conn.stage = .forgetting →
      Step env s (.forget c)
        { s.put c { conn with stage := .gone } with store := (s.store.forgetRoom conn.name.room).2 }
  | transfer (e : Blob.StoreEv) (store : Blob.Store) : Blob.storeStep s.store e = some store →
      (∀ room digest bytes now, e ≠ .reserve room digest bytes now) → (∀ room, e ≠ .forgetRoom room) →
      Step env s (.transfer e) { s with store := store }
  | shutdown : Step env s .shutdown { s with shutdown := true }

variable {env : Env} {s t : Sys}

theorem Conn.write_drives {c : Nat} {flag registered : Bool} {o : WriteOutcome} {conn conn' : Conn}
    (h : conn.write flag registered o = some conn') : conn.Drives c flag (.write c o) conn' := by
  unfold Conn.write at h
  split at h
  swap
  · cases h
  rename_i reader writer hst
  split at h
  · cases h
  rename_i hb
  have hb : reader.isBusy = false := by simpa using hb
  cases writer with
  | top =>
    cases h
    refine .poll o reader .top _ hst hb (fun item => ⟨by simp, by split <;> simp⟩) (by simp) fun hr => ?_
    by_contra hf
    simp [hf] at hr
  | polled =>
    simp only at h
    split at h
    · rename_i reply rest hr; cases h; exact .takeReply o reader reply rest hst hb hr
    · rename_i hr
      split at h
      · cases h; exact .drained o hst hr
      · cases h
        exact .poll o reader .polled .starved hst hb (fun item => ⟨by simp, by simp⟩) (by simp) fun hr => by cases hr
  | starved =>
    simp only at h
    split at h
    · rename_i payload rest hq; cases h; exact .takeDelivery o reader payload rest hst hb hq
    · rename_i hq
      split at h
      · rename_i ho
        split at h
        · cases h
        · cases h; subst ho; exact .unsent reader hst hb hq
      · cases h
        exact .poll o reader .starved .top hst hb (fun item => ⟨by simp, by simp⟩) (by simp) fun hr => by cases hr
  | writing item =>
    simp only at h
    cases o with
    | ok => cases h; exact .wrote reader item hst hb
    | failed => cases h; exact .failed reader item hst hb
    | replaced fed =>
      simp only at h
      split at h
      · rename_i hf; cases h; exact .cancelled reader item fed hst hb hf
      · cases h
    | closed => cases h
  | replaced =>
    simp only at h
    cases o with
    | ok => cases h; exact .told reader hst hb
    | failed => cases h; exact .untold .failed reader hst hb (by simp)
    | replaced fed => cases h; exact .untold (.replaced fed) reader hst hb (by simp)
    | closed => cases h; exact .untold .closed reader hst hb (by simp)

theorem relayStep_step {e : RelayEv} (h : relayStep env s e = some t) : Step env s e t := by
  cases e with
  | hello frame =>
    simp only [relayStep] at h
    split at h
    · cases h
    · rename_i name hn; cases h; exact .hello frame name hn
  | insert c =>
    obtain ⟨conn, hc, h⟩ := Option.bind_eq_some_iff.mp h
    obtain ⟨registry, hr, rfl⟩ := Option.map_eq_some_iff.mp h
    exact .insert c conn registry hc hr
  | ready c written =>
    obtain ⟨conn, hc, h⟩ := Option.bind_eq_some_iff.mp h
    split at h
    · rename_i hst
      cases written with
      | true => cases h; exact .drive _ c conn _ hc (.greeted hst)
      | false => cases h; exact .drive _ c conn _ hc (.unready hst)
    · cases h
  | read c branch =>
    obtain ⟨conn, hc, h⟩ := Option.bind_eq_some_iff.mp h
    split at h
    · rename_i writer hst
      split at h
      · rename_i hb; cases h; exact .read c branch conn writer hc hst hb
      · cases h
    · cases h
  | act c now order =>
    obtain ⟨conn, hc, h⟩ := Option.bind_eq_some_iff.mp h
    split at h
    · rename_i late turn call rest writer hst
      obtain ⟨⟨answer, s'⟩, ha, h⟩ := Option.bind_eq_some_iff.mp h
      obtain ⟨conn', hc', rfl⟩ := Option.map_eq_some_iff.mp h
      exact .act c now order conn conn' late turn call rest writer answer s' hc hst ha hc'
    · cases h
  | write c outcome =>
    obtain ⟨conn, hc, h⟩ := Option.bind_eq_some_iff.mp h
    obtain ⟨conn', hw, rfl⟩ := Option.map_eq_some_iff.mp h
    exact .drive _ c conn conn' hc (Conn.write_drives hw)
  | expire c =>
    obtain ⟨conn, hc, h⟩ := Option.bind_eq_some_iff.mp h
    split at h
    · rename_i writer hst; cases h; exact .drive _ c conn _ hc (.expired writer hst)
    · cases h
  | abort c =>
    obtain ⟨conn, hc, h⟩ := Option.bind_eq_some_iff.mp h
    split at h
    · rename_i hst; cases h; exact .drive _ c conn _ hc (.aborted (.inl hst))
    · rename_i reader writer hst
      split at h
      · cases h
      · rename_i hb; cases h; exact .drive _ c conn _ hc (.aborted (.inr ⟨reader, writer, hst, by simpa using hb⟩))
    · cases h
  | drop c =>
    obtain ⟨conn, hc, h⟩ := Option.bind_eq_some_iff.mp h
    split at h
    · rename_i hst
      obtain ⟨registry, hr, rfl⟩ := Option.map_eq_some_iff.mp h
      exact .drop c conn registry hc hst hr
    · cases h
  | forget c =>
    obtain ⟨conn, hc, h⟩ := Option.bind_eq_some_iff.mp h
    split at h
    · rename_i hst; cases h; exact .forget c conn hc hst
    · cases h
  | transfer e =>
    simp only [relayStep] at h
    split at h
    · cases h
    · cases h
    · rename_i hr hf
      split at h
      · obtain ⟨store, hs, rfl⟩ := Option.map_eq_some_iff.mp h
        exact .transfer e store hs hr hf
      · cases h
  | shutdown => cases h; exact .shutdown

/-! ## Calls -/

/-- What a call of connection `c` can be answered, and what it changes. -/
inductive Answers (s : Sys) (c : Nat) (conn : Conn) (now : Nat) : (call : Call) → call.Answer → Sys → Prop
  | capacity : Answers s c conn now .capacity conn.capacity s
  | sent (frame : ServerFrame) : conn.stage.pumps = true → conn.capacity ≠ 0 →
      Answers s c conn now (.trySend frame) (.ok ()) (s.put c { conn with replies := conn.replies ++ [⟨frame, conn.seq⟩] })
  | notSent (frame : ServerFrame) (error : TrySendError) : conn.stage.pumps = false ∨ conn.capacity = 0 →
      Answers s c conn now (.trySend frame) (.error error) (s.put c conn)
  | claimed : conn.stage.pumps = true → conn.capacity ≠ 0 →
      Answers s c conn now .tryReserve true (s.put c { conn with held := conn.held + 1 })
  | notClaimed : conn.stage.pumps = false ∨ conn.capacity = 0 → Answers s c conn now .tryReserve false (s.put c conn)
  | permitSend (frame : ServerFrame) : Answers s c conn now (.permitSend frame) () (s.put c (conn.permitSend frame))
  | permitDrop : Answers s c conn now .permitDrop () (s.put c conn.permitDrop)
  | listPeers (room : RoomId) : Answers s c conn now (.listPeers room) (listPeers s.registry.rooms room) s
  | outboundOf (room : RoomId) (target : String) :
      Answers s c conn now (.outboundOf room target) (outboundOf s.registry.rooms room target) s
  | recipients (room : RoomId) (announcer : String) (order : List Nat) :
      order.Perm (recipients s.registry.rooms room announcer) → Answers s c conn now (.recipients room announcer) order s
  | enqueued (outbound : Nat) (payload : Bytes) (target : Conn) : s.conns.lookup outbound = some target →
      target.stage.receives = true → target.queue.length < outboundQueueCapacity →
      Answers s c conn now (.enqueue outbound payload) .routed (s.put outbound { target with
        queue := target.queue ++ [payload]
        log := target.log ++ [⟨c, conn.seq, payload⟩] })
  | refused (outbound : Nat) (payload : Bytes) (target : Conn) (status : ReceiptStatus) :
      s.conns.lookup outbound = some target → status ≠ .routed →
      Answers s c conn now (.enqueue outbound payload) status (s.put outbound target)
  | unknown (outbound : Nat) (payload : Bytes) : s.conns.lookup outbound = none →
      Answers s c conn now (.enqueue outbound payload) .peerOffline s
  | reserve (room : RoomId) (digest : String) (bytes : Nat) :
      Answers s c conn now (.reserve room digest bytes) (s.store.reserve room digest bytes now).1
        { s with store := (s.store.reserve room digest bytes now).2 }

theorem perform_answers {c : Nat} {conn : Conn} (hc : s.conns.lookup c = some conn) (now : Nat) (call : Call) :
    Answers s c conn now call (s.perform c now call).1 (s.perform c now call).2 := by
  cases call with
  | capacity => simp only [Sys.perform, hc, Option.elim_some]; exact .capacity
  | trySend frame =>
    simp only [Sys.perform, Sys.on, hc, Conn.trySend]
    split
    · rename_i hp; exact .notSent frame _ (.inl (by simpa using hp))
    · rename_i hp
      split
      · rename_i hfull; exact .notSent frame _ (.inr hfull)
      · rename_i hfull; exact .sent frame (by simpa using hp) hfull
  | tryReserve =>
    simp only [Sys.perform, Sys.on, hc, Conn.tryReserve]
    split
    · rename_i hp
      refine .notClaimed ?_
      simpa using hp
    · rename_i hp
      simp only [Bool.or_eq_true, Bool.not_eq_true', decide_eq_true_eq, not_or, Bool.not_eq_false] at hp
      exact .claimed hp.1 hp.2
  | permitSend frame => simp only [Sys.perform, Sys.on, hc]; exact .permitSend frame
  | permitDrop => simp only [Sys.perform, Sys.on, hc]; exact .permitDrop
  | listPeers room => exact .listPeers room
  | outboundOf room target => exact .outboundOf room target
  | recipients room announcer => exact .recipients room announcer _ (.refl _)
  | enqueue outbound payload =>
    simp only [Sys.perform, Sys.on, hc, Option.elim_some]
    split
    · rename_i ht; exact .unknown outbound payload ht
    · rename_i target ht
      simp only [Conn.enqueue]
      split
      · exact .refused outbound payload target _ ht (by simp)
      · rename_i hr
        split
        · exact .refused outbound payload target _ ht (by simp)
        · rename_i hq; exact .enqueued outbound payload target ht (by simpa using hr) (Nat.lt_of_not_le hq)
  | reserve room digest bytes => exact .reserve room digest bytes

theorem answer_answers {c now : Nat} {order : List Nat} {conn : Conn} (hc : s.conns.lookup c = some conn) {call : Call}
    {answer : call.Answer} {s' : Sys} (h : s.answer c now order call = some (answer, s')) :
    Answers s c conn now call answer s' := by
  unfold Sys.answer at h
  split at h
  · rename_i room announcer
    split at h
    · rename_i hperm
      cases h
      exact .recipients room announcer order (List.isPerm_iff.mp hperm)
    · cases h
  · have ha := perform_answers hc now call
    rw [Option.some.inj h] at ha
    exact ha

end OmpRelayd.Relay
