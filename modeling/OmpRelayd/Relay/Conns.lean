/-
  OmpRelayd.Relay.Conns — what is always so of the relay's connections.

  Every connection in the registry is there under the name it was admitted with, and every
  busy reader is at some point of a program that keeps to the rules of its frame (`RelayInv`).
  Both are kept by every step whatever the other tasks do; the later modules add to them what
  their own property needs.
-/

import OmpRelayd.Relay.Steps

namespace OmpRelayd.Relay

/-! ## One connection changes -/

theorem Sys.lookup_put (s : Sys) (c : Nat) (conn : Conn) (j : Nat) :
    (s.put c conn).conns.lookup j = if j = c then some conn else s.conns.lookup j := by
  by_cases h : j = c
  · subst h; simp [Sys.put]
  · simp [Sys.put, AList.lookup_insert_ne h, h]

theorem Sys.lookup_put_some {s : Sys} {c j : Nat} {conn x : Conn} (h : (s.put c conn).conns.lookup j = some x) :
    j = c ∧ x = conn ∨ j ≠ c ∧ s.conns.lookup j = some x := by
  rcases Map.lookup_insert_some h with ⟨rfl, rfl⟩ | ⟨hne, h⟩
  · exact .inl ⟨rfl, rfl⟩
  · exact .inr ⟨hne, h⟩

theorem Sys.lookup_put_self {s : Sys} {c : Nat} {conn x : Conn} (h : (s.put c conn).conns.lookup c = some x) : x = conn := by
  rw [Sys.lookup_put, if_pos rfl] at h
  exact (Option.some.inj h).symm

theorem queueOf_put (s : Sys) (o : Nat) (conn : Conn) (j : Nat) :
    queueOf (s.put o conn) j = if j = o then some conn.queue else queueOf s j := by
  unfold queueOf Sys.put
  by_cases h : j = o
  · subst h; simp
  · simp [AList.lookup_insert_ne h, h]

/-- A connection put back with the queue it had. -/
theorem queueOf_put_same {s : Sys} {o : Nat} {conn conn' : Conn} (hc : s.conns.lookup o = some conn) (hq : conn'.queue = conn.queue)
    (j : Nat) : queueOf (s.put o conn') j = queueOf s j := by
  rw [queueOf_put]
  split
  · rename_i h; subst h; rw [hq]; simp [queueOf, hc]
  · rfl

/-- A connection given one more payload. -/
def Conn.given (target : Conn) (d : Delivery) : Conn :=
  { target with queue := target.queue ++ [d.payload], log := target.log ++ [d] }

/-- No handler is running. -/
def Stage.idle : Stage → Bool
  | .pumping reader _ => !reader.isBusy
  | _ => true

/-- What the writer is writing. -/
def Stage.writing : Stage → List Item
  | .pumping _ (.writing item) => [item]
  | _ => []

/-- The reply a call puts in, if it succeeds. -/
def Call.puts : Call → Option ServerFrame
  | .trySend frame => some frame
  | .permitSend frame => some frame
  | _ => none

/-- What a step outside a handler leaves of a connection. -/
structure Conn.Kept (conn conn' : Conn) : Prop where
  name : conn'.name = conn.name
  turns : conn'.turns = conn.turns
  log : conn'.log = conn.log
  queue : conn'.queue <:+ conn.queue
  idle : conn'.stage.idle = true

theorem Conn.close_kept (conn : Conn) : conn.Kept conn.close := ⟨rfl, rfl, rfl, List.nil_suffix, rfl⟩

theorem Conn.Drives.kept {c : Nat} {flag : Bool} {conn conn' : Conn} {e : RelayEv} (h : conn.Drives c flag e conn') :
    conn.Kept conn' := by
  have hidle : ∀ {reader : Reader} {writer : Writer}, reader.isBusy = false → (Stage.pumping reader writer).idle = true :=
    fun hb => by simp [Stage.idle, hb]
  cases h with
  | greeted => exact ⟨rfl, rfl, rfl, List.suffix_rfl, rfl⟩
  | poll o reader writer writer' _ hb | takeReply o reader reply rest _ hb | wrote reader item _ hb
  | cancelled reader item fed _ hb => exact ⟨rfl, rfl, rfl, List.suffix_rfl, hidle hb⟩
  | takeDelivery o reader payload rest _ hb hq =>
    refine ⟨rfl, rfl, rfl, ?_, hidle hb⟩
    rw [hq]; exact List.suffix_cons payload rest
  | told => exact ⟨rfl, rfl, rfl, List.nil_suffix, rfl⟩
  | _ => exact conn.close_kept

/-- A connection its own task moves was registered, has not dropped its guard, and runs no handler. -/
theorem Conn.Drives.stage {c : Nat} {flag : Bool} {conn conn' : Conn} {e : RelayEv} (h : conn.Drives c flag e conn') :
    conn.stage = .greeting ∨ ∃ reader writer, conn.stage = .pumping reader writer ∧ reader.isBusy = false := by
  cases h with
  | greeted hst => exact .inl hst
  | unready hst => exact .inl hst
  | aborted hst => exact hst
  | poll o reader writer writer' hst hb | takeReply o reader reply rest hst hb
  | takeDelivery o reader payload rest hst hb | wrote reader item hst hb | cancelled reader item fed hst hb
  | unsent reader hst hb | failed reader item hst hb | told reader hst hb | untold o reader hst hb => exact .inr ⟨_, _, hst, hb⟩
  | drained o hst => exact .inr ⟨_, _, hst, rfl⟩
  | expired writer hst => exact .inr ⟨_, _, hst, rfl⟩

theorem Conn.Drives.idle {c : Nat} {flag : Bool} {conn conn' : Conn} {e : RelayEv} (h : conn.Drives c flag e conn') :
    conn.stage.idle = true := by
  rcases h.stage with hst | ⟨reader, writer, hst, hb⟩
  · rw [hst]; rfl
  · simp [Stage.idle, hst, hb]

theorem Reader.of_busy {late l : Bool} {turn u : Turn} {p rest : Handler ControlFlow}
    (h : Reader.of late turn p = .busy l u rest) : l = late ∧ u = turn ∧ rest = p := by
  cases p with
  | done flow => cases flow <;> cases h
  | call op k => cases h; exact ⟨rfl, rfl, rfl⟩

/-- The frame just read is the one being handled. -/
theorem Conn.current_read (conn : Conn) (branch : Branch) (stage : Stage) :
    ({ conn with turns := conn.turns ++ [branch], stage := stage } : Conn).current = branch.frame := by
  simp [Conn.current, Conn.frame, Conn.seq]

/-- What was read stays read, under its number. -/
theorem Conn.frame_mono {conn conn' : Conn} (h : conn.turns <+: conn'.turns) {n : Nat} {frame : ClientFrame}
    (hf : conn.frame n = some frame) : conn'.frame n = some frame := by
  obtain ⟨branch, hb, rfl⟩ := Option.map_eq_some_iff.mp hf
  obtain ⟨more, hmore⟩ := h
  have hlt : n - 1 < conn.turns.length := (List.getElem?_eq_some_iff.mp hb).1
  simp only [Conn.frame, ← hmore, List.getElem?_append_left hlt, hb, Option.map_some]

/-- A call changes one connection at most, and neither its name nor its stage nor what it has read. -/
theorem Answers.touches {s s' : Sys} {c now : Nat} {conn : Conn} {call : Call} {answer : call.Answer}
    (h : Answers s c conn now call answer s') (hc : s.conns.lookup c = some conn) :
    s'.registry = s.registry ∧ (s'.conns = s.conns ∨ ∃ o old new, s.conns.lookup o = some old ∧
      s'.conns = (s.put o new).conns ∧ new.name = old.name ∧ new.stage = old.stage ∧ new.turns = old.turns) := by
  cases h with
  | capacity | listPeers room | outboundOf room target | recipients room announcer order hperm
  | unknown outbound payload hnone | reserve room digest bytes => exact ⟨rfl, .inl rfl⟩
  | enqueued outbound payload target ht => exact ⟨rfl, .inr ⟨outbound, target, _, ht, rfl, rfl, rfl, rfl⟩⟩
  | refused outbound payload target status ht => exact ⟨rfl, .inr ⟨outbound, target, _, ht, rfl, rfl, rfl, rfl⟩⟩
  | _ => exact ⟨rfl, .inr ⟨c, conn, _, hc, rfl, rfl, rfl, rfl⟩⟩

/-- So every connection is found after a call as it was before, but for its channels. -/
theorem Answers.find {s s' : Sys} {c now : Nat} {conn : Conn} {call : Call} {answer : call.Answer}
    (h : Answers s c conn now call answer s') (hc : s.conns.lookup c = some conn) {j : Nat} {x' : Conn}
    (hj : s'.conns.lookup j = some x') :
    ∃ x, s.conns.lookup j = some x ∧ x'.name = x.name ∧ x'.stage = x.stage ∧ x'.turns = x.turns := by
  obtain ⟨-, heq | ⟨o, old, new, ho, heq, hn, hst, ht⟩⟩ := h.touches hc
  · rw [heq] at hj; exact ⟨x', hj, rfl, rfl, rfl⟩
  · rw [heq] at hj
    rcases Sys.lookup_put_some hj with ⟨rfl, rfl⟩ | ⟨-, hj⟩
    · exact ⟨old, ho, hn, hst, ht⟩
    · exact ⟨x', hj, rfl, rfl, rfl⟩

/-- The caller's channels apart, a call at most gives one connection one payload. -/
theorem Answers.others {s s' : Sys} {c now : Nat} {conn : Conn} {call : Call} {answer : call.Answer}
    (h : Answers s c conn now call answer s') {j : Nat} (hne : j ≠ c) {x' : Conn} (hj : s'.conns.lookup j = some x') :
    ∃ x, s.conns.lookup j = some x ∧ (x' = x ∨ ∃ d, x' = x.given d) := by
  have hown : ∀ {new}, (s.put c new).conns.lookup j = some x' → s.conns.lookup j = some x' := by
    intro new hj
    rw [Sys.lookup_put, if_neg hne] at hj
    exact hj
  cases h with
  | enqueued outbound payload target ht =>
    rcases Sys.lookup_put_some hj with ⟨rfl, rfl⟩ | ⟨-, hj⟩
    · exact ⟨target, ht, .inr ⟨⟨c, conn.seq, payload⟩, rfl⟩⟩
    · exact ⟨x', hj, .inl rfl⟩
  | refused outbound payload target status ht =>
    rcases Sys.lookup_put_some hj with ⟨rfl, rfl⟩ | ⟨-, hj⟩
    · exact ⟨x', ht, .inl rfl⟩
    · exact ⟨x', hj, .inl rfl⟩
  | sent frame | notSent frame error | claimed | notClaimed | permitSend frame | permitDrop => exact ⟨x', hown hj, .inl rfl⟩
  | _ => exact ⟨x', hj, .inl rfl⟩

/-- The caller's own replies only grow, and its writer is not there to move. -/
theorem Answers.own {s s' : Sys} {c now : Nat} {conn conn' : Conn} {call : Call} {answer : call.Answer}
    (h : Answers s c conn now call answer s') (hc : s.conns.lookup c = some conn) (hc' : s'.conns.lookup c = some conn') :
    conn.replies <+: conn'.replies ∧ conn'.buffer = conn.buffer ∧ conn'.sent = conn.sent := by
  cases h with
  | sent frame => cases Sys.lookup_put_self hc'; exact ⟨List.prefix_append _ _, rfl, rfl⟩
  | notSent frame error | claimed | notClaimed | permitDrop => cases Sys.lookup_put_self hc'; exact ⟨List.prefix_rfl, rfl, rfl⟩
  | permitSend frame => cases Sys.lookup_put_self hc'; exact ⟨List.prefix_append _ _, rfl, rfl⟩
  | enqueued outbound payload target ht | refused outbound payload target status ht =>
    rcases Sys.lookup_put_some hc' with ⟨rfl, rfl⟩ | ⟨-, hc'⟩
    · cases hc.symm.trans ht; exact ⟨List.prefix_rfl, rfl, rfl⟩
    · cases hc.symm.trans hc'; exact ⟨List.prefix_rfl, rfl, rfl⟩
  | _ => cases hc.symm.trans hc'; exact ⟨List.prefix_rfl, rfl, rfl⟩

/-! ## The invariant -/

/-- A busy reader is where its record says. -/
def Conn.Keeps (env : Env) (c : Nat) (conn : Conn) : Prop :=
  ∀ late turn rest writer, conn.stage = .pumping (.busy late turn rest) writer →
    rest.Obeys (rules env (registeredPeer c conn) conn.current) stops turn ∧ turn.Fits conn.current

structure RelayInv (env : Env) (s : Sys) : Prop where
  registry : RegistryInv s.registry
  below : ∀ c conn, s.conns.lookup c = some conn → c < s.registry.nextConnectionId
  drawn : ∀ c name, s.registry.drawn.lookup c = some name →
    ∃ conn, s.conns.lookup c = some conn ∧ conn.name = name ∧ conn.stage = .admitted
  inserted : ∀ c name, .inserted c name ∈ s.registry.trace → ∃ conn, s.conns.lookup c = some conn ∧ conn.name = name
  keeps : ∀ c conn, s.conns.lookup c = some conn → conn.Keeps env c

variable {env : Env} {s t : Sys} {c : Nat} {conn conn' : Conn}

theorem Conn.Keeps.of_idle (h : conn.stage.idle = true) : conn.Keeps env c := by
  intro late turn rest writer hst
  rw [hst] at h; cases h

/-- Whoever a name is routed to was registered under it. -/
theorem RelayInv.holder_conn (h : RelayInv env s) {name : Name} (hh : holder s.registry.rooms name = some c) :
    ∃ conn, s.conns.lookup c = some conn ∧ conn.name = name :=
  h.inserted c name (lastInserted_mem ((h.registry.held name c).mp hh).1)

theorem RelayInv.put (h : RelayInv env s) (hc : s.conns.lookup c = some conn) (hname : conn'.name = conn.name)
    (hstage : conn.stage = .admitted → conn'.stage = .admitted) (hk : conn'.Keeps env c) : RelayInv env (s.put c conn') := by
  -- a connection found before is found after, under its name
  have hfind : ∀ j x, s.conns.lookup j = some x → ∃ x', (s.put c conn').conns.lookup j = some x' ∧ x'.name = x.name ∧
      (x.stage = .admitted → x'.stage = .admitted) := by
    intro j x hj
    rw [Sys.lookup_put]
    by_cases e : j = c
    · subst e
      cases hc.symm.trans hj
      exact ⟨conn', if_pos rfl, hname, hstage⟩
    · exact ⟨x, (if_neg e).trans hj, rfl, id⟩
  refine ⟨h.registry, fun j x hj => ?_, fun j name hd => ?_, fun j name hi => ?_, fun j x hj => ?_⟩
  · rcases Sys.lookup_put_some hj with ⟨rfl, -⟩ | ⟨-, hj⟩
    · exact h.below j conn hc
    · exact h.below j x hj
  · obtain ⟨x, hx, hn, hst⟩ := h.drawn j name hd
    obtain ⟨x', hx', hn', hst'⟩ := hfind j x hx
    exact ⟨x', hx', hn'.trans hn, hst' hst⟩
  · obtain ⟨x, hx, hn⟩ := h.inserted j name hi
    obtain ⟨x', hx', hn', -⟩ := hfind j x hx
    exact ⟨x', hx', hn'.trans hn⟩
  · rcases Sys.lookup_put_some hj with ⟨rfl, rfl⟩ | ⟨-, hj⟩
    · exact hk
    · exact h.keeps j x hj

/-- The registry moves without a connection's being drawn or inserted. -/
theorem RelayInv.withRegistry (h : RelayInv env s) {registry : Registry} (hr : RegistryInv registry)
    (hnext : registry.nextConnectionId = s.registry.nextConnectionId)
    (hdrawn : ∀ c name, registry.drawn.lookup c = some name → s.registry.drawn.lookup c = some name)
    (htrace : ∀ c name, .inserted c name ∈ registry.trace → .inserted c name ∈ s.registry.trace) :
    RelayInv env { s with registry := registry } :=
  ⟨hr, fun j x hj => hnext ▸ h.below j x hj, fun j name hd => h.drawn j name (hdrawn j name hd),
    fun j name hi => h.inserted j name (htrace j name hi), h.keeps⟩

/-! ## It is kept -/

theorem Conn.Keeps.congr (h : conn.Keeps env c) (hname : conn'.name = conn.name) (hstage : conn'.stage = conn.stage)
    (hturns : conn'.turns = conn.turns) : conn'.Keeps env c := by
  have hcurrent : conn'.current = conn.current := by simp only [Conn.current, Conn.frame, Conn.seq, hturns]
  have hpeer : registeredPeer c conn' = registeredPeer c conn := by simp only [registeredPeer, hname]
  intro late turn rest writer hst
  rw [hcurrent, hpeer]
  exact h late turn rest writer (hstage.symm.trans hst)

theorem RelayInv.congr (h : RelayInv env s) (hr : t.registry = s.registry) (hc : t.conns = s.conns) : RelayInv env t := by
  cases s; cases t; cases hr; cases hc
  exact ⟨h.registry, h.below, h.drawn, h.inserted, h.keeps⟩

theorem RelayInv.init : RelayInv env {} := by
  refine ⟨.init, fun c conn h => ?_, fun c name h => ?_, fun c name h => ?_, fun c conn h => ?_⟩
  · simp at h
  · simp at h
  · exact (List.not_mem_nil h).elim
  · simp at h

theorem RelayInv.hello (h : RelayInv env s) (name : Name) :
    RelayInv env { s.put s.registry.nextConnectionId { name := name } with registry := s.registry.draw name } := by
  -- the id drawn is no connection's yet
  have hnew : ∀ j x, s.conns.lookup j = some x → j ≠ s.registry.nextConnectionId := fun j x hj =>
    Nat.ne_of_lt (h.below j x hj)
  have hfind : ∀ j x, s.conns.lookup j = some x →
      (s.put s.registry.nextConnectionId { name := name }).conns.lookup j = some x := fun j x hj => by
    rw [Sys.lookup_put, if_neg (hnew j x hj)]; exact hj
  refine ⟨h.registry.draw name, fun j x hj => ?_, fun j n hd => ?_, fun j n hi => ?_, fun j x hj => ?_⟩
  · rcases Sys.lookup_put_some hj with ⟨rfl, -⟩ | ⟨-, hj⟩
    · exact Nat.lt_succ_self _
    · exact Nat.lt_succ_of_lt (h.below j x hj)
  · rcases Map.lookup_insert_some hd with ⟨rfl, rfl⟩ | ⟨-, hd⟩
    · exact ⟨_, (Sys.lookup_put ..).trans (if_pos rfl), rfl, rfl⟩
    · obtain ⟨x, hx, hrest⟩ := h.drawn j n hd
      exact ⟨x, hfind j x hx, hrest⟩
  · obtain ⟨x, hx, hn⟩ := h.inserted j n hi
    exact ⟨x, hfind j x hx, hn⟩
  · rcases Sys.lookup_put_some hj with ⟨rfl, rfl⟩ | ⟨-, hj⟩
    · exact .of_idle rfl
    · exact h.keeps j x hj

theorem RelayInv.insert (h : RelayInv env s) (hc : s.conns.lookup c = some conn) {registry : Registry}
    (hr : registryStep s.registry (.insert c) = some registry) :
    RelayInv env { s.put c { conn with stage := .greeting } with registry := registry } := by
  have hinv := registryStep_inv h.registry hr
  obtain ⟨name, hd, rfl⟩ := Option.map_eq_some_iff.mp hr
  obtain ⟨x, hx, hname, -⟩ := h.drawn c name hd
  cases hc.symm.trans hx
  refine ⟨hinv, fun j x hj => ?_, fun j n hj => ?_, fun j n hj => ?_, fun j x hj => ?_⟩
  · rcases Sys.lookup_put_some hj with ⟨rfl, -⟩ | ⟨-, hj⟩
    · exact h.below j conn hc
    · exact h.below j x hj
  · -- the others that are drawn are as they were
    obtain ⟨hne, hj⟩ := Map.lookup_erase_some hj
    obtain ⟨x, hx, hrest⟩ := h.drawn j n hj
    exact ⟨x, (Sys.lookup_put ..).trans ((if_neg hne).trans hx), hrest⟩
  · by_cases e : j = c
    · subst e
      refine ⟨_, (Sys.lookup_put ..).trans (if_pos rfl), ?_⟩
      rcases List.mem_append.mp hj with hj | hj
      · obtain ⟨x, hx, hn⟩ := h.inserted j n hj
        cases hc.symm.trans hx; exact hn
      · cases List.mem_singleton.mp hj; exact hname
    · rcases List.mem_append.mp hj with hj | hj
      · obtain ⟨x, hx, hn⟩ := h.inserted j n hj
        exact ⟨x, (Sys.lookup_put ..).trans ((if_neg e).trans hx), hn⟩
      · cases List.mem_singleton.mp hj; exact absurd rfl e
  · rcases Sys.lookup_put_some hj with ⟨rfl, rfl⟩ | ⟨-, hj⟩
    · exact .of_idle rfl
    · exact h.keeps j x hj

theorem RelayInv.drop (h : RelayInv env s) (hc : s.conns.lookup c = some conn) (hst : conn.stage = .closed)
    {stage : Stage} (hidle : stage.idle = true) {registry : Registry}
    (hr : registryStep s.registry (.drop c) = some registry) :
    RelayInv env { s.put c { conn with stage := stage } with registry := registry } := by
  have hinv := registryStep_inv h.registry hr
  obtain ⟨name, hd, rfl⟩ := Option.map_eq_some_iff.mp hr
  have hput : RelayInv env (s.put c { conn with stage := stage }) :=
    h.put hc rfl (fun ha => by rw [hst] at ha; cases ha) (.of_idle hidle)
  refine hput.withRegistry hinv rfl (fun _ _ hd => hd) fun j n hj => ?_
  rcases List.mem_append.mp hj with hj | hj
  · exact hj
  · cases List.mem_singleton.mp hj

/-- What another task's call, or one's own, leaves. -/
theorem RelayInv.answered (h : RelayInv env s) (hc : s.conns.lookup c = some conn) {now : Nat} {call : Call}
    {answer : call.Answer} (ha : Answers s c conn now call answer t) : RelayInv env t := by
  obtain ⟨hr, heq | ⟨o, old, new, ho, heq, hn, hst, ht⟩⟩ := ha.touches hc
  · exact h.congr hr heq
  · exact (h.put ho hn (fun ha => hst.trans ha) ((h.keeps o old ho).congr hn hst ht)).congr hr heq

theorem RelayInv.act (h : RelayInv env s) (hc : s.conns.lookup c = some conn) {late : Bool} {turn : Turn} {now : Nat}
    {call : Call} {rest : call.Answer → Handler ControlFlow} {writer : Writer}
    (hst : conn.stage = .pumping (.busy late turn (.call call rest)) writer) {answer : call.Answer}
    (ha : Answers s c conn now call answer t) (hc' : t.conns.lookup c = some conn') :
    RelayInv env (t.put c { conn' with
      stage := .pumping (.of late (nextTurn conn.current turn call answer) (rest answer)) writer }) := by
  obtain ⟨x, hx, hname, hstage, hturns⟩ := ha.find hc hc'
  cases hc.symm.trans hx
  obtain ⟨hobeys, hfits⟩ := h.keeps c conn hc late turn _ writer hst
  obtain ⟨hmay, hnext⟩ := hobeys.answer answer
  refine (h.answered hc ha).put hc' rfl (fun hadm => ?_) ?_
  · rw [hstage, hst] at hadm; cases hadm
  · -- the record moves with the answer
    have hkept : ({ conn with
        stage := .pumping (.of late (nextTurn conn.current turn call answer) (rest answer)) writer } : Conn).Keeps env c := by
      intro late' turn' rest' writer' hst'
      obtain ⟨hb, -⟩ := Stage.pumping.inj hst'
      obtain ⟨-, rfl, rfl⟩ := Reader.of_busy hb
      exact ⟨hnext, hfits.next hmay answer⟩
    exact hkept.congr hname rfl hturns

theorem Step.relayInv {e : RelayEv} (hs : Step env s e t) (h : RelayInv env s) : RelayInv env t := by
  cases hs with
  | hello frame name hadm => exact h.hello name
  | insert c conn registry hc hr => exact h.insert hc hr
  | drive e c conn conn' hc hd =>
    refine h.put hc hd.kept.name (fun hadm => ?_) (.of_idle hd.kept.idle)
    rcases hd.stage with hst | ⟨reader, writer, hst, -⟩ <;> rw [hst] at hadm <;> cases hadm
  | read c branch conn writer hc hst hb =>
    refine h.put hc rfl (fun hadm => by rw [hst] at hadm; cases hadm) fun late turn rest writer' hst' => ?_
    obtain ⟨hbusy, -⟩ := Stage.pumping.inj hst'
    obtain ⟨-, rfl, rfl⟩ := Reader.of_busy hbusy
    rw [Conn.current_read]
    exact ⟨readerTurn_obeys env _ branch, trivial⟩
  | act c now order conn conn' late turn call rest writer answer s' hc hst ha hc' =>
    exact h.act hc hst (answer_answers hc ha) hc'
  | drop c conn registry hc hst hr => exact h.drop hc hst (by split <;> rfl) hr
  | forget c conn hc hst =>
    have hput : RelayInv env (s.put c { conn with stage := .gone }) :=
      h.put hc rfl (fun hadm => by rw [hst] at hadm; cases hadm) (.of_idle rfl)
    exact hput.congr rfl rfl
  | transfer e store => exact h.congr rfl rfl
  | shutdown => exact h.congr rfl rfl

theorem relay_inv {ok : Sys → RelayEv → Prop} (h : RelayReach env ok s) : RelayInv env s :=
  h.inv .init fun _ _ _ hi _ hs => (relayStep_step hs).relayInv hi

/-! ## A connection's own calls -/

/-- The calls on the connection's own reply channel. -/
def Call.onReplies : Call → Bool
  | .capacity => true
  | .trySend _ => true
  | .tryReserve => true
  | .permitSend _ => true
  | .permitDrop => true
  | _ => false

/-- What a call leaves of the caller's reply channel. -/
inductive Calls (conn : Conn) : (call : Call) → call.Answer → Conn → Prop
  | capacity : Calls conn .capacity conn.capacity conn
  | sent (frame : ServerFrame) : conn.capacity ≠ 0 →
      Calls conn (.trySend frame) (.ok ()) { conn with replies := conn.replies ++ [⟨frame, conn.seq⟩] }
  | notSent (frame : ServerFrame) (error : TrySendError) : conn.capacity = 0 →
      Calls conn (.trySend frame) (.error error) conn
  | claimed : conn.capacity ≠ 0 → Calls conn .tryReserve true { conn with held := conn.held + 1 }
  | notClaimed : Calls conn .tryReserve false conn
  | permitSend (frame : ServerFrame) : Calls conn (.permitSend frame) () (conn.permitSend frame)
  | permitDrop : Calls conn .permitDrop () conn.permitDrop
  | other (call : Call) (answer : call.Answer) (queue : List Bytes) (log : List Delivery) : call.onReplies = false →
      Calls conn call answer { conn with queue := queue, log := log }

theorem Answers.calls {now : Nat} {call : Call} {answer : call.Answer} (ha : Answers s c conn now call answer t)
    (hc : s.conns.lookup c = some conn) (hc' : t.conns.lookup c = some conn') (hp : conn.stage.pumps = true) :
    Calls conn call answer conn' := by
  cases ha with
  | capacity => cases hc.symm.trans hc'; exact .capacity
  | sent frame _ hfree => cases Sys.lookup_put_self hc'; exact .sent frame hfree
  | notSent frame error hfull =>
    cases Sys.lookup_put_self hc'
    refine .notSent frame error (hfull.resolve_left fun hn => ?_)
    rw [hp] at hn; cases hn
  | claimed _ hfree => cases Sys.lookup_put_self hc'; exact .claimed hfree
  | notClaimed => cases Sys.lookup_put_self hc'; exact .notClaimed
  | permitSend frame => cases Sys.lookup_put_self hc'; exact .permitSend frame
  | permitDrop => cases Sys.lookup_put_self hc'; exact .permitDrop
  | enqueued outbound payload target ht =>
    rcases Sys.lookup_put_some hc' with ⟨rfl, rfl⟩ | ⟨-, hc'⟩
    · cases hc.symm.trans ht; exact .other _ _ _ _ rfl
    · cases hc.symm.trans hc'; exact .other _ _ conn.queue conn.log rfl
  | refused outbound payload target status ht =>
    rcases Sys.lookup_put_some hc' with ⟨rfl, rfl⟩ | ⟨-, hc'⟩
    · cases hc.symm.trans ht; exact .other _ _ conn.queue conn.log rfl
    · cases hc.symm.trans hc'; exact .other _ _ conn.queue conn.log rfl
  | _ => cases hc.symm.trans hc'; exact .other _ _ conn.queue conn.log rfl

/-- Nothing but the reply channel, the queue and the log. -/
theorem Calls.kept {call : Call} {answer : call.Answer} (h : Calls conn call answer conn') :
    conn'.turns = conn.turns ∧ conn'.sent = conn.sent ∧ conn'.buffer = conn.buffer := by
  cases h <;> exact ⟨rfl, rfl, rfl⟩

/-! ## What a step is to one connection -/

inductive Conn.Moves (env : Env) (c : Nat) (conn : Conn) : RelayEv → Conn → Prop
  | still (e : RelayEv) : (∀ now order, e ≠ .act c now order) → conn.Moves env c e conn
  | given (e : RelayEv) (d : Delivery) : (∀ now order, e ≠ .act c now order) → conn.Moves env c e (conn.given d)
  | inserted : conn.stage = .admitted → conn.Moves env c (.insert c) { conn with stage := .greeting }
  | drives (e : RelayEv) (flag : Bool) (conn' : Conn) : conn.Drives c flag e conn' → conn.Moves env c e conn'
  | read (branch : Branch) (late : Bool) (writer : Writer) : conn.stage = .pumping .awaiting writer →
      conn.Moves env c (.read c branch) { conn with
        turns := conn.turns ++ [branch]
        stage := .pumping (.of late (.fresh none) (readerTurn env (registeredPeer c conn) branch)) writer }
  | act (now : Nat) (order : List Nat) (conn' : Conn) (late : Bool) (turn : Turn) (call : Call)
      (rest : call.Answer → Handler ControlFlow) (writer : Writer) (answer : call.Answer) :
      conn.stage = .pumping (.busy late turn (.call call rest)) writer → Calls conn call answer conn' →
      conn.Moves env c (.act c now order) { conn' with
        stage := .pumping (.of late (nextTurn conn.current turn call answer) (rest answer)) writer }
  /-- Its guard drops, or has dropped. -/
  | retired (e : RelayEv) (stage : Stage) : (∀ now order, e ≠ .act c now order) →
      conn.stage = .closed ∨ conn.stage = .forgetting → stage = .forgetting ∨ stage = .gone →
      conn.Moves env c e { conn with stage := stage }

/-- No connection is ever forgotten. -/
theorem Step.stays {e : RelayEv} (hs : Step env s e t) {j : Nat} (hj : (s.conns.lookup j).isSome = true) :
    (t.conns.lookup j).isSome = true := by
  have hput : ∀ {u : Sys} {c : Nat} {conn : Conn}, (u.conns.lookup j).isSome = true →
      ((u.put c conn).conns.lookup j).isSome = true := by
    intro u c conn hu
    rw [Sys.lookup_put]
    split
    · rfl
    · exact hu
  cases hs with
  | transfer e store => exact hj
  | shutdown => exact hj
  | act c now order conn conn' late turn call rest writer answer s' hc hst ha hc' =>
    refine hput ?_
    obtain ⟨-, heq | ⟨o, old, new, ho, heq, -⟩⟩ := (answer_answers hc ha).touches hc
    · rw [heq]; exact hj
    · rw [heq]; exact hput hj
  | _ => exact hput hj

/-- Every connection a step leaves is new, or was there and has moved. -/
theorem Step.moves {e : RelayEv} (hs : Step env s e t) (hr : RelayInv env s) {j : Nat} {x' : Conn}
    (hj : t.conns.lookup j = some x') :
    (s.conns.lookup j = none ∧ ∃ name, x' = { name := name }) ∨ ∃ x, s.conns.lookup j = some x ∧ x.Moves env j e x' := by
  -- a step of connection `c` is nothing to the others
  have hput : ∀ {c : Nat} {conn conn' : Conn}, s.conns.lookup c = some conn → conn.Moves env c e conn' →
      (∀ now order, e ≠ .act j now order) ∨ j = c → (s.put c conn').conns.lookup j = some x' →
      ∃ x, s.conns.lookup j = some x ∧ x.Moves env j e x' := by
    intro c conn conn' hc hm he hj
    rcases Sys.lookup_put_some hj with ⟨rfl, rfl⟩ | ⟨hne, hj⟩
    · exact ⟨conn, hc, hm⟩
    · exact ⟨x', hj, .still e (he.resolve_right hne)⟩
  cases hs with
  | hello frame name hadm =>
    rcases Sys.lookup_put_some hj with ⟨rfl, rfl⟩ | ⟨-, hj⟩
    · refine .inl ⟨Option.eq_none_iff_forall_ne_some.mpr fun x hx => ?_, name, rfl⟩
      exact Nat.lt_irrefl _ (hr.below _ x hx)
    · exact .inr ⟨x', hj, .still _ (by simp)⟩
  | insert c conn registry hc hreg =>
    obtain ⟨name, hd, -⟩ := Option.map_eq_some_iff.mp hreg
    obtain ⟨x, hx, -, hst⟩ := hr.drawn c name hd
    cases hc.symm.trans hx
    exact .inr (hput hc (.inserted hst) (.inl (by simp)) hj)
  | drive e c conn conn' hc hd =>
    refine .inr (hput hc (.drives e _ conn' hd) (.inl fun now order he => ?_) hj)
    subst he; cases hd
  | read c branch conn writer hc hst hb => exact .inr (hput hc (.read branch _ writer hst) (.inl (by simp)) hj)
  | act c now order conn conn' late turn call rest writer answer s' hc hst ha hc' =>
    have hanswers := answer_answers hc ha
    rcases Sys.lookup_put_some hj with ⟨rfl, rfl⟩ | ⟨hne, hj⟩
    · refine .inr ⟨conn, hc, .act now order conn' late turn call rest writer answer hst (hanswers.calls hc hc' ?_)⟩
      rw [hst]; rfl
    · have he : ∀ now' order', RelayEv.act c now order ≠ .act j now' order' := by
        intro now' order' h
        cases h; exact hne rfl
      obtain ⟨x, hx, rfl | ⟨d, rfl⟩⟩ := hanswers.others hne hj
      · exact .inr ⟨x', hx, .still _ he⟩
      · exact .inr ⟨x, hx, .given _ d he⟩
  | drop c conn registry hc hst hreg =>
    refine .inr (hput hc (.retired _ _ (by simp) (.inl hst) ?_) (.inl (by simp)) hj)
    split
    · exact .inl rfl
    · exact .inr rfl
  | forget c conn hc hst => exact .inr (hput hc (.retired _ _ (by simp) (.inr hst) (.inr rfl)) (.inl (by simp)) hj)
  | transfer e store => exact .inr ⟨x', hj, .still _ (by simp)⟩
  | shutdown => exact .inr ⟨x', hj, .still _ (by simp)⟩

end OmpRelayd.Relay
