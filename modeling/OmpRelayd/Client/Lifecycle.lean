/-
  OmpRelayd.Client.Lifecycle — one connection at a time.

  What a run adds to the phases is its past. A client whose name was taken is `Displaced` until it
  is started again, and `Calm` says that no attempt to connect was made in between; a client in a
  phase, halted if it is displaced, with a calm past, is `Steady`, and every event leaves it so.

  Proved (`the_client_keeps_one_connection`): while the client runs it has a current socket or an
  armed reconnect timer, and never both; stopped, it has no socket, no timer and no request; it is
  ready only on a connection whose bytes held a `ready`; the other sockets are destroyed; and
  between a `peer_replaced` and the next attempt to connect there is a `start`.
-/

import OmpRelayd.Client.Phases
import OmpRelayd.Lib.Trace

namespace OmpRelayd.Client

section
variable {world : World} {p : Phase} {c c' c'' : RelayClient}

/-! ## Displacement -/

def Effect.Replaces (e : Effect) : Prop :=
  ∃ socket detail requestId, e = .dispatched socket (.error "peer_replaced" detail requestId)

/-- The name was lost, and the client not started since. -/
def Displaced (history : List Effect) : Prop := Since (· ≠ .started) Effect.Replaces history

/-- No attempt was made while displaced. -/
def Calm (history : List Effect) : Prop :=
  ∀ newer older, history = newer ++ .attempted :: older → ¬ Displaced older

theorem displaced_inner {new history : List Effect} (hnew : Inner new) :
    Displaced (new ++ history) ↔ Displaced history := by
  induction new with
  | nil => rfl
  | cons e new ih =>
    obtain ⟨he, hnew⟩ := List.forall_mem_cons.mp hnew
    rw [← ih hnew]
    constructor
    · rintro (⟨_, _, _, rfl⟩ | ⟨-, h⟩)
      · cases he
      · exact h
    · intro h
      have hne : e ≠ .started := by rintro rfl; cases he
      exact .inr ⟨hne, h⟩

theorem calm_cons {e : Effect} {history : List Effect} (h : Calm history)
    (he : e = .attempted → ¬ Displaced history) : Calm (e :: history) := by
  intro newer older hsplit
  cases newer with
  | nil =>
    obtain ⟨rfl, rfl⟩ := List.cons.inj hsplit
    exact he rfl
  | cons e' newer =>
    obtain ⟨rfl, rfl⟩ := List.cons.inj hsplit
    exact h newer older rfl

theorem calm_inner {new history : List Effect} (h : Calm history) (hnew : Inner new) : Calm (new ++ history) := by
  induction new with
  | nil => exact h
  | cons e new ih =>
    obtain ⟨he, hnew⟩ := List.forall_mem_cons.mp hnew
    exact calm_cons (ih hnew) fun e' => by rw [e'] at he; cases he

structure Steady (world : World) (c : RelayClient) : Prop where
  phase : ∃ p, InPhase world p c
  halted : Displaced c.history → c.stopped = true
  calm : Calm c.history

theorem Onward.steady (h : Onward world c c') (hc : Steady world c) : Steady world c' := by
  obtain ⟨new, hnew, he⟩ := h.later
  refine ⟨h.phase, ?_, ?_⟩
  · rw [he, displaced_inner hnew]
    exact fun hd => h.stopped (hc.halted hd)
  · rw [he]; exact calm_inner hc.calm hnew

/-! ## Receiving -/

theorem Steady.dispatch (hq : world.Quiet) (hc : Steady world c) {s : Nat} (hs : c.socket = some s) {frame : ServerFrame}
    (hgot : Got world s c.history frame) :
    Steady world ((c.record (.dispatched s frame)).dispatch world s frame) ∧
      heard s ((c.record (.dispatched s frame)).dispatch world s frame).history = heard s c.history := by
  obtain ⟨p, hp⟩ := hc.phase
  have hsilent : heard s (.dispatched s frame :: c.history) = heard s c.history := heard_record rfl
  have hp' : InPhase world p (c.record (.dispatched s frame)) := hp.record rfl
  have hgot' : Got world s (c.record (.dispatched s frame)).history frame := by
    unfold Got; rw [RelayClient.record, hsilent]; exact hgot
  obtain ⟨hon, hreplaced⟩ := hp'.dispatch hq hs hgot'
  obtain ⟨new, hnew, he⟩ := hon.later
  refine ⟨⟨hon.phase, ?_, ?_⟩, ?_⟩
  · rw [he, displaced_inner hnew]
    rintro (⟨_, detail, requestId, heq⟩ | ⟨-, hd⟩)
    · cases heq; exact hreplaced detail requestId rfl
    · exact hon.stopped (hc.halted hd)
  · rw [he]; exact calm_inner (calm_cons hc.calm nofun) hnew
  · rw [he, heard_silent fun e hmem => Effect.silent_of_inner (hnew e hmem)]; exact hsilent

theorem Steady.receiveValues (hq : world.Quiet) (hc : Steady world c) {s : Nat} (hs : c.socket = some s) {values : List Js}
    (hvalues : ∀ v ∈ values, v ∈ (received world.decode (heard s c.history)).values) :
    Steady world (c.receiveValues world s values).2 := by
  induction values generalizing c with
  | nil => exact hc
  | cons value values ih =>
    obtain ⟨hvalue, hvalues⟩ := List.forall_mem_cons.mp hvalues
    unfold RelayClient.receiveValues
    split
    · rename_i frame hframe
      obtain ⟨hsteady, hheard⟩ := hc.dispatch hq hs ⟨value, hvalue, hframe⟩
      simp only
      split
      · rename_i hs'
        exact ih hsteady hs' (by rw [hheard]; exact hvalues)
      · exact hsteady
    · rename_i type _
      obtain ⟨p, hp⟩ := hc.phase
      have ha := aside_report hq c .info s!"ignored an unrecognized {type} frame"
      obtain ⟨new, hnew, he⟩ := ha.later
      have hsteady := (ha.onward hp).steady hc
      simp only
      split
      · rename_i hs'
        refine ih hsteady hs' ?_
        rw [he, heard_silent fun e hmem => Effect.silent_of_inner (hnew e hmem)]
        exact hvalues
      · exact hsteady
    · obtain ⟨p, hp⟩ := hc.phase
      exact (hp.close hq s _).steady hc

theorem received_snoc (decode : Bytes → Except String Js) (chunks : List Bytes) (chunk : Bytes) :
    received decode (chunks ++ [chunk]) = (received decode chunks).push decode chunk := by
  rw [received, List.foldl_append]; rfl

/-- A chunk is pushed, before its values are looked at. -/
theorem InPhase.hear (h : InPhase world p c) {s : Nat} (hs : c.socket = some s) (chunk : Bytes) :
    let pushed := (received world.decode (heard s c.history)).acc.push world.decode chunk
    let c' := { c with accumulator := some pushed.2 }.record (.heard s chunk)
    InPhase world p c' ∧ ∀ v ∈ pushed.1.values, v ∈ (received world.decode (heard s c'.history)).values := by
  have hp : p.socket = some s := h.shape.socket.symm.trans hs
  have hheard : received world.decode (heard s (.heard s chunk :: c.history)) =
      (received world.decode (heard s c.history)).push world.decode chunk := by
    rw [heard_cons, received_snoc]
  refine ⟨⟨h.wired, h.owned, h.shape, ?_, ?_, ?_⟩, ?_⟩
  · intro s' chunk' hmem
    rcases List.mem_cons.mp hmem with heq | hmem
    · cases heq; exact h.owned.known s hs
    · exact h.past.known s' chunk' hmem
  · intro s' hs'
    cases hp.symm.trans hs'
    show _ = some (received world.decode (heard s (.heard s chunk :: c.history))).acc
    rw [hheard]; rfl
  · intro s' hs'
    have : p.socket = some s' := by rw [hs']; rfl
    cases hp.symm.trans this
    obtain ⟨version, value, hvalue, hvalid⟩ := h.past.welcomed s hs'
    refine ⟨version, value, ?_, hvalid⟩
    show value ∈ (received world.decode (heard s (.heard s chunk :: c.history))).values
    rw [hheard]
    exact List.mem_append_left _ hvalue
  · intro v hv
    show v ∈ (received world.decode (heard s (.heard s chunk :: c.history))).values
    rw [hheard]
    exact List.mem_append_right _ hv

theorem Steady.receive (hq : world.Quiet) (hc : Steady world c) {s : Nat} (hs : c.socket = some s) (chunk : Bytes) :
    Steady world (c.receive world s chunk) := by
  obtain ⟨p, hp⟩ := hc.phase
  have hacc := hp.past.reading s (hp.shape.socket.symm.trans hs)
  unfold RelayClient.receive
  rw [hacc]
  simp only
  rw [if_neg (not_not.mpr hs)]
  obtain ⟨hheard, hvalues⟩ := hp.hear hs chunk
  have hcalm : Steady world ({ c with accumulator := some _ }.record (.heard s chunk)) :=
    ⟨⟨p, hheard⟩, fun hd => hc.halted (hd.resolve_left nofun).2, calm_cons hc.calm nofun⟩
  have hwalked := hcalm.receiveValues hq hs hvalues
  split
  · obtain ⟨p', hp'⟩ := hwalked.phase
    exact (hp'.close hq s _).steady hwalked
  · exact hwalked

/-! ## Opening a connection -/

theorem heard_fresh {next : Nat} {history : List Effect} (h : ∀ s chunk, .heard s chunk ∈ history → s < next) :
    heard next history = [] := by
  rw [heard, List.filterMap_eq_nil_iff]
  intro e he
  have hmem := List.mem_reverse.mp he
  cases e with
  | heard s chunk => exact if_neg (Nat.ne_of_lt (h s chunk hmem))
  | _ => rfl

theorem InPhase.between (h : InPhase world p c) (hp : p.socket = none) : Between c :=
  have hs : c.socket = none := h.shape.socket.trans hp
  ⟨h.wired, hs ▸ h.owned, hs, h.shape.bare hp, h.past.known⟩

theorem Between.openConnection (hq : world.Quiet) (h : Between c) (hs : c.stopped = false)
    (hd : ¬ Displaced c.history) (hcalm : Calm c.history) : Steady world (c.openConnection world) := by
  obtain ⟨timers, w, he⟩ := c.clear_eq .reconnect h.wired
  unfold RelayClient.openConnection
  rw [RelayClient.cancelReconnect, he]
  have hcalm' : Calm (.attempted :: c.history) := calm_cons hcalm fun _ => hd
  have hd' : ¬ Displaced (.attempted :: c.history) := by
    rintro (⟨_, _, _, heq⟩ | ⟨-, h⟩)
    · cases heq
    · exact hd h
  have hknown : ∀ s chunk, .heard s chunk ∈ Effect.attempted :: c.history → s < c.nextSocket := by
    intro s chunk hmem
    rcases List.mem_cons.mp hmem with heq | hmem
    · cases heq
    · exact h.known s chunk hmem
  have hbare : Function.update c.handles .reconnect none .handshake = none ∧
      Function.update c.handles .reconnect none .heartbeat = none := by simpa using h.bare
  cases hconnect : world.connect c.connects with
  | some error =>
    simp only [hconnect]
    have hb : Between (RelayClient.record { c with
        timers := timers, handles := Function.update c.handles .reconnect none, state := .connecting
        accumulator := some {}, statedCause := none, connects := c.connects + 1 } .attempted) :=
      ⟨w, h.owned, h.socket, hbare, hknown⟩
    obtain ⟨hp, new, hnew, he⟩ := hb.schedule hq rfl hs s!"could not open a connection: {error}"
    refine ⟨⟨.waiting, hp⟩, ?_, ?_⟩
    · rw [he, displaced_inner hnew]
      exact fun hd => absurd hd hd'
    · rw [he]; exact calm_inner hcalm' hnew
  | none =>
    simp only [hconnect]
    refine ⟨⟨.opening c.nextSocket, w, h.owned.connect, ⟨rfl, hs, rfl, ?_, ?_, ?_⟩, ?_, ?_, ?_⟩,
      fun hd => absurd hd hd', hcalm'⟩
    · simp [RelayClient.record, Phase.waits]
    · intro hnone; cases hnone
    · intro hhalted; cases hhalted
    · intro s chunk hmem
      exact Nat.lt_succ_of_lt (hknown s chunk hmem)
    · rintro _ ⟨⟩
      show some _ = some (received world.decode (heard c.nextSocket (.attempted :: c.history))).acc
      rw [heard_fresh hknown]; rfl
    · intro s hready; cases hready

theorem not_displaced_started (history : List Effect) : ¬ Displaced (.started :: history) := by
  rintro (⟨_, _, _, heq⟩ | ⟨hne, -⟩)
  · cases heq
  · exact hne rfl

theorem Steady.start (hq : world.Quiet) (hc : Steady world c) : Steady world (c.start world) := by
  obtain ⟨p, hp⟩ := hc.phase
  have hrecord : InPhase world p (c.record .started) := hp.record rfl
  have hcalm : Calm (.started :: c.history) := calm_cons hc.calm nofun
  unfold RelayClient.start
  simp only
  split
  · rename_i hs
    have hhalted : p.socket = none := by
      have := hp.shape.stopped.symm.trans hs
      cases p <;> first | rfl | cases this
    have hb : Between { c.record .started with stopped := false, attempt := 0, outageReported := false } :=
      { hrecord.between hhalted with }
    exact hb.openConnection hq rfl (not_displaced_started _) hcalm
  · exact ⟨⟨p, hrecord⟩, fun hd => absurd hd (not_displaced_started _), hcalm⟩

/-! ## Stopping -/

theorem RelayClient.clear_all (w : Wired c.timers c.nextTimer c.handles c.pending) :
    ∃ timers, Wired timers c.nextTimer (fun _ => none) c.pending ∧
      c.cancelReconnect.clearHandshakeDeadline.clearHeartbeat = { c with timers := timers, handles := fun _ => none } := by
  obtain ⟨t1, w1, e1⟩ := c.clear_eq .reconnect w
  rw [cancelReconnect, e1]
  obtain ⟨t2, handles, w2, hreconnect, hbare, e2⟩ := RelayClient.clear_both (c := { c with
    timers := t1, handles := Function.update c.handles .reconnect none }) w1
  have hnone : handles = fun _ => none := by
    funext slot
    cases slot with
    | reconnect => exact hreconnect.trans (Function.update_self Slot.reconnect (none : Option Nat) c.handles)
    | handshake => exact hbare.1
    | heartbeat => exact hbare.2
  subst hnone
  exact ⟨t2, w2, e2⟩

theorem inPhase_hangUp (w : Wired c.timers c.nextTimer c.handles c.pending) (o : Owned c.sockets c.nextSocket c.socket)
    (hstate : c.state = .stopped) (hstopped : c.stopped = true) (hhandles : c.handles = fun _ => none)
    (hpending : c.pending = []) (hknown : ∀ s chunk, .heard s chunk ∈ c.history → s < c.nextSocket) :
    InPhase world .halted c.hangUp ∧ c.hangUp.history = c.history := by
  have hshape : Shape .halted c.state c.stopped none c.handles c.pending := by
    refine ⟨hstate, hstopped, rfl, ?_, fun _ => ?_, fun _ => hpending⟩
    · rw [hhandles]; rfl
    · rw [hhandles]; exact ⟨rfl, rfl⟩
  unfold RelayClient.hangUp
  split
  · rename_i hs
    exact ⟨⟨w, o, hs ▸ hshape, hknown, nofun, nofun⟩, rfl⟩
  · rename_i s hs
    exact ⟨⟨w, (hs ▸ o).release, hshape, hknown, nofun, nofun⟩, rfl⟩

theorem InPhase.stop (h : InPhase world p c) : Onward world c c.stop := by
  obtain ⟨timers, w, he⟩ := RelayClient.clear_all (c := RelayClient.record { c with
    stopped := true, generation := c.generation + 1, state := .stopped } .stopped) h.wired
  simp only [RelayClient.stop, he]
  generalize hc : RelayClient.mk .. = c'
  have ha := aside_failPending c' ⟨.stopped, "the client was stopped", none⟩
  have hpending := failPending_pending c' ⟨.stopped, "the client was stopped", none⟩
  have hlater : Later c.history c'.history := by
    subst hc
    exact ⟨[.stopped], List.forall_mem_singleton.mpr rfl, rfl⟩
  have hknown : ∀ s chunk, .heard s chunk ∈ c'.history → s < c'.nextSocket := by
    subst hc
    exact (h.record rfl).past.known
  obtain ⟨hp, hhistory⟩ : InPhase world .halted _ ∧ _ :=
    inPhase_hangUp (c := c'.failPending ⟨.stopped, "the client was stopped", none⟩)
      (by rw [ha.nextTimer, ha.handles]; subst hc; exact ha.wired w)
      (by rw [ha.sockets, ha.nextSocket, ha.socket]; subst hc; exact h.owned)
      (by rw [ha.state]; subst hc; rfl) (by rw [ha.stopped]; subst hc; rfl) (by rw [ha.handles]; subst hc; rfl)
      hpending (by rw [ha.nextSocket]; exact ha.known hknown)
  exact ⟨⟨.halted, hp⟩, fun _ => hp.shape.stopped, hhistory ▸ hlater.trans ha.later⟩

/-! ## Timers -/

theorem Steady.fire (hq : world.Quiet) (hc : Steady world c) {handle : Nat} {timer : Timer}
    (ht : c.timers.lookup handle = some timer) : Steady world (c.fire world handle timer) := by
  obtain ⟨p, hp⟩ := hc.phase
  have hheld := hp.wired.timers.kept handle timer ht
  cases timer with
  | reconnect =>
    have hh : c.handles .reconnect = some handle := hheld
    have hwait : p = .waiting := by
      have hw := hp.shape.waits
      rw [hh] at hw
      cases p <;> first | rfl | cases hw
    subst hwait
    have hs : c.stopped = false := hp.shape.stopped
    have hb : Between (c.spend handle .reconnect) := by
      refine ⟨hp.wired.clear hh, ?_, hp.shape.socket, ?_, hp.past.known⟩
      · exact (hp.between rfl).owned
      · simpa [RelayClient.spend] using hp.shape.bare rfl
    simp only [RelayClient.fire]
    rw [if_neg (by rw [show (c.spend handle .reconnect).stopped = false from hs]; nofun)]
    exact hb.openConnection hq hs (fun hd => by rw [hc.halted hd] at hs; cases hs) hc.calm
  | handshake socket =>
    have hspend : c.spend handle .handshake = c.clear .handshake := by
      rw [RelayClient.clear, show c.handles .handshake = some handle from hheld]; rfl
    obtain ⟨hcleared, hon⟩ := hp.clear .handshake (by nofun)
    rw [RelayClient.fire, hspend]
    exact (hon.trans (hcleared.close hq socket _)).steady hc
  | heartbeat =>
    simp only [RelayClient.fire]
    split
    · exact (hp.write hq .ping .ping).steady hc
    · exact hc
  | request key =>
    have hlapsed : InPhase world p (c.lapse handle key) := by
      refine ⟨hp.wired.lapse ht, hp.owned, { hp.shape with settled := fun h => ?_ }, hp.past⟩
      rw [RelayClient.lapse, hp.shape.settled h]; rfl
    have hon : Onward world c (c.lapse handle key) := ⟨⟨p, hlapsed⟩, id, .refl _⟩
    simp only [RelayClient.fire]
    split
    · have ha : Aside (c.lapse handle key) { c.lapse handle key with timedOut := key :: (c.lapse handle key).timedOut } :=
        { Aside.refl (c.lapse handle key) with }
      exact (hon.trans ((ha.trans (aside_settleKey _ _ _)).onward hlapsed)).steady hc
    · exact (hon.trans ((aside_settleKey _ _ _).onward hlapsed)).steady hc

/-! ## Runs -/

theorem Steady.hear (hc : Steady world c) {s : Nat} {listener : RelayClient → RelayClient}
    (h : c.hear s listener = some c') (hl : c.socket = some s → Steady world (listener c)) : Steady world c' := by
  obtain ⟨socket, hs, rfl⟩ := Option.map_eq_some_iff.mp h
  split
  · rename_i hlistening
    obtain ⟨p, hp⟩ := hc.phase
    exact hl (hp.owned.current_of_listening hs hlistening)
  · exact hc

theorem Steady.step (hq : world.Quiet) (hc : Steady world c) {event : Event} (h : step world c event = some c') :
    Steady world c' := by
  obtain ⟨p, hp⟩ := hc.phase
  cases event with
  | start => cases h; exact hc.start hq
  | stop => cases h; exact hp.stop.steady hc
  | call call => cases h; exact (hp.call hq call).steady hc
  | connected s =>
    simp only [Client.step] at h
    refine hc.hear h fun hs => ?_
    obtain ⟨harmed, hon⟩ := hp.rearm .handshake (.handshake s) hs (by nofun) rfl
    exact (hon.trans (harmed.write hq .hello _)).steady hc
  | data s chunk =>
    simp only [Client.step] at h
    exact hc.hear h fun hs => hc.receive hq hs chunk
  | errored s error | closed s =>
    simp only [Client.step] at h
    exact hc.hear h fun _ => (hp.close hq s _).steady hc
  | perished s =>
    obtain ⟨socket, hs, rfl⟩ := Option.map_eq_some_iff.mp h
    exact ⟨⟨p, hp.wired, hp.owned.perish hs, hp.shape, hp.past⟩, hc.halted, hc.calm⟩
  | fired handle =>
    obtain ⟨timer, ht, rfl⟩ := Option.map_eq_some_iff.mp h
    exact hc.fire hq ht
  | rejected promise error =>
    simp only [Client.step] at h
    split at h
    · cases h
      refine Onward.steady ?_ hc
      have hd : Aside c { c with detached := c.detached.erase promise } := { Aside.refl c with }
      unfold RelayClient.rejected
      simp only
      split
      · exact hd.onward hp
      · exact (hd.trans (aside_report hq _ _ _)).onward hp
    · cases h

theorem steady_init (world : World) : Steady world {} := by
  refine ⟨⟨.halted, ⟨?_, List.nodup_nil⟩, ⟨nofun, nofun, nofun⟩, ?_, nofun, nofun, nofun⟩, nofun, ?_⟩
  · have hnone : held (fun _ => none) [] = fun _ => none := by
      funext o
      cases o <;> rfl
    rw [hnone]
    exact Remembered.empty
  · exact ⟨rfl, rfl, rfl, rfl, fun _ => ⟨rfl, rfl⟩, fun _ => rfl⟩
  · intro newer older h
    cases newer <;> cases h

theorem steady_of_reach (hq : world.Quiet) {ok : RelayClient → Event → Prop} (h : Reach (step world) {} ok c) : Steady world c :=
  h.inv (P := Steady world) (steady_init world) fun _ _ _ hc _ => hc.step hq

/-- Between a displacement and an attempt after it the client was started. -/
theorem Calm.started_between {history newer between older : List Effect} {e : Effect} (h : Calm history)
    (hsplit : history = newer ++ .attempted :: between ++ e :: older) (he : e.Replaces) : .started ∈ between := by
  by_contra hno
  refine h newer (between ++ e :: older) (by rw [hsplit, List.append_assoc]; rfl) (Since.of_append he ?_)
  rintro n hn rfl
  exact hno hn

/-- Halted, the client has no timer at all. -/
theorem InPhase.no_timer (h : InPhase world .halted c) (handle : Nat) : c.timers.lookup handle = none := by
  by_contra hne
  obtain ⟨timer, ht⟩ := Option.ne_none_iff_exists'.mp hne
  have hheld := h.wired.timers.kept handle timer ht
  have hpending : c.pending = [] := h.shape.settled rfl
  have hwaits : c.handles .reconnect = none := by simpa [Phase.waits] using h.shape.waits
  obtain ⟨hhandshake, hheartbeat⟩ := h.shape.bare rfl
  cases timer <;> simp [Timer.owner, held, entryOf, hwaits, hhandshake, hheartbeat, hpending] at hheld

theorem InPhase.reconnect_iff (h : InPhase world p c) :
    (∃ handle, c.timers.lookup handle = some .reconnect) ↔ p = .waiting := by
  have hwaits := h.shape.waits
  constructor
  · rintro ⟨handle, ht⟩
    rw [show c.handles .reconnect = some handle from h.wired.timers.kept handle .reconnect ht] at hwaits
    cases p <;> first | rfl | cases hwaits
  · rintro rfl
    obtain ⟨handle, hh⟩ := Option.isSome_iff_exists.mp hwaits
    obtain ⟨timer, ht, howner⟩ := h.wired.timers.there (.slot .reconnect) handle hh
    cases timer with
    | reconnect => exact ⟨handle, ht⟩
    | _ => cases howner

end

/-- One connection at a time: what holds of the client in every state of every run. -/
theorem the_client_keeps_one_connection (world : World) (hq : world.Quiet) (c : RelayClient)
    (h : Reach (step world) {} Always c) :
    (c.stopped = false → Xor (∃ s, c.socket = some s) (∃ handle, c.timers.lookup handle = some .reconnect)) ∧
    (c.stopped = true → c.socket = none ∧ (∀ handle, c.timers.lookup handle = none) ∧ c.pending = []) ∧
    (c.state = .ready → ∃ s, c.socket = some s ∧ ∃ version, Got world s c.history (.ready version)) ∧
    (∀ s socket, c.sockets.lookup s = some socket → c.socket ≠ some s → socket.destroyed = true) ∧
    (∀ newer between older s detail requestId,
      c.history = newer ++ .attempted :: between ++ .dispatched s (.error "peer_replaced" detail requestId) :: older →
      .started ∈ between) := by
  have hc := steady_of_reach hq h
  obtain ⟨p, hp⟩ := hc.phase
  refine ⟨?_, ?_, ?_, fun s socket hs hne => (hp.owned.others s socket hs hne).2, ?_⟩
  · intro hs
    rw [hp.reconnect_iff, hp.shape.socket]
    have := hp.shape.stopped.symm.trans hs
    cases p with
    | halted => cases this
    | waiting => exact .inr ⟨rfl, nofun⟩
    | opening s => exact .inl ⟨⟨s, rfl⟩, nofun⟩
    | ready s => exact .inl ⟨⟨s, rfl⟩, nofun⟩
  · intro hs
    have := hp.shape.stopped.symm.trans hs
    cases p with
    | halted => exact ⟨hp.shape.socket, hp.no_timer, hp.shape.settled rfl⟩
    | _ => cases this
  · intro hs
    have := hp.shape.state.symm.trans hs
    cases p with
    | ready s => exact ⟨s, hp.shape.socket, hp.past.welcomed s rfl⟩
    | _ => cases this
  · intro newer between older s detail requestId hsplit
    exact hc.calm.started_between hsplit ⟨s, detail, requestId, rfl⟩

/-! ## A client that loses its name -/

def quietWorld : World where
  room := ⟨"relay", "review"⟩
  peer := "alice"
  description := fun _ => "not one value"
  lossy := fun _ => ""
  connect n := if n = 0 then some "no such host" else none
  write := fun _ => none
  delay := fun _ => 500
  host := fun _ _ => some {}

/-- `ready` of version 1 -/
def readyWire : Bytes :=
  [0, 0, 0, 22, 0x82, 0xa4, 0x74, 0x79, 0x70, 0x65, 0xa5, 0x72, 0x65, 0x61, 0x64, 0x79,
    0xa8, 0x70, 0x72, 0x6f, 0x74, 0x6f, 0x63, 0x6f, 0x6c, 1]

/-- `error` with the code `peer_replaced` -/
def replacedWire : Bytes :=
  [0, 0, 0, 31, 0x82, 0xa4, 0x74, 0x79, 0x70, 0x65, 0xa5, 0x65, 0x72, 0x72, 0x6f, 0x72,
    0xa4, 0x63, 0x6f, 0x64, 0x65, 0xad, 0x70, 0x65, 0x65, 0x72, 0x5f, 0x72, 0x65, 0x70, 0x6c, 0x61, 0x63, 0x65, 0x64]

theorem receive_frame {world : World} {c : RelayClient} {s : Nat} {wire : Bytes} {value : Js}
    (hs : c.socket = some s) (hacc : c.accumulator = some {}) (h : nextFrame world.decode wire = .item value []) :
    c.receive world s wire =
      (({ c with accumulator := some {} }.record (.heard s wire)).receiveValues world s [value]).2 := by
  unfold RelayClient.receive
  rw [hacc]
  simp only
  rw [push_frame _ h, if_neg (not_not.mpr hs)]
  simp

/-- One frame comes in one chunk. -/
def RelayClient.told (c : RelayClient) (world : World) (s : Nat) (wire : Bytes) (value : Js) : RelayClient :=
  ((RelayClient.record { c with accumulator := some {} } (.heard s wire)).receiveValues world s [value]).2

theorem step_told {world : World} {c : RelayClient} {s : Nat} {wire : Bytes} {value : Js} (hs : c.socket = some s)
    (hacc : c.accumulator = some {}) (hl : c.sockets.lookup s = some ⟨true, false⟩)
    (h : nextFrame world.decode wire = .item value []) : step world c (.data s wire) = some (c.told world s wire value) := by
  rw [step, RelayClient.hear, hl, RelayClient.told, ← receive_frame hs hacc h]
  rfl

def readyValue : Js := .record [("type", .string "ready"), ("protocol", .number 1)]

def replacedValue : Js := .record [("type", .string "error"), ("code", .string "peer_replaced")]

set_option maxRecDepth 4000 in
theorem nextFrame_ready : nextFrame quietWorld.decode readyWire = .item readyValue [] :=
  nextFrame_whole (by decide) (by decide) (by decide) rfl

set_option maxRecDepth 4000 in
theorem nextFrame_replaced : nextFrame quietWorld.decode replacedWire = .item replacedValue [] :=
  nextFrame_whole (by decide) (by decide) (by decide) rfl

/-- The first attempt throws, the second connects. -/
def afterHello : RelayClient := (run (step quietWorld) {} [.start, .fired 0, .connected 0]).getD {}

def afterReady : RelayClient := afterHello.receive quietWorld 0 readyWire

def afterReplaced : RelayClient := afterReady.receive quietWorld 0 replacedWire

theorem a_displaced_client_stays_down :
    (Reach (step quietWorld) {} Always afterReady ∧ afterReady.state = .ready ∧
      ∃ s, afterReady.socket = some s ∧ ∃ version, Got quietWorld s afterReady.history (.ready version)) ∧
    (Reach (step quietWorld) {} Always afterReplaced ∧ afterReplaced.stopped = true ∧
      afterReplaced.socket = none ∧ (∀ handle, afterReplaced.timers.lookup handle = none) ∧ afterReplaced.pending = []) := by
  have hq : quietWorld.Quiet := by rintro n callback _ ⟨⟩; rfl
  have hhello : Reach (step quietWorld) {} Always afterHello :=
    .of_run [.start, .fired 0, .connected 0] .init rfl
  have hready := receive_frame (c := afterHello) rfl rfl nextFrame_ready
  have hr : Reach (step quietWorld) {} Always afterReady := .step (.data 0 readyWire) hhello trivial rfl
  have hstate : afterReady.state = .ready := (congrArg RelayClient.state hready).trans rfl
  have hsocket : afterReady.socket = some 0 := (congrArg RelayClient.socket hready).trans rfl
  have hacc : afterReady.accumulator = some {} := (congrArg RelayClient.accumulator hready).trans rfl
  have hreplaced := receive_frame hsocket hacc nextFrame_replaced
  have hlistening : afterReady.sockets.lookup 0 = some ⟨true, false⟩ :=
    (congrArg (fun c => RelayClient.sockets c |>.lookup 0) hready).trans rfl
  have hr' : Reach (step quietWorld) {} Always afterReplaced := by
    refine .step (.data 0 replacedWire) hr trivial ?_
    rw [step, RelayClient.hear, hlistening]
    rfl
  have hstopped : afterReplaced.stopped = true := by
    refine (congrArg RelayClient.stopped hreplaced).trans ?_
    rw [show afterReady = _ from hready]
    rfl
  exact ⟨⟨hr, hstate, (the_client_keeps_one_connection quietWorld hq afterReady hr).2.2.1 hstate⟩, hr', hstopped,
    (the_client_keeps_one_connection quietWorld hq afterReplaced hr').2.1 hstopped⟩

end OmpRelayd.Client
