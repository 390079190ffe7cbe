/-
  OmpRelayd.Client.Stopping — a stop from inside a callback.

  The host may call `stop` while a method of the client is under way. What the method does after
  that is done to a client that is down: there is no socket to write to or to arm a timer for, and
  no request. One place forgets to look: the reconnect timer is armed after the outage has been
  reported, whatever the host did in the report (`a_stop_in_the_report_leaves_a_timer`).

  With a host that does not stop the client there a stop is final wherever it comes from
  (`a_stop_is_final`): after the event no timer is armed and no socket is current, and until the
  next start no attempt is made and no callback called. `Halted` is what a stop leaves, and every
  move keeps.
-/

import OmpRelayd.Client.Courses
import OmpRelayd.Client.Lifecycle

namespace OmpRelayd.Client

structure Halted (c : RelayClient) : Prop where
  stopped : c.stopped = true
  state : c.state = .stopped
  socket : c.socket = none
  pending : c.pending = []
  handles : ∀ slot, c.handles slot = none

section
variable {world : World} {law : RelayClient → Key → Prop} {c c' : RelayClient}

theorem halted_stop (c : RelayClient) : Halted c.stop := by
  obtain ⟨timers, new, -, he⟩ := c.stop_form
  rw [he]
  exact ⟨rfl, rfl, rfl, rfl, fun _ => rfl⟩

namespace Halted

theorem no_socket (h : Halted c) {s : Nat} (hs : c.socket = some s) : False := by
  rw [h.socket] at hs; cases hs

theorem settleKey (h : Halted c) (key : Key) (outcome : RequestOutcome) : Halted (c.settleKey key outcome).2 := by
  obtain ⟨timers, new, -, he⟩ := c.settleKey_form key outcome
  rw [he]
  exact ⟨h.stopped, h.state, h.socket, by simp [h.pending], h.handles⟩

end Halted

/-- What follows a stop in the same event leaves the client down. -/
theorem Move.halted (hc : world.Considerate) (hm : Move world law c c') (h : Halted c) : Halted c' := by
  cases hm with
  | stopped => exact halted_stop c
  | dispatched s frame hs | tornDown s reason hs | readied s hs hd | wrote s frame encoded hs hf
  | sent s entry encoded hs hr he hu hfirst => exact (h.no_socket hs).elim
  | displaced hs => exact absurd h.socket hs
  | connected hr hs hw => rw [h.stopped] at hr; cases hr
  | entered key kind encoded hr hnew hold hspace hlaw => rw [h.stopped] at hr; cases hr
  | armed slot timer ht hfree hlone hon =>
    by_cases hslot : slot = .reconnect
    · have hr := (hlone hslot).2 hc
      rw [h.stopped] at hr; cases hr
    · exact absurd h.socket (hon hslot)
  | cleared slot =>
    have hsame : c.clear slot = c := by rw [RelayClient.clear, h.handles slot]
    rw [hsame]; exact h
  | answered s frame older key outcome hh hr hs => exact h.settleKey key outcome
  | denied s message key outcome hd => exact h.settleKey key outcome
  | expired handle key hl =>
    obtain ⟨timers, new, -, he⟩ := c.expire_form world handle key
    rw [he]
    exact ⟨h.stopped, h.state, h.socket, by simp [h.pending], h.handles⟩
  | aside | passed | refused | perished => exact ⟨h.stopped, h.state, h.socket, h.pending, h.handles⟩

theorem Moves.stops (hc : world.Considerate) (hm : Moves world law c c') :
    ∃ new, c'.history = new ++ c.history ∧ (.stopped ∈ new → Halted c') := by
  induction hm with
  | refl => exact ⟨[], rfl, fun h => by cases h⟩
  | tail _ hm ih =>
    obtain ⟨new, he, hold⟩ := ih
    obtain ⟨new', he', hnew⟩ := hm.recorded
    refine ⟨new' ++ new, by rw [he', he, List.append_assoc], fun hs => ?_⟩
    rcases List.mem_append.mp hs with hs | hs
    · rw [hnew hs]; exact halted_stop _
    · exact hm.halted hc (hold hs)

/-! ## A client that is down -/

/-- An effect of a client that is down: it makes no attempt and calls no one. -/
def Effect.still : Effect → Bool
  | .attempted => false
  | .called _ => false
  | _ => true

theorem issue_stopped (hs : c.stopped = true) (request : Nat) (token : String) (kind : RequestKind) (frame : ClientFrame) :
    c.issue world request token kind frame =
      c.record (.settled request (.rejected ⟨.stopped, "the client is not running", none⟩)) := by
  rw [RelayClient.issue, if_pos hs]
  dsimp only
  rw [conclude_failed (by intro h; cases h)]

namespace Halted

theorem no_timer (h : Halted c) (hi : Intact c) (handle : Nat) : c.timers.lookup handle = none := by
  by_contra hne
  obtain ⟨timer, ht⟩ := Option.ne_none_iff_exists'.mp hne
  have hheld := hi.books.wired.timers.kept handle timer ht
  cases ho : timer.owner with
  | slot slot =>
    rw [ho, show held c.handles c.pending (.slot slot) = none from h.handles slot] at hheld; cases hheld
  | request key =>
    rw [ho, show held c.handles c.pending (.request key) = none by rw [h.pending]; rfl] at hheld; cases hheld

theorem hear (h : Halted c) (hi : Intact c) {s : Nat} {listener : RelayClient → RelayClient}
    (he : c.hear s listener = some c') : c' = c := by
  obtain ⟨socket, hs, rfl⟩ := Option.map_eq_some_iff.mp he
  split
  · rename_i hl
    exact (h.no_socket (hi.owned.current_of_listening hs hl)).elim
  · rfl

/-- A call is refused. -/
theorem call (h : Halted c) (call : Call) : ∃ error, c.call world call = c.refused call.kind call.token error := by
  unfold RelayClient.call
  dsimp only
  split
  · exact ⟨_, rfl⟩
  · refine ⟨⟨.stopped, "the client is not running", none⟩, issue_stopped ?_ ..⟩
    exact h.stopped

/-- Only a start wakes it. -/
theorem step (h : Halted c) (hi : Intact c) {e : Event} (hne : e ≠ .start) (he : step world c e = some c') :
    Halted c' ∧ ∃ new, c'.history = new ++ c.history ∧ ∀ x ∈ new, x.still = true := by
  have hsame : ∀ d : RelayClient, d = c → Halted d ∧ ∃ new, d.history = new ++ c.history ∧ ∀ x ∈ new, x.still = true := by
    rintro d rfl
    exact ⟨h, [], rfl, List.forall_mem_nil _⟩
  cases e with
  | start => exact absurd rfl hne
  | stop =>
    cases he
    obtain ⟨timers, new, hnew, hform⟩ := c.stop_form
    refine ⟨halted_stop c, new ++ [.stopped], by rw [hform]; simp, ?_⟩
    refine List.forall_mem_append.mpr ⟨fun x hx => ?_, List.forall_mem_singleton.mpr rfl⟩
    obtain ⟨r, kind, token, rfl⟩ := hnew x hx
    rfl
  | call call =>
    cases he
    obtain ⟨error, hcall⟩ := @Halted.call world c h call
    rw [hcall]
    refine ⟨⟨h.stopped, h.state, h.socket, h.pending, h.handles⟩, [_, _], rfl, ?_⟩
    exact List.forall_mem_cons.mpr ⟨rfl, List.forall_mem_singleton.mpr rfl⟩
  | connected s | data s chunk | errored s error | closed s =>
    rw [Client.step] at he
    exact hsame c' (h.hear hi he)
  | perished s =>
    obtain ⟨socket, -, rfl⟩ := Option.map_eq_some_iff.mp he
    exact ⟨⟨h.stopped, h.state, h.socket, h.pending, h.handles⟩, [], rfl, List.forall_mem_nil _⟩
  | fired handle =>
    obtain ⟨timer, ht, -⟩ := Option.map_eq_some_iff.mp he
    rw [h.no_timer hi handle] at ht; cases ht
  | rejected promise error =>
    simp only [Client.step] at he
    split at he
    · cases he
      rw [RelayClient.rejected, if_pos (.inl h.stopped)]
      exact ⟨⟨h.stopped, h.state, h.socket, h.pending, h.handles⟩, [], rfl, List.forall_mem_nil _⟩
    · cases he

end Halted

/-- In an event in which the client was stopped, whoever did it, the client went down. -/
theorem halted_of_stopped (hc : world.Considerate) (hi : Intact c) (hrest : Rest c) {e : Event}
    (he : step world c e = some c') {new : List Effect} (hnew : c'.history = new ++ c.history) (hs : .stopped ∈ new) :
    Halted c' := by
  rcases @step_course world (fun _ _ => True) c c' e hi hrest (fun _ _ => trivial) he with hcourse | ⟨-, -, hcourse⟩
  · obtain ⟨new', he', hstop⟩ := Moves.stops hc hcourse.moves
    rw [List.append_cancel_right (hnew.symm.trans he')] at hs
    exact hstop hs
  · obtain ⟨new', he', hstop⟩ := Moves.stops hc hcourse.moves
    have hsplit : new ++ c.history = (new' ++ [.started]) ++ c.history := by
      rw [← hnew, he', List.append_assoc]; rfl
    rw [List.append_cancel_right hsplit] at hs
    exact hstop ((List.mem_append.mp hs).resolve_right fun h => by cases List.mem_singleton.mp h)

end

theorem a_stop_is_final (world : World) (hc : world.Considerate) (c c' : RelayClient) (event : Event) (new : List Effect)
    (h : Reach (step world) {} Always c) (hstep : step world c event = some c') (hnew : c'.history = new ++ c.history)
    (hstop : .stopped ∈ new) :
    ((∀ handle, c'.timers.lookup handle = none) ∧ c'.socket = none) ∧
    ∀ c'', Reach (step world) c' (fun _ e => e ≠ .start) c'' →
      ∃ later, c''.history = later ++ c'.history ∧ .attempted ∉ later ∧ ∀ callback, .called callback ∉ later := by
  obtain ⟨hi, hrest⟩ := intact_of_reach h
  have hdown := halted_of_stopped hc hi hrest hstep hnew hstop
  obtain ⟨hi', hrest'⟩ := step_intact hi hrest hstep
  refine ⟨⟨hdown.no_timer hi', hdown.socket⟩, fun c'' h'' => ?_⟩
  have hstill : (Intact c'' ∧ Rest c'') ∧ Halted c'' ∧ ∃ later, c''.history = later ++ c'.history ∧ ∀ x ∈ later, x.still = true := by
    induction h'' with
    | init => exact ⟨⟨hi', hrest'⟩, hdown, [], rfl, List.forall_mem_nil _⟩
    | step e _ hne he ih =>
      obtain ⟨⟨hi, hrest⟩, hhalted, later, hlater, hstill⟩ := ih
      obtain ⟨hhalted', more, hmore, hstill'⟩ := hhalted.step hi hne he
      refine ⟨step_intact hi hrest he, hhalted', more ++ later, by rw [hmore, hlater, List.append_assoc], ?_⟩
      exact List.forall_mem_append.mpr ⟨hstill', hstill⟩
  obtain ⟨-, -, later, hlater, hstill⟩ := hstill
  refine ⟨later, hlater, fun hm => ?_, fun callback hm => ?_⟩
  · cases hstill _ hm
  · cases hstill _ hm

/-! ## A stop from a callback -/

/-- The host stops the client as soon as it is ready. -/
def briefWorld : World :=
  { quietWorld with host := fun _ callback => some { stops := decide (callback = .onReady) } }

def brief : RelayClient := (run (step briefWorld) {} [.start, .fired 0, .connected 0]).getD {}

theorem a_stop_when_ready_is_final :
    briefWorld.Considerate ∧ Reach (step briefWorld) {} Always brief ∧
      ∃ c' new, step briefWorld brief (.data 0 readyWire) = some c' ∧ c'.history = new ++ brief.history ∧ .stopped ∈ new ∧
        (∀ handle, c'.timers.lookup handle = none) ∧ c'.socket = none := by
  have hc : briefWorld.Considerate := by rintro n reason delay _ ⟨⟩; rfl
  have hbrief : Reach (step briefWorld) {} Always brief := .of_run [.start, .fired 0, .connected 0] .init rfl
  have hstep : step briefWorld brief (.data 0 readyWire) = some (brief.told briefWorld 0 readyWire readyValue) :=
    step_told rfl rfl rfl nextFrame_ready
  have hhistory : (brief.told briefWorld 0 readyWire readyValue).history =
      [.stopped, .called .onReady, .dispatched 0 (.ready 1), .heard 0 readyWire] ++ brief.history := rfl
  refine ⟨hc, hbrief, _, _, hstep, hhistory, List.mem_cons_self, ?_⟩
  exact (a_stop_is_final briefWorld hc brief _ (.data 0 readyWire) _ hbrief hstep hhistory List.mem_cons_self).1

/-- The host stops the client when it is told of the outage. -/
def hastyWorld : World :=
  { quietWorld with host := fun _ callback => match callback with
    | .onReport _ _ => some { stops := true }
    | _ => some {} }

theorem a_stop_in_the_report_leaves_a_timer :
    ∃ c, step hastyWorld {} .start = some c ∧ .stopped ∈ c.history ∧ c.stopped = true ∧
      c.timers.lookup 0 = some .reconnect := by
  refine ⟨RelayClient.start hastyWorld {}, rfl, ?_, rfl, rfl⟩
  exact List.mem_cons_self

end OmpRelayd.Client
