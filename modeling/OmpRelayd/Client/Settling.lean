/-
  OmpRelayd.Client.Settling — what becomes of a request.

  Requests are numbered in the order of their calls. In every run, whatever the host does in its
  callbacks, each is settled at most once, and until then it is pending with its deadline armed;
  the deadline, the end of a connection and a stop settle it. Its frame is written at most once,
  on a connection that was ready by then, before the request is settled, and after the frames of
  all older requests that are written at all. Before `ready` nothing is written but `hello`.

  Proved (`each_request_is_settled_once_and_written_once`), from the docket every move keeps.
-/

import OmpRelayd.Client.Courses
import OmpRelayd.Client.Lifecycle

namespace OmpRelayd.Client

section
variable {world : World} {c c' : RelayClient}

/-- With nothing pending every request has been settled. -/
theorem Intact.settled_of_empty (hi : Intact c) (hp : c.pending = []) {r : Nat} {kind : RequestKind} {token : String}
    (h : .issued r kind token ∈ c.history) : IsSettled c.history r :=
  hi.books.all_settled hp (hi.books.docket.issued r kind token h)

/-- The deadline of a request has come. -/
theorem settled_of_fired (hi : Intact c) {e : PendingRequest} (he : e ∈ c.pending) {handle : Nat} (ht : e.timer = some handle)
    (h : step world c (.fired handle) = some c') : IsSettled c'.history e.request := by
  obtain ⟨handle', ht', hl⟩ := hi.books.armed he
  cases ht.symm.trans ht'
  have hmove : Move world (fun _ _ => True) c (c.fire world handle (.request e.key)) := .expired handle e.key hl
  obtain ⟨timers, new, -, hform⟩ := c.expire_form world handle e.key
  obtain ⟨timer, htimer, rfl⟩ := Option.map_eq_some_iff.mp h
  cases hl.symm.trans htimer
  have hi' := hmove.intact hi
  rw [hform] at hi' ⊢
  rcases hi'.books.docket.accounted e.request (hi.books.docket.known e he) with hs | ⟨e', he', hr⟩
  · exact hs
  · -- of all entries only this one has its number, and it has gone
    obtain ⟨hmem, hkey⟩ := List.mem_filter.mp he'
    cases hi.books.docket.eq_of_request hmem he hr
    simp at hkey

/-- A connection ends in an event: then nothing is left pending. -/
theorem empty_of_ended (hi : Intact c) (hrest : Rest c) {event : Event} (h : step world c event = some c') {s : Nat}
    (hs : c.socket = some s) (hs' : c'.socket ≠ some s) : c'.pending = [] := by
  rcases @step_course world (fun _ _ => True) c c' event hi hrest (fun _ _ => trivial) h with hcourse | ⟨-, hstate, -⟩
  · exact ((hcourse.ends s hs).resolve_left hs').2
  · rw [(hi.posture.halted hstate).1] at hs; cases hs

end

theorem each_request_is_settled_once_and_written_once (world : World) (c : RelayClient)
    (h : Reach (step world) {} Always c) :
    -- at most once
    (∀ newer r settlement older, c.history = newer ++ .settled r settlement :: older → ¬ IsSettled older r) ∧
    -- until then it is pending, and its deadline is armed
    (∀ r kind token, .issued r kind token ∈ c.history → ¬ IsSettled c.history r →
      ∃ e ∈ c.pending, e.request = r ∧ ∃ handle, e.timer = some handle ∧ c.timers.lookup handle = some (.request e.key)) ∧
    (∀ e ∈ c.pending, ¬ IsSettled c.history e.request ∧
      ∃ handle, e.timer = some handle ∧ c.timers.lookup handle = some (.request e.key)) ∧
    -- at the latest now
    (∀ e ∈ c.pending, ∀ handle c', e.timer = some handle → step world c (.fired handle) = some c' →
      IsSettled c'.history e.request) ∧
    (∀ event c' s, step world c event = some c' → c.socket = some s → c'.socket ≠ some s →
      ∀ r kind token, .issued r kind token ∈ c'.history → IsSettled c'.history r) ∧
    (c.stopped = true → ∀ r kind token, .issued r kind token ∈ c.history → IsSettled c.history r) ∧
    -- what is written, when
    (∀ newer s r encoded older, c.history = newer ++ .wrote s (.request r) encoded :: older →
      ¬ Written older r ∧ ¬ IsSettled older r ∧ Welcomed older s) ∧
    (∀ newer s frame encoded older, c.history = newer ++ .wrote s frame encoded :: older → frame ≠ .hello →
      Welcomed older s) ∧
    -- in the order of the calls
    (∀ newer r kind token older, c.history = newer ++ .issued r kind token :: older →
      ∀ r' kind' token', .issued r' kind' token' ∈ older → r' < r) ∧
    (∀ newer s r encoded older, c.history = newer ++ .wrote s (.request r) encoded :: older →
      ∀ r', Written older r' → r' < r) := by
  obtain ⟨hi, hrest⟩ := intact_of_reach h
  have hd := hi.books.docket
  have hwrote : ∀ newer s frame encoded older, c.history = newer ++ .wrote s frame encoded :: older →
      (frame ≠ .hello → Welcomed older s) ∧
        ∀ r, frame = .request r → ¬ IsSettled older r ∧ ∀ r', Written older r' → r' < r :=
    fun newer s frame encoded older he => hd.each newer (.wrote s frame encoded) older he
  refine ⟨fun newer r settlement older he => hd.each newer _ older he, ?_, fun e he => ⟨hd.unsettled e he, hi.books.armed he⟩,
    fun e he handle c' ht hs => settled_of_fired hi he ht hs, ?_, ?_, ?_, fun newer s frame encoded older he =>
      (hwrote newer s frame encoded older he).1, fun newer r kind token older he => hd.each newer _ older he,
    fun newer s r encoded older he => ((hwrote newer s _ encoded older he).2 r rfl).2⟩
  · intro r kind token hissued hopen
    obtain ⟨e, he, hr⟩ := (hd.accounted r (hd.issued r kind token hissued)).resolve_left hopen
    exact ⟨e, he, hr, hi.books.armed he⟩
  · intro event c' s hstep hs hs' r kind token hissued
    exact (step_intact hi hrest hstep).1.settled_of_empty (empty_of_ended hi hrest hstep hs hs') hissued
  · intro hstopped r kind token hissued
    exact hi.settled_of_empty (hi.posture.halted (hrest.halted hstopped)).2 hissued
  · intro newer s r encoded older he
    obtain ⟨hready, hrequest⟩ := hwrote newer s _ encoded older he
    obtain ⟨hopen, hold⟩ := hrequest r rfl
    exact ⟨fun hw => Nat.lt_irrefl r (hold r hw), hopen, hready (by intro heq; cases heq)⟩

/-! ## A request that waits for its connection -/

def afterCall : RelayClient :=
  (run (step quietWorld) {} [.start, .fired 0, .call (.list "roster"), .connected 0]).getD {}

def afterFlush : RelayClient := afterCall.told quietWorld 0 readyWire readyValue

/-- `list` with the token `roster` -/
def rosterWire : Bytes :=
  [0, 0, 0, 29, 0x82, 0xa4, 0x74, 0x79, 0x70, 0x65, 0xa4, 0x6c, 0x69, 0x73, 0x74,
    0xaa, 0x72, 0x65, 0x71, 0x75, 0x65, 0x73, 0x74, 0x5f, 0x69, 0x64, 0xa6, 0x72, 0x6f, 0x73, 0x74, 0x65, 0x72]

set_option maxRecDepth 4000 in
theorem a_waiting_request_is_written_when_ready :
    Reach (step quietWorld) {} Always afterFlush ∧
      ∃ newer older, afterFlush.history = newer ++ .wrote 0 (.request 0) rosterWire :: older ∧
        ¬ Written older 0 ∧ ¬ IsSettled older 0 ∧ Welcomed older 0 := by
  have hcall : Reach (step quietWorld) {} Always afterCall :=
    .of_run [.start, .fired 0, .call (.list "roster"), .connected 0] .init rfl
  have hflush : Reach (step quietWorld) {} Always afterFlush :=
    .step (.data 0 readyWire) hcall trivial (step_told rfl rfl rfl nextFrame_ready)
  have hhistory : afterFlush.history = [.called .onReady] ++ .wrote 0 (.request 0) rosterWire ::
      .dispatched 0 (.ready 1) :: .heard 0 readyWire :: afterCall.history := rfl
  refine ⟨hflush, [.called .onReady], _, hhistory, ?_⟩
  exact (each_request_is_settled_once_and_written_once quietWorld afterFlush hflush).2.2.2.2.2.2.1 _ 0 0 rosterWire _ hhistory

end OmpRelayd.Client
