/-
  OmpRelayd.Relay.Superseded — what a connection still does after it lost its name.

  The eviction flag is one branch of the reader's `select!` among others, and nothing gives it
  precedence: when a frame is ready too, either may be taken. A frame taken so is handled like
  any other, under a name that is by then someone else's
  (`a_superseded_connection_still_sends`).

  Proved (`a_superseded_connection_stops_acting`): if no reader takes a frame that asks for an
  effect once its flag is set, unless the reply channel is too full to acknowledge it, then
  nothing a superseded connection takes puts anything into a queue or changes the store.
-/

import OmpRelayd.Relay.Conns

namespace OmpRelayd.Relay

/-- The reader takes a frame that asks for an effect after its name was lost, with room to
    acknowledge it. -/
def readsLate (env : Env) (s : Sys) : RelayEv → Bool
  | .read c branch => s.evicted c && requests env branch.frame &&
      (s.conns.lookup c).any fun conn => diagnosticReserve < conn.capacity
  | _ => false

/-- The frame cannot get as far as an effect. -/
def Barred (env : Env) (conn : Conn) : Turn → Prop
  | .fresh free => requests env conn.current = false ∨ conn.capacity ≤ diagnosticReserve ∧ slotFree free = false
  | .replied => True
  | .closing => True
  | _ => False

def LateInv (env : Env) (s : Sys) : Prop :=
  ∀ c conn turn rest writer, s.conns.lookup c = some conn → conn.stage = .pumping (.busy true turn rest) writer →
    Barred env conn turn

variable {env : Env} {s t : Sys} {c : Nat} {conn conn' : Conn}

/-! ## Under the condition nothing comes of a late frame -/

section
variable {now : Nat} {turn : Turn} {call : Call} {answer : call.Answer}

/-- A barred frame is answered or not, and that is all. -/
theorem Barred.effectless (h : Barred env conn turn) (hc : s.conns.lookup c = some conn)
    (ha : Answers s c conn now call answer t) (hmay : mayCall env (registeredPeer c conn) conn.current turn call) :
    (∀ o, queueOf t o = queueOf s o) ∧ t.store = s.store := by
  cases turn with
  | fresh free =>
    cases ha with
    | capacity => exact ⟨fun _ => rfl, rfl⟩
    | listPeers room => exact ⟨fun _ => rfl, rfl⟩
    | sent reply | notSent reply error | claimed | notClaimed => exact ⟨queueOf_put_same hc rfl, rfl⟩
    | _ => exact hmay.elim
  | replied => exact hmay.elim
  | closing => exact hmay.elim
  | _ => exact h.elim

theorem Barred.next (h : Barred env conn turn) (ha : Answers s c conn now call answer t)
    (hmay : mayCall env (registeredPeer c conn) conn.current turn call) (hc : s.conns.lookup c = some conn)
    (hc' : t.conns.lookup c = some conn') (stage : Stage) :
    Barred env { conn' with stage := stage } (nextTurn conn.current turn call answer) := by
  cases turn with
  | fresh free =>
    cases ha with
    | capacity =>
      cases hc.symm.trans hc'
      refine h.imp_right fun ⟨hfull, _⟩ => ⟨hfull, ?_⟩
      exact decide_eq_false (Nat.not_lt.mpr hfull)
    | listPeers room =>
      cases hc.symm.trans hc'
      exact h
    | sent reply => simp only [nextTurn]; split <;> trivial
    | notSent reply error => simp only [nextTurn]; split <;> trivial
    | claimed =>
      -- the slot is claimed only for a request, and only where one was found free
      obtain ⟨hreq, hfree⟩ := hmay
      rcases h with h | ⟨-, h⟩
      · rw [h] at hreq; cases hreq
      · rw [h] at hfree; cases hfree
    | notClaimed =>
      obtain ⟨hreq, hfree⟩ := hmay
      rcases h with h | ⟨-, h⟩
      · rw [h] at hreq; cases hreq
      · rw [h] at hfree; cases hfree
    | _ => exact hmay.elim
  | replied => exact hmay.elim
  | closing => exact hmay.elim
  | _ => exact h.elim

end

theorem LateInv.put (h : LateInv env s)
    (hb : ∀ turn rest writer, conn'.stage = .pumping (.busy true turn rest) writer → Barred env conn' turn) :
    LateInv env (s.put c conn') := by
  intro j x turn rest writer hj hst
  rcases Sys.lookup_put_some hj with ⟨rfl, rfl⟩ | ⟨-, hj⟩
  · exact hb turn rest writer hst
  · exact h j x turn rest writer hj hst

theorem LateInv.put_idle (h : LateInv env s) (c : Nat) {conn' : Conn} (hidle : conn'.stage.idle = true) :
    LateInv env (s.put c conn') := by
  refine h.put fun turn rest writer hst => ?_
  rw [hst] at hidle; cases hidle

theorem Step.late {e : RelayEv} (hs : Step env s e t) (hr : RelayInv env s) (hok : readsLate env s e = false)
    (h : LateInv env s) : LateInv env t := by
  cases hs with
  | hello frame name hadm => exact h.put_idle s.registry.nextConnectionId rfl
  | insert c conn registry hc hreg => exact h.put_idle c rfl
  | drive e c conn conn' hc hd => exact h.put_idle c hd.kept.idle
  | read c branch conn writer hc hst hb =>
    refine h.put fun turn rest writer' hst' => ?_
    obtain ⟨hbusy, -⟩ := Stage.pumping.inj hst'
    obtain ⟨hflag, rfl, -⟩ := Reader.of_busy hbusy
    simp only [readsLate, ← hflag, hc, Option.any_some, Bool.true_and, Bool.and_eq_false_iff, decide_eq_false_iff_not,
      Nat.not_lt] at hok
    refine hok.imp (fun hreq => ?_) fun hfull => ⟨hfull, rfl⟩
    rw [Conn.current_read]; exact hreq
  | act c now order conn conn' late turn call rest writer answer s' hc hst ha hc' =>
    have ha := answer_answers hc ha
    intro j x turn' rest' writer' hj hst'
    rcases Sys.lookup_put_some hj with ⟨rfl, rfl⟩ | ⟨hne, hj⟩
    · obtain ⟨hb, -⟩ := Stage.pumping.inj hst'
      obtain ⟨rfl, rfl, -⟩ := Reader.of_busy hb
      have hmay := ((hr.keeps j conn hc true turn _ writer hst).1.answer answer).1
      exact (h j conn turn _ writer hc hst).next ha hmay hc hc' _
    · obtain ⟨x₀, hx₀, rfl | ⟨d, rfl⟩⟩ := ha.others hne hj
      · exact h j x turn' rest' writer' hx₀ hst'
      · exact h j x₀ turn' rest' writer' hx₀ hst'
  | drop c conn registry hc hst hreg =>
    refine h.put_idle c ?_
    dsimp only
    split <;> rfl
  | forget c conn hc hst => exact h.put_idle c rfl
  | transfer e store => exact h
  | shutdown => exact h

theorem late_inv (h : RelayReach env (fun s e => readsLate env s e = false) s) : LateInv env s := by
  refine (h.inv (P := fun s => RelayInv env s ∧ LateInv env s) ⟨.init, ?_⟩ fun _ _ _ hi hok hs =>
    ⟨(relayStep_step hs).relayInv hi.1, (relayStep_step hs).late hi.1 hok hi.2⟩).2
  intro c conn turn rest writer hc
  simp at hc

theorem a_superseded_connection_stops_acting {env : Env} {s : Sys}
    (h : RelayReach env (fun s e => readsLate env s e = false) s) {c now : Nat} {order : List Nat} {conn : Conn}
    {turn : Turn} {rest : Handler ControlFlow} {writer : Writer} (hc : s.conns.lookup c = some conn)
    (hlate : conn.stage = .pumping (.busy true turn rest) writer) {t : Sys}
    (hact : relayStep env s (.act c now order) = some t) :
    (∀ o, queueOf t o = queueOf s o) ∧ t.store = s.store := by
  have hbarred := late_inv h c conn turn rest writer hc hlate
  cases relayStep_step hact with
  | drive _ _ _ _ _ hd => cases hd
  | act _ _ _ x x' late turn' call rest' writer' answer s' hx hst ha hx' =>
    cases hc.symm.trans hx
    cases hlate.symm.trans hst
    have ha := answer_answers hc ha
    have hmay := (((relay_inv h).keeps c conn hc true turn _ writer hst).1.answer answer).1
    obtain ⟨hqueues, hstore⟩ := hbarred.effectless hc ha hmay
    exact ⟨fun o => (queueOf_put_same hx' (by rfl) o).trans (hqueues o), hstore⟩

/-! ## Without it -/

/-- Alice connects again while her old connection is still there, and that one takes a frame
    with its flag set. -/
def reconnected (frame : ClientFrame) (calls : Nat) : List RelayEv :=
  joining 1 ["alice", "bob", "alice"] ++ reads 1 frame :: acts 1 calls []

def lateSend : Sys := (run (relayStep oneByte) {} (reconnected greeting 3)).getD {}

def latePing : Sys := (run (relayStep oneByte) {} (reconnected .ping 1)).getD {}

def latePong : Sys := (run (relayStep oneByte) {} (reconnected .ping 2)).getD {}

theorem a_superseded_connection_still_sends :
    RelayReach oneByte Always lateSend ∧ holder lateSend.registry.rooms ⟨lobby, "alice"⟩ = some 3 ∧
      ∃ conn turn rest writer t, lateSend.conns.lookup 1 = some conn ∧ conn.name = ⟨lobby, "alice"⟩ ∧
        conn.stage = .pumping (.busy true turn rest) writer ∧ relayStep oneByte lateSend (.act 1 0 []) = some t ∧
        queueOf lateSend 2 = some [] ∧ queueOf t 2 = some [[0]] :=
  ⟨.of_run (reconnected greeting 3) .init rfl, rfl, _, _, _, _, _, rfl, rfl, rfl, rfl, rfl, rfl⟩

theorem a_superseded_connection_stops_acting_sample :
    RelayReach oneByte (fun s e => readsLate oneByte s e = false) latePing ∧
      relayStep oneByte latePing (.act 1 0 []) = some latePong ∧
      (∃ conn turn rest writer, latePing.conns.lookup 1 = some conn ∧
        conn.stage = .pumping (.busy true turn rest) writer) ∧
      (∀ o, queueOf latePong o = queueOf latePing o) ∧ latePong.store = latePing.store := by
  have hr : RelayReach oneByte (fun s e => readsLate oneByte s e = false) latePing :=
    .of_runIf (fun s e => !readsLate oneByte s e) (fun _ _ => (Bool.not_eq_true' _).mp) (reconnected .ping 1) .init rfl
  have hact : relayStep oneByte latePing (.act 1 0 []) = some latePong := rfl
  exact ⟨hr, hact, ⟨_, _, _, _, rfl, rfl⟩, a_superseded_connection_stops_acting hr rfl rfl hact⟩

end OmpRelayd.Relay
