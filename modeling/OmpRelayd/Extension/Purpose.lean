/-
  OmpRelayd.Extension.Purpose — the purpose is handed over once (extension/src/index.ts:
  `pendingPurpose`, `purposeDelivered`, `armPurpose`, `connect`, `performJoin`).

  What the operator wrote of the machine's purpose reaches the session in one of two ways: in the
  report of a join under `manual`, or ahead of the first delivery under `auto`. A resolution under
  `auto` leaves a debt that the next delivery pays; a report under `manual` is itself the payment
  and leaves none. The mode is read anew by each join, and joins overlap, so both ways may be open
  at once.

  What is owed is a matter of the session's past (`Owed`): the latest resolution under `auto`, if
  no report under `manual` has come since. `Purposes` says that the two variables know it, as long
  as nothing was handed over, and that they know when something was.

  A delivery takes the purpose before it makes the calls that hand it over, and a call may throw.
  What follows is kept for the runs in which no such throw has a purpose to lose (`Spared`).

  Proved (`the_purpose_is_handed_over_once`): in every run with a host whose calls do not throw,
  at most one report or injection of a session carries a purpose, a superseded join carries none,
  and no join or delivery that is to carry one goes without.
-/

import OmpRelayd.Extension.Session

namespace OmpRelayd.Extension

/-! ## What is owed -/

/-- The purpose is handed over with it. -/
def Act.carries : Act → Bool
  | .completed _ report => report.purpose.isSome
  | .injected _ _ purpose _ => purpose.isSome
  | _ => false

/-- What was owed before it is not owed for that any more. -/
def Act.settles : Act → Bool
  | .armed resolved => resolved.startup = .auto
  | .completed resolved _ => resolved.startup = .manual
  | .sessionStarted => true
  | .sessionShutDown => true
  | _ => false

def thisSession (acts : List Act) : List Act := acts.takeWhile (· ≠ .sessionStarted)

def handedOver (acts : List Act) : Bool := (thisSession acts).any Act.carries

/-- The latest resolution under `auto` had this purpose, and nothing has settled it. -/
def Owed (acts : List Act) (purpose : String) : Prop :=
  ∃ newer resolved older, acts = newer ++ .armed resolved :: older ∧ resolved.startup = .auto ∧
    resolved.purpose = some purpose ∧ ∀ act ∈ newer, act.settles = false

/-- A report carries the purpose if it is to, and an injection the one it is said to. -/
def Act.Honest (act : Act) (past : List Act) : Prop :=
  match act with
  | .completed resolved report => ∀ purpose, resolved.startup = .manual → resolved.purpose = some purpose →
      report.purpose = some purpose ∨ handedOver past = true
  | .injected _ injection purpose _ => ∃ delivery room, injection = buildInboundInjection delivery room purpose
  | _ => True

structure Purposes (pending : Option String) (delivered : Bool) (acts : List Act) : Prop where
  delivered : delivered = handedOver acts
  once : (thisSession acts).countP Act.carries ≤ 1
  owed : handedOver acts = false → ∀ purpose, Owed acts purpose → pending = some purpose
  paid : handedOver acts = true → pending = none
  honest : Each Act.Honest acts

section
variable {pending : Option String} {delivered : Bool} {act : Act} {acts : List Act} {resolved : ResolvedClient}

theorem thisSession_cons (h : act ≠ .sessionStarted) : thisSession (act :: acts) = act :: thisSession acts :=
  List.takeWhile_cons_of_pos (decide_eq_true h)

theorem handedOver_cons (h : act ≠ .sessionStarted) : handedOver (act :: acts) = (act.carries || handedOver acts) := by
  rw [handedOver, thisSession_cons h]
  rfl

/-- What is owed after an act was owed before it, unless it is the resolution itself. -/
theorem Owed.of_cons {purpose : String} (h : Owed (act :: acts) purpose) :
    (∃ resolved, act = .armed resolved ∧ resolved.startup = .auto ∧ resolved.purpose = some purpose) ∨
      (act.settles = false ∧ Owed acts purpose) := by
  obtain ⟨newer, resolved, older, heq, hauto, hpurpose, hnewer⟩ := h
  cases newer with
  | nil =>
    cases heq
    exact .inl ⟨resolved, rfl, hauto, hpurpose⟩
  | cons first newer =>
    cases heq
    obtain ⟨hfirst, hnewer⟩ := List.forall_mem_cons.1 hnewer
    exact .inr ⟨hfirst, newer, resolved, older, rfl, hauto, hpurpose, hnewer⟩

theorem not_owed_of_settles {purpose : String} (hsettles : act.settles = true)
    (harmed : ∀ resolved, act ≠ .armed resolved) : ¬ Owed (act :: acts) purpose := by
  intro h
  rcases h.of_cons with ⟨resolved, heq, -, -⟩ | ⟨hnot, -⟩
  · exact harmed resolved heq
  · rw [hsettles] at hnot
    cases hnot

theorem countP_eq_zero_of_not_handedOver (h : handedOver acts = false) : (thisSession acts).countP Act.carries = 0 := by
  rw [List.countP_eq_zero]
  intro act hact hcarries
  exact absurd hcarries (List.any_eq_false.1 h act hact)

namespace Purposes

/-- An act that neither hands anything over nor settles anything. -/
theorem add (h : Purposes pending delivered acts) (hcarries : act.carries = false) (hsettles : act.settles = false)
    (hhonest : act.Honest acts) : Purposes pending delivered (act :: acts) := by
  have hne : act ≠ .sessionStarted := by
    intro heq
    rw [heq] at hsettles
    cases hsettles
  have hhanded : handedOver (act :: acts) = handedOver acts := by rw [handedOver_cons hne, hcarries, Bool.false_or]
  refine ⟨?_, ?_, ?_, ?_, .cons hhonest h.honest⟩
  · rw [hhanded]; exact h.delivered
  · rw [thisSession_cons hne, List.countP_cons_of_neg (by simp [hcarries])]
    exact h.once
  · intro hnot purpose howed
    rcases howed.of_cons with ⟨resolved, heq, hauto, -⟩ | ⟨-, howed⟩
    · rw [heq] at hsettles
      simp [Act.settles, hauto] at hsettles
    · exact h.owed (hhanded.symm.trans hnot) purpose howed
  · intro hyes
    exact h.paid (hhanded.symm.trans hyes)

/-- An act that settles what was owed, and leaves nothing. -/
theorem settle (h : Purposes pending delivered acts) (hne : act ≠ .sessionStarted) (hcarries : act.carries = false)
    (hsettles : act.settles = true) (harmed : ∀ resolved, act ≠ .armed resolved) (hhonest : act.Honest acts) :
    Purposes none delivered (act :: acts) := by
  have hhanded : handedOver (act :: acts) = handedOver acts := by rw [handedOver_cons hne, hcarries, Bool.false_or]
  refine ⟨?_, ?_, ?_, fun _ => rfl, .cons hhonest h.honest⟩
  · rw [hhanded]; exact h.delivered
  · rw [thisSession_cons hne, List.countP_cons_of_neg (by simp [hcarries])]
    exact h.once
  · intro _ purpose howed
    exact absurd howed (not_owed_of_settles hsettles harmed)

/-- An act that hands a purpose over, the first of its session to. -/
theorem handOver (h : Purposes pending delivered acts) (hfirst : handedOver acts = false) (hne : act ≠ .sessionStarted)
    (hcarries : act.carries = true) (hhonest : act.Honest acts) : Purposes none true (act :: acts) := by
  have hhanded : handedOver (act :: acts) = true := by rw [handedOver_cons hne, hcarries, Bool.true_or]
  refine ⟨hhanded.symm, ?_, ?_, fun _ => rfl, .cons hhonest h.honest⟩
  · rw [thisSession_cons hne, List.countP_cons_of_pos (by simp [hcarries]), countP_eq_zero_of_not_handedOver hfirst]
  · intro hnot
    rw [hhanded] at hnot
    cases hnot

theorem start (h : Purposes pending delivered acts) : Purposes none false (.sessionStarted :: acts) := by
  refine ⟨rfl, Nat.zero_le 1, ?_, fun _ => rfl, .cons trivial h.honest⟩
  intro _ purpose howed
  exact absurd howed (not_owed_of_settles rfl (by intro resolved heq; cases heq))

theorem arm (h : Purposes pending delivered acts) (hauto : resolved.startup = .auto) :
    Purposes (if delivered then none else resolved.purpose) delivered (.armed resolved :: acts) := by
  have hhanded : handedOver (.armed resolved :: acts) = handedOver acts := handedOver_cons (by intro heq; cases heq)
  have hdelivered := h.delivered
  refine ⟨?_, ?_, ?_, ?_, .cons trivial h.honest⟩
  · rw [hhanded]; exact hdelivered
  · rw [thisSession_cons (by intro heq; cases heq)]
    exact h.once
  · intro hnot purpose howed
    rw [hhanded, ← hdelivered] at hnot
    rcases howed.of_cons with ⟨found, heq, -, hpurpose⟩ | ⟨hsettles, -⟩
    · cases heq
      rw [hnot, hpurpose]
      rfl
    · simp [Act.settles, hauto] at hsettles
  · intro hyes
    rw [hhanded, ← hdelivered] at hyes
    rw [hyes]
    rfl

end Purposes

end

/-! ## Procedures -/

/-- The call of the host's that throws, if one does. -/
def SessionEv.throws : SessionEv → Option Session.HostCall
  | .delivery _ _ _ throws => throws
  | _ => none

def Hosted (_ : Session) (e : SessionEv) : Prop := e.throws = none

/-- The purpose a delivery takes. -/
def SessionEv.takes (s : Session) : SessionEv → Option String
  | .delivery _ frame idle _ => if decide (frame.type = .notice) && !idle then none else s.pendingPurpose
  | _ => none

/-- A delivery that takes a purpose gets to hand it over. -/
def Spared (s : Session) (e : SessionEv) : Prop := e.takes s = none ∨ e.throws = none ∨ e.throws = some .isIdle

instance (s : Session) (e : SessionEv) : Decidable (Spared s e) := inferInstanceAs (Decidable (_ ∨ _ ∨ _))

/-- What comes of a delivery that took this purpose, by the call that throws: it ends there. -/
inductive Session.Handled (s : Session) (client : Nat) (room : RoomId) (delivery : DeliveryFrame) (purpose : Option String)
    (deferred : Bool) : Option HostCall → Session → Prop
  | unseen (count : Nat) : Handled s client room delivery purpose deferred (some .isIdle) { s with receptionCount := count }
  | taken (count : Nat) : Handled s client room delivery purpose deferred (some .appendEntry)
      { s.claimPurpose purpose with receptionCount := count }
  | appended (count : Nat) (entryType : String) (details : InboundDetails) :
      Handled s client room delivery purpose deferred (some .sendUserMessage)
        { s.claimPurpose purpose with receptionCount := count, acts := .appended entryType details :: s.acts }
  | injected (throws : Option HostCall) (hthrows : throws = none ∨ throws = some .isIdle) (count : Nat) (entryType : String)
      (details : InboundDetails) :
      Handled s client room delivery purpose deferred throws { s.claimPurpose purpose with
        receptionCount := count
        acts := .injected client (buildInboundInjection delivery room purpose) purpose deferred ::
          .appended entryType details :: s.acts }

theorem Session.claimPurpose_acts (s : Session) (purpose : Option String) : (s.claimPurpose purpose).acts = s.acts := by
  cases purpose <;> rfl

theorem Session.deliver_handled (s : Session) (client : Nat) (room : RoomId) (delivery : DeliveryFrame) (idle : Bool)
    (throws : Option HostCall) {deferred : Bool} {purpose : Option String}
    (hdeferred : (decide (delivery.type = .notice) && !idle) = deferred)
    (hpurpose : (if deferred then none else s.pendingPurpose) = purpose) :
    s.Handled client room delivery purpose deferred throws (s.deliver client room delivery idle throws) := by
  obtain ⟨count, hcount⟩ : ∃ count, (if s.receptionDisplay then { s with receptionCount := s.receptionCount + 1 } else s) =
      { s with receptionCount := count } := by
    split
    · exact ⟨_, rfl⟩
    · exact ⟨s.receptionCount, rfl⟩
  have hclaim : { s with receptionCount := count }.claimPurpose purpose =
      { s.claimPurpose purpose with receptionCount := count } := by
    cases purpose <;> rfl
  unfold Session.deliver
  simp only [hcount, hdeferred, hpurpose, hclaim]
  split
  · rename_i hunseen
    rw [hunseen.2]
    exact .unseen count
  split
  · rename_i hentry
    rw [hentry]
    exact .taken count
  simp only [Session.note, s.claimPurpose_acts]
  split
  · rename_i hsend
    rw [hsend]
    exact .appended count _ _
  · rename_i hentry hsend
    refine .injected throws ?_ count _ _
    cases throws with
    | none => exact .inl rfl
    | some call =>
      cases call with
      | isIdle => exact .inr rfl
      | appendEntry => exact absurd rfl hentry
      | sendUserMessage => exact absurd rfl hsend

/-- The session's variables know what was handed over and what is owed. -/
def Purposed (s : Session) : Prop := Purposes s.pendingPurpose s.purposeDelivered s.acts

section
variable {s t : Session} {g : Nat} {w : Waiting} {act : Act}

namespace Purposed

theorem armPurpose (h : Purposed s) (resolved : ResolvedClient) : Purposed (s.armPurpose resolved) := by
  unfold Session.armPurpose
  cases hstartup : resolved.startup with
  | manual => exact Purposes.add h rfl (by simp [Act.settles, hstartup]) trivial
  | auto => exact Purposes.arm h hstartup

theorem connect (h : Purposed s) (resolved : ResolvedClient) : Purposed (s.connect resolved) := by
  obtain ⟨count, heq⟩ := s.connect_eq resolved
  rw [heq]
  exact Purposes.add h rfl rfl trivial

theorem notifyOnce (h : Purposed s) (message : String) (level : Level) : Purposed (s.notifyOnce message level) := by
  unfold Session.notifyOnce
  split
  · exact h
  · exact Purposes.add h rfl rfl trivial

theorem joinResolved (h : Purposed s) (outcome : Except ResolveFailure ResolvedClient) : Purposed (s.joinResolved g outcome) := by
  unfold Session.joinResolved
  split
  · exact Purposes.add h rfl rfl trivial
  · cases outcome with
    | error failure => exact Purposes.add h rfl rfl trivial
    | ok resolved =>
      have harmed := h.armPurpose resolved
      simp only
      split
      · obtain ⟨count, heq⟩ := (s.armPurpose resolved).adoptReceptionDisplay_eq resolved.receptionDisplay
        rw [heq]
        exact harmed
      · exact Purposes.add harmed rfl rfl trivial
      · exact Purposed.connect (s := (s.armPurpose resolved).letGo) harmed resolved

theorem joinReplaced (h : Purposed s) (resolved : ResolvedClient) : Purposed (s.joinReplaced g resolved) := by
  unfold Session.joinReplaced
  split
  · exact Purposes.add h rfl rfl trivial
  · exact h.connect resolved

/-- A report is where the purpose is chosen, handed over and settled. -/
theorem completed (h : Purposed s) {resolved : ResolvedClient} {report : JoinReport}
    (hreport : report.purpose = s.reportedPurpose resolved) :
    Purposed ((match resolved.startup with
      | .auto => s
      | .manual => { s with
          pendingPurpose := none
          purposeDelivered := s.purposeDelivered || (s.reportedPurpose resolved).isSome }).note (.completed resolved report)) := by
  have hne : Act.completed resolved report ≠ .sessionStarted := by intro heq; cases heq
  have hcarries : (Act.completed resolved report).carries = (s.reportedPurpose resolved).isSome := by rw [← hreport]; rfl
  unfold Session.reportedPurpose at hreport hcarries ⊢
  cases hstartup : resolved.startup with
  | auto =>
    rw [hstartup] at hcarries
    refine Purposes.add h hcarries (by simp [Act.settles, hstartup]) ?_
    intro purpose hmanual
    rw [hstartup] at hmanual
    cases hmanual
  | manual =>
    simp only [hstartup] at hreport hcarries ⊢
    have hdelivered : s.purposeDelivered = handedOver s.acts := Purposes.delivered h
    cases hgiven : s.purposeDelivered with
    | true =>
      -- the purpose was handed over before, and the report says nothing
      rw [hgiven] at hcarries hdelivered
      have hsettled := Purposes.settle h hne hcarries (by simp [Act.settles, hstartup]) (by intro r heq; cases heq)
        fun _ _ _ => .inr hdelivered.symm
      rw [hgiven] at hsettled
      exact hsettled
    | false =>
      rw [hgiven] at hreport hcarries hdelivered
      have hhonest : (Act.completed resolved report).Honest s.acts := fun _ _ hpurpose => .inl (hreport.trans hpurpose)
      cases hpurpose : resolved.purpose with
      | none =>
        rw [hpurpose] at hcarries
        have hsettled := Purposes.settle h hne hcarries (by simp [Act.settles, hstartup]) (by intro r heq; cases heq) hhonest
        rw [hgiven] at hsettled
        exact hsettled
      | some purpose =>
        rw [hpurpose] at hcarries
        exact Purposes.handOver h hdelivered.symm hne hcarries hhonest

theorem joinListed (h : Purposed s) (resolved : ResolvedClient) (active : Nat) (unchanged : Bool)
    (roster : Except Session.RosterFailure (List String)) : Purposed (s.joinListed g resolved active unchanged roster) := by
  unfold Session.joinListed
  split
  · exact Purposes.add h rfl rfl trivial
  · exact h.completed rfl

theorem startStopped (h : Purposed s) (interactive : Bool) : Purposed (s.startStopped g interactive) := by
  unfold Session.startStopped
  split
  · exact h
  · exact h

theorem startLoaded (h : Purposed s) (outcome : Except ResolveFailure (String × GlobalConfig)) :
    Purposed (s.startLoaded g outcome) := by
  unfold Session.startLoaded
  split
  · exact h
  · cases outcome with
    | error failure =>
      simp only
      split
      · exact h
      · exact h.notifyOnce _ _
    | ok loaded =>
      simp only
      split
      · exact h
      · exact h

theorem startResolved (h : Purposed s) (outcome : Except ResolveFailure ResolvedClient) :
    Purposed (s.startResolved g outcome) := by
  unfold Session.startResolved
  split
  · exact h
  · cases outcome with
    | error failure => exact h.notifyOnce _ _
    | ok resolved => exact (h.armPurpose resolved).connect resolved

theorem resumed (h : Purposed s) (hr : s.Resumed g w t) : Purposed t := by
  cases hr with
  | threw => exact Purposes.add h rfl rfl trivial
  | resolved parameters outcome => exact h.joinResolved outcome
  | replaced resolved => exact h.joinReplaced resolved
  | listed resolved active unchanged roster => exact h.joinListed resolved active unchanged roster
  | restarted interactive => exact h.startStopped interactive
  | loaded outcome => exact h.startLoaded outcome
  | resolvedStart path global outcome => exact h.startResolved outcome
  | shutDown => exact h

theorem start (h : Purposed s) (interactive : Bool) : Purposed (s.start interactive) := by
  unfold Session.start
  cases s.client with
  | some previous => exact Purposes.add (Purposes.start h) rfl rfl trivial
  | none =>
    have hstarted : Purposed ({ s.letGo with
      generation := s.generation + 1, notified := [], receptionDisplay := false, pendingPurpose := none,
      purposeDelivered := false }.note .sessionStarted) := Purposes.start h
    exact hstarted.startStopped interactive

theorem shutDown (h : Purposed s) : Purposed s.shutDown := by
  have hshut : Purposes none s.purposeDelivered (.sessionShutDown :: s.acts) :=
    Purposes.settle h (by intro heq; cases heq) rfl rfl (by intro resolved heq; cases heq) trivial
  unfold Session.shutDown
  cases s.client with
  | some active => exact Purposes.add hshut rfl rfl trivial
  | none => exact hshut

/-- A delivery carries what is owed, unless it is deferred. -/
theorem deliver (h : Purposed s) (client : Nat) (room : RoomId) (delivery : DeliveryFrame) (idle : Bool)
    (throws : Option Session.HostCall) (hspared : Spared s (.delivery client delivery idle throws)) :
    Purposed (s.deliver client room delivery idle throws) := by
  have happended (entryType : String) (details : InboundDetails) :
      Purposes s.pendingPurpose s.purposeDelivered (.appended entryType details :: s.acts) := Purposes.add h rfl rfl trivial
  have hhandled := s.deliver_handled client room delivery idle throws rfl rfl
  generalize hpurpose : (if (decide (delivery.type = .notice) && !idle) then none else s.pendingPurpose) = purpose at hhandled
  generalize s.deliver client room delivery idle throws = t at hhandled
  cases purpose with
  | none =>
    cases hhandled with
    | unseen => exact h
    | taken => exact h
    | appended count entryType details => exact happended entryType details
    | injected _ _ count entryType details => exact (happended entryType details).add rfl rfl ⟨delivery, room, rfl⟩
  | some purpose =>
    -- what is taken is handed over, as the two calls that would prevent it do not throw
    have hthrows : throws = none ∨ throws = some .isIdle := by
      rcases hspared with htakes | hthrows
      · rw [SessionEv.takes, hpurpose] at htakes
        cases htakes
      · exact hthrows
    cases hhandled with
    | unseen => exact h
    | taken => simp at hthrows
    | appended => simp at hthrows
    | injected _ _ count entryType details =>
      have hfirst : handedOver (.appended entryType details :: s.acts) = false := by
        by_contra hhanded
        rw [(happended entryType details).paid (Bool.eq_true_of_not_eq_false hhanded), ite_self] at hpurpose
        cases hpurpose
      exact (happended entryType details).handOver hfirst (by intro heq; cases heq) rfl ⟨delivery, room, rfl⟩

theorem step {paths : Paths} {e : SessionEv} (h : Purposed s) (hok : Spared s e) (hs : sessionStep paths s e = some t) :
    Purposed t := by
  cases e with
  | join interactive args =>
    simp only [sessionStep] at hs
    split at hs
    · cases hs; exact h
    · cases hs; exact Purposes.add h rfl rfl trivial
  | sessionStart interactive => cases hs; exact h.start interactive
  | sessionShutdown => cases hs; exact h.shutDown
  | resumed g answer =>
    simp only [sessionStep] at hs
    split at hs
    · exact Purposed.resumed (s := { s with waiting := s.waiting.erase g }) h (Session.resume_some hs)
    · cases hs
  | delivery client delivery idle throws =>
    obtain ⟨c, -, rfl⟩ := Option.map_eq_some_iff.1 hs
    exact h.deliver client c.config.room delivery idle throws hok
  | report client message level =>
    obtain ⟨c, -, rfl⟩ := Option.map_eq_some_iff.1 hs
    exact h.notifyOnce message level
  | changed client state =>
    simp only [sessionStep] at hs
    split at hs
    · split at hs
      · cases hs
      · cases hs; exact h
    · cases hs

theorem of_reach {paths : Paths} (h : Reach (sessionStep paths) {} Spared s) : Purposed s := by
  have hinit : Purposed {} := by
    refine ⟨rfl, Nat.zero_le 1, ?_, fun _ => rfl, Each.nil⟩
    intro _ purpose howed
    obtain ⟨newer, resolved, older, heq, -⟩ := howed
    cases newer <;> cases heq
  exact h.inv hinit fun s e t hs hok hstep => hs.step hok hstep

end Purposed

end

/-! ## Main theorem -/

theorem not_deferred {delivery : DeliveryFrame} {idle : Bool} (h : ¬ (delivery.type = .notice ∧ idle = false)) :
    (decide (delivery.type = .notice) && !idle) = false := by
  by_cases hnotice : delivery.type = .notice
  · have hidle : idle ≠ false := fun hidle => h ⟨hnotice, hidle⟩
    simp [Bool.eq_true_of_not_eq_false hidle]
  · simp [hnotice]

/-- What is owed and was not handed over is what the next delivery that is not deferred carries. -/
theorem Purposed.pays {s t : Session} {paths : Paths} {client : Nat} {delivery : DeliveryFrame} {idle : Bool} {purpose : String}
    (h : Purposed s) (hs : sessionStep paths s (.delivery client delivery idle none) = some t)
    (hdeferred : (decide (delivery.type = .notice) && !idle) = false) (hfirst : handedOver s.acts = false)
    (howed : Owed s.acts purpose) :
    ∃ room past, t.acts = .injected client (buildInboundInjection delivery room (some purpose)) (some purpose) false :: past := by
  obtain ⟨c, -, rfl⟩ := Option.map_eq_some_iff.1 hs
  have hpending : s.pendingPurpose = some purpose := Purposes.owed h hfirst purpose howed
  have hhandled := s.deliver_handled client c.config.room delivery idle none hdeferred hpending
  generalize s.deliver client c.config.room delivery idle none = t at hhandled
  cases hhandled with
  | injected _ _ count entryType details => exact ⟨c.config.room, _, rfl⟩

/-- A superseded procedure hands nothing over. -/
theorem superseded_carries_none {s t : Session} {paths : Paths} {g : Nat} {answer : Answer} (hg : g ≠ s.generation)
    (hs : sessionStep paths s (.resumed g answer) = some t) :
    ∃ new, t.acts = new ++ s.acts ∧ ∀ act ∈ new, act.carries = false := by
  simp only [sessionStep] at hs
  split at hs
  · rcases (Session.resume_some hs).superseded hg with rfl | rfl | ⟨problem, rfl⟩
    · exact ⟨[], rfl, List.forall_mem_nil _⟩
    · exact ⟨[.threw], rfl, List.forall_mem_singleton.2 rfl⟩
    · exact ⟨[.failed problem], rfl, List.forall_mem_singleton.2 rfl⟩
  · cases hs

theorem the_purpose_is_handed_over_once (paths : Paths) (s : Session) (h : Reach (sessionStep paths) {} Hosted s) :
    (thisSession s.acts).countP Act.carries ≤ 1 ∧
    (∀ newer client injection purpose deferred past, s.acts = newer ++ .injected client injection purpose deferred :: past →
      ∃ delivery room, injection = buildInboundInjection delivery room purpose) ∧
    (∀ g answer t, g ≠ s.generation → sessionStep paths s (.resumed g answer) = some t →
      ∃ new, t.acts = new ++ s.acts ∧ ∀ act ∈ new, act.carries = false) ∧
    (∀ newer resolved report past purpose, s.acts = newer ++ .completed resolved report :: past →
      resolved.startup = .manual → resolved.purpose = some purpose →
      report.purpose = some purpose ∨ ∃ act ∈ thisSession past, act.carries = true) ∧
    ∀ client delivery idle t purpose, sessionStep paths s (.delivery client delivery idle none) = some t →
      ¬ (delivery.type = .notice ∧ idle = false) → (∀ act ∈ thisSession s.acts, act.carries = false) →
      Owed s.acts purpose →
      ∃ room past, t.acts =
        .injected client (buildInboundInjection delivery room (some purpose)) (some purpose) false :: past := by
  have hpurposed := Purposed.of_reach (h.mono fun _ _ hhosted => .inr (.inl hhosted))
  refine ⟨Purposes.once hpurposed, ?_, fun g answer t => superseded_carries_none, ?_, ?_⟩
  · intro newer client injection purpose deferred past hacts
    exact Purposes.honest hpurposed newer _ past hacts
  · intro newer resolved report past purpose hacts hmanual hpurpose
    rcases Purposes.honest hpurposed newer _ past hacts purpose hmanual hpurpose with hreport | hhanded
    · exact .inl hreport
    · exact .inr (List.any_eq_true.1 hhanded)
  · intro client delivery idle t purpose hs hdeferred hfirst howed
    have hnone : handedOver s.acts = false := List.any_eq_false.2 fun act hact => by simp [hfirst act hact]
    exact hpurposed.pays hs (not_deferred hdeferred) hnone howed

def sampleDelivery (type : DeliveryType) : DeliveryFrame := ⟨type, "m1", "ada", "The build is green.", none, none⟩

/-- A join under `auto`, a notice that is deferred, and a join under `manual` that a message overtakes. -/
def overtakenJoin : List SessionEv :=
  [.sessionStart true, sampleJoin "review", .resumed 2 (sampleRead "auto"),
    .delivery 0 (sampleDelivery .notice) false none, sampleJoin "build", .resumed 3 (sampleRead "manual"),
    .resumed 3 .stopped, .delivery 1 (sampleDelivery .message) false none,
    .resumed 2 (.roster (.error (.requestFailed "stopped"))), .resumed 3 (.roster (.ok []))]

theorem an_overtaken_join_reports_no_purpose :
    ∃ s, runIf (sessionStep samplePaths) (fun _ e => decide (e.throws = none)) {} overtakenJoin = some s ∧
      (thisSession s.acts).map Act.carries = false :: false :: true :: List.replicate 10 false ∧
      (thisSession s.acts).countP Act.carries ≤ 1 := by
  have hcarries : (runIf (sessionStep samplePaths) (fun _ e => decide (e.throws = none)) {} overtakenJoin).map
      (fun s => (thisSession s.acts).map Act.carries) = some (false :: false :: true :: List.replicate 10 false) := by
    decide +kernel
  obtain ⟨s, hs, hacts⟩ := Option.map_eq_some_iff.1 hcarries
  have hreach : Reach (sessionStep samplePaths) {} Hosted s :=
    Reach.of_runIf _ (fun _ e hok => (of_decide_eq_true hok : e.throws = none)) overtakenJoin .init hs
  exact ⟨s, hs, hacts, (the_purpose_is_handed_over_once samplePaths s hreach).1⟩

end OmpRelayd.Extension
