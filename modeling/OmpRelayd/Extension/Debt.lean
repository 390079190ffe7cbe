/-
  OmpRelayd.Extension.Debt — a host's call that throws and what is owed (extension/src/index.ts:
  `onDelivery` in `connect`, `purposeDelivered`; extension/src/client.ts: `#notify`).

  A delivery sets `purposeDelivered`, appends an entry and sends the message, in this order. The
  last two are calls of the host; if one of them throws the handler ends there, and the client's
  `#notify` keeps the exception from everything else. The variable was set by then, and nothing
  sets it back: a purpose the delivery had taken is owed to nobody any more, and was not handed
  over (`lost_by_a_throw`). A throw of `isIdle` comes before all that, and one in a delivery that
  takes no purpose has none to lose.

  Proved (`what_was_not_handed_over_is_owed`): in every run in which the calls of a delivery that
  takes a purpose do not throw, whatever the other deliveries' do, `purposeDelivered` says that a
  report or an injection carried one; and until one has, the next delivery that is not deferred
  carries what is owed, and a join under `manual` reports its purpose.
-/

import OmpRelayd.Extension.Purpose

namespace OmpRelayd.Extension

/-- A purpose that is taken by a delivery whose calls throw is lost to the session. -/
theorem lost_by_a_throw {paths : Paths} {s t : Session} {client : Nat} {delivery : DeliveryFrame} {idle : Bool}
    {call : Session.HostCall} {purpose : String} (h : Reach (sessionStep paths) {} Spared s)
    (htakes : SessionEv.takes s (.delivery client delivery idle (some call)) = some purpose) (hcall : call ≠ .isIdle)
    (hs : sessionStep paths s (.delivery client delivery idle (some call)) = some t) :
    t.purposeDelivered = true ∧ t.pendingPurpose = none ∧ handedOver t.acts = false := by
  have hpurposed := Purposed.of_reach h
  obtain ⟨c, -, rfl⟩ := Option.map_eq_some_iff.1 hs
  have hfirst : handedOver s.acts = false := by
    by_contra hhanded
    rw [SessionEv.takes, Purposes.paid hpurposed (Bool.eq_true_of_not_eq_false hhanded), ite_self] at htakes
    cases htakes
  have hhandled := s.deliver_handled client c.config.room delivery idle (some call) rfl htakes
  generalize s.deliver client c.config.room delivery idle (some call) = t at hhandled
  cases hhandled with
  | unseen => exact absurd rfl hcall
  | taken => exact ⟨rfl, rfl, hfirst⟩
  | appended count entryType details => exact ⟨rfl, rfl, hfirst⟩
  | injected _ hthrows => simp [hcall] at hthrows

/-- As long as nothing was handed over, a report under `manual` has the purpose of its join. -/
theorem report_has_purpose {paths : Paths} {s t : Session} {resolved : ResolvedClient} {active : Nat} {unchanged : Bool}
    {roster : Except Session.RosterFailure (List String)} {purpose : String} (hdelivered : s.purposeDelivered = false)
    (hwaiting : s.waiting.lookup s.generation = some (.list resolved active unchanged)) (hmanual : resolved.startup = .manual)
    (hpurpose : resolved.purpose = some purpose)
    (hs : sessionStep paths s (.resumed s.generation (.roster roster)) = some t) :
    ∃ report past, t.acts = .completed resolved report :: past ∧ report.purpose = some purpose := by
  simp only [sessionStep, hwaiting, Session.resume, Option.some.injEq] at hs
  subst hs
  have hreported : s.reportedPurpose resolved = some purpose := by
    rw [Session.reportedPurpose, hmanual, hdelivered]
    exact hpurpose
  unfold Session.joinListed
  rw [if_neg (not_not.2 rfl)]
  refine ⟨_, _, rfl, hreported⟩

/-- Over every run in which the calls of a delivery that takes a purpose do not throw. -/
theorem what_was_not_handed_over_is_owed (paths : Paths) (s : Session) (h : Reach (sessionStep paths) {} Spared s) :
    (s.purposeDelivered = true → ∃ act ∈ thisSession s.acts, act.carries = true) ∧
    ((∀ act ∈ thisSession s.acts, act.carries = false) →
      (∀ client delivery idle t purpose, sessionStep paths s (.delivery client delivery idle none) = some t →
        ¬ (delivery.type = .notice ∧ idle = false) → Owed s.acts purpose →
        ∃ room past, t.acts =
          .injected client (buildInboundInjection delivery room (some purpose)) (some purpose) false :: past) ∧
      ∀ resolved active unchanged roster t purpose, s.waiting.lookup s.generation = some (.list resolved active unchanged) →
        resolved.startup = .manual → resolved.purpose = some purpose →
        sessionStep paths s (.resumed s.generation (.roster roster)) = some t →
        ∃ report past, t.acts = .completed resolved report :: past ∧ report.purpose = some purpose) := by
  have hpurposed := Purposed.of_reach h
  have hknown : s.purposeDelivered = handedOver s.acts := Purposes.delivered hpurposed
  refine ⟨?_, ?_⟩
  · intro hdelivered
    rw [hknown] at hdelivered
    exact List.any_eq_true.1 hdelivered
  · intro hnone
    have hfirst : handedOver s.acts = false := List.any_eq_false.2 fun act hact => by simp [hnone act hact]
    refine ⟨?_, ?_⟩
    · intro client delivery idle t purpose hs hdeferred howed
      exact hpurposed.pays hs (not_deferred hdeferred) hfirst howed
    · intro resolved active unchanged roster t purpose hwaiting hmanual hpurpose hs
      exact report_has_purpose (hknown.trans hfirst) hwaiting hmanual hpurpose hs

/-- A notice that is deferred fails and loses nothing, and the next message carries the purpose. -/
def sparedThrow : List SessionEv :=
  [.sessionStart true, sampleJoin "review", .resumed 2 (sampleRead "auto"),
    .delivery 0 (sampleDelivery .notice) false (some .appendEntry), .delivery 0 (sampleDelivery .message) false none]

theorem a_spared_throw_loses_nothing :
    ∃ s, runIf (sessionStep samplePaths) (fun s e => decide (Spared s e)) {} sparedThrow = some s ∧
      s.purposeDelivered = true ∧ ∃ act ∈ thisSession s.acts, act.carries = true := by
  have hdelivered : (runIf (sessionStep samplePaths) (fun s e => decide (Spared s e)) {} sparedThrow).map
      (·.purposeDelivered) = some true := by
    decide +kernel
  obtain ⟨s, hs, hyes⟩ := Option.map_eq_some_iff.1 hdelivered
  have hreach : Reach (sessionStep samplePaths) {} Spared s :=
    Reach.of_runIf _ (fun _ _ hok => of_decide_eq_true hok) sparedThrow .init hs
  exact ⟨s, hs, hyes, (what_was_not_handed_over_is_owed samplePaths s hreach).1 hyes⟩

/-- A message whose `sendUserMessage` throws, another that does not, and a join under `manual`. -/
def lostPurpose : List SessionEv :=
  [.sessionStart true, sampleJoin "review", .resumed 2 (sampleRead "auto"),
    .delivery 0 (sampleDelivery .message) true (some .sendUserMessage), .delivery 0 (sampleDelivery .message) true none,
    sampleJoin "build", .resumed 3 (sampleRead "manual"), .resumed 3 .stopped, .resumed 3 (.roster (.ok []))]

/-- The purpose counts as handed over, and neither the message nor the report after it carries it. -/
theorem a_throw_loses_the_purpose :
    (run (sessionStep samplePaths) {} lostPurpose).map (fun s => (s.purposeDelivered, (thisSession s.acts).map Act.carries)) =
      some (true, List.replicate 11 false) := by
  decide +kernel

end OmpRelayd.Extension
