/-
  OmpRelayd.Extension.OneClient — one client per session (extension/src/index.ts: `performJoin`,
  the handlers of `session_start` and `session_shutdown`, `connect`).

  Whoever lets go of the client it finds stops it in the same step, so a client that was not told
  to stop is the one that is held. A procedure that starts one has let go before, and nobody has
  started another since: whoever would have is of a later generation, and then this one is
  superseded. A shutdown takes a generation that no join or start has.

  Proved (`one_client_per_session`): in every run, whatever fails, every client that was started
  is held or was told to stop, a superseded procedure starts none, and none is started between a
  shutdown and the next join or start.
-/

import OmpRelayd.Extension.Session

namespace OmpRelayd.Extension

/-! ## What holds between steps -/

/-- While it waits for this, its procedure holds no client. -/
def Waiting.holdsNone : Waiting → Bool
  | .resolve _ => false
  | .list _ _ _ => false
  | _ => true

/-- A join or a start was called. -/
def Act.begins : Act → Bool
  | .joinCalled => true
  | .sessionStarted => true
  | _ => false

/-- A join or a start was called, and the session was not shut down since. -/
def Begun : List Act → Prop := Since (fun act => act ≠ .sessionShutDown) (fun act => act.begins = true)

/-- Only what was begun starts a client. -/
def StartsBegun (act : Act) (past : List Act) : Prop := ∀ client, act = .started client → Begun past

structure OneClient (s : Session) : Prop where
  held : ∀ id c, s.clients[id]? = some c → c.stopping = false → s.client = some id
  earlier : ∀ g w, s.waiting.lookup g = some w → g ≤ s.generation
  /-- Of the current procedure. -/
  idle : ∀ w, s.waiting.lookup s.generation = some w → w.holdsNone = true → s.client = none
  begun : ∀ w, s.waiting.lookup s.generation = some w → w ≠ .shutdown → Begun s.acts
  starts : Each StartsBegun s.acts

variable {s t : Session} {g : Nat} {w : Waiting} {act : Act} {resolved : ResolvedClient}

/-- Neither starts a client nor shuts the session down. -/
def Act.quiet : Act → Bool
  | .sessionShutDown => false
  | .started _ => false
  | _ => true

theorem Begun.cons {past : List Act} (h : Begun past) (hact : act ≠ .sessionShutDown) : Begun (act :: past) := .inr ⟨hact, h⟩

theorem begun_started (past : List Act) : Begun (.sessionStarted :: past) := Or.inl rfl

theorem startsBegun_quiet {past : List Act} (hquiet : act.quiet = true) : StartsBegun act past := by
  intro client heq
  rw [heq] at hquiet
  cases hquiet

namespace OneClient

theorem note (h : OneClient s) (hquiet : act.quiet = true) : OneClient (s.note act) := by
  refine ⟨h.held, h.earlier, h.idle, fun w hw hne => (h.begun w hw hne).cons ?_, .cons (startsBegun_quiet hquiet) h.starts⟩
  intro heq
  rw [heq] at hquiet
  cases hquiet

/-- What is of the display or the purpose is not of the clients. -/
theorem of_eq (h : OneClient s) (hclients : t.clients = s.clients) (hclient : t.client = s.client)
    (hgeneration : t.generation = s.generation) (hwaiting : t.waiting = s.waiting) (hacts : t.acts = s.acts) : OneClient t := by
  refine ⟨?_, ?_, ?_, ?_, ?_⟩
  · rw [hclients, hclient]; exact h.held
  · rw [hwaiting, hgeneration]; exact h.earlier
  · rw [hwaiting, hgeneration, hclient]; exact h.idle
  · rw [hwaiting, hgeneration, hacts]; exact h.begun
  · rw [hacts]; exact h.starts

theorem adoptReceptionDisplay (h : OneClient s) (enabled : Bool) : OneClient (s.adoptReceptionDisplay enabled) := by
  obtain ⟨count, heq⟩ := s.adoptReceptionDisplay_eq enabled
  rw [heq]
  exact h.of_eq rfl rfl rfl rfl rfl

theorem armPurpose (h : OneClient s) (resolved : ResolvedClient) : OneClient (s.armPurpose resolved) := by
  obtain ⟨pending, heq⟩ := s.armPurpose_eq resolved
  rw [heq]
  exact OneClient.note (s := { s with pendingPurpose := pending }) (h.of_eq rfl rfl rfl rfl rfl) rfl

theorem notifyOnce (h : OneClient s) (message : String) (level : Level) : OneClient (s.notifyOnce message level) := by
  unfold Session.notifyOnce
  split
  · exact h
  · exact OneClient.note (h.of_eq rfl rfl rfl rfl rfl) rfl

/-- The current procedure waits. -/
theorem await (h : OneClient s) (hg : g = s.generation) (hidle : w.holdsNone = true → s.client = none)
    (hbegun : w ≠ .shutdown → Begun s.acts) : OneClient (s.await g w) := by
  subst hg
  have hself : (s.await s.generation w).waiting.lookup s.generation = some w := AList.lookup_insert _
  refine ⟨h.held, ?_, ?_, ?_, h.starts⟩
  · intro g' w' hw'
    by_cases hg : g' = s.generation
    · exact Nat.le_of_eq hg
    · exact h.earlier g' w' ((AList.lookup_insert_ne hg).symm.trans hw')
  · intro w' hw' hnone
    cases hself.symm.trans hw'
    exact hidle hnone
  · intro w' hw' hne
    cases hself.symm.trans hw'
    exact hbegun hne

/-- Nobody waits under a new generation. -/
theorem supersede (h : OneClient s) (hgeneration : t.generation = s.generation + 1) (hwaiting : t.waiting = s.waiting)
    (hheld : ∀ id c, t.clients[id]? = some c → c.stopping = false → t.client = some id)
    (hstarts : Each StartsBegun t.acts) : OneClient t := by
  have hfree : ∀ w, t.waiting.lookup t.generation ≠ some w := by
    intro w hw
    rw [hwaiting, hgeneration] at hw
    have := h.earlier _ _ hw
    omega
  refine ⟨hheld, ?_, fun w hw => absurd hw (hfree w), fun w hw => absurd hw (hfree w), hstarts⟩
  intro g w hw
  rw [hwaiting] at hw
  have := h.earlier g w hw
  omega

/-- The client that was held is told to stop, and so all are. -/
theorem stopped_all (h : OneClient s) {previous : Nat} (hclient : s.client = some previous) {id : Nat} {c : RelayClient}
    (hc : (s.clients.modify previous RelayClient.stop)[id]? = some c) : c.stopping = true := by
  rw [List.getElem?_modify] at hc
  obtain ⟨d, hd, rfl⟩ := Option.map_eq_some_iff.1 hc
  split
  · rfl
  · rename_i hne
    cases hstopping : d.stopping with
    | true => rfl
    | false =>
      have := h.held id d hd hstopping
      rw [hclient] at this
      exact absurd (Option.some.inj this) hne

theorem letGo_stop (h : OneClient s) {previous : Nat} (hclient : s.client = some previous) :
    OneClient (s.letGo.stop previous) := by
  refine OneClient.note (s := { s.letGo with clients := s.clients.modify previous RelayClient.stop }) ?_ rfl
  refine ⟨?_, h.earlier, fun _ _ _ => rfl, h.begun, h.starts⟩
  intro id c hc hstopping
  exact absurd hstopping (by rw [h.stopped_all hclient hc]; decide)

theorem letGo (h : OneClient s) (hclient : s.client = none) : OneClient s.letGo := h.of_eq rfl hclient.symm rfl rfl rfl

/-- Nobody holds a client, so this is the only one that was not told to stop. -/
theorem connect (h : OneClient s) (hclient : s.client = none) (hfree : s.waiting.lookup s.generation = none)
    (hbegun : Begun s.acts) (resolved : ResolvedClient) : OneClient (s.connect resolved) := by
  obtain ⟨count, heq⟩ := s.connect_eq resolved
  rw [heq]
  have hnobody : ∀ w, s.waiting.lookup s.generation ≠ some w := by
    intro w hw
    rw [hfree] at hw
    cases hw
  refine ⟨?_, h.earlier, fun w hw => absurd hw (hnobody w), fun w hw => absurd hw (hnobody w),
    .cons (fun _ _ => hbegun) h.starts⟩
  intro id c hc hstopping
  rw [List.getElem?_append] at hc
  split at hc
  · have := h.held id c hc hstopping
    rw [hclient] at this
    cases this
  · obtain ⟨hid, -⟩ := List.getElem?_eq_some_iff.1 hc
    rw [List.length_singleton] at hid
    show some s.clients.length = some id
    congr 1
    omega

/-! ## Procedures -/

theorem joinConnects (h : OneClient s) (hclient : s.client = none) (hfree : s.waiting.lookup s.generation = none)
    (hbegun : Begun s.acts) (resolved : ResolvedClient) : OneClient (s.joinConnects s.generation resolved) := by
  have hconnect := h.connect hclient hfree hbegun resolved
  obtain ⟨count, heq⟩ := s.connect_eq resolved
  unfold Session.joinConnects
  rw [heq] at hconnect ⊢
  refine hconnect.await rfl (fun hnone => by cases hnone) fun _ => hbegun.cons ?_
  intro hact
  cases hact

theorem joinResolved (h : OneClient s) (hfree : s.waiting.lookup s.generation = none) (hbegun : Begun s.acts)
    (outcome : Except ResolveFailure ResolvedClient) : OneClient (s.joinResolved s.generation outcome) := by
  unfold Session.joinResolved
  rw [if_neg (not_not_intro rfl)]
  cases outcome with
  | error failure => exact h.note rfl
  | ok resolved =>
    have harmed := h.armPurpose resolved
    obtain ⟨pending, heq⟩ := s.armPurpose_eq resolved
    have hbegun : Begun (.armed resolved :: s.acts) := hbegun.cons (by intro hact; cases hact)
    simp only [heq] at harmed ⊢
    cases s.unchanged resolved with
    | some active =>
      have hadopted := harmed.adoptReceptionDisplay resolved.receptionDisplay
      obtain ⟨count, heq⟩ := Session.adoptReceptionDisplay_eq
        { s with pendingPurpose := pending, acts := .armed resolved :: s.acts } resolved.receptionDisplay
      rw [heq] at hadopted
      simp only [heq]
      exact hadopted.await rfl (fun hnone => by cases hnone) fun _ => hbegun
    | none =>
      cases hclient : s.client with
      | some previous =>
        refine (harmed.letGo_stop hclient).await rfl (fun _ => rfl) fun _ => hbegun.cons ?_
        intro hact
        cases hact
      | none => exact (harmed.letGo hclient).joinConnects rfl hfree hbegun resolved

theorem startStopped (h : OneClient s) (hclient : s.client = none) (hbegun : Begun s.acts) (interactive : Bool) :
    OneClient (s.startStopped s.generation interactive) := by
  unfold Session.startStopped
  split
  · exact h
  · exact h.await rfl (fun _ => hclient) fun _ => hbegun

theorem startLoaded (h : OneClient s) (hclient : s.client = none) (hbegun : Begun s.acts)
    (outcome : Except ResolveFailure (String × GlobalConfig)) : OneClient (s.startLoaded s.generation outcome) := by
  unfold Session.startLoaded
  rw [if_neg (not_not_intro rfl)]
  cases outcome with
  | error failure =>
    simp only
    split
    · exact h
    · exact h.notifyOnce _ _
  | ok loaded =>
    simp only
    split
    · exact h
    · exact h.await rfl (fun _ => hclient) fun _ => hbegun

theorem startResolved (h : OneClient s) (hclient : s.client = none) (hfree : s.waiting.lookup s.generation = none)
    (hbegun : Begun s.acts) (outcome : Except ResolveFailure ResolvedClient) :
    OneClient (s.startResolved s.generation outcome) := by
  unfold Session.startResolved
  rw [if_neg (not_not_intro rfl)]
  cases outcome with
  | error failure => exact h.notifyOnce _ _
  | ok resolved =>
    have harmed := h.armPurpose resolved
    obtain ⟨pending, heq⟩ := s.armPurpose_eq resolved
    simp only [heq] at harmed ⊢
    exact harmed.connect hclient hfree (hbegun.cons (by intro hact; cases hact)) resolved

theorem joinListed (h : OneClient s) (resolved : ResolvedClient) (active : Nat) (unchanged : Bool)
    (roster : Except Session.RosterFailure (List String)) :
    OneClient (s.joinListed g resolved active unchanged roster) := by
  unfold Session.joinListed
  split
  · exact h.note rfl
  · cases resolved.startup with
    | auto => exact h.note rfl
    | manual => exact OneClient.note (h.of_eq rfl rfl rfl rfl rfl) rfl

/-- The current procedure goes on, holding what it waited with. -/
theorem resumed (h : OneClient s) (hfree : s.waiting.lookup s.generation = none)
    (hidle : w.holdsNone = true → s.client = none) (hbegun : w ≠ .shutdown → Begun s.acts)
    (hr : s.Resumed s.generation w t) : OneClient t := by
  cases hr with
  | threw => exact h.note rfl
  | resolved parameters outcome => exact h.joinResolved hfree (hbegun (by intro heq; cases heq)) outcome
  | replaced resolved =>
    unfold Session.joinReplaced
    rw [if_neg (not_not_intro rfl)]
    exact h.joinConnects (hidle rfl) hfree (hbegun (by intro heq; cases heq)) resolved
  | listed resolved active unchanged roster => exact h.joinListed resolved active unchanged roster
  | restarted interactive => exact h.startStopped (hidle rfl) (hbegun (by intro heq; cases heq)) interactive
  | loaded outcome => exact h.startLoaded (hidle rfl) (hbegun (by intro heq; cases heq)) outcome
  | resolvedStart path global outcome =>
    exact h.startResolved (hidle rfl) hfree (hbegun (by intro heq; cases heq)) outcome
  | shutDown => exact h

/-- Nothing waits for an answer twice. -/
theorem taken (h : OneClient s) (g : Nat) : OneClient { s with waiting := s.waiting.erase g } := by
  have hkept : ∀ g' w', (s.waiting.erase g).lookup g' = some w' → s.waiting.lookup g' = some w' := by
    intro g' w' hw'
    by_cases hg : g' = g
    · rw [hg, AList.lookup_erase] at hw'
      cases hw'
    · rwa [AList.lookup_erase_ne hg] at hw'
  exact ⟨h.held, fun g' w' hw' => h.earlier g' w' (hkept g' w' hw'), fun w' hw' => h.idle w' (hkept _ w' hw'),
    fun w' hw' => h.begun w' (hkept _ w' hw'), h.starts⟩

theorem start (h : OneClient s) (interactive : Bool) : OneClient (s.start interactive) := by
  unfold Session.start
  cases hclient : s.client with
  | some previous =>
    simp only
    refine OneClient.await ?_ rfl (fun _ => rfl) fun _ => (begun_started s.acts).cons (by intro heq; cases heq)
    refine h.supersede rfl rfl ?_ (.cons (startsBegun_quiet rfl) (.cons (startsBegun_quiet rfl) h.starts))
    intro id c hc hstopping
    exact absurd hstopping (by rw [h.stopped_all hclient hc]; decide)
  | none =>
    simp only
    refine OneClient.startStopped (s := { s.letGo with
      generation := s.generation + 1, notified := [], receptionDisplay := false, pendingPurpose := none,
      purposeDelivered := false }.note .sessionStarted) ?_ rfl (begun_started s.acts) interactive
    refine h.supersede rfl rfl ?_ (.cons (startsBegun_quiet rfl) h.starts)
    intro id c hc hstopping
    exact hclient.symm.trans (h.held id c hc hstopping)

theorem shutDown (h : OneClient s) : OneClient s.shutDown := by
  have hstarts : Each StartsBegun (.sessionShutDown :: s.acts) := .cons (by intro client heq; cases heq) h.starts
  unfold Session.shutDown
  cases hclient : s.client with
  | some active =>
    simp only
    refine OneClient.await ?_ rfl (fun _ => rfl) fun hne => absurd rfl hne
    refine h.supersede rfl rfl ?_ (.cons (startsBegun_quiet rfl) hstarts)
    intro id c hc hstopping
    exact absurd hstopping (by rw [h.stopped_all hclient hc]; decide)
  | none =>
    refine h.supersede rfl rfl ?_ hstarts
    intro id c hc hstopping
    exact hclient.symm.trans (h.held id c hc hstopping)

theorem claimPurpose (h : OneClient s) (purpose : Option String) : OneClient (s.claimPurpose purpose) := by
  unfold Session.claimPurpose
  split
  · exact h.of_eq rfl rfl rfl rfl rfl
  · exact h

theorem deliver (h : OneClient s) (client : Nat) (room : RoomId) (delivery : DeliveryFrame) (idle : Bool)
    (throws : Option Session.HostCall) : OneClient (s.deliver client room delivery idle throws) := by
  have hcounted : OneClient (if s.receptionDisplay then { s with receptionCount := s.receptionCount + 1 } else s) := by
    split
    · exact h.of_eq rfl rfl rfl rfl rfl
    · exact h
  unfold Session.deliver
  simp only
  split
  · exact hcounted
  split
  · exact hcounted.claimPurpose _
  split
  · exact (hcounted.claimPurpose _).note rfl
  · exact ((hcounted.claimPurpose _).note rfl).note rfl

theorem changed (h : OneClient s) {client : Nat} {c : RelayClient} (hc : s.clients[client]? = some c)
    (state : Client.ClientState) : OneClient { s with clients := s.clients.set client { c with state := state } } := by
  refine ⟨?_, h.earlier, h.idle, h.begun, h.starts⟩
  intro id d hd hstopping
  by_cases hid : client = id
  · subst hid
    rw [List.getElem?_set_self (List.getElem?_eq_some_iff.1 hc).1] at hd
    cases hd
    exact h.held client c hc hstopping
  · rw [List.getElem?_set_ne hid] at hd
    exact h.held id d hd hstopping

theorem step {paths : Paths} {e : SessionEv} (h : OneClient s) (hs : sessionStep paths s e = some t) : OneClient t := by
  cases e with
  | join interactive args =>
    simp only [sessionStep] at hs
    split at hs
    · cases hs; exact h
    · cases hs
      refine OneClient.await ?_ rfl (fun hnone => by cases hnone) fun _ => Or.inl rfl
      exact h.supersede rfl rfl h.held (.cons (startsBegun_quiet rfl) h.starts)
  | sessionStart interactive => cases hs; exact h.start interactive
  | sessionShutdown => cases hs; exact h.shutDown
  | resumed g answer =>
    simp only [sessionStep] at hs
    split at hs
    · rename_i w hw
      have htaken := h.taken g
      have hresumed := Session.resume_some hs
      by_cases hg : g = s.generation
      · subst hg
        exact htaken.resumed (AList.lookup_erase _ _) (h.idle w hw) (h.begun w hw) hresumed
      · rcases hresumed.superseded hg with rfl | rfl | ⟨problem, rfl⟩
        · exact htaken
        · exact htaken.note rfl
        · exact htaken.note rfl
    · cases hs
  | delivery client delivery idle throws =>
    obtain ⟨c, -, rfl⟩ := Option.map_eq_some_iff.1 hs
    exact h.deliver client c.config.room delivery idle throws
  | report client message level =>
    obtain ⟨c, -, rfl⟩ := Option.map_eq_some_iff.1 hs
    exact h.notifyOnce message level
  | changed client state =>
    simp only [sessionStep] at hs
    split at hs
    · split at hs
      · cases hs
      · cases hs; exact h.changed ‹_› state
    · cases hs

theorem of_reach {paths : Paths} {ok : Session → SessionEv → Prop} (h : Reach (sessionStep paths) {} ok s) : OneClient s := by
  refine h.inv (P := OneClient) ⟨?_, ?_, ?_, ?_, Each.nil⟩ fun s e t hs _ hstep => hs.step hstep
  · intro id c hc; cases hc
  · intro g w hw; cases hw
  · intro w hw; cases hw
  · intro w hw; cases hw

end OneClient

/-! ## Who starts a client -/

theorem claimPurpose_clients (s : Session) (purpose : Option String) : (s.claimPurpose purpose).clients = s.clients := by
  unfold Session.claimPurpose
  split <;> rfl

theorem deliver_clients (s : Session) (client : Nat) (room : RoomId) (delivery : DeliveryFrame) (idle : Bool)
    (throws : Option Session.HostCall) : (s.deliver client room delivery idle throws).clients = s.clients := by
  have hcounted : (if s.receptionDisplay then { s with receptionCount := s.receptionCount + 1 } else s).clients = s.clients := by
    split <;> rfl
  unfold Session.deliver
  simp only
  split
  · exact hcounted
  split
  · exact (claimPurpose_clients _ _).trans hcounted
  split
  · exact (claimPurpose_clients _ _).trans hcounted
  · exact (claimPurpose_clients _ _).trans hcounted

theorem notifyOnce_clients (s : Session) (message : String) (level : Level) : (s.notifyOnce message level).clients = s.clients := by
  unfold Session.notifyOnce
  split <;> rfl

theorem length_start (s : Session) (interactive : Bool) : (s.start interactive).clients.length = s.clients.length := by
  unfold Session.start
  cases s.client with
  | some previous => exact List.length_modify _ _ _
  | none =>
    unfold Session.startStopped
    simp only
    split <;> rfl

theorem length_shutDown (s : Session) : s.shutDown.clients.length = s.clients.length := by
  unfold Session.shutDown
  cases s.client with
  | some active => exact List.length_modify _ _ _
  | none => rfl

/-- Only a current procedure starts one. -/
theorem resumes_of_length_lt {paths : Paths} {e : SessionEv} (hs : sessionStep paths s e = some t)
    (hlength : s.clients.length < t.clients.length) : ∃ answer, e = .resumed s.generation answer := by
  cases e with
  | join interactive args =>
    simp only [sessionStep] at hs
    split at hs
    · cases hs
      exact absurd hlength (Nat.lt_irrefl _)
    · cases hs
      exact absurd hlength (Nat.lt_irrefl _)
  | sessionStart interactive =>
    cases hs
    rw [length_start] at hlength
    exact absurd hlength (Nat.lt_irrefl _)
  | sessionShutdown =>
    cases hs
    rw [length_shutDown] at hlength
    exact absurd hlength (Nat.lt_irrefl _)
  | resumed g answer =>
    by_cases hg : g = s.generation
    · exact ⟨answer, by rw [hg]⟩
    · simp only [sessionStep] at hs
      split at hs
      · rcases (Session.resume_some hs).superseded hg with rfl | rfl | ⟨problem, rfl⟩
        · exact absurd hlength (Nat.lt_irrefl _)
        · exact absurd hlength (Nat.lt_irrefl _)
        · exact absurd hlength (Nat.lt_irrefl _)
      · cases hs
  | delivery client delivery idle throws =>
    obtain ⟨c, -, rfl⟩ := Option.map_eq_some_iff.1 hs
    rw [deliver_clients] at hlength
    exact absurd hlength (Nat.lt_irrefl _)
  | report client message level =>
    obtain ⟨c, -, rfl⟩ := Option.map_eq_some_iff.1 hs
    rw [notifyOnce_clients] at hlength
    exact absurd hlength (Nat.lt_irrefl _)
  | changed client state =>
    simp only [sessionStep] at hs
    split at hs
    · split at hs
      · cases hs
      · cases hs
        rw [List.length_set] at hlength
        exact absurd hlength (Nat.lt_irrefl _)
    · cases hs

theorem one_client_per_session (paths : Paths) (s : Session) (h : Reach (sessionStep paths) {} Always s) :
    (∀ id c, s.clients[id]? = some c → c.stopping = false → s.client = some id) ∧
    (∀ e t, sessionStep paths s e = some t → s.clients.length < t.clients.length →
      ∃ answer, e = .resumed s.generation answer) ∧
    ∀ newer client older since past, s.acts = newer ++ .started client :: older → older = since ++ .sessionShutDown :: past →
      .joinCalled ∈ since ∨ .sessionStarted ∈ since := by
  have hone := OneClient.of_reach h
  refine ⟨hone.held, fun e t => resumes_of_length_lt, ?_⟩
  intro newer client older since past hacts hshut
  have hbegun := hone.starts newer _ older hacts client rfl
  rw [hshut] at hbegun
  obtain ⟨act, hact, hbegins⟩ := (Since.after (by intro h; cases h) (fun h => h rfl) hbegun).exists_mem
  cases act with
  | joinCalled => exact .inl hact
  | sessionStarted => exact .inr hact
  | _ => cases hbegins

/-- The second join is called while the first waits for its roster, and replaces its client. -/
def twoJoins : List SessionEv :=
  [sampleJoin "review", .resumed 1 (sampleRead "manual"), sampleJoin "build", .resumed 2 (sampleRead "manual"),
    .resumed 1 (.roster (.error (.requestFailed "stopped"))), .resumed 2 .stopped]

theorem a_second_join_leaves_one_client :
    ∃ s, run (sessionStep samplePaths) {} twoJoins = some s ∧ s.clients.length = 2 ∧
      ∀ id c, s.clients[id]? = some c → c.stopping = false → s.client = some id := by
  have hclients : (run (sessionStep samplePaths) {} twoJoins).map (·.clients.length) = some 2 := by decide +kernel
  obtain ⟨s, hs, hlength⟩ := Option.map_eq_some_iff.1 hclients
  exact ⟨s, hs, hlength, (one_client_per_session samplePaths s (Reach.of_run twoJoins .init hs)).1⟩

end OmpRelayd.Extension
