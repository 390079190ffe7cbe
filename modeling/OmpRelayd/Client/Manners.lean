/-
  OmpRelayd.Client.Manners — who speaks first on a socket.

  A socket tells its listeners once that it is connected, and gives data only after that
  (`Orderly`). Proved of every run on such sockets (`greets_first`): what the client writes on a
  socket is nothing, or its `hello` and then no other `hello`. That everything else comes after the
  relay's `ready` the docket knows; added here is that the `ready` comes after the greeting.

  The other way round (`heardOn_step`): what a socket gives is heard, all of it and in order, for as
  long as the client has that socket, and a socket it has given up does not come back.
-/

import OmpRelayd.Client.Conversation

namespace OmpRelayd.Client

def Greeted (history : List Effect) (s : Nat) : Prop := ∃ encoded, .wrote s .hello encoded ∈ history

/-- What a socket of the runtime does not do: connect twice, or give data before it is connected. -/
def Orderly (c : RelayClient) : Event → Prop
  | .connected s => ¬ Greeted c.history s
  | .data s _ => c.socket = some s → Greeted c.history s
  | _ => True

/-- A greeting is the first on its socket, and nothing is dispatched before it. -/
def Mannered (e : Effect) (older : List Effect) : Prop :=
  match e with
  | .wrote s .hello _ => ¬ Greeted older s
  | .dispatched s _ => Greeted older s
  | _ => True

section
variable {world : World} {c c' : RelayClient} {s : Nat}

theorem Greeted.append {history : List Effect} (h : Greeted history s) (new : List Effect) : Greeted (new ++ history) s := by
  obtain ⟨encoded, h⟩ := h
  exact ⟨encoded, List.mem_append_right new h⟩

theorem Mannered.of_wordless {e : Effect} (h : e.wordless = true) (older : List Effect) : Mannered e older := by
  cases e with
  | wrote s what encoded =>
    cases what with
    | hello => cases h
    | ping => trivial
    | request r => trivial
  | dispatched => cases h
  | _ => trivial

theorem Quiet.mannered (h : Quiet world c c') (hm : Each Mannered c.history) : Each Mannered c'.history := by
  obtain ⟨new, hnew, hwordless⟩ := h.history
  rw [hnew]
  exact .append (fun e he older => .of_wordless (hwordless e he) older) hm

theorem Dispatches.mannered {frames : List ServerFrame} (h : Dispatches world s frames c c') (hg : Greeted c.history s)
    (hm : Each Mannered c.history) : Each Mannered c'.history := by
  obtain ⟨new, hnew, hall, -⟩ := h.history
  rw [hnew]
  clear hnew
  induction new with
  | nil => exact hm
  | cons e new ih =>
    obtain ⟨he, hall⟩ := List.forall_mem_cons.mp hall
    refine .cons ?_ (ih hall)
    rcases he with hwordless | ⟨frame, rfl⟩
    · exact .of_wordless hwordless _
    · exact hg.append new

theorem mannered_receive (hm : Each Mannered c.history) (hg : c.socket = some s → Greeted c.history s) (chunk : Bytes) :
    Each Mannered (c.receive world s chunk).history := by
  unfold RelayClient.receive
  cases hacc : c.accumulator with
  | none => exact hm
  | some acc =>
    dsimp only
    split
    · exact hm
    rename_i hs
    replace hs : c.socket = some s := not_not.mp hs
    have hreads := @receiveValues_reads world
      (RelayClient.record { c with accumulator := some (acc.push world.decode chunk).2 } (.heard s chunk)) s hs
      (acc.push world.decode chunk).1.values
    generalize RelayClient.receiveValues world
      (RelayClient.record { c with accumulator := some (acc.push world.decode chunk).2 } (.heard s chunk)) s
      (acc.push world.decode chunk).1.values = r at hreads ⊢
    obtain ⟨frames, htold, -⟩ := hreads.told
    have hheard : Each Mannered (.heard s chunk :: c.history) := hm.cons trivial
    have hr : Each Mannered r.2.history := htold.mannered ((hg hs).append [.heard s chunk]) hheard
    split
    · exact (Quiet.closeConnection ..).mannered hr
    · exact hr

theorem mannered_onConnect (hm : Each Mannered c.history) (hs : c.socket = some s) (hg : ¬ Greeted c.history s) :
    Each Mannered (c.onConnect world s).history := by
  rcases @onConnect_greets world c s with hquiet | ⟨s', encoded, c₁, hbefore, hs', -, hafter⟩
  · exact hquiet.mannered hm
  · have hsame : s' = s := by
      rcases hbefore.kept with ⟨hsocket, -⟩ | hnone
      · exact Option.some.inj (hs'.symm.trans (hsocket.trans hs))
      · rw [hnone] at hs'
        cases hs'
    subst hsame
    refine hafter.mannered (.cons ?_ (hbefore.mannered hm))
    intro hgreeted
    obtain ⟨encoded', hgreeted⟩ := hgreeted
    obtain ⟨new, hnew, hwordless⟩ := hbefore.history
    rw [hnew] at hgreeted
    rcases List.mem_append.mp hgreeted with hin | hin
    · exact absurd (hwordless _ hin) Bool.false_ne_true
    · exact hg ⟨encoded', hin⟩

theorem mannered_openConnection (hm : Each Mannered c.history) : Each Mannered (c.openConnection world).history := by
  have hcleared : Each Mannered (c.clear .reconnect).history := (@Quiet.clear world c .reconnect).mannered hm
  have hattempted : Each Mannered (.attempted :: (c.clear .reconnect).history) := hcleared.cons trivial
  unfold RelayClient.openConnection
  extract_lets c₁ c₂ thrown c₃
  cases thrown with
  | some error => exact (@Quiet.scheduleReconnect world c₃ _).mannered hattempted
  | none => exact hattempted

theorem mannered_telling {e : Event} (hm : Each Mannered c.history) (ho : Orderly c e) (h : Telling world c e c') :
    Each Mannered c'.history := by
  cases h with
  | quiet h => exact h.mannered hm
  | opened h hs => exact mannered_openConnection (h.mannered hm)
  | connected s hs => exact mannered_onConnect hm hs ho
  | data s chunk hs => exact mannered_receive hm ho chunk

theorem mannered_of_reach (h : Reach (step world) {} Orderly c) : Each Mannered c.history := by
  refine (h.inv (P := fun c => Each Mannered c.history ∧ Intact c ∧ Rest c) ⟨.nil, intact_init, rest_init⟩ ?_).1
  intro c e c' hc ho hstep
  exact ⟨mannered_telling hc.1 ho (step_telling hc.2.1 hc.2.2 hstep), step_intact hc.2.1 hc.2.2 hstep⟩

/-! ## What is written on a socket -/

theorem wroteOn_cons (s : Nat) (e : Effect) (history : List Effect) :
    wroteOn s (e :: history) = wroteOn s history ++ (e.wroteOn s).toList := filterMap_reverse_cons ..

theorem Effect.wroteOn_some {e : Effect} {what : Outgoing} {encoded : Bytes} :
    e.wroteOn s = some (what, encoded) ↔ e = .wrote s what encoded := by
  cases e with
  | wrote s' what' encoded' => by_cases hs : s' = s <;> simp [Effect.wroteOn, hs]
  | _ => simp [Effect.wroteOn]

theorem mem_wroteOn {history : List Effect} {what : Outgoing} {encoded : Bytes} :
    (what, encoded) ∈ wroteOn s history ↔ .wrote s what encoded ∈ history := by
  simp only [wroteOn, List.mem_filterMap, List.mem_reverse, Effect.wroteOn_some, exists_eq_right]

/-- The greeting first, and only once. -/
def GreetsFirst (lines : List (Outgoing × Bytes)) : Prop :=
  lines = [] ∨ ∃ encoded rest, lines = (.hello, encoded) :: rest ∧ ∀ line ∈ rest, line.1 ≠ .hello

theorem greetsFirst_of_each {history : List Effect} (hm : Each Mannered history) (hf : Each Follows history) (s : Nat) :
    GreetsFirst (wroteOn s history) := by
  induction history with
  | nil => exact .inl rfl
  | cons e history ih =>
    have hm' : Each Mannered history := @Each.of_append _ _ [e] history hm
    have hshape := ih hm' (@Each.of_append _ _ [e] history hf)
    rw [wroteOn_cons]
    cases hw : e.wroteOn s with
    | none => simpa using hshape
    | some line =>
      obtain ⟨what, encoded⟩ := line
      cases Effect.wroteOn_some.mp hw
      by_cases hwhat : what = .hello
      · -- a second greeting would follow one
        subst hwhat
        have hfirst : ¬ Greeted history s := hm [] _ history rfl
        rcases hshape with hnil | ⟨first, rest, hlines, -⟩
        · rw [hnil]
          exact .inr ⟨encoded, [], rfl, List.forall_mem_nil _⟩
        · exact absurd ⟨first, mem_wroteOn.mp (hlines ▸ List.mem_cons_self)⟩ hfirst
      · -- anything else follows the relay's welcome, which follows the greeting
        obtain ⟨version, hwelcomed⟩ := (hf [] _ history rfl).1 hwhat
        obtain ⟨newer, older, hsplit⟩ := List.append_of_mem hwelcomed
        obtain ⟨first, hgreeted⟩ : Greeted older s := hm' newer _ older hsplit
        have hin : (Outgoing.hello, first) ∈ wroteOn s history := by
          rw [mem_wroteOn, hsplit]
          exact List.mem_append_right _ (List.mem_cons_of_mem _ hgreeted)
        rcases hshape with hnil | ⟨encoded', rest, hlines, hrest⟩
        · rw [hnil] at hin
          cases hin
        · rw [hlines]
          refine .inr ⟨encoded', rest ++ [(what, encoded)], rfl, ?_⟩
          exact List.forall_mem_append.mpr ⟨hrest, List.forall_mem_singleton.mpr hwhat⟩

theorem greets_first (h : Reach (step world) {} Orderly c) (s : Nat) : GreetsFirst (wroteOn s c.history) :=
  greetsFirst_of_each (mannered_of_reach h) (intact_of_reach h).1.books.docket.each s

/-! ## Sockets one after another -/

/-- The current socket is listened to. -/
def Attended (c : RelayClient) : Prop :=
  ∀ s, c.socket = some s → ∃ socket, c.sockets.lookup s = some socket ∧ socket.listening = true

/-- A socket that was given up does not come back. -/
structure Advances (c c' : RelayClient) : Prop where
  next : c.nextSocket ≤ c'.nextSocket
  socket : ∀ s, c'.socket = some s → c.socket = some s ∨ c.nextSocket ≤ s
  attended : Attended c → Attended c'

namespace Advances

variable {c'' : RelayClient}

theorem same (hsocket : c'.socket = c.socket) (hsockets : c'.sockets = c.sockets) (hnext : c'.nextSocket = c.nextSocket) :
    Advances c c' := by
  refine ⟨Nat.le_of_eq hnext.symm, fun s hs => .inl (hsocket.symm.trans hs), fun h s hs => ?_⟩
  rw [hsockets]
  exact h s (hsocket.symm.trans hs)

theorem alone (hsocket : c'.socket = none) (hnext : c'.nextSocket = c.nextSocket) : Advances c c' := by
  refine ⟨Nat.le_of_eq hnext.symm, fun s hs => ?_, fun _ s hs => ?_⟩ <;> rw [hsocket] at hs <;> cases hs

theorem trans (h : Advances c c') (h' : Advances c' c'') : Advances c c'' := by
  refine ⟨Nat.le_trans h.next h'.next, fun s hs => ?_, fun ha => h'.attended (h.attended ha)⟩
  rcases h'.socket s hs with hs | hle
  · exact h.socket s hs
  · exact .inr (Nat.le_trans h.next hle)

end Advances

theorem Move.advances {law : RelayClient → Key → Prop} (hm : Move world law c c') : Advances c c' := by
  cases hm with
  | cleared slot =>
    obtain ⟨timers, he⟩ := c.clear_form slot
    rw [he]
    exact .same rfl rfl rfl
  | stopped =>
    obtain ⟨timers, new, -, he⟩ := c.stop_form
    rw [he]
    exact .alone rfl rfl
  | tornDown s reason hs =>
    obtain ⟨timers, new, -, he⟩ := c.teardown_form s reason
    rw [he]
    exact .alone rfl rfl
  | connected hr hs hw =>
    refine ⟨Nat.le_succ _, fun s hs => .inr (Nat.le_of_eq (Option.some.inj hs)), fun _ s hs => ?_⟩
    cases hs
    exact ⟨_, AList.lookup_insert _, rfl⟩
  | answered s frame older key outcome | denied s message key outcome =>
    obtain ⟨timers, new, -, he⟩ := c.settleKey_form key outcome
    rw [he]
    exact .same rfl rfl rfl
  | expired handle key =>
    obtain ⟨timers, new, -, he⟩ := c.expire_form world handle key
    rw [he]
    exact .same rfl rfl rfl
  | perished s socket hs =>
    refine ⟨Nat.le_refl _, fun s' hs' => .inl hs', fun h s' hs' => ?_⟩
    obtain ⟨socket', hl, hlistening⟩ := h s' hs'
    by_cases hsame : s' = s
    · subst hsame
      cases hs.symm.trans hl
      exact ⟨_, AList.lookup_insert _, hlistening⟩
    · exact ⟨socket', (AList.lookup_insert_ne hsame).trans hl, hlistening⟩
  | _ => exact .same rfl rfl rfl

theorem step_advances {e : Event} (hi : Intact c) (hrest : Rest c) (h : step world c e = some c') :
    Advances c c' ∧ c.history <:+ c'.history := by
  have hmoves : ∀ {c₁ c₂ : RelayClient}, Moves world (fun _ _ => True) c₁ c₂ → Advances c₁ c₂ := by
    intro c₁ c₂ hm
    induction hm with
    | refl => exact .same rfl rfl rfl
    | tail _ hm ih => exact ih.trans hm.advances
  rcases @step_course world (fun _ _ => True) c c' e hi hrest (fun _ _ => trivial) h with hcourse | ⟨-, -, hcourse⟩
  · exact ⟨hmoves hcourse.moves, hcourse.moves.grows⟩
  · have hbegun : Advances c c.begun := .same rfl rfl rfl
    exact ⟨hbegun.trans (hmoves hcourse.moves), (List.suffix_cons _ _).trans hcourse.moves.grows⟩

theorem attended_of_reach {ok : RelayClient → Event → Prop} (h : Reach (step world) {} ok c) : Attended c := by
  refine (h.inv (P := fun c => Attended c ∧ Intact c ∧ Rest c) ⟨?_, intact_init, rest_init⟩ ?_).1
  · intro s hs
    cases hs
  · intro c e c' hc _ hstep
    exact ⟨(step_advances hc.2.1 hc.2.2 hstep).1.attended hc.1, step_intact hc.2.1 hc.2.2 hstep⟩

/-- What is written stays written. -/
theorem written_mono {history history' : List Effect} (h : history <:+ history') (s : Nat) :
    written s history <+: written s history' := by
  obtain ⟨new, rfl⟩ := h
  simp only [written, wroteOn, List.reverse_append, List.filterMap_append, List.map_append, List.flatten_append]
  exact List.prefix_append _ _

/-- What an event brings the client on a socket: what comes while it is the current one. -/
def Event.bringsOn (c : RelayClient) (s : Nat) : Event → List Bytes
  | .data s' chunk => if s' = s ∧ c.socket = some s then [chunk] else []
  | _ => []

theorem heardOn_receive (hc : Conversing world c) {s' : Nat} (hs : c.socket = some s') (chunk : Bytes) (s : Nat) :
    heardOn s (c.receive world s' chunk).history = heardOn s c.history ++ if s' = s then [chunk] else [] := by
  unfold RelayClient.receive
  rw [(hc.current s' hs).listening]
  dsimp only
  rw [if_neg (not_not.mpr hs)]
  generalize (received world.decode (heardOn s' c.history)).acc.push world.decode chunk = pushed
  have hreads := @receiveValues_reads world
    (RelayClient.record { c with accumulator := some pushed.2 } (.heard s' chunk)) s' hs pushed.1.values
  generalize RelayClient.receiveValues world
    (RelayClient.record { c with accumulator := some pushed.2 } (.heard s' chunk)) s' pushed.1.values = r at hreads ⊢
  obtain ⟨frames, htold, -⟩ := hreads.told
  have hheard : heardOn s r.2.history = heardOn s c.history ++ if s' = s then [chunk] else [] :=
    (htold.heard s).trans (Conversing.heardOn_heard ..)
  split
  · exact ((Quiet.closeConnection ..).heard s).trans hheard
  · exact hheard

theorem heardOn_onConnect (s' s : Nat) : heardOn s (c.onConnect world s').history = heardOn s c.history := by
  rcases @onConnect_greets world c s' with hquiet | ⟨s₁, encoded, c₁, hbefore, -, -, hafter⟩
  · exact hquiet.heard s
  · have hgreeted : heardOn s (.wrote s₁ .hello encoded :: c₁.history) = heardOn s c₁.history :=
      (filterMap_reverse_cons _ _ _).trans (List.append_nil _)
    exact ((hafter.heard s).trans hgreeted).trans (hbefore.heard s)

theorem heardOn_openConnection (s : Nat) : heardOn s (c.openConnection world).history = heardOn s c.history := by
  unfold RelayClient.openConnection
  extract_lets c₁ c₂ thrown c₃
  have hquiet : Quiet world c c₁ := .clear ..
  have hattempted : heardOn s c₃.history = heardOn s c.history :=
    ((filterMap_reverse_cons _ _ _).trans (List.append_nil _)).trans (hquiet.heard s)
  cases thrown with
  | some error => exact ((@Quiet.scheduleReconnect world c₃ _).heard s).trans hattempted
  | none => exact hattempted

/-- On a socket the client hears what it is given there, as long as it is the current one. -/
theorem heardOn_step {e : Event} (hc : Conversing world c) (ha : Attended c) (hi : Intact c) (hrest : Rest c)
    (h : step world c e = some c') (s : Nat) : heardOn s c'.history = heardOn s c.history ++ e.bringsOn c s := by
  have hsilent : e.bringsOn c s = [] → heardOn s c'.history = heardOn s c.history →
      heardOn s c'.history = heardOn s c.history ++ e.bringsOn c s := by
    intro hnone hsame
    rw [hnone, List.append_nil, hsame]
  by_cases hdata : ∃ s' chunk, e = .data s' chunk ∧ c.socket = some s'
  · obtain ⟨s', chunk, rfl, hs⟩ := hdata
    obtain ⟨socket, hsocket, hlistening⟩ := ha s' hs
    have hstep : step world c (.data s' chunk) = some (c.receive world s' chunk) := by
      show c.hear s' (·.receive world s' chunk) = _
      rw [RelayClient.hear, hsocket, Option.map_some, if_pos hlistening]
    cases h.symm.trans hstep
    rw [heardOn_receive hc hs]
    by_cases hsame : s' = s
    · subst hsame
      simp [Event.bringsOn, hs]
    · simp [Event.bringsOn, hsame]
  · have hnone : e.bringsOn c s = [] := by
      cases e with
      | data s' chunk =>
        refine if_neg fun hboth => hdata ⟨s', chunk, rfl, ?_⟩
        rw [hboth.1]
        exact hboth.2
      | _ => rfl
    refine hsilent hnone ?_
    cases step_telling hi hrest h with
    | quiet hq => exact hq.heard s
    | opened hq hs => exact (heardOn_openConnection s).trans (hq.heard s)
    | connected s' hs => exact heardOn_onConnect s' s
    | data s' chunk hs => exact absurd ⟨s', chunk, rfl, hs⟩ hdata

end

end OmpRelayd.Client
