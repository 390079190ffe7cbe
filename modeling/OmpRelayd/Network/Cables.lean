/-
  OmpRelayd.Network.Cables — the relay, its clients, and the streams between them.

  A cable joins a socket of a client to a door of the relay. Each way it is a stream: what comes out
  is the first of what went in, in whatever pieces and however late (`may`). What goes in at the
  client's end is what it has written on the socket, and at the relay's end what the connection's
  writer, or the refusal at the door, has put into frames (`stream`). Doors without a cable are
  other people's, and anything may arrive there. Sockets fail and close whenever they like.

  The relay and each client move as they do by themselves (`port_of_reach`, `client_of_reach`). Proved of every
  run (`net_inv`): what has arrived at a cabled door is the first of what its client wrote, what
  the client has heard is the first of what was sent to it, and that is the frames of items the
  relay had for it, the deliveries among them in the order of the connection's log.
-/

import OmpRelayd.Heard
import OmpRelayd.Relay.Door

namespace OmpRelayd

open Relay (Env Doorman Port PortEv Door Item Conn Sys RelayEv)

/-! ## The system -/

structure Cable (ι : Type) where
  client : ι
  socket : Nat
  /-- What the relay has sent. -/
  out : Bytes := []
  /-- What the client's socket has given of it. -/
  given : Bytes := []
  deriving DecidableEq, Repr

structure Network (ι : Type) where
  port : Port := {}
  clients : ι → Client.RelayClient := fun _ => {}
  /-- By the door. -/
  cables : Map Nat (Cable ι) := ∅

inductive NetEv (ι : Type) where
  /-- A socket that a client has asked for is connected to a new door. -/
  | connect (i : ι) (s : Nat)
  | client (i : ι) (e : Client.Event)
  /-- The client's socket gives a chunk. -/
  | give (d : Nat) (chunk : Bytes)
  /-- A chunk arrives at a cabled door. -/
  | carry (d : Nat) (chunk : Bytes)
  /-- The relay sends some more of what it has for the client. -/
  | flush (d : Nat) (chunk : Bytes)
  | port (e : PortEv)

/-- What the codec makes of an item; it does not take one that is too long. -/
def wireOf (item : Item) : Option Bytes := framed (Client.itemBytes item)

def stream (items : List Item) : Bytes := (items.filterMap wireOf).flatten

/-- What is being written at a door, and was. -/
def Relay.Door.outgoing (sys : Sys) (door : Door) : List Item :=
  match door.stage with
  | .refusing code message => [.plain (Client.closeWith code message)]
  | .serving c _ => ((sys.conns.lookup c).map Conn.outgoing).getD []
  | _ => []

namespace Network

variable {ι : Type} [DecidableEq ι]

def cabled (n : Network ι) (i : ι) (s : Nat) : Bool :=
  n.cables.entries.any fun entry => entry.2.client = i ∧ entry.2.socket = s

/-- What the cables let happen. -/
def may (n : Network ι) : NetEv ι → Bool
  | .connect i s => decide (s < (n.clients i).nextSocket) && !n.cabled i s
  | .client _ (.data _ _) => false
  | .client i (.connected s) => n.cabled i s
  | .client _ _ => true
  | .give d chunk => (n.cables.lookup d).any fun cable => decide (cable.given ++ chunk <+: cable.out)
  | .carry d chunk => (n.cables.lookup d).any fun cable => (n.port.doors.lookup d).any fun door =>
    decide (door.arrived ++ chunk <+: Client.written cable.socket (n.clients cable.client).history)
  | .flush d chunk => (n.cables.lookup d).any fun cable => (n.port.doors.lookup d).any fun door =>
    decide (cable.out ++ chunk <+: stream (door.outgoing n.port.sys))
  | .port (.door d (.arrive _)) => (n.cables.lookup d).isNone
  | .port _ => true

/-- What an event is to the relay. -/
def portEvent : NetEv ι → Option PortEv
  | .connect _ _ => some .accept
  | .carry d chunk => some (.door d (.arrive chunk))
  | .port e => some e
  | _ => none

/-- And to a client. -/
def clientEvent (n : Network ι) : NetEv ι → Option (ι × Client.Event)
  | .client i e => some (i, e)
  | .give d chunk => (n.cables.lookup d).map fun cable => (cable.client, .data cable.socket chunk)
  | _ => none

/-- And to the cables. -/
def rewired (n : Network ι) : NetEv ι → Map Nat (Cable ι)
  | .connect i s => n.cables.insert n.port.nextDoor ⟨i, s, [], []⟩
  | .give d chunk => (n.cables.lookup d).elim n.cables fun cable =>
    n.cables.insert d { cable with given := cable.given ++ chunk }
  | .flush d chunk => (n.cables.lookup d).elim n.cables fun cable =>
    n.cables.insert d { cable with out := cable.out ++ chunk }
  | _ => n.cables

variable (worlds : ι → Client.World) (env : Env) (doorman : Doorman)

def portMoved (n : Network ι) : Option PortEv → Option Port
  | none => some n.port
  | some e => n.port.step env doorman e

def clientsMoved (n : Network ι) : Option (ι × Client.Event) → Option (ι → Client.RelayClient)
  | none => some n.clients
  | some (i, e) => (Client.step (worlds i) (n.clients i) e).map fun c => Function.update n.clients i c

def step (n : Network ι) (e : NetEv ι) : Option (Network ι) :=
  if n.may e then
    (n.portMoved env doorman (portEvent e)).bind fun port =>
      (n.clientsMoved worlds (n.clientEvent e)).map fun clients =>
        { port := port, clients := clients, cables := n.rewired e }
  else none

/-- Sockets are orderly, and no payload is stored beyond what a lifetime can say. -/
def Lawful (n : Network ι) (e : NetEv ι) : Prop :=
  (∀ pe, portEvent e = some pe → ∀ r, n.port.relays env doorman pe = some r → Client.inTime r = true) ∧
    ∀ i ce, n.clientEvent e = some (i, ce) → Client.Orderly (n.clients i) ce

end Network

abbrev NetReach {ι : Type} [DecidableEq ι] (worlds : ι → Client.World) (env : Env) (doorman : Doorman) :=
  Reach (Network.step worlds env doorman) {} (Network.Lawful env doorman)

theorem Network.rewired_give {ι : Type} {n : Network ι} {d : Nat} {cable : Cable ι} {chunk : Bytes} (h : n.cables.lookup d = some cable) :
    n.rewired (.give d chunk) = n.cables.insert d { cable with given := cable.given ++ chunk } := by
  simp [Network.rewired, h]

theorem Network.rewired_flush {ι : Type} {n : Network ι} {d : Nat} {cable : Cable ι} {chunk : Bytes} (h : n.cables.lookup d = some cable) :
    n.rewired (.flush d chunk) = n.cables.insert d { cable with out := cable.out ++ chunk } := by
  simp [Network.rewired, h]

section
variable {ι : Type} [DecidableEq ι] {worlds : ι → Client.World} {env : Env} {doorman : Doorman} {n n' : Network ι} {e : NetEv ι}

theorem Network.step_inv (h : n.step worlds env doorman e = some n') :
    n.may e = true ∧ n.portMoved env doorman (portEvent e) = some n'.port ∧
      n.clientsMoved worlds (n.clientEvent e) = some n'.clients ∧ n'.cables = n.rewired e := by
  unfold Network.step at h
  split at h
  · rename_i hmay
    obtain ⟨port, hport, h⟩ := Option.bind_eq_some_iff.mp h
    obtain ⟨clients, hclients, rfl⟩ := Option.map_eq_some_iff.mp h
    exact ⟨hmay, hport, hclients, rfl⟩
  · cases h

/-! ## Each of them by itself -/

theorem port_of_reach (h : NetReach worlds env doorman n) :
    Relay.PortReach env doorman (fun _ e => Client.inTime e = true) n.port := by
  refine h.inv (P := fun n => Relay.PortReach env doorman (fun _ e => Client.inTime e = true) n.port) .init ?_
  intro n e n' hn hlawful hstep
  obtain ⟨-, hport, -⟩ := Network.step_inv hstep
  cases hpe : Network.portEvent e with
  | none =>
    rw [hpe] at hport
    rw [← Option.some.inj hport]
    exact hn
  | some pe =>
    rw [hpe] at hport
    exact .step pe hn (hlawful.1 pe hpe) hport

theorem client_of_reach (h : NetReach worlds env doorman n) (i : ι) :
    Reach (Client.step (worlds i)) {} Client.Orderly (n.clients i) := by
  refine h.inv (P := fun n => Reach (Client.step (worlds i)) {} Client.Orderly (n.clients i)) .init ?_
  intro n e n' hn hlawful hstep
  obtain ⟨-, -, hclients, -⟩ := Network.step_inv hstep
  cases hce : n.clientEvent e with
  | none =>
    rw [hce] at hclients
    rw [← Option.some.inj hclients]
    exact hn
  | some event =>
    obtain ⟨j, ce⟩ := event
    rw [hce] at hclients
    obtain ⟨c, hc, hclients⟩ := Option.map_eq_some_iff.mp hclients
    rw [← hclients]
    by_cases hij : i = j
    · subst hij
      rw [Function.update_self]
      exact .step ce hn (hlawful.2 i ce hce) hc
    · rw [Function.update_of_ne hij]
      exact hn

/-! ## What a cable carries -/

/-- The kinds of things a client is sent. -/
inductive Utterance (env : Env) : Item → Prop
  | written (item : Item) : Relay.Written env (fun _ => True) Client.GrantsShort item → Utterance env item
  | refusal (code : ErrorCode) (message : String) : Utterance env (.plain (Client.closeWith code message))

/-- These items went to whoever is at the door, the deliveries out of their connection's log. -/
structure Leaves (env : Env) (sys : Sys) (door : Door) (items : List Item) : Prop where
  uttered : ∀ item ∈ items, Utterance env item
  logged : items.filterMap Item.delivered = [] ∨ ∃ c conn, door.stage.serves = some c ∧ sys.conns.lookup c = some conn ∧
    items.filterMap Item.delivered <+: conn.log.map (·.payload)

structure CableInv (env : Env) (n : Network ι) (d : Nat) (cable : Cable ι) : Prop where
  socket : cable.socket < (n.clients cable.client).nextSocket
  door : ∃ door, n.port.doors.lookup d = some door ∧
    door.arrived <+: Client.written cable.socket (n.clients cable.client).history ∧
    ∃ items, Leaves env n.port.sys door items ∧ cable.out <+: stream items
  given : cable.given <+: cable.out
  heard : (Client.heardOn cable.socket (n.clients cable.client).history).flatten <+: cable.given
  whole : (n.clients cable.client).socket = some cable.socket →
    (Client.heardOn cable.socket (n.clients cable.client).history).flatten = cable.given

structure NetInv (env : Env) (n : Network ι) : Prop where
  cable : ∀ d cable, n.cables.lookup d = some cable → CableInv env n d cable
  one : ∀ d cable d' cable', n.cables.lookup d = some cable → n.cables.lookup d' = some cable' →
    cable.client = cable'.client → cable.socket = cable'.socket → d = d'
  /-- A socket without a cable has given nothing. -/
  silent : ∀ i s, n.cabled i s = false → Client.heardOn s (n.clients i).history = []

theorem Network.cabled_iff {i : ι} {s : Nat} :
    n.cabled i s = true ↔ ∃ d cable, n.cables.lookup d = some cable ∧ cable.client = i ∧ cable.socket = s := by
  simp only [Network.cabled, List.any_eq_true, decide_eq_true_eq]
  constructor
  · intro h
    obtain ⟨entry, hentry, hclient, hsocket⟩ := h
    exact ⟨entry.1, entry.2, Map.lookup_of_mem_entries hentry, hclient, hsocket⟩
  · intro h
    obtain ⟨d, cable, hd, hclient, hsocket⟩ := h
    exact ⟨⟨d, cable⟩, Map.mem_entries_of_lookup hd, hclient, hsocket⟩

/-! ## The relay's end -/

theorem Leaves.mono {sys sys' : Sys} {door door' : Door} {items : List Item} (h : Leaves env sys door items)
    (hserves : ∀ c, door.stage.serves = some c → door'.stage.serves = some c)
    (hconn : ∀ c conn, sys.conns.lookup c = some conn →
      ∃ conn', sys'.conns.lookup c = some conn' ∧ conn.log <+: conn'.log) : Leaves env sys' door' items := by
  refine ⟨h.uttered, ?_⟩
  rcases h.logged with hnone | ⟨c, conn, hc, hlookup, hlog⟩
  · exact .inl hnone
  · obtain ⟨conn', hlookup', hgrows⟩ := hconn c conn hlookup
    exact .inr ⟨c, conn', hserves c hc, hlookup', hlog.trans (hgrows.map _)⟩

theorem utterance_outgoing {sys : Sys} (h : Relay.RelayReach env (fun _ e => Client.inTime e = true) sys) {c : Nat} {conn : Conn}
    (hc : sys.conns.lookup c = some conn) : ∀ item ∈ conn.outgoing, Utterance env item := by
  have hwritten := (Client.understood_inv h).items c conn hc
  intro item hitem
  refine .written item ?_
  rcases List.mem_append.mp hitem with hitem | hitem
  · exact hwritten item (by simp only [Conn.items, List.mem_append] at hitem ⊢; tauto)
  · -- what is being written, or is said by itself
    cases hstage : conn.stage with
    | greeting =>
      rw [hstage] at hitem
      rw [List.mem_singleton.mp hitem]
      exact .ready
    | pumping reader writer =>
      rw [hstage] at hitem
      cases writer with
      | writing item' =>
        rw [List.mem_singleton.mp hitem]
        exact hwritten item' (by simp [Conn.items, hstage, Relay.Stage.writing])
      | replaced =>
        rw [List.mem_singleton.mp hitem]
        exact .replaced
      | _ => cases hitem
    | _ =>
      rw [hstage] at hitem
      cases hitem

theorem leaves_outgoing {sys : Sys} (h : Relay.RelayReach env (fun _ e => Client.inTime e = true) sys) (door : Door) :
    Leaves env sys door (door.outgoing sys) := by
  have hnil : Leaves env sys door [] := ⟨List.forall_mem_nil _, .inl rfl⟩
  unfold Relay.Door.outgoing
  cases hst : door.stage with
  | refusing code message => exact ⟨List.forall_mem_singleton.mpr (.refusal code message), .inl rfl⟩
  | serving c reader =>
    show Leaves env sys door ((sys.conns.lookup c).map Conn.outgoing |>.getD [])
    cases hc : sys.conns.lookup c with
    | none => exact hnil
    | some conn =>
      exact ⟨utterance_outgoing h hc, .inr ⟨c, conn, by rw [hst]; rfl, hc, (Relay.delivered_inv h c conn hc).first⟩⟩
  | _ => exact hnil

theorem Network.step_door (hi : Relay.PortInv env doorman n.port) (h : n.step worlds env doorman e = some n') {d : Nat}
    {door : Door} (hd : n.port.doors.lookup d = some door) :
    ∃ door', n'.port.doors.lookup d = some door' ∧ (∀ c, door.stage.serves = some c → door'.stage.serves = some c) ∧
      (door'.arrived = door.arrived ∨
        ∃ chunk, portEvent e = some (.door d (.arrive chunk)) ∧ door'.arrived = door.arrived ++ chunk) := by
  obtain ⟨-, hport, -⟩ := Network.step_inv h
  cases hpe : Network.portEvent e with
  | none =>
    rw [hpe] at hport
    rw [← Option.some.inj hport]
    exact ⟨door, hd, fun _ => id, .inl rfl⟩
  | some pe =>
    rw [hpe] at hport
    obtain ⟨door', hd', hserves, harrived⟩ := hi.step_door hport hd
    rcases harrived with hsame | ⟨chunk, rfl, hmore⟩
    · exact ⟨door', hd', hserves, .inl hsame⟩
    · exact ⟨door', hd', hserves, .inr ⟨chunk, rfl, hmore⟩⟩

theorem Network.step_conn (hi : Relay.PortInv env doorman n.port) (h : n.step worlds env doorman e = some n') {c : Nat}
    {conn : Conn} (hc : n.port.sys.conns.lookup c = some conn) :
    ∃ conn', n'.port.sys.conns.lookup c = some conn' ∧ conn.log <+: conn'.log := by
  obtain ⟨-, hport, -⟩ := Network.step_inv h
  cases hpe : Network.portEvent e with
  | none =>
    rw [hpe] at hport
    rw [← Option.some.inj hport]
    exact ⟨conn, hc, List.prefix_rfl⟩
  | some pe =>
    rw [hpe] at hport
    exact hi.step_conn hport hc

/-! ## The client's end -/

/-- What an event brings client `i` on socket `s`. -/
def Network.brings (n : Network ι) (e : NetEv ι) (i : ι) (s : Nat) : List Bytes :=
  match n.clientEvent e with
  | some (j, ce) => if j = i then ce.bringsOn (n.clients i) s else []
  | none => []

/-- How a client stands after a step of the network. -/
structure Stands (n n' : Network ι) (e : NetEv ι) (i : ι) : Prop where
  next : (n.clients i).nextSocket ≤ (n'.clients i).nextSocket
  history : (n.clients i).history <:+ (n'.clients i).history
  socket : ∀ s, (n'.clients i).socket = some s → (n.clients i).socket = some s ∨ (n.clients i).nextSocket ≤ s
  heard : ∀ s, Client.heardOn s (n'.clients i).history = Client.heardOn s (n.clients i).history ++ n.brings e i s

theorem Network.step_client {i : ι} (hr : Reach (Client.step (worlds i)) {} Client.Orderly (n.clients i))
    (h : n.step worlds env doorman e = some n') : Stands n n' e i := by
  have hsame : n'.clients i = n.clients i → n.brings e i = (fun _ => []) → Stands n n' e i := by
    intro hclient hbrings
    refine ⟨?_, ?_, fun s hs => .inl ?_, fun s => ?_⟩
    · rw [hclient]
    · rw [hclient]
    · rw [← hclient]
      exact hs
    · rw [hclient, hbrings, List.append_nil]
  obtain ⟨-, -, hclients, -⟩ := Network.step_inv h
  cases hce : n.clientEvent e with
  | none =>
    rw [hce] at hclients
    refine hsame (by rw [← Option.some.inj hclients]) ?_
    funext s
    simp [Network.brings, hce]
  | some event =>
    obtain ⟨j, ce⟩ := event
    rw [hce] at hclients
    obtain ⟨c, hc, hclients⟩ := Option.map_eq_some_iff.mp hclients
    by_cases hij : j = i
    · subst hij
      have hclient : n'.clients j = c := by rw [← hclients, Function.update_self]
      obtain ⟨hi, hrest⟩ := Client.intact_of_reach hr
      obtain ⟨hadvances, hhistory⟩ := Client.step_advances hi hrest hc
      rw [← hclient] at hadvances hhistory hc
      refine ⟨hadvances.next, hhistory, hadvances.socket, fun s => ?_⟩
      rw [Client.heardOn_step (Client.conversing_of_reach hr) (Client.attended_of_reach hr) hi hrest hc s]
      simp [Network.brings, hce]
    · refine hsame (by rw [← hclients, Function.update_of_ne (Ne.symm hij)]) ?_
      funext s
      simp [Network.brings, hce, hij]

theorem Network.may_give {d : Nat} {chunk : Bytes} (h : n.may (.give d chunk) = true) :
    ∃ cable, n.cables.lookup d = some cable ∧ cable.given ++ chunk <+: cable.out := by
  cases hd : n.cables.lookup d with
  | none =>
    rw [Network.may, hd] at h
    cases h
  | some cable =>
    rw [Network.may, hd] at h
    exact ⟨cable, rfl, of_decide_eq_true h⟩

theorem Network.may_flush {d : Nat} {chunk : Bytes} (h : n.may (.flush d chunk) = true) :
    ∃ cable, n.cables.lookup d = some cable := by
  cases hd : n.cables.lookup d with
  | none =>
    rw [Network.may, hd] at h
    cases h
  | some cable => exact ⟨cable, rfl⟩

/-- Only its cable brings a client anything on a socket. -/
theorem Network.brings_cases (hmay : n.may e = true) (i : ι) (s : Nat) :
    n.brings e i s = [] ∨ ∃ d cable chunk, e = .give d chunk ∧ n.cables.lookup d = some cable ∧ cable.client = i ∧
      cable.socket = s ∧ n.brings e i s = if (n.clients i).socket = some s then [chunk] else [] := by
  cases e with
  | client j ce =>
    refine .inl ?_
    have hnone : ce.bringsOn (n.clients i) s = [] := by
      cases ce with
      | data s' chunk => cases hmay
      | _ => rfl
    simp [Network.brings, Network.clientEvent, hnone]
  | give d chunk =>
    obtain ⟨cable, hd, -⟩ := Network.may_give hmay
    by_cases hown : cable.client = i ∧ cable.socket = s
    · obtain ⟨rfl, rfl⟩ := hown
      refine .inr ⟨d, cable, chunk, rfl, hd, rfl, rfl, ?_⟩
      simp [Network.brings, Network.clientEvent, hd, Client.Event.bringsOn]
    · refine .inl ?_
      by_cases hclient : cable.client = i
      · have hsocket : cable.socket ≠ s := fun hsocket => hown ⟨hclient, hsocket⟩
        simp [Network.brings, Network.clientEvent, hd, Client.Event.bringsOn, hsocket]
      · simp [Network.brings, Network.clientEvent, hd, hclient]
  | _ => exact .inl rfl

/-! ## Every step -/

/-- What has arrived at a cabled door is still the first of what its client wrote. -/
theorem CableInv.arrived {d : Nat} {cable : Cable ι} {door door' : Door} (hcable : n.cables.lookup d = some cable)
    (hdoor : n.port.doors.lookup d = some door) (hmay : n.may e = true)
    (h : door.arrived <+: Client.written cable.socket (n.clients cable.client).history)
    (harrived : door'.arrived = door.arrived ∨
      ∃ chunk, Network.portEvent e = some (.door d (.arrive chunk)) ∧ door'.arrived = door.arrived ++ chunk) :
    door'.arrived <+: Client.written cable.socket (n.clients cable.client).history := by
  rcases harrived with hsame | ⟨chunk, hpe, hmore⟩
  · rw [hsame]
    exact h
  · rw [hmore]
    cases e with
    | connect i s => cases hpe
    | carry d' chunk' =>
      cases hpe
      rw [Network.may, hcable, hdoor] at hmay
      exact of_decide_eq_true hmay
    | port pe =>
      cases hpe
      rw [Network.may, hcable] at hmay
      cases hmay
    | _ => cases hpe

theorem CableInv.moved {d : Nat} {cable : Cable ι} (h : CableInv env n d cable) (hi : Relay.PortInv env doorman n.port)
    (hstands : Stands n n' e cable.client) (hstep : n.step worlds env doorman e = some n')
    (hcable : n.cables.lookup d = some cable) {given : Bytes} (hgiven : given <+: cable.out)
    (hbrings : n.brings e cable.client cable.socket = [] ∧ given = cable.given ∨
      ∃ chunk, given = cable.given ++ chunk ∧ n.brings e cable.client cable.socket =
        if (n.clients cable.client).socket = some cable.socket then [chunk] else []) :
    CableInv env n' d { cable with given := given } := by
  obtain ⟨door, hdoor, hwritten, items, hleaves, hout⟩ := h.door
  obtain ⟨door', hdoor', hserves, harrived⟩ := Network.step_door hi hstep hdoor
  have hmay := (Network.step_inv hstep).1
  -- a socket the client has now and had a cable before is the one it had before
  have hcurrent : (n'.clients cable.client).socket = some cable.socket → (n.clients cable.client).socket = some cable.socket := by
    intro hs
    rcases hstands.socket _ hs with hs | hle
    · exact hs
    · have hlt := h.socket
      omega
  refine ⟨Nat.lt_of_lt_of_le h.socket hstands.next, ⟨door', hdoor', ?_, items, hleaves.mono hserves ?_, hout⟩, hgiven, ?_, ?_⟩
  · exact (CableInv.arrived hcable hdoor hmay hwritten harrived).trans (Client.written_mono hstands.history _)
  · exact fun c conn hc => Network.step_conn hi hstep hc
  · show (Client.heardOn cable.socket (n'.clients cable.client).history).flatten <+: given
    rw [hstands.heard, List.flatten_append]
    rcases hbrings with ⟨hnone, rfl⟩ | ⟨chunk, rfl, hsome⟩
    · rw [hnone, List.flatten_nil, List.append_nil]
      exact h.heard
    · rw [hsome]
      by_cases hs : (n.clients cable.client).socket = some cable.socket
      · rw [if_pos hs, h.whole hs, List.flatten_singleton]
      · rw [if_neg hs, List.flatten_nil, List.append_nil]
        exact h.heard.trans (List.prefix_append _ _)
  · intro hnow
    have hs := hcurrent hnow
    show (Client.heardOn cable.socket (n'.clients cable.client).history).flatten = given
    rw [hstands.heard, List.flatten_append, h.whole hs]
    rcases hbrings with ⟨hnone, rfl⟩ | ⟨chunk, rfl, hsome⟩
    · rw [hnone, List.flatten_nil, List.append_nil]
    · rw [hsome, if_pos hs, List.flatten_singleton]

theorem CableInv.connected {i : ι} {s : Nat}
    (hstands : Stands n n' (.connect i s) i) (hstep : n.step worlds env doorman (.connect i s) = some n')
    (hsilent : Client.heardOn s (n.clients i).history = []) : CableInv env n' n.port.nextDoor ⟨i, s, [], []⟩ := by
  obtain ⟨hmay, hport, -⟩ := Network.step_inv hstep
  have hport : some { n.port with doors := n.port.doors.insert n.port.nextDoor {}, nextDoor := n.port.nextDoor + 1 } =
    some n'.port := hport
  have hlt : s < (n.clients i).nextSocket := of_decide_eq_true (Bool.and_eq_true_iff.mp hmay).1
  have hheard : Client.heardOn s (n'.clients i).history = [] := by rw [hstands.heard, hsilent]; rfl
  refine ⟨Nat.lt_of_lt_of_le hlt hstands.next, ⟨{}, ?_, List.nil_prefix, [], ⟨List.forall_mem_nil _, .inl rfl⟩,
    List.nil_prefix⟩, List.nil_prefix, ?_, fun _ => ?_⟩
  · rw [← Option.some.inj hport]
    exact AList.lookup_insert _
  · show (Client.heardOn s (n'.clients i).history).flatten <+: []
    rw [hheard]
    exact List.nil_prefix
  · show (Client.heardOn s (n'.clients i).history).flatten = []
    rw [hheard]
    rfl

theorem CableInv.flushed {d : Nat} {cable : Cable ι} {chunk : Bytes} (h : CableInv env n' d cable)
    (hr : Relay.PortReach env doorman (fun _ e => Client.inTime e = true) n.port)
    (hstep : n.step worlds env doorman (.flush d chunk) = some n') (hcable : n.cables.lookup d = some cable) :
    CableInv env n' d { cable with out := cable.out ++ chunk } := by
  obtain ⟨hmay, hport, -⟩ := Network.step_inv hstep
  have hport : n.port = n'.port := Option.some.inj hport
  obtain ⟨door, hdoor, hwritten, -⟩ := h.door
  refine ⟨h.socket, ⟨door, hdoor, hwritten, door.outgoing n'.port.sys, ?_, ?_⟩, h.given.trans (List.prefix_append _ _),
    h.heard, h.whole⟩
  · rw [← hport]
    exact leaves_outgoing (Relay.relayReach hr) door
  · rw [Network.may, hcable, hport, hdoor] at hmay
    exact of_decide_eq_true hmay

/-- Every cable is there after a step, between the same ends. -/
theorem Network.step_forth (h : NetInv env n) (hi : Relay.PortInv env doorman n.port)
    (hstep : n.step worlds env doorman e = some n') {d : Nat} {cable : Cable ι} (hd : n.cables.lookup d = some cable) :
    ∃ cable', n'.cables.lookup d = some cable' ∧ cable'.client = cable.client ∧ cable'.socket = cable.socket := by
  obtain ⟨hmay, -, -, hcables⟩ := Network.step_inv hstep
  rw [hcables]
  -- what is put in at one door leaves the others
  have hinsert : ∀ {j : Nat} {old new : Cable ι}, n.cables.lookup j = some old → new.client = old.client → new.socket = old.socket →
      ∃ cable', (n.cables.insert j new).lookup d = some cable' ∧ cable'.client = cable.client ∧ cable'.socket = cable.socket := by
    intro j old new hj hclient hsocket
    by_cases hsame : d = j
    · subst hsame
      cases hd.symm.trans hj
      exact ⟨new, AList.lookup_insert _, hclient, hsocket⟩
    · exact ⟨cable, (AList.lookup_insert_ne hsame).trans hd, rfl, rfl⟩
  cases e with
  | connect i s =>
    obtain ⟨door, hdoor, -⟩ := (h.cable d cable hd).door
    exact ⟨cable, (AList.lookup_insert_ne (Nat.ne_of_lt (hi.below d door hdoor))).trans hd, rfl, rfl⟩
  | give j chunk =>
    obtain ⟨old, hj, -⟩ := Network.may_give hmay
    rw [Network.rewired_give hj]
    exact hinsert hj rfl rfl
  | flush j chunk =>
    obtain ⟨old, hj⟩ := Network.may_flush hmay
    rw [Network.rewired_flush hj]
    exact hinsert hj rfl rfl
  | _ => exact ⟨cable, hd, rfl, rfl⟩

/-- And every cable after a step was there before, unless it was just laid. -/
theorem Network.step_back (hstep : n.step worlds env doorman e = some n') {d : Nat} {cable' : Cable ι}
    (hd : n'.cables.lookup d = some cable') :
    (∃ i s, e = .connect i s ∧ d = n.port.nextDoor ∧ cable' = ⟨i, s, [], []⟩) ∨
      ∃ cable, n.cables.lookup d = some cable ∧
        (cable' = cable ∧ (∀ chunk, e ≠ .give d chunk) ∧ (∀ chunk, e ≠ .flush d chunk) ∨
          (∃ chunk, e = .give d chunk ∧ cable' = { cable with given := cable.given ++ chunk }) ∨
          ∃ chunk, e = .flush d chunk ∧ cable' = { cable with out := cable.out ++ chunk }) := by
  obtain ⟨hmay, -, -, hcables⟩ := Network.step_inv hstep
  rw [hcables] at hd
  cases e with
  | connect i s =>
    rcases Map.lookup_insert_some hd with ⟨rfl, rfl⟩ | ⟨-, hd⟩
    · exact .inl ⟨i, s, rfl, rfl, rfl⟩
    · exact .inr ⟨cable', hd, .inl ⟨rfl, by simp, by simp⟩⟩
  | give j chunk =>
    obtain ⟨old, hj, -⟩ := Network.may_give hmay
    rw [Network.rewired_give hj] at hd
    rcases Map.lookup_insert_some hd with ⟨rfl, rfl⟩ | ⟨hne, hd⟩
    · exact .inr ⟨old, hj, .inr (.inl ⟨chunk, rfl, rfl⟩)⟩
    · refine .inr ⟨cable', hd, .inl ⟨rfl, fun chunk' he => ?_, by simp⟩⟩
      cases he
      exact hne rfl
  | flush j chunk =>
    obtain ⟨old, hj⟩ := Network.may_flush hmay
    rw [Network.rewired_flush hj] at hd
    rcases Map.lookup_insert_some hd with ⟨rfl, rfl⟩ | ⟨hne, hd⟩
    · exact .inr ⟨old, hj, .inr (.inr ⟨chunk, rfl, rfl⟩)⟩
    · refine .inr ⟨cable', hd, .inl ⟨rfl, by simp, fun chunk' he => ?_⟩⟩
      cases he
      exact hne rfl
  | _ => exact .inr ⟨cable', hd, .inl ⟨rfl, by simp, by simp⟩⟩

theorem NetInv.step_cable (h : NetInv env n) (hr : Relay.PortReach env doorman (fun _ e => Client.inTime e = true) n.port)
    (hc : ∀ i, Reach (Client.step (worlds i)) {} Client.Orderly (n.clients i))
    (hstep : n.step worlds env doorman e = some n') {d : Nat} {cable' : Cable ι} (hd : n'.cables.lookup d = some cable') :
    CableInv env n' d cable' := by
  have hi := Relay.port_inv hr
  have hmay := (Network.step_inv hstep).1
  have hstands : ∀ i, Stands n n' e i := fun i => Network.step_client (hc i) hstep
  rcases Network.step_back hstep hd with ⟨i, s, rfl, rfl, rfl⟩ | ⟨cable, hcable, hchange⟩
  · have hfree : n.cabled i s = false := by simpa using (Bool.and_eq_true_iff.mp hmay).2
    exact .connected (hstands i) hstep (h.silent i s hfree)
  have hold := h.cable d cable hcable
  -- whatever is brought on this socket is brought by this cable
  have hkept : (∀ chunk, e ≠ .give d chunk) → CableInv env n' d cable := by
    intro he
    refine hold.moved hi (hstands _) hstep hcable hold.given (.inl ⟨?_, rfl⟩)
    rcases Network.brings_cases hmay cable.client cable.socket with hnone | ⟨j, other, chunk, rfl, hj, hclient, hsocket, -⟩
    · exact hnone
    · cases h.one j other d cable hj hcable hclient hsocket
      exact absurd rfl (he chunk)
  rcases hchange with ⟨rfl, hgive, -⟩ | ⟨chunk, rfl, rfl⟩ | ⟨chunk, rfl, rfl⟩
  · exact hkept hgive
  · obtain ⟨same, hsame, hgiven⟩ := Network.may_give hmay
    cases hcable.symm.trans hsame
    refine hold.moved hi (hstands _) hstep hcable hgiven (.inr ⟨chunk, rfl, ?_⟩)
    simp [Network.brings, Network.clientEvent, hcable, Client.Event.bringsOn]
  · exact (hkept (by simp)).flushed hr hstep hcable

theorem NetInv.step (h : NetInv env n) (hr : Relay.PortReach env doorman (fun _ e => Client.inTime e = true) n.port)
    (hc : ∀ i, Reach (Client.step (worlds i)) {} Client.Orderly (n.clients i))
    (hstep : n.step worlds env doorman e = some n') : NetInv env n' := by
  have hi := Relay.port_inv hr
  have hmay := (Network.step_inv hstep).1
  have hends : ∀ {d cable'}, n'.cables.lookup d = some cable' →
      (d = n.port.nextDoor ∧ n.cabled cable'.client cable'.socket = false) ∨
        ∃ cable, n.cables.lookup d = some cable ∧ cable.client = cable'.client ∧ cable.socket = cable'.socket := by
    intro d cable' hd
    rcases Network.step_back hstep hd with ⟨i, s, rfl, rfl, rfl⟩ | ⟨cable, hcable, hchange⟩
    · exact .inl ⟨rfl, by simpa using (Bool.and_eq_true_iff.mp hmay).2⟩
    · refine .inr ⟨cable, hcable, ?_⟩
      rcases hchange with ⟨rfl, -⟩ | ⟨chunk, -, rfl⟩ | ⟨chunk, -, rfl⟩ <;> exact ⟨rfl, rfl⟩
  refine ⟨fun d cable' hd => h.step_cable hr hc hstep hd, fun d cable₁ d' cable₂ hd hd' hclient hsocket => ?_, fun i s hfree => ?_⟩
  · have hfresh : ∀ {j cable}, n.cables.lookup j = some cable → ∀ {i s}, n.cabled i s = false →
        ¬ (cable.client = i ∧ cable.socket = s) := by
      intro j cable hj i s hfree hboth
      rw [Network.cabled_iff.mpr ⟨j, cable, hj, hboth⟩] at hfree
      cases hfree
    rcases hends hd with ⟨rfl, hnew⟩ | ⟨cable, hcable, hc₁, hs₁⟩
    · rcases hends hd' with ⟨rfl, -⟩ | ⟨other, hother, hc₂, hs₂⟩
      · rfl
      · exact absurd ⟨hc₂.trans hclient.symm, hs₂.trans hsocket.symm⟩ (hfresh hother hnew)
    · rcases hends hd' with ⟨rfl, hnew⟩ | ⟨other, hother, hc₂, hs₂⟩
      · exact absurd ⟨hc₁.trans hclient, hs₁.trans hsocket⟩ (hfresh hcable hnew)
      · exact h.one d cable d' other hcable hother (hc₁.trans (hclient.trans hc₂.symm)) (hs₁.trans (hsocket.trans hs₂.symm))
  · have hbefore : n.cabled i s = false := by
      by_contra hcabled
      obtain ⟨d, cable, hd, rfl, rfl⟩ := Network.cabled_iff.mp (Bool.eq_true_of_not_eq_false hcabled)
      obtain ⟨cable', hd', hclient, hsocket⟩ := Network.step_forth h hi hstep hd
      rw [Network.cabled_iff.mpr ⟨d, cable', hd', hclient, hsocket⟩] at hfree
      cases hfree
    rw [(Network.step_client (hc i) hstep).heard, h.silent i s hbefore]
    rcases Network.brings_cases hmay i s with hnone | ⟨d, cable, chunk, -, hd, hclient, hsocket, -⟩
    · rw [hnone]
      rfl
    · rw [Network.cabled_iff.mpr ⟨d, cable, hd, hclient, hsocket⟩] at hbefore
      cases hbefore

theorem NetInv.init : NetInv env ({} : Network ι) :=
  ⟨fun _ _ h => (by cases h), fun _ _ _ _ h => (by cases h), fun _ _ _ => rfl⟩

theorem net_inv (h : NetReach worlds env doorman n) : NetInv env n := by
  induction h with
  | init => exact .init
  | step e hr _ hstep ih => exact ih.step (port_of_reach hr) (client_of_reach hr) hstep

end

end OmpRelayd
