/-
  OmpRelayd.Relay.Sizes — does everything the relay builds fit a frame?

  Deliveries do. A body within its budget leaves headroom for the largest envelope there is,
  so no handler ever finds a delivery it cannot write (`the_body_budget_suffices`), and the
  notice of a submission is one byte shorter than its message.

  Replies are measured by nobody until the writer's codec refuses them. All but one are made of
  checked, clamped or fixed texts. The roster is not: a room may have any number of peers, and
  a `list` in one with enough of them is answered with a frame past the cap
  (`a_crowded_roster_does_not_fit`), which ends the connection that asked. Proved
  (`every_reply_fits`): as long as the rosters that handlers are told fit, every reply does.
-/

import OmpRelayd.Relay.Written

namespace OmpRelayd.Relay

/-! ## Deliveries -/

theorem optionalError_none {ε : Type} {validate : String → Except ε Unit} {value : Option String}
    (h : (optionalError validate value).isNone = true) : ∀ v ∈ value, validate v = .ok () := by
  rintro v ⟨⟩
  cases hv : validate v with
  | ok u => rfl
  | error error => simp [optionalError, hv] at h

theorem message_fits {sender : String} {submitted : Submission} (hsender : validateIdentifier sender = .ok ())
    (hid : validateCorrelationId submitted.id = .ok ()) (hpass : submitted.passes = true) :
    (OmpRelayd.encode (submitted.message sender)).length ≤ maxFrameBytes := by
  simp only [Submission.passes, Bool.and_eq_true] at hpass
  obtain ⟨⟨hreply, hattachment⟩, hbody⟩ := hpass
  exact length_message_le (validateCorrelationId_ok hid).2 (validateIdentifier_ok hsender).2
    (bodyOverBudget_none (Option.isNone_iff_eq_none.mp hbody))
    (fun r hr => (validateCorrelationId_ok (optionalError_none hreply r hr)).2)
    fun a ha => Nat.le_of_eq (validateDigest_size (optionalError_none hattachment a ha))

theorem length_notice_succ (submitted : Submission) (sender : String) :
    (OmpRelayd.encode (submitted.notice sender)).length + 1 = (OmpRelayd.encode (submitted.message sender)).length :=
  length_notice ..

theorem notice_fits {sender : String} {submitted : Submission} (hsender : validateIdentifier sender = .ok ())
    (hid : validateCorrelationId submitted.id = .ok ()) (hpass : submitted.passes = true) :
    (OmpRelayd.encode (submitted.notice sender)).length ≤ maxFrameBytes := by
  have hmessage := message_fits hsender hid hpass
  have := length_notice_succ submitted sender
  omega

section
variable {printable : Char → Bool} {idleDebug : String} {blobs : Bool}

theorem encodeDelivery_wire {frame : ServerFrame} (h : (OmpRelayd.encode frame).length ≤ maxFrameBytes) :
    encodeDelivery (wireEnv printable idleDebug blobs) frame = some (OmpRelayd.encode frame) := by
  simp [encodeDelivery, wireEnv, Option.filter_some, h]

/-- What passed is written. -/
theorem not_delivers_none {sender : String} (h : validateIdentifier sender = .ok ()) :
    ¬ Delivers (wireEnv printable idleDebug blobs) sender none := by
  rintro ⟨submitted, hid, hpass, hnone | hnone⟩
  · rw [encodeDelivery_wire (message_fits h hid hpass)] at hnone; cases hnone
  · rw [encodeDelivery_wire (notice_fits h hid hpass)] at hnone; cases hnone

end

/-- Its handler has found a delivery it cannot write: it gives up the slot of the acknowledgement
    for `refuse_unwritable`, and for nothing else. -/
def Conn.Refuses (conn : Conn) : Prop :=
  ∃ late turn rest writer, conn.stage = .pumping (.busy late turn (.call .permitDrop rest)) writer

theorem written_always {env : Env} {ok : Sys → RelayEv → Prop} {s : Sys} (h : RelayReach env ok s) :
    WrittenInv env (fun _ => True) (fun _ => True) s :=
  h.inv .init fun _ _ _ hi _ hs => (relayStep_step hs).written (fun _ _ _ => trivial) trivial
    (fun _ _ _ _ _ _ _ _ _ _ _ _ _ _ _ _ _ => trivial) hi

/-- Whatever was submitted and passed is within the frame cap once it is encoded, as a message
    and, one byte shorter, as a notice; so no connection of a running relay is ever refused for
    what its frame would produce. -/
theorem the_body_budget_suffices :
    (∀ (sender : String) (submitted : Submission), validateIdentifier sender = .ok () →
      validateCorrelationId submitted.id = .ok () → submitted.passes = true →
      (OmpRelayd.encode (submitted.message sender)).length ≤ maxFrameBytes ∧
        (OmpRelayd.encode (submitted.notice sender)).length ≤ maxFrameBytes) ∧
    (∀ (sender : String) (submitted : Submission),
      (OmpRelayd.encode (submitted.notice sender)).length + 1 = (OmpRelayd.encode (submitted.message sender)).length) ∧
    ∀ (printable : Char → Bool) (idleDebug : String) (blobs : Bool) (s : Sys),
      RelayReach (wireEnv printable idleDebug blobs) Always s →
      ∀ c conn, s.conns.lookup c = some conn → ¬ conn.Refuses := by
  refine ⟨fun sender submitted hs hid hpass => ⟨message_fits hs hid hpass, notice_fits hs hid hpass⟩,
    fun sender submitted => length_notice_succ submitted sender, ?_⟩
  rintro printable idleDebug blobs s h c conn hc ⟨late, turn, rest, writer, hst⟩
  have hinv := written_always h
  obtain ⟨-, told, -, hwrites⟩ := hinv.handles c conn hc late turn _ writer hst
  exact not_delivers_none (hinv.names c conn hc) hwrites.1

theorem the_body_budget_suffices_sample :
    (OmpRelayd.encode (Submission.message ⟨"m-1", "hello", some "m-0", none⟩ "alice")).length ≤ maxFrameBytes :=
  (the_body_budget_suffices.1 "alice" ⟨"m-1", "hello", some "m-0", none⟩ rfl rfl rfl).1

/-! ## Replies -/

/-- Every text came in a frame. -/
def framed (frame : ClientFrame) : Bool := (ClientFrame.texts frame).all fun text => text.utf8ByteSize ≤ maxFrameBytes

/-- What is read came in a frame. -/
def arrives : RelayEv → Bool
  | .read _ branch => framed branch.frame
  | _ => true

/-- The names of a roster, each with the two bytes it may need for its head. -/
def rosterBytes (roster : List String) : Nat := (roster.map fun name => name.utf8ByteSize + 2).sum

/-- The bytes of a `peers` frame that are not names. -/
def rosterEnvelope : Nat := 162

/-- The call a reader is at. -/
def Conn.nextCall (conn : Conn) : Option Call :=
  match conn.stage with
  | .pumping (.busy _ _ (.call call _)) _ => some call
  | _ => none

/-- A handler is about to be told a roster that a frame cannot hold. -/
def overfills (s : Sys) : RelayEv → Bool
  | .act c _ _ => (s.conns.lookup c).any fun conn => conn.nextCall.any fun call =>
    match call with
    | .listPeers room => maxFrameBytes < rosterEnvelope + rosterBytes (listPeers s.registry.rooms room)
    | _ => false
  | _ => false

/-- A roster of registered names that a frame can hold. -/
def RosterFits (told : Told) : Prop :=
  (∀ name ∈ told.roster, name.utf8ByteSize ≤ maxIdentifierBytes) ∧
    rosterEnvelope + rosterBytes told.roster ≤ maxFrameBytes

theorem length_roster_le {roster : List String} (h : ∀ name ∈ roster, name.utf8ByteSize ≤ maxIdentifierBytes) :
    (MsgPack.encodeItems (roster.map .text)).length ≤ rosterBytes roster := by
  induction roster with
  | nil => exact Nat.zero_le _
  | cons name rest ih =>
    have hname := length_text_le (Nat.lt_of_le_of_lt (h name List.mem_cons_self) (by decide))
    have hrest := ih fun n hn => h n (List.mem_cons_of_mem name hn)
    simp only [MsgPack.encodeItems_eq, rosterBytes, List.map_cons, List.flatMap_cons, List.length_append,
      List.sum_cons] at hrest ⊢
    omega

theorem two_mul_length_le (roster : List String) : 2 * roster.length ≤ rosterBytes roster := by
  induction roster with
  | nil => exact Nat.zero_le _
  | cons name rest ih =>
    simp only [rosterBytes, List.map_cons, List.sum_cons, List.length_cons] at ih ⊢
    omega

section
variable {id : String}

theorem correlates_length (h : Correlates id) : (MsgPack.Value.text id).encode.length ≤ 130 := by
  have hid := (validateCorrelationId_ok h).2
  have := length_text_le (Nat.lt_of_le_of_lt hid (by decide))
  simp only [maxCorrelationBytes] at hid
  omega

theorem peers_fits {told : Told} (hid : Correlates id) (h : RosterFits told) :
    (OmpRelayd.encode (.peers id told.roster)).length ≤ maxFrameBytes := by
  have hlength : (OmpRelayd.encode (.peers id told.roster)).length =
      1 + 11 + fieldsLength (ServerFrame.fields (.peers id told.roster)) := length_encode (.peers id told.roster)
  have h1 := correlates_length hid
  have h2 := length_roster_le h.1
  have hbound := h.2
  have hcount := two_mul_length_le told.roster
  have h3 := MsgPack.Head.length_array_le (show told.roster.length < 256 ^ 2 by
    simp only [rosterEnvelope, maxFrameBytes] at hbound; omega)
  have k1 : (MsgPack.Value.text "request_id").encode.length = 11 := rfl
  have k2 : (MsgPack.Value.text "peers").encode.length = 6 := rfl
  simp only [ServerFrame.fields, fieldsLength_cons, fieldsLength_nil, fieldLength,
    MsgPack.Value.length_encode (.array _), MsgPack.Value.head, MsgPack.Value.body, List.length_map, k1, k2] at hlength
  simp only [rosterEnvelope] at hbound
  omega

theorem receipt_fits {target : String} (hid : Correlates id) (htarget : target.utf8ByteSize ≤ maxIdentifierBytes)
    (status : ReceiptStatus) : (OmpRelayd.encode (.receipt id target status)).length ≤ maxFrameBytes := by
  have hlength : (OmpRelayd.encode (.receipt id target status)).length =
      1 + 13 + fieldsLength (ServerFrame.fields (.receipt id target status)) :=
    length_encode (.receipt id target status)
  have h1 := correlates_length hid
  have h2 := length_text_le (Nat.lt_of_le_of_lt htarget (by decide))
  have h3 : (MsgPack.Value.text status.asStr).encode.length ≤ 24 := by cases status <;> decide
  have k1 : (MsgPack.Value.text "id").encode.length = 3 := rfl
  have k2 : (MsgPack.Value.text "to").encode.length = 3 := rfl
  have k3 : (MsgPack.Value.text "status").encode.length = 7 := rfl
  simp only [ServerFrame.fields, fieldsLength_cons, fieldsLength_nil, fieldLength] at hlength
  simp only [maxIdentifierBytes, maxFrameBytes] at *
  omega

theorem accepted_fits (hid : Correlates id) (delivered shed : Nat) :
    (OmpRelayd.encode (.accepted id delivered shed)).length ≤ maxFrameBytes := by
  have hlength : (OmpRelayd.encode (.accepted id delivered shed)).length =
      1 + 14 + fieldsLength (ServerFrame.fields (.accepted id delivered shed)) :=
    length_encode (.accepted id delivered shed)
  have h1 := correlates_length hid
  have h2 := length_nat_le (u32 delivered)
  have h3 := length_nat_le (u32 shed)
  have k1 : (MsgPack.Value.text "id").encode.length = 3 := rfl
  have k2 : (MsgPack.Value.text "delivered").encode.length = 10 := rfl
  have k3 : (MsgPack.Value.text "shed").encode.length = 5 := rfl
  simp only [ServerFrame.fields, fieldsLength_cons, fieldsLength_nil, fieldLength] at hlength
  simp only [maxFrameBytes] at *
  omega

theorem reserved_fits (hid : Correlates id) (status : ReserveStatus) (expiresIn : Option Nat) :
    (OmpRelayd.encode (.reserved id status expiresIn)).length ≤ maxFrameBytes := by
  have hlength : (OmpRelayd.encode (.reserved id status expiresIn)).length =
      1 + 14 + fieldsLength (ServerFrame.fields (.reserved id status expiresIn)) :=
    length_encode (.reserved id status expiresIn)
  have h1 := correlates_length hid
  have h2 : (MsgPack.Value.text status.asStr).encode.length ≤ 24 := by cases status <;> decide
  have h3 : fieldsLength (expiresIn.toList.map fun n => ("expires_in", .nat (u64 n))) ≤ 20 := by
    cases expiresIn with
    | none => exact Nat.zero_le _
    | some n =>
      have := length_nat_le (u64 n)
      have k : (MsgPack.Value.text "expires_in").encode.length = 11 := rfl
      simp only [Option.toList_some, List.map_cons, List.map_nil, fieldsLength_cons, fieldsLength_nil, fieldLength]
      omega
  have k1 : (MsgPack.Value.text "request_id").encode.length = 11 := rfl
  have k2 : (MsgPack.Value.text "status").encode.length = 7 := rfl
  simp only [ServerFrame.fields, fieldsLength_append, fieldsLength_cons, fieldsLength_nil, fieldLength] at hlength
  simp only [maxFrameBytes] at *
  omega

theorem error_fits {text : String} {requestId : Option String} (htext : text.utf8ByteSize ≤ maxDiagnosticBytes)
    (hid : ∀ id ∈ requestId, Correlates id) (code : ErrorCode) :
    (OmpRelayd.encode (.error code (some text) requestId)).length ≤ maxFrameBytes := by
  have hlength : (OmpRelayd.encode (.error code (some text) requestId)).length =
      1 + 11 + fieldsLength (ServerFrame.fields (.error code (some text) requestId)) :=
    length_encode (.error code (some text) requestId)
  have h1 := length_long_text_le (Nat.lt_of_le_of_lt htext (by decide))
  have h2 : (MsgPack.Value.text code.asStr).encode.length ≤ 24 := by cases code <;> decide
  have h3 := fieldsLength_optional_le "request_id" (fun r hr => (validateCorrelationId_ok (hid r hr)).2) (by decide)
  have k1 : (MsgPack.Value.text "code").encode.length = 5 := rfl
  have k2 : (MsgPack.Value.text "message").encode.length = 8 := rfl
  have k3 : (MsgPack.Value.text "request_id").encode.length = 11 := rfl
  simp only [ServerFrame.fields, fieldsLength_append, fieldsLength_cons, fieldsLength_nil, fieldLength] at hlength
  have hmessage : fieldsLength (optional "message" (some text)) = 8 + (MsgPack.Value.text text).encode.length := by
    rw [← k2]; rfl
  simp only [maxFrameBytes, maxDiagnosticBytes, maxCorrelationBytes] at *
  omega

end

section
variable {printable : Char → Bool} {idleDebug : String} {blobs : Bool}

theorem reason_size {frame : ClientFrame} {reason : String} (hframe : framed frame = true)
    (h : Reason (wireEnv printable idleDebug blobs) frame reason) : reason.utf8ByteSize ≤ maxReasonBytes := by
  obtain ⟨text, htext, h⟩ := h
  have hsize : text.utf8ByteSize ≤ maxFrameBytes := of_decide_eq_true (List.all_eq_true.mp hframe text htext)
  obtain ⟨error, herror, rfl⟩ | ⟨error, herror, rfl⟩ := h
  · exact correlationId_reason_size herror hsize
  · exact digest_reason_size herror hsize

/-- A reply to a frame, made of a roster that fits. -/
theorem Sound.fits {frame : ClientFrame} {told : Told} {reply : ServerFrame} (hframe : framed frame = true)
    (htold : RosterFits told) (h : Sound (wireEnv printable idleDebug blobs) frame told reply) :
    (OmpRelayd.encode reply).length ≤ maxFrameBytes := by
  cases h with
  | pong => decide
  | peers requestId hid => exact peers_fits hid htold
  | receipt id target status hid htarget => exact receipt_fits hid htarget status
  | accepted id delivered shed hid => exact accepted_fits hid delivered shed
  | reserved requestId granted hid =>
    cases granted with
    | ok grant => exact reserved_fits hid _ _
    | error refusal => exact reserved_fits hid _ _
  | rejected field reason requestId hfield hreason hid =>
    refine error_fits ?_ hid _
    have hr := reason_size hframe hreason
    have hspace : " ".utf8ByteSize = 1 := rfl
    rw [String.utf8ByteSize_append, String.utf8ByteSize_append]
    simp only [maxIdentifierBytes, maxReasonBytes, maxDiagnosticBytes] at *
    omega
  | unsupported text requestId htext hid => exact error_fits (Nat.le_trans htext (by decide)) hid _
  | diagnosed code text => exact error_fits (truncateBytes_le _ _) (by rintro _ ⟨⟩) _

end

theorem mem_listPeers {rooms : Rooms} {room : RoomId} {peer : String} (h : peer ∈ listPeers rooms room) :
    ∃ c, holder rooms ⟨room, peer⟩ = some c := by
  unfold listPeers at h
  split at h
  · cases h
  · rename_i peers hl
    obtain ⟨c, hc⟩ := Map.exists_lookup_of_mem (AList.mem_keys.mp ((List.mergeSort_perm _ _).mem_iff.mp h))
    exact ⟨c, (holder_of_lookup hl peer).trans hc⟩

section
variable {env : Env} {s : Sys}

/-- The rosters a handler is told are of registered names, and fit unless the step says otherwise. -/
theorem tells_roster {F : ClientFrame → Prop} {T : Told → Prop} {e : RelayEv} (hr : RelayInv env s)
    (hw : WrittenInv env F T s) (hok : overfills s e = false) : Tells RosterFits s e := by
  rintro c now order conn late turn call rest writer answer t told rfl hc hst ha htold
  cases ha with
  | listPeers room =>
    refine ⟨fun name hname => ?_, ?_⟩
    · obtain ⟨c', hholder⟩ := mem_listPeers hname
      obtain ⟨x, hx, hn⟩ := hr.holder_conn hholder
      have hvalid := hw.names c' x hx
      rw [hn] at hvalid
      exact (validateIdentifier_ok hvalid).2
    · simp only [overfills, hc, Option.any_some, Conn.nextCall, hst, decide_eq_false_iff_not, Nat.not_lt] at hok
      exact hok
  | _ => exact htold

theorem sizes_inv (h : RelayReach env (fun s e => arrives e = true ∧ overfills s e = false) s) :
    RelayInv env s ∧ WrittenInv env (fun frame => framed frame = true) RosterFits s := by
  refine h.inv (P := fun s => RelayInv env s ∧ WrittenInv env (fun frame => framed frame = true) RosterFits s)
    ⟨.init, .init⟩ fun s e t hi hok hs => ⟨(relayStep_step hs).relayInv hi.1, ?_⟩
  refine (relayStep_step hs).written ?_ ⟨nofun, by decide⟩ (tells_roster hi.1 hi.2 hok.2) hi.2
  rintro c branch rfl
  exact hok.1

end

/-- In every run in which what is read came in a frame and no handler is told a roster that a
    frame cannot hold, every reply ever put into a channel fits. -/
theorem every_reply_fits {printable : Char → Bool} {idleDebug : String} {blobs : Bool} {s : Sys} {c : Nat} {conn : Conn}
    {reply : Reply}
    (h : RelayReach (wireEnv printable idleDebug blobs) (fun s e => arrives e = true ∧ overfills s e = false) s)
    (hc : s.conns.lookup c = some conn) (hreply : .reply reply ∈ conn.items) :
    (OmpRelayd.encode reply.frame).length ≤ maxFrameBytes := by
  obtain ⟨-, hw⟩ := sizes_inv h
  cases hw.items c conn hc _ hreply with
  | reply _ frame told hframe htold hsound => exact hsound.fits hframe htold

/-- A connection that was greeted in the lobby and has done nothing yet. -/
def greeted (peer : String) : Conn :=
  { name := ⟨lobby, peer⟩, sent := [.plain (.ready protocolVersion)], stage := .pumping .awaiting .top }

/-- Alice pings and sends to a name that breaks the rules. -/
def modestRun : List RelayEv :=
  joining 1 ["alice"] ++ reads 1 .ping :: acts 1 2 [] ++
    reads 1 (.send "m-1" "bob@lobby" "hello" none none) :: acts 1 2 []

def plainEnv : Env := wireEnv (fun _ => true) "15s" true

def modestEnd : Sys := (runIf (relayStep plainEnv) (fun s e => arrives e && !overfills s e) {} modestRun).getD {}

theorem every_reply_fits_sample :
    RelayReach plainEnv (fun s e => arrives e = true ∧ overfills s e = false) modestEnd ∧ ∃ alice,
      modestEnd.conns.lookup 1 = some alice ∧ .reply ⟨.receipt "m-1" "bob@lobby" .invalidTarget, 2⟩ ∈ alice.items ∧
      (OmpRelayd.encode (.receipt "m-1" "bob@lobby" .invalidTarget)).length ≤ maxFrameBytes := by
  have hr : RelayReach plainEnv (fun s e => arrives e = true ∧ overfills s e = false) modestEnd :=
    .of_runIf (fun s e => arrives e && !overfills s e)
      (fun s e h => by simpa only [Bool.and_eq_true, Bool.not_eq_true'] using h) modestRun .init rfl
  have hmem : .reply ⟨.receipt "m-1" "bob@lobby" .invalidTarget, 2⟩ ∈ ((modestEnd.conns.lookup 1).getD (greeted "")).items := by
    decide
  exact ⟨hr, _, rfl, hmem, every_reply_fits (c := 1) hr rfl hmem⟩

/-! ## A room with too many names -/

theorem listPeers_register {rooms : Rooms} {room : RoomId} {peer : String} (h : peer ∉ listPeers rooms room) (c : Nat) :
    (listPeers (register rooms room peer c).2 room).Perm (peer :: listPeers rooms room) := by
  have hkeys : ∀ {peers : Peers}, peer ∉ peers.keys →
      (listPeers (rooms.insert room (peers.insert peer c)) room).Perm (peer :: peers.keys) := by
    intro peers hnew
    have hperm := List.mergeSort_perm (peers.insert peer c).keys fun a b => decide (a ≤ b)
    rw [AList.keys_insert, List.erase_of_not_mem hnew] at hperm
    simpa only [listPeers, AList.lookup_insert, AList.keys_insert, List.erase_of_not_mem hnew] using hperm
  unfold listPeers at h
  cases hl : rooms.lookup room with
  | none =>
    simp only [register, hl, Option.getD_none]
    have hempty : listPeers rooms room = [] := by simp [listPeers, hl]
    rw [hempty]
    exact hkeys (List.not_mem_nil)
  | some peers =>
    simp only [hl] at h
    have hsorted := List.mergeSort_perm peers.keys fun a b => decide (a ≤ b)
    have hroster : (listPeers rooms room).Perm peers.keys := by simpa [listPeers, hl] using hsorted
    simp only [register, hl, Option.getD_some]
    exact (hkeys fun hm => h (hsorted.mem_iff.mpr hm)).trans (hroster.symm.cons peer)

/-- Alice has joined and awaits; the lobby holds these names. -/
structure Crowd (env : Env) (names : List String) (s : Sys) : Prop where
  reach : RelayReach env Always s
  next : 1 < s.registry.nextConnectionId
  roster : (listPeers s.registry.rooms lobby).Perm names
  alice : s.conns.lookup 1 = some (greeted "alice")

section
variable {env : Env} {s : Sys} {names : List String} {peer : String}

/-- Whoever has a valid name joins, registers and is greeted. -/
theorem joins (h : RelayReach env Always s) (hvalid : validateIdentifier peer = .ok ()) :
    ∃ t, RelayReach env Always t ∧ t.registry.nextConnectionId = s.registry.nextConnectionId + 1 ∧
      t.registry.rooms = (register s.registry.rooms lobby peer s.registry.nextConnectionId).2 ∧
      ∀ c, t.conns.lookup c = if c = s.registry.nextConnectionId then some (greeted peer) else s.conns.lookup c := by
  have hadmitted : admitted env (.hello protocolVersion lobby peer) = .ok ⟨lobby, peer⟩ := by
    have hproject : validateIdentifier lobby.project = .ok () := by rfl
    have htask : validateIdentifier lobby.task = .ok () := by rfl
    simp only [admitted, ne_eq, not_true, if_false, hproject, htask, hvalid, Except.mapError]
    rfl
  generalize hn : s.registry.nextConnectionId = n
  let name : Name := ⟨lobby, peer⟩
  let s₁ : Sys := { s.put n { name := name } with registry := s.registry.draw name }
  have h₁ : RelayReach env Always s₁ :=
    .step (.hello (.hello protocolVersion lobby peer)) h trivial (by simp only [relayStep, hadmitted, hn, s₁, name])
  have hdrawn : s₁.registry.drawn.lookup n = some name := by simp [s₁, Registry.draw, hn]
  let s₂ : Sys := { s₁.put n { name := name, stage := .greeting } with registry := s₁.registry.insert n name }
  have hc₁ : s₁.conns.lookup n = some { name := name } := by simp [s₁, Sys.put]
  have h₂ : RelayReach env Always s₂ :=
    .step (.insert n) h₁ trivial (by simp only [relayStep, hc₁, Option.bind_some, registryStep, hdrawn, Option.map_some, s₂])
  have hc₂ : s₂.conns.lookup n = some { name := name, stage := .greeting } := by simp [s₂, Sys.put]
  let s₃ : Sys := s₂.put n (greeted peer)
  have h₃ : RelayReach env Always s₃ :=
    .step (.ready n true) h₂ trivial (by simp only [relayStep, hc₂, Option.bind_some, if_true, List.nil_append, s₃, greeted, name])
  refine ⟨s₃, h₃, ?_, rfl, fun c => ?_⟩
  · simp only [s₃, s₂, s₁, Sys.put, Registry.insert, Registry.draw, hn]
  · rw [Sys.lookup_put]
    split
    · rfl
    · rename_i hne
      show ((s₁.put n _).conns.lookup c) = _
      rw [Sys.lookup_put, if_neg hne]
      show ((s.put n _).conns.lookup c) = _
      rw [Sys.lookup_put, if_neg hne]

theorem crowd_alice : ∃ s, Crowd env ["alice"] s := by
  obtain ⟨t, hr, hnext, hrooms, hconns⟩ :=
    joins (show RelayReach env Always {} from .init) (show validateIdentifier "alice" = .ok () from rfl)
  refine ⟨t, hr, by rw [hnext]; decide, ?_, (hconns 1).trans (if_pos rfl)⟩
  rw [hrooms]
  exact listPeers_register (by simp [listPeers]) _

theorem Crowd.join (h : Crowd env names s) (hvalid : validateIdentifier peer = .ok ()) (hnew : peer ∉ names) :
    ∃ t, Crowd env (peer :: names) t := by
  obtain ⟨t, hr, hnext, hrooms, hconns⟩ := joins h.reach hvalid
  refine ⟨t, hr, ?_, ?_, ?_⟩
  · have := h.next; omega
  · rw [hrooms]
    exact (listPeers_register (fun hm => hnew (h.roster.mem_iff.mp hm)) _).trans (h.roster.cons peer)
  · rw [hconns, if_neg (Nat.ne_of_lt h.next)]
    exact h.alice

/-- A room of any valid names can come about. -/
theorem crowd (hvalid : ∀ name ∈ names, validateIdentifier name = .ok ()) (hnodup : (names ++ ["alice"]).Nodup) :
    ∃ s, Crowd env (names ++ ["alice"]) s := by
  induction names with
  | nil => exact crowd_alice
  | cons name rest ih =>
    obtain ⟨hnew, hrest⟩ := List.nodup_cons.mp hnodup
    obtain ⟨s, hs⟩ := ih (fun n hn => hvalid n (List.mem_cons_of_mem name hn)) hrest
    exact hs.join (hvalid name List.mem_cons_self) hnew

end

/-- Sixty-four letters, by the digits of a number. -/
def word (k : Nat) : String := String.ofList ((List.range 64).map fun i => if k.testBit i then 'b' else 'a')

theorem mem_word {k : Nat} {c : Char} (h : c ∈ (word k).toList) : c = 'a' ∨ c = 'b' := by
  simp only [word, String.toList_ofList, List.mem_map] at h
  obtain ⟨i, -, rfl⟩ := h
  split
  · exact .inr rfl
  · exact .inl rfl

theorem word_size (k : Nat) : (word k).utf8ByteSize = 64 := by
  rw [utf8ByteSize_eq_utf8Len, utf8Len_eq_length]
  · simp [word]
  · intro c hc
    rcases mem_word hc with rfl | rfl <;> rfl

theorem word_valid (k : Nat) : validateIdentifier (word k) = .ok () := by
  have hsize := word_size k
  have hplain : ∀ c ∈ (word k).toList, isReservedSeparator c = false ∧ isWhitespace c = false := by
    intro c hc
    rcases mem_word hc with rfl | rfl <;> exact ⟨rfl, rfl⟩
  have hfind : (word k).toList.find? isReservedSeparator = none := by
    refine List.find?_eq_none.mpr fun c hc => ?_
    rw [(hplain c hc).1]; exact Bool.false_ne_true
  have hedge : ∀ o : Option Char, (∀ c, o = some c → c ∈ (word k).toList) → o.any isWhitespace = false := by
    intro o ho
    cases o with
    | none => rfl
    | some c => exact (hplain c (ho c rfl)).2
  unfold validateIdentifier
  rw [if_neg (by rw [String.isEmpty_eq_utf8ByteSize_beq_zero, hsize]; decide), hsize, if_neg (by decide), hfind]
  simp only
  rw [hedge _ fun c hc => List.mem_of_mem_head? hc, hedge _ fun c hc => List.mem_of_mem_getLast? hc]
  rfl

theorem word_injOn {j k : Nat} (hj : j < 2 ^ 64) (hk : k < 2 ^ 64) (h : word j = word k) : j = k := by
  have hlist := congrArg String.toList h
  simp only [word, String.toList_ofList] at hlist
  refine Nat.eq_of_testBit_eq fun i => ?_
  by_cases hi : i < 64
  · have hbit := List.map_inj_left.mp hlist i (List.mem_range.mpr hi)
    cases hjb : j.testBit i <;> cases hkb : k.testBit i <;> simp [hjb, hkb] at hbit ⊢
  · have hpow : ∀ {n : Nat}, n < 2 ^ 64 → n.testBit i = false := fun hn =>
      Nat.testBit_lt_two_pow (Nat.lt_of_lt_of_le hn (Nat.pow_le_pow_right (by decide) (by omega)))
    rw [hpow hj, hpow hk]

/-- More names than a frame holds. -/
def words : List String := (List.range 1024).map word

theorem words_nodup : (words ++ ["alice"]).Nodup := by
  refine List.nodup_append.mpr ⟨?_, List.nodup_singleton _, ?_⟩
  · refine List.Nodup.map_on (fun j hj k hk h => word_injOn ?_ ?_ h) List.nodup_range
    · exact Nat.lt_trans (List.mem_range.mp hj) (by decide)
    · exact Nat.lt_trans (List.mem_range.mp hk) (by decide)
  · intro name hname other hother
    obtain ⟨k, -, rfl⟩ := List.mem_map.mp hname
    rw [List.mem_singleton.mp hother]
    intro heq
    have hsize := word_size k
    rw [heq] at hsize
    exact absurd hsize (by decide)

theorem length_items_ge {roster : List String} :
    (roster.map fun name => name.utf8ByteSize + 1).sum ≤ (MsgPack.encodeItems (roster.map .text)).length := by
  induction roster with
  | nil => exact Nat.zero_le _
  | cons name rest ih =>
    have hpos := (MsgPack.Head.str (utf8 name).length).encode_length_pos
    have hname : (MsgPack.Value.text name).encode.length =
        (MsgPack.Head.str (utf8 name).length).encode.length + name.utf8ByteSize := by
      rw [MsgPack.Value.length_encode]
      simp only [MsgPack.Value.text, MsgPack.Value.head, MsgPack.Value.body, length_utf8]
    simp only [MsgPack.encodeItems_eq, List.map_cons, List.flatMap_cons, List.length_append, List.sum_cons] at ih ⊢
    omega

theorem words_overfill {roster : List String} (h : roster.Perm (words ++ ["alice"])) (id : String) :
    maxFrameBytes < (OmpRelayd.encode (.peers id roster)).length := by
  have hitems := @length_items_ge roster
  have hsum : (roster.map fun name => name.utf8ByteSize + 1).sum = 1024 * 65 + 6 := by
    rw [(h.map _).sum_eq, List.map_append, List.sum_append, words, List.map_map]
    have hconst : (fun name => name.utf8ByteSize + 1) ∘ word = fun _ => 65 := by
      funext k
      simp only [Function.comp_apply, word_size]
    rw [hconst, List.map_const', List.sum_replicate, List.length_range]
    rfl
  have hlength := length_encode (.peers id roster)
  simp only [ServerFrame.fields, fieldsLength_cons, fieldsLength_nil, fieldLength,
    MsgPack.Value.length_encode (.array _), MsgPack.Value.body] at hlength
  simp only [maxFrameBytes]
  omega

theorem relayStep_act {env : Env} {s t : Sys} {c now : Nat} {order : List Nat} {conn conn' : Conn} {late : Bool}
    {turn : Turn} {call : Call} {rest : call.Answer → Handler ControlFlow} {writer : Writer} {answer : call.Answer}
    (hc : s.conns.lookup c = some conn) (hst : conn.stage = .pumping (.busy late turn (.call call rest)) writer)
    (ha : s.answer c now order call = some (answer, t)) (hc' : t.conns.lookup c = some conn') :
    relayStep env s (.act c now order) = some (t.put c { conn' with
      stage := .pumping (.of late (nextTurn conn.current turn call answer) (rest answer)) writer }) := by
  simp only [relayStep, hc, Option.bind_some, hst, ha, hc', Option.map_some]

/-- Whoever awaits in the lobby can ask for its roster, and is given all of it. -/
theorem lists {env : Env} {s : Sys} {c : Nat} {peer : String} (h : RelayReach env Always s)
    (hc : s.conns.lookup c = some (greeted peer)) :
    ∃ t conn, RelayReach env Always t ∧ t.conns.lookup c = some conn ∧ conn.frame 1 = some (.list "r-1") ∧
      .reply ⟨.peers "r-1" (listPeers s.registry.rooms lobby), 1⟩ ∈ conn.items := by
  have hfind : ∀ (s : Sys) (conn : Conn), (s.put c conn).conns.lookup c = some conn := fun s conn =>
    (Sys.lookup_put ..).trans (if_pos rfl)
  let branch : Branch := .inbound (.decoded (.list "r-1"))
  have h₁ : RelayReach env Always (s.put c { greeted peer with
      turns := [branch]
      stage := .pumping (.busy (s.evicted c) (.fresh none) (.call (.listPeers lobby) fun roster =>
        enqueueReply (.peers "r-1" roster))) .top }) :=
    .step (.read c branch) h trivial (by simp only [relayStep, hc, Option.bind_some]; rfl)
  -- it is told the roster, finds its channel free, and puts the reply in
  have h₂ := h₁.step (.act c 0 []) trivial (relayStep_act (hfind _ _) rfl rfl (hfind _ _))
  have h₃ := h₂.step (.act c 0 []) trivial (relayStep_act (hfind _ _) rfl
    (show Sys.answer _ c 0 [] .capacity = some (9, _) by simp only [Sys.answer, Sys.perform, hfind, Option.elim_some]; rfl)
    (hfind _ _))
  have h₄ := h₃.step (.act c 0 []) trivial (relayStep_act (hfind _ _) rfl
    (show Sys.answer _ c 0 [] (.trySend _) = some (.ok (), _) by simp only [Sys.answer, Sys.perform, Sys.on, hfind]; rfl)
    (hfind _ _))
  exact ⟨_, _, h₄, hfind _ _, rfl, List.mem_append_left _ (List.mem_append_right _ (List.mem_singleton.mpr rfl))⟩

/-- With a thousand names in the lobby alice's `list` is answered with a frame that cannot be
    written. -/
theorem a_crowded_roster_does_not_fit : ∃ s alice reply, RelayReach plainEnv Always s ∧ s.conns.lookup 1 = some alice ∧
    alice.frame 1 = some (.list "r-1") ∧ .reply reply ∈ alice.items ∧
    maxFrameBytes < (OmpRelayd.encode reply.frame).length := by
  have hvalid : ∀ name ∈ words, validateIdentifier name = .ok () := by
    intro name hname
    obtain ⟨k, -, rfl⟩ := List.mem_map.mp hname
    exact word_valid k
  obtain ⟨s, hs⟩ := (show ∃ s, Crowd plainEnv (words ++ ["alice"]) s from crowd hvalid words_nodup)
  obtain ⟨t, conn, ht, hc, hframe, hreply⟩ := lists hs.reach hs.alice
  exact ⟨t, conn, _, ht, hc, hframe, hreply, words_overfill hs.roster "r-1"⟩

end OmpRelayd.Relay
