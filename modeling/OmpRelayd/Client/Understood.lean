/-
  OmpRelayd.Client.Understood — every frame the relay emits is a frame to its client.

  The relay checks what a sender wrote, the client checks what the relay wrote, and each holds
  the other to rules of its own. A field that passes the first and fails the second would let
  one peer close the connections of a whole room. None does; but a long text that begins with a
  byte order mark loses it on the way.

  Proved (`the_client_understands_the_relay`): whatever any connection has been sent or has
  coming, and whatever a connection is turned away with, decodes, if it is no longer than a
  frame, and validates to a frame, which is the one it was, field by field, exactly if none of
  its texts is longer than 200 bytes and begins with U+FEFF. Instants count from the start of
  the relay; the one field that is a time, the lifetime of a grant, is what is left of a stored
  payload's, and is a `u32` of seconds as long as no payload is stored 136 years after it.
-/

import OmpRelayd.Client.Frames
import OmpRelayd.Relay.Rooms
import OmpRelayd.Relay.Sizes

namespace OmpRelayd

def ServerFrame.delivers : ServerFrame → Bool
  | .message _ _ _ _ _ => true
  | .notice _ _ _ _ _ => true
  | _ => false

end OmpRelayd

namespace OmpRelayd.Client

open MsgPack Relay

/-! ## A well-formed frame -/

/-- The client decodes these bytes, and takes them for this frame of the relay. -/
def Understood (lossy : Bytes → String) (bytes : Bytes) (frame : OmpRelayd.ServerFrame) : Prop :=
  ∃ value, decoder bytes = some value ∧ validateServerFrame (js lossy value) = .frame (seen frame)

theorem serverFields_plain (frame : OmpRelayd.ServerFrame) : ∀ f ∈ frame.fields, Field.Plain f := by
  have hu32 : ∀ (name : String) (n : Nat), Field.Plain (name, .nat (u32 n)) := fun _ n _ =>
    carried_nat (Nat.lt_trans (Nat.mod_lt n (by decide)) (by decide : 2 ^ 32 < 2 ^ 64))
  have hu64 : ∀ (name : String) (n : Nat), Field.Plain (name, .nat (u64 n)) := fun _ n _ =>
    carried_nat (Nat.mod_lt n (by decide))
  have htexts : ∀ (name : String) (texts : List String), Field.Plain (name, .array (texts.map .text)) := by
    intro name texts hlen
    refine carried_array hlen fun v hv => ?_
    obtain ⟨text, -, rfl⟩ := List.mem_map.mp hv
    exact carried_text
  have hexpires : ∀ expiresIn : Option Nat, (∀ f ∈ expiresIn.toList.map fun n => ("expires_in", Value.nat (u64 n)),
      Field.Plain f) ↔ True := by
    intro expiresIn
    cases expiresIn <;> simp [-Prod.forall, hu64]
  cases frame <;>
    simp only [OmpRelayd.ServerFrame.fields, OmpRelayd.ServerFrame.deliveryFields, List.forall_mem_append,
      List.forall_mem_cons, List.not_mem_nil, forall_mem_optional, plain_text, hu32, htexts, hexpires, false_imp_iff,
      implies_true, and_self]

theorem understood_of_wellFormed (lossy : Bytes → String) {frame : OmpRelayd.ServerFrame} (h : WellFormed frame)
    (hlen : (OmpRelayd.encode frame).length ≤ maxFrameBytes) : Understood lossy (OmpRelayd.encode frame) (readFrame frame) := by
  have hcarried : Carried frame.value :=
    carried_named hlen (List.forall_mem_cons.mpr ⟨plain_text _ _, serverFields_plain frame⟩)
  exact ⟨frame.value, decoder_encode hcarried, validateServerFrame_seen lossy h⟩

/-- The client takes these bytes for a frame: for this one exactly if none of its texts loses a mark,
    and otherwise for it without those marks. -/
structure ReadAs (lossy : Bytes → String) (bytes : Bytes) (frame : OmpRelayd.ServerFrame) : Prop where
  read : Understood lossy bytes (readFrame frame)
  exact : Understood lossy bytes frame ↔ ∀ text ∈ texts frame, marked text = false

theorem readAs_of_wellFormed (lossy : Bytes → String) {frame : OmpRelayd.ServerFrame} (h : WellFormed frame)
    (hlen : (OmpRelayd.encode frame).length ≤ maxFrameBytes) : ReadAs lossy (OmpRelayd.encode frame) frame := by
  obtain ⟨value, hvalue, hvalid⟩ := understood_of_wellFormed lossy h hlen
  refine ⟨⟨value, hvalue, hvalid⟩, ?_⟩
  rw [← seen_readFrame]
  constructor
  · intro hunderstood
    obtain ⟨value', hvalue', hvalid'⟩ := hunderstood
    cases hvalue.symm.trans hvalue'
    exact ServerFrameOutcome.frame.inj (hvalid.symm.trans hvalid')
  · intro hsame
    exact ⟨value, hvalue, hsame ▸ hvalid⟩

/-! ## Lifetimes -/

/-- What a `u32` of seconds cannot say. -/
def lifetimeBound : Nat := 2 ^ 32 * Blob.nanos

/-- A payload that is stored now expires before that. -/
def inTime : RelayEv → Bool
  | .transfer (.commitUpload _ now) => now + Blob.payloadTimeToLive < lifetimeBound
  | _ => true

def Lifetimes (s : Sys) : Prop :=
  ∀ room digest p, Blob.storedAt s.store.index room digest = some p → p.expiresAt < lifetimeBound

/-- Whatever was granted has a lifetime that can be said. -/
def GrantsShort (told : Told) : Prop := ∀ grant, told.granted = some (.ok grant) → grant.timeToLive < lifetimeBound

section
variable {env : Env} {s t : Sys} {e : RelayEv}

theorem lifetimes_step (hs : Step env s e t) (hstore : Blob.StoreInv s.store) (hok : inTime e = true) (h : Lifetimes s) :
    Lifetimes t := by
  have hmade : ∀ e', Blob.storeStep s.store e' = some t.store →
      (∀ g now, e' = .commitUpload g now → now + Blob.payloadTimeToLive < lifetimeBound) → Lifetimes t := by
    intro e' hst hnow room digest p hp
    obtain ⟨change, hallow, hl⟩ := Blob.storeStep_makes hstore hst
    replace hp : (Blob.ledgerOf t.store.index).stored room digest = some p := hp
    rw [hl] at hp
    rcases (Blob.ledgerOf s.store.index).stored_of_apply change hp with hold | ⟨bytes, now, rfl, hexpires⟩
    · exact h room digest p hold
    · cases hallow with
      | settled g now f => rw [hexpires]; exact hnow g now rfl
  rcases hs.storeStep with heq | ⟨c, now, order, room, digest, bytes, rfl, hst⟩ | ⟨c, conn, rfl, -, -, hst⟩ |
    ⟨e', rfl, -, -, hst⟩
  · unfold Lifetimes
    rw [heq]
    exact h
  · exact hmade _ hst nofun
  · exact hmade _ hst nofun
  · refine hmade _ hst ?_
    rintro g now rfl
    simpa only [inTime, decide_eq_true_eq] using hok

/-- A grant is for what is left of a stored payload, or for a whole lifetime. -/
theorem tells_grants (hstore : Blob.StoreInv s.store) (h : Lifetimes s) : Tells GrantsShort s e := by
  rintro c now order conn late turn call rest writer answer t told rfl hc hst ha htold
  cases ha with
  | reserve room digest bytes =>
    intro grant hgrant
    obtain ⟨v, ⟨hval, _⟩, hv⟩ := Blob.reserve_spec hstore.books room digest bytes now
    have hanswer : v.1 = .ok grant := by
      rw [← hval]
      exact Option.some.inj hgrant
    cases hv with
    | refused r => cases hanswer
    | held p hb hp hlive =>
      cases hanswer
      rw [Blob.storedAt_room] at hp
      exact Nat.lt_of_le_of_lt (Nat.sub_le _ _) (h room digest p hp)
    | granted =>
      cases hanswer
      exact (by decide : Blob.payloadTimeToLive < lifetimeBound)
  | _ => exact htold

theorem lifetimes_init : Lifetimes {} := by
  intro room digest p hp
  simp [Blob.storedAt] at hp

theorem understood_inv (h : RelayReach env (fun _ e => inTime e = true) s) :
    WrittenInv env (fun _ => True) GrantsShort s := by
  refine (h.inv (P := fun s => (Blob.StoreInv s.store ∧ Lifetimes s) ∧ WrittenInv env (fun _ => True) GrantsShort s)
    ⟨⟨.empty, lifetimes_init⟩, .init⟩ fun s e t hi hok hs => ?_).2
  have hstep := relayStep_step hs
  exact ⟨⟨hstep.storeInv hi.1.1, lifetimes_step hstep hi.1.1 hok hi.1.2⟩,
    hstep.written (fun _ _ _ => trivial) nofun (tells_grants hi.1.1 hi.1.2) hi.2⟩

end

/-! ## What the relay writes is well formed -/

theorem correlates_ne_empty {id : String} (h : Correlates id) : id ≠ "" := (validateCorrelationId_ok h).1

theorem wellFormed_of_sound {env : Env} {frame : OmpRelayd.ClientFrame} {told : Told} {reply : OmpRelayd.ServerFrame}
    (htold : GrantsShort told) (h : Sound env frame told reply) : WellFormed reply := by
  cases h with
  | peers requestId hid => exact correlates_ne_empty hid
  | receipt id target status hid => exact correlates_ne_empty hid
  | accepted id delivered shed hid => exact correlates_ne_empty hid
  | reserved requestId granted hid hgranted =>
    cases granted with
    | ok grant =>
      refine ⟨correlates_ne_empty hid, by simp, ?_⟩
      rintro n ⟨⟩
      exact Nat.div_lt_of_lt_mul (by rw [Nat.mul_comm]; exact htold grant hgranted)
    | error refusal =>
      have hstatus : reserveStatus refusal ≠ .granted := by cases refusal <;> decide
      exact ⟨correlates_ne_empty hid, by simp [hstatus], nofun⟩
  | _ => trivial

/-- A delivery as its recipient reads it: only its body may be long. -/
def readBody : OmpRelayd.ServerFrame → OmpRelayd.ServerFrame
  | .message id sender body replyTo attachment => .message id sender (readText body) replyTo attachment
  | .notice id sender body replyTo attachment => .notice id sender (readText body) replyTo attachment
  | frame => frame

/-- A payload in a queue is a message or a notice that its recipient's client accepts. -/
theorem wellFormed_of_delivers {printable : Char → Bool} {idleDebug : String} {blobs : Bool} {sender : String}
    {payload : Bytes} (hsender : validateIdentifier sender = .ok ())
    (h : Delivers (wireEnv printable idleDebug blobs) sender (some payload)) :
    ∃ frame : OmpRelayd.ServerFrame, frame.delivers = true ∧ OmpRelayd.encode frame = payload ∧
      (OmpRelayd.encode frame).length ≤ maxFrameBytes ∧ WellFormed frame ∧ readFrame frame = readBody frame := by
  obtain ⟨submitted, hid, hpass, hencoded⟩ := h
  have hmessage := message_fits hsender hid hpass
  have hnotice := notice_fits hsender hid hpass
  simp only [Submission.passes, Bool.and_eq_true] at hpass
  have hdigest := optionalError_none hpass.1.2
  have hdelivery : DeliveryWellFormed submitted.id sender submitted.attachment :=
    ⟨correlates_ne_empty hid, (validateIdentifier_ok hsender).1, hdigest⟩
  have hshort : ∀ {n : Nat} {text : String}, text.utf8ByteSize ≤ n → n ≤ textDecoderThreshold → marked text = false :=
    fun hle hn => marked_of_short (Nat.le_trans hle hn)
  have hid' := readText_eq_self.mpr (hshort (validateCorrelationId_ok hid).2 (by decide))
  have hsender' := readText_eq_self.mpr (hshort (validateIdentifier_ok hsender).2 (by decide))
  have hreply := map_readText_eq_self.mpr fun text ht =>
    hshort (validateCorrelationId_ok (optionalError_none hpass.1.1 text ht)).2 (by decide)
  have hattachment := map_readText_eq_self.mpr fun text ht =>
    hshort (Nat.le_of_eq (validateDigest_size (hdigest text ht))) (by decide)
  rw [encodeDelivery_wire hmessage, encodeDelivery_wire hnotice, Option.some_inj, Option.some_inj] at hencoded
  rcases hencoded with hencoded | hencoded
  · refine ⟨submitted.message sender, rfl, hencoded, hmessage, hdelivery, ?_⟩
    simp only [Submission.message, readFrame, readBody, hid', hsender', hreply, hattachment]
  · refine ⟨submitted.notice sender, rfl, hencoded, hnotice, hdelivery, ?_⟩
    simp only [Submission.notice, readFrame, readBody, hid', hsender', hreply, hattachment]

/-- The bytes of an item, as the codec is given them. -/
def itemBytes : Item → Bytes
  | .reply reply => OmpRelayd.encode reply.frame
  | .delivery payload => payload
  | .plain frame => OmpRelayd.encode frame

/-- The frame an item is of. -/
def Carries : Item → OmpRelayd.ServerFrame → Prop
  | .reply reply, frame => reply.frame = frame
  | .delivery payload, frame => OmpRelayd.encode frame = payload
  | .plain frame', frame => frame' = frame

/-- What a connection that is not admitted is closed with. -/
def closeWith (code : ErrorCode) (message : String) : OmpRelayd.ServerFrame :=
  .error code (some (capDiagnostic message)) none

/-- In every run in which no payload is stored beyond what a lifetime can say, whatever a
    connection has been sent or has coming is, if the codec lets it through, a frame to its client,
    and the frame it is exactly if no text of it is longer than the threshold and begins with a
    byte order mark; and so is every diagnostic that turns a connection away. -/
theorem the_client_understands_the_relay (lossy : Bytes → String) {printable : Char → Bool} {idleDebug : String}
    {blobs : Bool} {s : Sys} (h : RelayReach (wireEnv printable idleDebug blobs) (fun _ e => inTime e = true) s) :
    (∀ c conn, s.conns.lookup c = some conn → ∀ item ∈ conn.items, (itemBytes item).length ≤ maxFrameBytes →
      ∃ frame, Carries item frame ∧ ReadAs lossy (itemBytes item) frame) ∧
    ∀ code message, ReadAs lossy (OmpRelayd.encode (closeWith code message)) (closeWith code message) := by
  refine ⟨fun c conn hc item hitem hlen => ?_, fun code message => ?_⟩
  · cases (understood_inv h).items c conn hc item hitem with
    | reply reply frame told _ htold hsound =>
      exact ⟨reply.frame, rfl, readAs_of_wellFormed lossy (wellFormed_of_sound htold hsound) hlen⟩
    | delivery payload sender hsender hdelivers =>
      obtain ⟨frame, -, rfl, -, hwell, -⟩ := wellFormed_of_delivers hsender hdelivers
      exact ⟨frame, rfl, readAs_of_wellFormed lossy hwell hlen⟩
    | ready => exact ⟨_, rfl, readAs_of_wellFormed lossy trivial hlen⟩
    | replaced => exact ⟨_, rfl, readAs_of_wellFormed lossy trivial hlen⟩
  · exact readAs_of_wellFormed lossy trivial (error_fits (truncateBytes_le _ _) (by rintro _ ⟨⟩) code)

/-- Alice sends this to bob. -/
def sendingRun (body : String) : List RelayEv :=
  joining 1 ["alice", "bob"] ++ reads 1 (.send "m-1" "bob" body none none) :: acts 1 5 []

def sendingEnd (body : String) : Sys := (runIf (relayStep plainEnv) (fun _ e => inTime e) {} (sendingRun body)).getD {}

def sentFrame (body : String) : OmpRelayd.ServerFrame := .message "m-1" "alice" body none none

def sentItem (body : String) : Item := .delivery (OmpRelayd.encode (sentFrame body))

theorem bob_understands_hello :
    RelayReach plainEnv (fun _ e => inTime e = true) (sendingEnd "hello") ∧
      ∃ bob, (sendingEnd "hello").conns.lookup 2 = some bob ∧ sentItem "hello" ∈ bob.items ∧
        ∃ frame, Carries (sentItem "hello") frame ∧ ReadAs (fun _ => "") (itemBytes (sentItem "hello")) frame := by
  have hr : RelayReach plainEnv (fun _ e => inTime e = true) (sendingEnd "hello") :=
    .of_runIf (fun _ e => inTime e) (fun _ _ h => h) (sendingRun "hello") .init rfl
  have hmem : sentItem "hello" ∈ (((sendingEnd "hello").conns.lookup 2).getD (greeted "")).items := by decide
  exact ⟨hr, _, rfl, hmem, (the_client_understands_the_relay (fun _ => "") hr).1 2 _ rfl _ hmem (by decide)⟩

/-- Two hundred letters and one more character in front of them. -/
def markedBody : String := String.ofList (byteOrderMark :: List.replicate 200 'a')

/-- Bob is sent the text and handed the letters. -/
theorem a_mark_is_lost_on_the_way :
    RelayReach plainEnv (fun _ e => inTime e = true) (sendingEnd markedBody) ∧
      (∃ bob, (sendingEnd markedBody).conns.lookup 2 = some bob ∧ sentItem markedBody ∈ bob.items) ∧
      Understood (fun _ => "") (itemBytes (sentItem markedBody)) (sentFrame (String.ofList (List.replicate 200 'a'))) ∧
      ¬ Understood (fun _ => "") (itemBytes (sentItem markedBody)) (sentFrame markedBody) := by
  have hread : ReadAs (fun _ => "") (itemBytes (sentItem markedBody)) (sentFrame markedBody) :=
    readAs_of_wellFormed (fun _ => "") ⟨by decide, by decide, nofun⟩ (by decide +kernel)
  have hmem : sentItem markedBody ∈ (((sendingEnd markedBody).conns.lookup 2).getD (greeted "")).items := by decide +kernel
  have hletters : readText markedBody = String.ofList (List.replicate 200 'a') := by decide +kernel
  refine ⟨.of_runIf (fun _ e => inTime e) (fun _ _ h => h) (sendingRun markedBody) .init ?_, ?_, ?_, fun hexact => ?_⟩
  · have hsome : (runIf (relayStep plainEnv) (fun _ e => inTime e) {} (sendingRun markedBody)).isSome = true := by
      decide +kernel
    exact some_getD_of_isSome hsome _
  · have hsome : ((sendingEnd markedBody).conns.lookup 2).isSome = true := by decide +kernel
    exact ⟨_, some_getD_of_isSome hsome (greeted ""), hmem⟩
  · rw [← hletters]
    exact hread.read
  · have := hread.exact.mp hexact markedBody (by simp [sentFrame, texts])
    revert this
    decide +kernel

end OmpRelayd.Client
