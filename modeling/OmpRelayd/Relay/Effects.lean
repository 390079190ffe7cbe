/-
  OmpRelayd.Relay.Effects — one frame handled with nobody in between.

  Over any registry, any store, any queues and any occupancy of the reply channel, with the
  writer alive, `handle_frame` is run to its end and what it changed is compared with what it
  said. Proved (`effects_acknowledged`): a queue or the store changes only together with
  exactly one acknowledgement that carries the frame's token, and the connection goes on; a
  frame that closes the connection changed neither; and every receipt, `accepted` and
  `reserved` frame is true of what happened.

  The argument follows `Turn`: `Reached` says, for each state of the record, how the relay
  then differs from the one the frame was read in, and every call the rules allow keeps it.
-/

import OmpRelayd.Blob.Views
import OmpRelayd.Relay.Conns

namespace OmpRelayd.Relay

/-! ## What is compared -/

/-- The frames waiting in a connection's reply channel. -/
def repliesOf (s : Sys) (c : Nat) : List ServerFrame :=
  ((s.conns.lookup c).map fun conn => conn.replies.map (·.frame)).getD []

/-- Exactly these queues gained the payload, one copy each, at the end. -/
structure Gained (s t : Sys) (gained : List Nat) (payload : Bytes) : Prop where
  once : gained.Nodup
  there : ∀ o ∈ gained, (queueOf s o).isSome = true
  queues : ∀ o, queueOf t o = if o ∈ gained then (queueOf s o).map (· ++ [payload]) else queueOf s o

/-- What an acknowledgement says of the change from `s` to `t`, made for a frame of `name` at `now`. -/
def TrueOf (env : Env) (name : Name) (now : Nat) (frame : ClientFrame) (s t : Sys) : ServerFrame → Prop
  | .receipt _ target status =>
    t.store = s.store ∧
      if status = .routed then
        ∃ o payload, outboundOf s.registry.rooms name.room target = some o ∧
          delivery env name.peer frame = some payload ∧ Gained s t [o] payload
      else ∀ o, queueOf t o = queueOf s o
  | .accepted _ delivered shed =>
    t.store = s.store ∧ ∃ gained payload, delivery env name.peer frame = some payload ∧ Gained s t gained payload ∧
      (∀ o ∈ gained, o ∈ recipients s.registry.rooms name.room name.peer) ∧ delivered = gained.length ∧
      delivered + shed = ((listPeers s.registry.rooms name.room).filter (· != name.peer)).length
  | .reserved _ status _ =>
    (∀ o, queueOf t o = queueOf s o) ∧
      (status = .granted → ∃ requestId digest bytes, frame = .reserve requestId digest bytes ∧
        ((∃ p, Blob.storedAt t.store.index name.room digest = some p ∧ now < p.expiresAt) ∨
          ∃ r, Blob.reservedAt t.store.index name.room digest = some r ∧ r.declared = bytes)) ∧
      (status ≠ .granted → t.store.index = s.store.index)
  | _ => True

variable {s t t' : Sys} {c now : Nat} {conn : Conn}

theorem Gained.none (h : ∀ o, queueOf t o = queueOf s o) (payload : Bytes) : Gained s t [] payload :=
  ⟨.nil, fun o ho => (List.not_mem_nil ho).elim, fun o => by simp [h o]⟩

theorem Gained.congr {gained : List Nat} {payload : Bytes} (h : Gained s t gained payload)
    (hq : ∀ o, queueOf t' o = queueOf t o) : Gained s t' gained payload :=
  ⟨h.once, h.there, fun o => (hq o).trans (h.queues o)⟩

/-- One more queue gains it. -/
theorem Gained.add {gained : List Nat} {payload : Bytes} (h : Gained s t gained payload) {o : Nat} (ho : o ∉ gained)
    {target : Conn} (ht : t.conns.lookup o = some target) (target' : Conn) (hq : target'.queue = target.queue ++ [payload]) :
    Gained s (t.put o target') (gained ++ [o]) payload := by
  have hold : queueOf s o = some target.queue := by
    have := h.queues o
    rw [if_neg ho] at this
    rw [← this]; simp [queueOf, ht]
  refine ⟨?_, fun j hj => ?_, fun j => ?_⟩
  · exact List.nodup_append.mpr ⟨h.once, List.nodup_singleton o, fun a ha b hb => by
      rw [List.mem_singleton.mp hb]; rintro rfl; exact ho ha⟩
  · rcases List.mem_append.mp hj with hj | hj
    · exact h.there j hj
    · rw [List.mem_singleton.mp hj, hold]; rfl
  · rw [queueOf_put]
    by_cases hj : j = o
    · subst hj
      rw [if_pos rfl, if_pos (List.mem_append_right _ (List.mem_singleton.mpr rfl)), hold, hq]; rfl
    · rw [if_neg hj, h.queues j]
      simp [hj]

theorem TrueOf.congr {env : Env} {name : Name} {frame : ClientFrame} {ack : ServerFrame}
    (h : TrueOf env name now frame s t ack) (hq : ∀ o, queueOf t' o = queueOf t o) (hs : t'.store = t.store) :
    TrueOf env name now frame s t' ack := by
  cases ack with
  | receipt id target status =>
    refine ⟨hs.trans h.1, ?_⟩
    have h2 := h.2
    split at h2 <;> rename_i hst
    · rw [if_pos hst]
      obtain ⟨o, payload, ho, hp, hg⟩ := h2
      exact ⟨o, payload, ho, hp, hg.congr hq⟩
    · rw [if_neg hst]
      exact fun o => (hq o).trans (h2 o)
  | accepted id delivered shed =>
    obtain ⟨h1, gained, payload, hp, hg, hrest⟩ := h
    exact ⟨hs.trans h1, gained, payload, hp, hg.congr hq, hrest⟩
  | reserved requestId status expires =>
    obtain ⟨h1, h2, h3⟩ := h
    exact ⟨fun o => (hq o).trans (h1 o), by rw [hs]; exact h2, by rw [hs]; exact h3⟩
  | _ => trivial

/-- A fanout tries as many handles as the room lists other names. -/
theorem length_recipients (rooms : Rooms) (room : RoomId) (announcer : String) :
    (recipients rooms room announcer).length = ((listPeers rooms room).filter (· != announcer)).length := by
  unfold recipients listPeers
  split
  · rfl
  · rename_i peers _
    rw [((List.mergeSort_perm _ _).filter _).length_eq]
    simp only [List.length_map, AList.keys, List.keys, List.filter_map, Function.comp_def]

/-! ## How far a frame has come -/

def Untouched (s t : Sys) : Prop := (∀ o, queueOf t o = queueOf s o) ∧ t.store = s.store

/-- The connection's own channel: the permits it holds, and the frames added. -/
structure Since (s t : Sys) (c : Nat) (conn : Conn) (held : Nat) (added : List ServerFrame) : Prop where
  registry : t.registry = s.registry
  own : ∃ conn', t.conns.lookup c = some conn' ∧ conn'.held = conn.held + held ∧
    conn'.replies.map (·.frame) = conn.replies.map (·.frame) ++ added

/-- The recipients tried so far, and which of them gained the payload. -/
def Fanned (env : Env) (name : Name) (frame : ClientFrame) (s t : Sys) (todo : List Nat) (counts : Fanout) : Prop :=
  ∃ tried gained payload, delivery env name.peer frame = some payload ∧
    (tried ++ todo).Perm (recipients s.registry.rooms name.room name.peer) ∧ (∀ o ∈ gained, o ∈ tried) ∧
    Gained s t gained payload ∧ counts.delivered = gained.length ∧ counts.delivered + counts.shed = tried.length

/-- How the relay differs from `s` when the record is at `turn`. -/
def Reached (env : Env) (s : Sys) (c now : Nat) (conn : Conn) (frame : ClientFrame) (turn : Turn) (t : Sys) : Prop :=
  match turn with
  | .fresh _ => Since s t c conn 0 [] ∧ Untouched s t
  | .claimed => Since s t c conn 1 [] ∧ Untouched s t
  | .routing o => Since s t c conn 1 [] ∧ Untouched s t ∧ ∃ id target body replyTo attachment,
      frame = .send id target body replyTo attachment ∧ outboundOf s.registry.rooms conn.name.room target = some o
  | .fanning todo counts => Since s t c conn 1 [] ∧ t.store = s.store ∧
      (∃ id body replyTo attachment, frame = .announce id body replyTo attachment) ∧
      Fanned env conn.name frame s t todo counts
  | .owing ack => Since s t c conn 1 [] ∧ Acknowledges frame ack ∧ TrueOf env conn.name now frame s t ack
  | .acknowledged => ∃ ack, Since s t c conn 0 [ack] ∧ Acknowledges frame ack ∧ TrueOf env conn.name now frame s t ack
  | _ => ∃ added, added.length ≤ 1 ∧ (∀ reply ∈ added, Lossy reply) ∧ Since s t c conn 0 added ∧ Untouched s t

section
variable {held : Nat} {added : List ServerFrame} {conn' conn'' : Conn}

/-- The connection's own channel moves. -/
theorem Since.step (h : Since s t c conn held added) (hc : t.conns.lookup c = some conn') {n : Nat}
    {more : List ServerFrame} (hh : conn''.held + held = conn'.held + n)
    (hr : conn''.replies.map (·.frame) = conn'.replies.map (·.frame) ++ more) :
    Since s (t.put c conn'') c conn n (added ++ more) := by
  obtain ⟨own, hown, hheld, hreplies⟩ := h.own
  cases hc.symm.trans hown
  refine ⟨h.registry, conn'', AList.lookup_insert _, by omega, ?_⟩
  rw [hr, hreplies, List.append_assoc]

/-- A queue moves, or nothing does. -/
theorem Since.frame (h : Since s t c conn held added) {o : Nat} (ho : t.conns.lookup o = some conn')
    (hh : conn''.held = conn'.held) (hr : conn''.replies = conn'.replies) : Since s (t.put o conn'') c conn held added := by
  by_cases hoc : o = c
  · subst hoc
    have := h.step ho (by rw [hh]) (by rw [hr]; exact (List.append_nil _).symm) (n := held)
    rwa [List.append_nil] at this
  · obtain ⟨own, hown, hrest⟩ := h.own
    exact ⟨h.registry, own, (AList.lookup_insert_ne (Ne.symm hoc)).trans hown, hrest⟩

theorem Since.permitDrop (h : Since s t c conn 1 []) (hc : t.conns.lookup c = some conn') :
    Since s (t.put c conn'.permitDrop) c conn 0 [] := by
  obtain ⟨own, hown, hheld, -⟩ := h.own
  cases hc.symm.trans hown
  exact h.step hc (by simp only [Conn.permitDrop]; omega) (List.append_nil _).symm

theorem Since.permitSend (h : Since s t c conn 1 []) (hc : t.conns.lookup c = some conn') (reply : ServerFrame) :
    Since s (t.put c (conn'.permitSend reply)) c conn 0 [reply] := by
  obtain ⟨own, hown, hheld, -⟩ := h.own
  cases hc.symm.trans hown
  exact h.step hc (by simp only [Conn.permitSend]; omega) (by simp [Conn.permitSend])

theorem Untouched.put (h : Untouched s t) {o : Nat} (ho : t.conns.lookup o = some conn') (hq : conn''.queue = conn'.queue) :
    Untouched s (t.put o conn'') :=
  ⟨fun j => (queueOf_put_same ho hq j).trans (h.1 j), h.2⟩

end

/-! ## Every call keeps it -/

section
variable {env : Env} {frame : ClientFrame} {own : Conn} {call : Call} {answer : call.Answer}

theorem Reached.fresh {free : Option Nat} (h : Reached env s c now conn frame (.fresh free) t)
    (hc : t.conns.lookup c = some own) (ha : Answers t c own now call answer t')
    (hmay : mayCall env (registeredPeer c conn) frame (.fresh free) call) :
    Reached env s c now conn frame (nextTurn frame (.fresh free) call answer) t' := by
  obtain ⟨hsince, hsame⟩ := h
  -- wherever the reply leaves the record, the same is asked
  have hoffered : ∀ {t} added, added.length ≤ 1 → (∀ reply ∈ added, Lossy reply) → Since s t c conn 0 added →
      Untouched s t → Reached env s c now conn frame (if slotFree free then .replied else .closing) t := by
    intro t added hlen hlossy hsince hsame
    split <;> exact ⟨added, hlen, hlossy, hsince, hsame⟩
  cases ha with
  | capacity => exact ⟨hsince, hsame⟩
  | listPeers room => exact ⟨hsince, hsame⟩
  | sent reply =>
    refine hoffered [reply] (Nat.le_refl 1) (fun r hr => ?_) (hsince.step hc rfl (by simp)) (hsame.put hc rfl)
    rw [List.mem_singleton.mp hr]; exact hmay
  | notSent reply error =>
    exact hoffered [] (Nat.zero_le 1) (fun r hr => (List.not_mem_nil hr).elim) (hsince.frame hc rfl rfl) (hsame.put hc rfl)
  | claimed => exact ⟨hsince.step hc rfl (List.append_nil _).symm, hsame.put hc rfl⟩
  | notClaimed => exact ⟨hsince.frame hc rfl rfl, hsame.put hc rfl⟩
  | _ => exact hmay.elim

theorem Reached.claimed (h : Reached env s c now conn frame .claimed t) (hc : t.conns.lookup c = some own)
    (ha : Answers t c own now call answer t') (hmay : mayCall env (registeredPeer c conn) frame .claimed call) :
    Reached env s c now conn frame (nextTurn frame .claimed call answer) t' := by
  obtain ⟨hsince, hsame⟩ := h
  cases ha with
  | outboundOf room target =>
    obtain ⟨rfl, id, body, replyTo, attachment, rfl⟩ := hmay
    have hreg := hsince.registry
    cases ho : outboundOf t.registry.rooms (registeredPeer c conn).room target with
    | none => exact ⟨hsince, ⟨rfl, rfl⟩, hsame.2, hsame.1⟩
    | some o => exact ⟨hsince, hsame, id, target, body, replyTo, attachment, rfl, by rw [← hreg]; exact ho⟩
  | recipients room announcer todo hperm =>
    obtain ⟨⟨rfl, rfl⟩, hdelivery, hframe⟩ := hmay
    obtain ⟨payload, hp⟩ := Option.isSome_iff_exists.mp hdelivery
    rw [hsince.registry] at hperm
    exact ⟨hsince, hsame.2, hframe, [], [], payload, hp, hperm, fun o ho => (List.not_mem_nil ho).elim,
      .none hsame.1 payload, rfl, rfl⟩
  | reserve room digest bytes =>
    obtain ⟨rfl, requestId, rfl⟩ := hmay
    have hens := Blob.reserve_ensures t.store.index conn.name.room digest bytes now
    have hown : Since s { t with store := (t.store.reserve conn.name.room digest bytes now).2 } c conn 1 [] :=
      ⟨hsince.registry, hsince.own⟩
    cases hg : (t.store.reserve (registeredPeer c conn).room digest bytes now).1 with
    | ok grant =>
      exact ⟨hown, rfl, hsame.1, fun _ => ⟨requestId, digest, bytes, rfl, hens.1 grant hg⟩, fun h => (h rfl).elim⟩
    | error refusal =>
      refine ⟨hown, rfl, hsame.1, fun h => ?_, fun _ => (hens.2 refusal hg).trans (congrArg _ hsame.2)⟩
      cases refusal <;> cases h
  | permitDrop => exact ⟨hsince.permitDrop hc, hsame.put hc rfl⟩
  | _ => exact hmay.elim

theorem Reached.routing {o : Nat} (h : Reached env s c now conn frame (.routing o) t) (hc : t.conns.lookup c = some own)
    (ha : Answers t c own now call answer t') (hmay : mayCall env (registeredPeer c conn) frame (.routing o) call) :
    Reached env s c now conn frame (nextTurn frame (.routing o) call answer) t' := by
  obtain ⟨hsince, hsame, id, target, body, replyTo, attachment, rfl, ho⟩ := h
  have hrefused : ∀ {t status}, status ≠ .routed → Since s t c conn 1 [] → Untouched s t →
      Reached env s c now conn (.send id target body replyTo attachment) (.owing (.receipt id target status)) t := by
    intro t status hst hsince hsame
    refine ⟨hsince, ⟨rfl, rfl⟩, hsame.2, ?_⟩
    rw [if_neg hst]; exact hsame.1
  cases ha with
  | enqueued outbound payload recipient hr =>
    obtain ⟨rfl, hp⟩ := hmay
    refine ⟨hsince.frame hr rfl rfl, ⟨rfl, rfl⟩, hsame.2, ?_⟩
    rw [if_pos rfl]
    exact ⟨outbound, payload, ho, hp, (Gained.none hsame.1 payload).add List.not_mem_nil hr _ rfl⟩
  | refused outbound payload recipient status hr hst =>
    exact hrefused hst (hsince.frame hr rfl rfl) (hsame.put hr rfl)
  | unknown outbound payload => exact hrefused (by simp) hsince hsame
  | permitDrop => exact ⟨hsince.permitDrop hc, hsame.put hc rfl⟩
  | _ => exact hmay.elim

section
variable {name : Name} {o : Nat} {todo : List Nat} {counts : Fanout}

theorem Fanned.delivered (h : Fanned env name frame s t (o :: todo) counts)
    (hnodup : (recipients s.registry.rooms name.room name.peer).Nodup) {payload : Bytes}
    (hp : delivery env name.peer frame = some payload) {target : Conn} (ht : t.conns.lookup o = some target)
    (target' : Conn) (hq : target'.queue = target.queue ++ [payload]) :
    Fanned env name frame s (t.put o target') todo (counts.count .routed) := by
  obtain ⟨tried, gained, payload', hp', hperm, hsub, hgained, hdelivered, htotal⟩ := h
  cases hp'.symm.trans hp
  have hnew : o ∉ tried := fun hmem =>
    (List.nodup_append.mp (hperm.nodup_iff.mpr hnodup)).2.2 o hmem o (List.mem_cons_self ..) rfl
  refine ⟨tried ++ [o], gained ++ [o], payload, hp, ?_, fun j hj => ?_, hgained.add (fun hg => hnew (hsub o hg)) ht _ hq,
    ?_, ?_⟩
  · rwa [List.append_assoc]
  · rcases List.mem_append.mp hj with hj | hj
    · exact List.mem_append_left _ (hsub j hj)
    · exact List.mem_append_right _ hj
  · simp only [Fanout.count, if_true, List.length_append, List.length_singleton]; omega
  · simp only [Fanout.count, if_true, List.length_append, List.length_singleton]; omega

theorem Fanned.shed (h : Fanned env name frame s t (o :: todo) counts) {status : ReceiptStatus} (hst : status ≠ .routed)
    (hq : ∀ j, queueOf t' j = queueOf t j) : Fanned env name frame s t' todo (counts.count status) := by
  obtain ⟨tried, gained, payload, hp, hperm, hsub, hgained, hdelivered, htotal⟩ := h
  refine ⟨tried ++ [o], gained, payload, hp, ?_, fun j hj => List.mem_append_left _ (hsub j hj), hgained.congr hq, ?_, ?_⟩
  · rwa [List.append_assoc]
  · simp only [Fanout.count, hst, if_false]; exact hdelivered
  · simp only [Fanout.count, hst, if_false, List.length_append, List.length_singleton]; omega

/-- Once all have been tried, the counts are those of the room. -/
theorem Fanned.accepted (h : Fanned env name frame s t [] counts) (hs : t.store = s.store) (id : String) :
    TrueOf env name now frame s t (.accepted id counts.delivered counts.shed) := by
  obtain ⟨tried, gained, payload, hp, hperm, hsub, hgained, hdelivered, htotal⟩ := h
  rw [List.append_nil] at hperm
  refine ⟨hs, gained, payload, hp, hgained, fun o ho => hperm.mem_iff.mp (hsub o ho), hdelivered, ?_⟩
  rw [htotal, hperm.length_eq, length_recipients]

end

theorem Reached.fanning (hnodup : (recipients s.registry.rooms conn.name.room conn.name.peer).Nodup) {todo : List Nat}
    {counts : Fanout} (h : Reached env s c now conn frame (.fanning todo counts) t) (hc : t.conns.lookup c = some own)
    (ha : Answers t c own now call answer t')
    (hmay : mayCall env (registeredPeer c conn) frame (.fanning todo counts) call) :
    Reached env s c now conn frame (nextTurn frame (.fanning todo counts) call answer) t' := by
  obtain ⟨hsince, hstore, hframe, hfanned⟩ := h
  cases todo with
  | nil =>
    cases hmay
    cases ha
    obtain ⟨id, body, replyTo, attachment, rfl⟩ := hframe
    exact ⟨_, hsince.permitSend hc _, rfl, (hfanned.accepted hstore id).congr (queueOf_put_same hc rfl) rfl⟩
  | cons o todo =>
    cases ha with
    | enqueued outbound payload recipient hr =>
      obtain ⟨rfl, hp⟩ := hmay
      exact ⟨hsince.frame hr rfl rfl, hstore, hframe, hfanned.delivered hnodup hp hr _ rfl⟩
    | refused outbound payload recipient status hr hst =>
      exact ⟨hsince.frame hr rfl rfl, hstore, hframe, hfanned.shed hst (queueOf_put_same hr rfl)⟩
    | unknown outbound payload => exact ⟨hsince, hstore, hframe, hfanned.shed (by simp) fun _ => rfl⟩
    | _ => exact hmay.elim

theorem Reached.owing {ack : ServerFrame} (h : Reached env s c now conn frame (.owing ack) t)
    (hc : t.conns.lookup c = some own) (ha : Answers t c own now call answer t')
    (hmay : mayCall env (registeredPeer c conn) frame (.owing ack) call) :
    Reached env s c now conn frame (nextTurn frame (.owing ack) call answer) t' := by
  cases hmay
  cases ha
  exact ⟨ack, h.1.permitSend hc ack, h.2.1, h.2.2.congr (queueOf_put_same hc rfl) rfl⟩

/-- Every call the rules allow keeps to what is said of the record. -/
theorem Reached.perform (hnodup : (recipients s.registry.rooms conn.name.room conn.name.peer).Nodup) {turn : Turn}
    {call : Call} (h : Reached env s c now conn frame turn t)
    (hmay : mayCall env (registeredPeer c conn) frame turn call) :
    Reached env s c now conn frame (nextTurn frame turn call (t.perform c now call).1) (t.perform c now call).2 := by
  cases turn with
  | fresh free =>
    obtain ⟨own, hc, -⟩ := h.1.own
    exact h.fresh hc (perform_answers hc now call) hmay
  | claimed =>
    obtain ⟨own, hc, -⟩ := h.1.own
    exact h.claimed hc (perform_answers hc now call) hmay
  | routing o =>
    obtain ⟨own, hc, -⟩ := h.1.own
    exact h.routing hc (perform_answers hc now call) hmay
  | fanning todo counts =>
    obtain ⟨own, hc, -⟩ := h.1.own
    exact h.fanning hnodup hc (perform_answers hc now call) hmay
  | owing ack =>
    obtain ⟨own, hc, -⟩ := h.1.own
    exact h.owing hc (perform_answers hc now call) hmay
  | acknowledged => exact hmay.elim
  | replied => exact hmay.elim
  | closing => exact hmay.elim

end

/-! ## One frame -/

/-- The relay after `c` has handled one frame at `now`, and whether the connection goes on. -/
def handled (env : Env) (s : Sys) (c now : Nat) (conn : Conn) (frame : ClientFrame) : ControlFlow × Sys :=
  (handleFrame env (registeredPeer c conn) frame).exec (fun s call => s.perform c now call) s

theorem Since.replies {added : List ServerFrame} {held : Nat} (h : Since s t c conn held added)
    (hc : s.conns.lookup c = some conn) : repliesOf t c = repliesOf s c ++ added := by
  obtain ⟨own, hown, -, hr⟩ := h.own
  simp only [repliesOf, hown, hc, Option.map_some, Option.getD_some, hr]

/-- A reply that may be lost says nothing that an untouched relay would not bear out. -/
theorem Untouched.trueOf {env : Env} {name : Name} {frame : ClientFrame} (h : Untouched s t) {reply : ServerFrame}
    (hl : Lossy reply) : TrueOf env name now frame s t reply := by
  cases reply with
  | receipt id target status =>
    cases hl
    exact ⟨h.2, h.1⟩
  | accepted id delivered shed => exact hl.elim
  | reserved requestId status expires => exact hl.elim
  | _ => trivial

/-- What handling a frame of `c` owes: the relay was `s` before it and is `t` after. -/
structure Atomic (env : Env) (s t : Sys) (c now : Nat) (name : Name) (frame : ClientFrame) (flow : ControlFlow) : Prop where
  /-- An effect comes with exactly one acknowledgement, under the frame's token. -/
  acknowledged : (∃ o, queueOf t o ≠ queueOf s o) ∨ t.store.index ≠ s.store.index →
    ∃ ack, Acknowledges frame ack ∧ repliesOf t c = repliesOf s c ++ [ack] ∧ flow = .continues
  broken : flow = .breaks → (∀ o, queueOf t o = queueOf s o) ∧ t.store = s.store
  honest : ∃ added, added.length ≤ 1 ∧ repliesOf t c = repliesOf s c ++ added ∧
    ∀ ack ∈ added, TrueOf env name now frame s t ack

/-- A turn that ends unacknowledged has touched nothing. -/
theorem Untouched.atomic {env : Env} {frame : ClientFrame} {added : List ServerFrame} (h : Untouched s t)
    (hc : s.conns.lookup c = some conn) (hsince : Since s t c conn 0 added) (hlen : added.length ≤ 1)
    (hlossy : ∀ reply ∈ added, Lossy reply) (flow : ControlFlow) : Atomic env s t c now conn.name frame flow := by
  refine ⟨fun heffect => ?_, fun _ => h, added, hlen, hsince.replies hc, fun ack ha => h.trueOf (hlossy ack ha)⟩
  rcases heffect with ⟨o, ho⟩ | hi
  · exact absurd (h.1 o) ho
  · exact absurd (congrArg (·.index) h.2) hi

theorem Reached.atomic {env : Env} {frame : ClientFrame} {turn : Turn} {flow : ControlFlow}
    (h : Reached env s c now conn frame turn t) (hc : s.conns.lookup c = some conn) (hstop : stops turn flow) :
    Atomic env s t c now conn.name frame flow := by
  cases turn with
  | fresh free => exact h.2.atomic hc h.1 (Nat.zero_le 1) (fun _ hr => (List.not_mem_nil hr).elim) flow
  | replied | closing =>
    obtain ⟨added, hlen, hlossy, hsince, hsame⟩ := h
    exact hsame.atomic hc hsince hlen hlossy flow
  | acknowledged =>
    obtain ⟨ack, hsince, hack, htrue⟩ := h
    cases hstop
    refine ⟨fun _ => ⟨ack, hack, hsince.replies hc, rfl⟩, fun hb => ?_, [ack], Nat.le_refl 1, hsince.replies hc,
      fun a ha => ?_⟩
    · cases hb
    · rw [List.mem_singleton.mp ha]; exact htrue
  | _ => exact hstop.elim

/-- `hhandles` is how handles are made: each belongs to the one connection that registered it. -/
theorem effects_acknowledged (env : Env) (s : Sys) (c now : Nat) (conn : Conn) (frame : ClientFrame)
    (hc : s.conns.lookup c = some conn)
    (hhandles : ∀ n m o, holder s.registry.rooms n = some o → holder s.registry.rooms m = some o → n = m) :
    Atomic env s (handled env s c now conn frame).2 c now conn.name frame (handled env s c now conn frame).1 := by
  have h0 : Reached env s c now conn frame (.fresh none) s :=
    ⟨⟨rfl, conn, hc, rfl, (List.append_nil _).symm⟩, fun _ => rfl, rfl⟩
  have hnodup := recipients_nodup hhandles conn.name.room conn.name.peer
  obtain ⟨turn, hstop, hr⟩ := (handleFrame_obeys env (registeredPeer c conn) frame).exec h0 fun _ _ _ h hmay =>
    h.perform hnodup hmay
  exact hr.atomic hc hstop

/-- Alice and bob have joined. -/
def acquainted : Sys := (run (relayStep oneByte) {} (joining 1 ["alice", "bob"])).getD {}

theorem effects_acknowledged_sample :
    ∃ conn, acquainted.conns.lookup 1 = some conn ∧
      queueOf (handled oneByte acquainted 1 0 conn greeting).2 2 = some [[0]] ∧
      repliesOf (handled oneByte acquainted 1 0 conn greeting).2 1 = [.receipt "m-1" "bob" .routed] ∧
      Atomic oneByte acquainted (handled oneByte acquainted 1 0 conn greeting).2 1 0 conn.name greeting .continues := by
  have hr : RegistryReach acquainted.registry :=
    .of_run [.draw ⟨lobby, "alice"⟩, .insert 1, .draw ⟨lobby, "bob"⟩, .insert 2] .init rfl
  exact ⟨_, rfl, rfl, rfl, effects_acknowledged oneByte acquainted 1 0 _ greeting rfl fun _ _ _ hn hm =>
    (registry_inv hr).holder_inj hn hm⟩

end OmpRelayd.Relay
