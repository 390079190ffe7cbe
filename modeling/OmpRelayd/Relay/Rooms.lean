/-
  OmpRelayd.Relay.Rooms — who ends a room, and when.

  A guard that empties its room finds so under the registry lock and calls `forget_room` after
  releasing it. In between another connection may register in the same room and reserve or
  upload; the call then takes what the room's new peer holds
  (`a_late_forget_takes_a_live_room`).

  Proved (`a_live_room_keeps_its_payloads`): if no connection registers in a room that such a
  call is still to come for, then while a room has a registered peer nothing the store holds
  for it goes, but at its expiry, with its own upload, or for another reservation or upload of
  the same digest.
-/

import OmpRelayd.Blob.Ledger
import OmpRelayd.Relay.Conns

namespace OmpRelayd.Relay

def Stage.forgets : Stage → Bool
  | .forgetting => true
  | _ => false

/-- A connection registers in a room whose `forget_room` is still to come. -/
def rejoins (s : Sys) : RelayEv → Bool
  | .insert c => (s.conns.lookup c).any fun conn =>
    s.conns.entries.any fun e => e.2.stage.forgets && e.2.name.room == conn.name.room
  | _ => false

/-- A room that is to be forgotten is out of the registry. -/
def ForgetInv (s : Sys) : Prop :=
  ∀ c conn, s.conns.lookup c = some conn → conn.stage = .forgetting → s.registry.rooms.lookup conn.name.room = none

variable {env : Env} {s t : Sys} {c : Nat} {conn conn' : Conn}

/-! ## The registry's part -/

theorem register_lookup_ne {rooms : Rooms} {room r : RoomId} (h : r ≠ room) (peer : String) (c : Nat) :
    (register rooms room peer c).2.lookup r = rooms.lookup r := AList.lookup_insert_ne h

theorem deregister_lookup_none {rooms : Rooms} {r : RoomId} (h : rooms.lookup r = none) (room : RoomId) (peer : String)
    (c : Nat) : (deregister rooms room peer c).rooms.lookup r = none := by
  unfold deregister
  split
  · exact h
  · rename_i peers hl
    have hne : r ≠ room := by
      rintro rfl
      rw [h] at hl; cases hl
    split
    · exact h
    · split
      · exact Map.lookup_erase_none h
      · exact (AList.lookup_insert_ne hne).trans h

theorem deregister_emptied {rooms : Rooms} {room : RoomId} {peer : String} {c : Nat}
    (h : (deregister rooms room peer c).emptied = true) : (deregister rooms room peer c).rooms.lookup room = none := by
  unfold deregister at h ⊢
  cases hl : rooms.lookup room with
  | none => simp only [hl] at h; cases h
  | some peers =>
    simp only [hl] at h ⊢
    split at h
    · cases h
    · rename_i hown
      rw [if_neg hown]
      split at h
      · rename_i hempty
        rw [if_pos hempty]
        exact AList.lookup_erase _ _
      · cases h

/-! ## The invariant -/

theorem ForgetInv.put (h : ForgetInv s) (hf : conn'.stage.forgets = false) : ForgetInv (s.put c conn') := by
  intro j x hj hst
  rcases Sys.lookup_put_some hj with ⟨rfl, rfl⟩ | ⟨-, hj⟩
  · rw [hst] at hf; cases hf
  · exact h j x hj hst

theorem Conn.Drives.not_forgets {flag : Bool} {e : RelayEv} (hd : conn.Drives c flag e conn') :
    conn'.stage.forgets = false := by
  cases hd <;> rfl

theorem ForgetInv.insert (h : ForgetInv s) (hr : RelayInv env s) (hc : s.conns.lookup c = some conn) {registry : Registry}
    (hreg : registryStep s.registry (.insert c) = some registry) (hok : rejoins s (.insert c) = false) :
    ForgetInv { s.put c { conn with stage := .greeting } with registry := registry } := by
  obtain ⟨name, hd, rfl⟩ := Option.map_eq_some_iff.mp hreg
  obtain ⟨x, hx, rfl, -⟩ := hr.drawn c name hd
  cases hc.symm.trans hx
  intro j x hj hst
  rcases Sys.lookup_put_some hj with ⟨rfl, rfl⟩ | ⟨-, hj⟩
  · cases hst
  · have hne : x.name.room ≠ conn.name.room := by
      intro heq
      simp only [rejoins, hc, Option.any_some] at hok
      have := List.any_eq_false.mp hok _ (Map.mem_entries_of_lookup hj)
      simp [hst, Stage.forgets, heq] at this
    exact (register_lookup_ne hne _ _).trans (h j x hj hst)

theorem ForgetInv.drop (h : ForgetInv s) (hr : RelayInv env s) (hc : s.conns.lookup c = some conn) {registry : Registry}
    (hreg : registryStep s.registry (.drop c) = some registry) {stage : Stage}
    (hstage : stage = .forgetting → (deregister s.registry.rooms conn.name.room conn.name.peer c).emptied = true) :
    ForgetInv { s.put c { conn with stage := stage } with registry := registry } := by
  obtain ⟨name, hg, rfl⟩ := Option.map_eq_some_iff.mp hreg
  -- the guard has the name its connection was admitted with
  obtain ⟨x, hx, rfl⟩ := hr.inserted c name ((hr.registry.guards c name).mp hg).1
  cases hc.symm.trans hx
  intro j x hj hst
  rcases Sys.lookup_put_some hj with ⟨rfl, rfl⟩ | ⟨-, hj⟩
  · exact deregister_emptied (hstage hst)
  · exact deregister_lookup_none (h j x hj hst) _ _ _

theorem Step.forgetInv {e : RelayEv} (hs : Step env s e t) (hr : RelayInv env s) (hok : rejoins s e = false)
    (h : ForgetInv s) : ForgetInv t := by
  cases hs with
  | hello frame name hadm =>
    have hput : ForgetInv (s.put s.registry.nextConnectionId { name := name }) := h.put rfl
    exact hput
  | insert c conn registry hc hreg => exact h.insert hr hc hreg hok
  | drive e c conn conn' hc hd => exact h.put hd.not_forgets
  | read c branch conn writer hc hst hb => exact h.put rfl
  | act c now order conn conn' late turn call rest writer answer s' hc hst ha hc' =>
    have ha := answer_answers hc ha
    obtain ⟨hreg, -⟩ := ha.touches hc
    have hcalled : ForgetInv s' := by
      intro j x hj hst
      obtain ⟨x₀, hx₀, hname, hstage, -⟩ := ha.find hc hj
      rw [hreg, hname]
      exact h j x₀ hx₀ (hstage.symm.trans hst)
    exact hcalled.put rfl
  | drop c conn registry hc hst hreg =>
    refine h.drop hr hc hreg fun hstage => ?_
    split at hstage
    · rename_i hb; exact (Bool.and_eq_true_iff.mp hb).1
    · cases hstage
  | forget c conn hc hst =>
    have hput : ForgetInv (s.put c { conn with stage := .gone }) := h.put rfl
    exact hput
  | transfer e store => exact h
  | shutdown => exact h

theorem forget_inv (h : RelayReach env (fun s e => rejoins s e = false) s) : ForgetInv s := by
  refine (h.inv (P := fun s => RelayInv env s ∧ ForgetInv s) ⟨.init, ?_⟩ fun _ _ _ hi hok hs =>
    ⟨(relayStep_step hs).relayInv hi.1, (relayStep_step hs).forgetInv hi.1 hok hi.2⟩).2
  intro c conn hc
  simp at hc

/-! ## The store's part -/

/-- The store moves by a reservation of a handler, by the end of a room, or from outside. -/
theorem Step.storeStep {e : RelayEv} (hs : Step env s e t) :
    t.store = s.store ∨
    (∃ c now order room digest bytes, e = .act c now order ∧
      Blob.storeStep s.store (.reserve room digest bytes now) = some t.store) ∨
    (∃ c conn, e = .forget c ∧ s.conns.lookup c = some conn ∧ conn.stage = .forgetting ∧
      Blob.storeStep s.store (.forgetRoom conn.name.room) = some t.store) ∨
    ∃ e', e = .transfer e' ∧ (∀ room, e' ≠ .forgetRoom room) ∧ (∀ room digest bytes now, e' ≠ .reserve room digest bytes now) ∧
      Blob.storeStep s.store e' = some t.store := by
  cases hs with
  | act c now order conn conn' late turn call rest writer answer s' hc hst ha hc' =>
    cases answer_answers hc ha with
    | reserve room digest bytes => exact .inr (.inl ⟨c, now, order, room, digest, bytes, rfl, rfl⟩)
    | _ => exact .inl rfl
  | forget c conn hc hst => exact .inr (.inr (.inl ⟨c, conn, rfl, hc, hst, rfl⟩))
  | transfer e store hst hnr hnf => exact .inr (.inr (.inr ⟨e, rfl, hnf, hnr, hst⟩))
  | _ => exact .inl rfl

theorem Step.storeInv {e : RelayEv} (hs : Step env s e t) (h : Blob.StoreInv s.store) : Blob.StoreInv t.store := by
  rcases hs.storeStep with heq | ⟨_, _, _, _, _, _, -, hst⟩ | ⟨_, _, -, -, -, hst⟩ | ⟨_, -, -, -, hst⟩
  · rw [heq]; exact h
  · exact Blob.storeStep_inv _ _ _ h hst
  · exact Blob.storeStep_inv _ _ _ h hst
  · exact Blob.storeStep_inv _ _ _ h hst

theorem relay_store_inv {ok : Sys → RelayEv → Prop} (h : RelayReach env ok s) : Blob.StoreInv s.store :=
  h.inv (P := fun s => Blob.StoreInv s.store) .empty fun _ _ _ hi _ hs => (relayStep_step hs).storeInv hi

/-- What a room holds at one address, and why it may go in the step `e`. -/
structure Outlasts (e : RelayEv) (s t : Sys) (room : RoomId) (digest : String) : Prop where
  stored : ∀ p, Blob.storedAt s.store.index room digest = some p → Blob.storedAt t.store.index room digest = some p ∨
    (∃ g now, e = .transfer (.commitUpload g now) ∧ g.room = room ∧ g.digest = digest) ∨
    ∃ now, e = .transfer (.sweep now) ∧ p.expiresAt ≤ now
  uploading : ∀ f, Blob.flightAt s.store.index room digest = some f → Blob.flightAt t.store.index room digest = some f ∨
    (∃ g now, e = .transfer (.commitUpload g now) ∧ g.room = room ∧ g.digest = digest ∧ g.serial = f.serial) ∨
    e = .transfer (.abandonUpload room digest f.serial)
  reserved : ∀ r, Blob.reservedAt s.store.index room digest = some r →
    Blob.reservedAt t.store.index room digest = some r ∨
    (∃ c now order r', e = .act c now order ∧ Blob.reservedAt t.store.index room digest = some r') ∨
    (∃ declared now, e = .transfer (.beginUpload room digest declared now)) ∨
    ∃ now, e = .transfer (.sweep now) ∧ r.expiresAt ≤ now

theorem Outlasts.same {e : RelayEv} (h : Blob.ledgerOf t.store.index = Blob.ledgerOf s.store.index) (room : RoomId)
    (digest : String) : Outlasts e s t room digest := by
  have hr : Blob.reservedAt t.store.index = Blob.reservedAt s.store.index := congrArg Blob.Ledger.reserved h
  have hu : Blob.flightAt t.store.index = Blob.flightAt s.store.index := congrArg Blob.Ledger.uploading h
  have hp : Blob.storedAt t.store.index = Blob.storedAt s.store.index := congrArg Blob.Ledger.stored h
  exact ⟨fun p h => .inl (by rw [hp]; exact h), fun f h => .inl (by rw [hu]; exact h), fun r h => .inl (by rw [hr]; exact h)⟩

/-- A section that does not end the room, called from the HTTP side or by a sweep. -/
theorem Outlasts.transfer {e : Blob.StoreEv} (hm : Blob.Makes s.store.index s.store.nextSerial e t.store.index)
    (hnf : ∀ room, e ≠ .forgetRoom room) (hnr : ∀ room digest bytes now, e ≠ .reserve room digest bytes now)
    (room : RoomId) (digest : String) : Outlasts (.transfer e) s t room digest := by
  obtain ⟨change, hallow, hl⟩ := hm
  refine ⟨fun p hp => ?_, fun f hf => ?_, fun r hr => ?_⟩
  · change (Blob.ledgerOf t.store.index).stored room digest = some p ∨ _
    rw [hl]
    rcases (Blob.ledgerOf s.store.index).stored_apply change hp with hkept | rfl | ⟨bytes, now, rfl⟩ | ⟨now, rfl, hexp⟩
    · exact .inl hkept
    · cases hallow; exact absurd rfl (hnf room)
    · cases hallow; exact .inr (.inl ⟨_, now, rfl, rfl, rfl⟩)
    · cases hallow; exact .inr (.inr ⟨now, rfl, hexp⟩)
  · change (Blob.ledgerOf t.store.index).uploading room digest = some f ∨ _
    rw [hl]
    rcases (Blob.ledgerOf s.store.index).uploading_apply change hf with hkept | rfl | rfl | ⟨bytes, now, rfl⟩ | ⟨serial, charged, rfl⟩
    · exact .inl hkept
    · cases hallow; exact absurd rfl (hnf room)
    · cases hallow with
      | abandoned _ _ serial f' hf' hs =>
        cases hf.symm.trans hf'
        exact .inr (.inr (by rw [hs]))
    · cases hallow with
      | settled g _ f' hf' hs =>
        cases hf.symm.trans hf'
        exact .inr (.inl ⟨g, now, rfl, rfl, rfl, hs.symm⟩)
    · cases hallow with
      | taken _ _ _ _ _ _ _ _ hnone => cases hf.symm.trans hnone
  · change (Blob.ledgerOf t.store.index).reserved room digest = some r ∨ _
    rw [hl]
    rcases (Blob.ledgerOf s.store.index).reserved_apply change hr with
      hkept | rfl | ⟨bytes, now, rfl⟩ | rfl | ⟨serial, charged, rfl⟩ | ⟨now, rfl, hexp⟩
    · exact .inl hkept
    · cases hallow; exact absurd rfl (hnf room)
    · cases hallow; exact absurd rfl (hnr room digest bytes now)
    · cases hallow; exact .inr (.inr (.inl ⟨_, _, rfl⟩))
    · cases hallow; exact .inr (.inr (.inl ⟨_, _, rfl⟩))
    · cases hallow; exact .inr (.inr (.inr ⟨now, rfl, hexp⟩))

theorem Outlasts.act {room' : RoomId} {digest' : String} {bytes now : Nat} {c : Nat} {order : List Nat}
    (hm : Blob.Makes s.store.index s.store.nextSerial (.reserve room' digest' bytes now) t.store.index) (room : RoomId)
    (digest : String) : Outlasts (.act c now order) s t room digest := by
  obtain ⟨change, hallow, hl⟩ := hm
  cases hallow with
  | notReserved => exact .same hl room digest
  | reserved _ _ _ _ hb hdead =>
    have hp : Blob.storedAt t.store.index = Blob.storedAt s.store.index := congrArg Blob.Ledger.stored hl
    have hu : Blob.flightAt t.store.index = Blob.flightAt s.store.index := congrArg Blob.Ledger.uploading hl
    refine ⟨fun p h => .inl (by rw [hp]; exact h), fun f h => .inl (by rw [hu]; exact h), fun r hr => ?_⟩
    have hres := congrArg Blob.Ledger.reserved hl
    change Blob.reservedAt t.store.index = _ at hres
    rw [hres]
    rcases (Blob.ledgerOf s.store.index).reserved_apply (.reserved room' digest' bytes now) hr with
      hkept | hch | ⟨_, _, hch⟩ | hch | ⟨_, _, hch⟩ | ⟨_, hch, -⟩
    · exact .inl hkept
    · cases hch
    · cases hch
      exact .inr (.inl ⟨c, now, order, _, rfl, Blob.Table.set_same ..⟩)
    · cases hch
    · cases hch
    · cases hch

theorem a_live_room_keeps_its_payloads {env : Env} {s t : Sys} {e : RelayEv} {room : RoomId} {peer : String} {c : Nat}
    (h : RelayReach env (fun s e => rejoins s e = false) s) (hlive : holder s.registry.rooms ⟨room, peer⟩ = some c)
    (hs : relayStep env s e = some t) (digest : String) : Outlasts e s t room digest := by
  have hi := relay_store_inv h
  rcases (relayStep_step hs).storeStep with heq | ⟨c', now, order, room', digest', bytes, rfl, hst⟩ |
    ⟨c', conn, rfl, hc, hstage, hst⟩ | ⟨e', rfl, hnf, hnr, hst⟩
  · exact .same (by rw [heq]) room digest
  · exact .act (Blob.storeStep_makes hi hst) room digest
  · -- the room being forgotten is not this one
    have hgone := forget_inv h c' conn hc hstage
    have hne : room ≠ conn.name.room := by
      rintro rfl
      simp [holder, outboundOf, hgone] at hlive
    obtain ⟨change, hallow, hl⟩ := Blob.storeStep_makes hi hst
    cases hallow
    have hclear : ∀ {ν : Type} (table : Blob.Table ν), table.clear conn.name.room room digest = table room digest :=
      fun table => if_neg hne
    refine ⟨fun p hp => .inl ?_, fun f hf => .inl ?_, fun r hr => .inl ?_⟩
    · exact (congrFun (congrFun (congrArg Blob.Ledger.stored hl) room) digest).trans ((hclear _).trans hp)
    · exact (congrFun (congrFun (congrArg Blob.Ledger.uploading hl) room) digest).trans ((hclear _).trans hf)
    · exact (congrFun (congrFun (congrArg Blob.Ledger.reserved hl) room) digest).trans ((hclear _).trans hr)
  · exact .transfer (Blob.storeStep_makes hi hst) hnf hnr room digest

/-! ## When someone does register in between -/

def sampleDigest : String := "ungWv48Bz-pBQUDeXa4iI7ADYaOWF3qctBD_YfIAFa0"

/-- Alice leaves the room empty; bob joins it and reserves before its end comes. -/
def handover : List RelayEv :=
  joining 1 ["alice"] ++ [.abort 1, .drop 1] ++ joining 2 ["bob"] ++ reads 2 (.reserve "r-1" sampleDigest 100) :: acts 2 4 []

def lateForget : Sys := (run (relayStep oneByte) {} handover).getD {}

theorem a_late_forget_takes_a_live_room :
    RelayReach oneByte Always lateForget ∧ holder lateForget.registry.rooms ⟨lobby, "bob"⟩ = some 2 ∧
      ∃ t r, relayStep oneByte lateForget (.forget 1) = some t ∧
        Blob.reservedAt lateForget.store.index lobby sampleDigest = some r ∧
        Blob.reservedAt t.store.index lobby sampleDigest = none :=
  ⟨.of_run handover .init rfl, rfl, _, _, rfl, rfl, rfl⟩

/-- Alice leaves a room of hers alone empty, while bob has reserved in the lobby. -/
def neighbours : List RelayEv :=
  [.hello (.hello protocolVersion ⟨"omp-relayd", "annex"⟩ "alice"), .insert 1, .ready 1 true] ++ joining 2 ["bob"] ++
    reads 2 (.reserve "r-1" sampleDigest 100) :: acts 2 4 [] ++ [.abort 1, .drop 1]

def annexEmpty : Sys := (run (relayStep oneByte) {} neighbours).getD {}

theorem a_live_room_keeps_its_payloads_sample :
    RelayReach oneByte (fun s e => rejoins s e = false) annexEmpty ∧
      holder annexEmpty.registry.rooms ⟨lobby, "bob"⟩ = some 2 ∧ ∃ t r, relayStep oneByte annexEmpty (.forget 1) = some t ∧
        Blob.reservedAt annexEmpty.store.index lobby sampleDigest = some r ∧
        Outlasts (.forget 1) annexEmpty t lobby sampleDigest := by
  have hr : RelayReach oneByte (fun s e => rejoins s e = false) annexEmpty :=
    .of_runIf (fun s e => !rejoins s e) (fun _ _ => (Bool.not_eq_true' _).mp) neighbours .init rfl
  have hbob : holder annexEmpty.registry.rooms ⟨lobby, "bob"⟩ = some 2 := rfl
  exact ⟨hr, hbob, _, _, rfl, rfl, a_live_room_keeps_its_payloads hr hbob rfl sampleDigest⟩

end OmpRelayd.Relay
