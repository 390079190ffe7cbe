/-
  OmpRelayd.Blob.Books — what each critical section of the index does, and why its totals
  stay right.

  `RoomBooks` and `IndexBooks` say what the running totals stand for. Over an index whose
  books balance, no `u64` expression of a section wraps or saturates, so each section has a
  specification in exact arithmetic (`Reserves`, `Begins`, `Abandons`, `Commits`,
  `Forgets`, `sweptIndex`); every later module reasons from these and never unfolds a
  section again. The second half shows that each of them balances the books it leaves.
-/

import OmpRelayd.Blob.Index

namespace OmpRelayd.Blob

/-! ## Charges -/

/-- The value `charge_for` has when nothing overflows. -/
def charge (bytes : Nat) : Nat := divCeil (max bytes 1) minChargeBytes * minChargeBytes

theorem charge_eq (bytes : Nat) : charge bytes = (max bytes 1 + 65535) / 65536 * 65536 := by
  have h : ∀ n, divCeil n 65536 = (n + 65535) / 65536 := fun n => by unfold divCeil; split <;> omega
  have hc : charge bytes = divCeil (max bytes 1) 65536 * 65536 := rfl
  rw [hc, h]

theorem charge_floor (bytes : Nat) : minChargeBytes ≤ charge bytes := by
  rw [charge_eq]; simp only [minChargeBytes, maxFrameBytes]; omega

theorem le_charge (bytes : Nat) : bytes ≤ charge bytes := by rw [charge_eq]; omega

theorem charge_mono {a b : Nat} (h : a ≤ b) : charge a ≤ charge b := by rw [charge_eq, charge_eq]; omega

theorem charge_le {bytes : Nat} (h : bytes ≤ maxPayloadBytes) : charge bytes ≤ maxPayloadBytes := by
  rw [charge_eq]; simp only [maxPayloadBytes] at h ⊢; omega

theorem chargeFor_yields {bytes : Nat} (h : bytes ≤ maxPayloadBytes) : (chargeFor bytes).Yields (charge bytes) := by
  have := charge_le h
  exact U64.mul_yields (by simp only [charge, maxPayloadBytes] at this ⊢; omega)

theorem addSub_yields {a b c : Nat} (h : a + b < 2 ^ 64) (hc : c ≤ a + b) : (addSub a b c).Yields (a + b - c) :=
  (U64.add_yields h).bind (U64.sub_yields h hc)

/-! ## What the totals stand for -/

def entriesCharged (state : RoomState) : Nat :=
  state.reserved.sumBy (·.charged) + state.uploading.sumBy (·.charged) + state.stored.sumBy (·.charged)

def entryCount (state : RoomState) : Nat := state.reserved.size + state.uploading.size + state.stored.size

/-- A room's total, its ceiling, and the unit every entry is charged in. -/
structure RoomBooks (state : RoomState) : Prop where
  charged : state.charged = entriesCharged state
  bound : state.charged ≤ maxRoomBytes
  reservedFloor : ∀ d r, state.reserved.lookup d = some r → r.charged = charge r.declared ∧ r.declared ≤ maxPayloadBytes
  uploadingFloor : ∀ d f, state.uploading.lookup d = some f → minChargeBytes ≤ f.charged
  storedFloor : ∀ d p, state.stored.lookup d = some p → p.charged = charge p.bytes

structure IndexBooks (index : Index) : Prop where
  room : ∀ room state, index.rooms.lookup room = some state → RoomBooks state ∧ 0 < entryCount state
  charged : index.charged = index.rooms.sumBy (·.charged)
  bound : index.charged ≤ maxStoreBytes

theorem RoomBooks.default : RoomBooks {} := by
  constructor
  · rfl
  · exact Nat.zero_le _
  · intro d r h; cases h
  · intro d f h; cases h
  · intro d p h; cases h

theorem IndexBooks.get {index : Index} (h : IndexBooks index) (room : RoomId) : RoomBooks (index.room room) := by
  unfold Index.room
  cases hl : index.rooms.lookup room with
  | none => exact RoomBooks.default
  | some state => exact (h.room room state hl).1

theorem RoomBooks.count {state : RoomState} (h : RoomBooks state) : entryCount state * minChargeBytes ≤ state.charged := by
  have h1 := Map.size_mul_le_sumBy (f := (·.charged)) (c := minChargeBytes) (m := state.reserved)
    fun d r hr => by rw [(h.reservedFloor d r hr).1]; exact charge_floor _
  have h2 := Map.size_mul_le_sumBy (f := (·.charged)) (m := state.uploading) h.uploadingFloor
  have h3 := Map.size_mul_le_sumBy (f := (·.charged)) (c := minChargeBytes) (m := state.stored)
    fun d p hp => by rw [h.storedFloor d p hp]; exact charge_floor _
  rw [h.charged]
  unfold entryCount entriesCharged
  rw [Nat.add_mul, Nat.add_mul]
  omega

/-- A room idle with nothing stored owes nothing. -/
theorem RoomBooks.idle {state : RoomState} (h : RoomBooks state) :
    (isIdle state && state.stored.isEmpty) = true ↔ entryCount state = 0 := by
  have hc := h.count
  have hz : ∀ {ν : Type} (m : Map String ν), m.isEmpty = true ↔ m.size = 0 := fun m => by
    unfold Map.isEmpty Map.size; rw [List.isEmpty_iff, List.length_eq_zero_iff]
  have hs : ∀ {ν : Type} (f : ν → Nat) (m : Map String ν), m.size = 0 → m.sumBy f = 0 := fun f m hm => by
    unfold Map.size at hm
    simp [Map.sumBy, List.length_eq_zero_iff.mp hm]
  simp only [isIdle, Bool.and_eq_true, beq_iff_eq, hz]
  unfold entryCount
  constructor
  · rintro ⟨⟨⟨_, h1⟩, h2⟩, h3⟩; omega
  · intro h0
    have e1 := hs (·.charged) state.reserved (by omega)
    have e2 := hs (·.charged) state.uploading (by omega)
    have e3 := hs (·.charged) state.stored (by omega)
    have e := h.charged
    unfold entriesCharged at e
    exact ⟨⟨⟨by omega, by omega⟩, by omega⟩, by omega⟩

/-! ## One room changes -/

theorem IndexBooks.charged_le {index : Index} (h : IndexBooks index) (room : RoomId) :
    (index.room room).charged ≤ index.charged := by
  unfold Index.room
  cases hl : index.rooms.lookup room with
  | none => exact Nat.zero_le _
  | some state => rw [h.charged]; exact Map.le_sumBy (·.charged) hl

/-- The books stay balanced when a room and the index's total move by the same amount. -/
theorem IndexBooks.setRoom {index : Index} (h : IndexBooks index) {room : RoomId} {state : RoomState} {total : Nat}
    (hs : RoomBooks state) (ho : 0 < entryCount state)
    (ht : total + (index.room room).charged = index.charged + state.charged) (hb : total ≤ maxStoreBytes) :
    IndexBooks (index.setRoom room state total) := by
  refine ⟨fun r s hr => ?_, ?_, hb⟩
  · by_cases e : r = room
    · subst e
      simp only [Index.setRoom, AList.lookup_insert, Option.some.injEq] at hr
      subst hr; exact ⟨hs, ho⟩
    · simp only [Index.setRoom, AList.lookup_insert_ne e] at hr
      exact h.room r s hr
  · have hi := Map.sumBy_insert (·.charged) index.rooms room state
    have he : (index.rooms.lookup room).elim 0 (·.charged) = (index.room room).charged := by
      unfold Index.room; cases index.rooms.lookup room <;> rfl
    rw [he, ← h.charged] at hi
    simp only [Index.setRoom]
    omega

theorem IndexBooks.erase {index : Index} (h : IndexBooks index) {room : RoomId} {total : Nat}
    (ht : total + (index.room room).charged = index.charged) : IndexBooks ⟨index.rooms.erase room, total⟩ := by
  refine ⟨fun r s hr => ?_, ?_, ?_⟩
  · by_cases e : r = room
    · subst e
      simp only [AList.lookup_erase] at hr
      cases hr
    · simp only [AList.lookup_erase_ne e] at hr
      exact h.room r s hr
  · have hi := Map.sumBy_erase (·.charged) index.rooms room
    have he : (index.rooms.lookup room).elim 0 (·.charged) = (index.room room).charged := by
      unfold Index.room; cases index.rooms.lookup room <;> rfl
    rw [he, ← h.charged] at hi
    simp only
    omega
  · have := h.bound
    simp only
    omega

theorem room_of_lookup {index : Index} {room : RoomId} {state : RoomState} (h : index.rooms.lookup room = some state) :
    index.room room = state := by simp [Index.room, h]

theorem ceilings : maxRoomBytes + maxPayloadBytes < 2 ^ 64 ∧ maxStoreBytes + maxPayloadBytes < 2 ^ 64 := by decide

/-! ## What each critical section does

  One specification per section, with the totals as the exact values the audit shows them
  to be. Everything below is proved from these. -/

/-- What an entry of `m` under `digest` is charged, zero if there is none. -/
def chargedAt {ν : Type} (f : ν → Nat) (m : Map String ν) (digest : String) : Nat := (m.lookup digest).elim 0 f

theorem chargedAt_le {ν : Type} (f : ν → Nat) (m : Map String ν) (digest : String) : chargedAt f m digest ≤ m.sumBy f := by
  have := Map.sumBy_erase f m digest
  unfold chargedAt; omega

/-- The room after a reservation of `bytes` replaced whatever was reserved for `digest`. -/
def reservedRoom (state : RoomState) (digest : String) (bytes now : Nat) : RoomState :=
  { state with
    reserved := state.reserved.insert digest ⟨bytes, charge bytes, now + reservationTimeToLive⟩
    charged := state.charged + charge bytes - chargedAt (·.charged) state.reserved digest }

inductive Reserves (index : Index) (room : RoomId) (digest : String) (bytes now : Nat) :
    Except Refusal Grant × Index → Prop
  | refused (r : Refusal) : Reserves index room digest bytes now (.error r, index)
  | held (p : Payload) : bytes ≤ maxPayloadBytes → (index.room room).stored.lookup digest = some p →
      now < p.expiresAt → Reserves index room digest bytes now (.ok ⟨p.expiresAt - now⟩, index)
  | granted : bytes ≤ maxPayloadBytes →
      (∀ p, (index.room room).stored.lookup digest = some p → p.expiresAt ≤ now) →
      (reservedRoom (index.room room) digest bytes now).charged ≤ maxRoomBytes →
      index.charged + charge bytes - chargedAt (·.charged) (index.room room).reserved digest ≤ maxStoreBytes →
      Reserves index room digest bytes now (.ok ⟨payloadTimeToLive⟩,
        index.setRoom room (reservedRoom (index.room room) digest bytes now)
          (index.charged + charge bytes - chargedAt (·.charged) (index.room room).reserved digest))

theorem reserve_spec {index : Index} (h : IndexBooks index) (room : RoomId) (digest : String) (bytes now : Nat) :
    ∃ v, (reserve index room digest bytes now).Yields v ∧ Reserves index room digest bytes now v := by
  unfold reserve
  by_cases hp : maxPayloadBytes < bytes
  · rw [if_pos hp]; exact ⟨_, .pure _, .refused _⟩
  rw [if_neg hp]
  have hb : bytes ≤ maxPayloadBytes := by omega
  have hc := charge_le hb
  have hrel : (((index.room room).reserved.lookup digest).map (·.charged)).getD 0 =
      chargedAt (·.charged) (index.room room).reserved digest := by
    unfold chargedAt; cases (index.room room).reserved.lookup digest <;> rfl
  have hle := chargedAt_le (·.charged) (index.room room).reserved digest
  have hroom := (h.get room).charged
  have hbound := (h.get room).bound
  have hstore := h.bound
  have hindex := h.charged_le room
  have hcl := ceilings
  unfold entriesCharged at hroom
  have total1 := addSub_yields (a := (index.room room).charged) (b := charge bytes)
    (c := chargedAt (·.charged) (index.room room).reserved digest) (by omega) (by omega)
  have total2 := addSub_yields (a := index.charged) (b := charge bytes)
    (c := chargedAt (·.charged) (index.room room).reserved digest) (by omega) (by omega)
  simp only [hrel]
  cases hf : ((index.room room).stored.lookup digest).filter (now < ·.expiresAt) with
  | some p =>
    obtain ⟨hs, hl⟩ := Option.filter_eq_some_iff.mp hf
    exact ⟨_, (chargeFor_yields hb).bind (.pure _), .held p hb hs (by simpa using hl)⟩
  | none =>
    have hdead : ∀ p, (index.room room).stored.lookup digest = some p → p.expiresAt ≤ now := fun p hp => by
      have := Option.filter_eq_none_iff.mp hf p hp
      simpa using this
    by_cases h1 : maxRoomBytes < (index.room room).charged + charge bytes -
        chargedAt (·.charged) (index.room room).reserved digest
    · refine ⟨_, (chargeFor_yields hb).bind (total1.bind ?_), .refused .roomFull⟩
      rw [if_pos h1]; exact .pure _
    by_cases h2 : maxStoreBytes < index.charged + charge bytes -
        chargedAt (·.charged) (index.room room).reserved digest
    · refine ⟨_, (chargeFor_yields hb).bind (total1.bind ?_), .refused .storeFull⟩
      rw [if_neg h1]
      refine total2.bind ?_
      rw [if_pos h2]; exact .pure _
    refine ⟨_, (chargeFor_yields hb).bind (total1.bind ?_), .granted hb hdead (by simp only [reservedRoom]; omega)
      (by omega)⟩
    rw [if_neg h1]
    refine total2.bind ?_
    rw [if_neg h2]
    exact total2.bind (total1.bind (.pure _))

/-- The room after an upload took the reservation of `digest`. -/
def uploadingRoom (state : RoomState) (digest : String) (serial charged : Nat) : RoomState :=
  { state with
    reserved := state.reserved.erase digest
    uploading := state.uploading.insert digest ⟨serial, charged⟩ }

/-- The room after a second upload of a digest in flight gave its reservation back. -/
def releasedRoom (state : RoomState) (digest : String) (charged : Nat) : RoomState :=
  { state with reserved := state.reserved.erase digest, charged := state.charged - charged }

inductive Begins (index : Index) (nextSerial : Nat) (room : RoomId) (digest : String) (declared now : Nat) :
    Except UploadRefusal Accepted × Index × Nat → Prop
  | refused (r : UploadRefusal) : Begins index nextSerial room digest declared now (.error r, index, nextSerial)
  | held (state : RoomState) (p : Payload) : index.rooms.lookup room = some state →
      state.stored.lookup digest = some p → now < p.expiresAt →
      Begins index nextSerial room digest declared now (.ok .alreadyHeld, index, nextSerial)
  | concurrent (state : RoomState) (r : Reservation) (f : InFlight) : index.rooms.lookup room = some state →
      state.reserved.lookup digest = some r → state.uploading.lookup digest = some f →
      Begins index nextSerial room digest declared now (.error .unreserved,
        index.setRoom room (releasedRoom state digest r.charged) (index.charged - r.charged), nextSerial + 1)
  | accepted (state : RoomState) (r : Reservation) : index.rooms.lookup room = some state →
      (∀ p, state.stored.lookup digest = some p → p.expiresAt ≤ now) → state.reserved.lookup digest = some r →
      now < r.expiresAt → declared ≤ r.declared → state.uploading.lookup digest = none →
      Begins index nextSerial room digest declared now (.ok (.upload nextSerial),
        index.setRoom room (uploadingRoom state digest nextSerial r.charged) index.charged, nextSerial + 1)

theorem beginUpload_spec {index : Index} (h : IndexBooks index) (nextSerial : Nat) (room : RoomId) (digest : String)
    (declared now : Nat) : ∃ v, (beginUpload index nextSerial room digest declared now).Yields v ∧
      Begins index nextSerial room digest declared now v := by
  unfold beginUpload
  cases hl : index.rooms.lookup room with
  | none => exact ⟨_, .pure _, .refused _⟩
  | some state =>
    by_cases hs : (state.stored.lookup digest).any (now < ·.expiresAt) = true
    · obtain ⟨p, hp, hlt⟩ := (Option.any_eq_true _ _).mp hs
      simp only [hs, if_true]
      exact ⟨_, .pure _, .held state p hl hp (by simpa using hlt)⟩
    simp only [hs, if_false, Bool.false_eq_true]
    have hdead : ∀ p, state.stored.lookup digest = some p → p.expiresAt ≤ now := fun p hp => by
      simpa [hp] using hs
    cases hr : state.reserved.lookup digest with
    | none => exact ⟨_, .pure _, .refused _⟩
    | some r =>
      by_cases he : r.expiresAt ≤ now
      · simp only [he, if_true]; exact ⟨_, .pure _, .refused _⟩
      by_cases hd : r.declared < declared
      · simp only [he, hd, if_true, if_false]; exact ⟨_, .pure _, .refused _⟩
      simp only [he, hd, if_false]
      cases hu : state.uploading.lookup digest with
      | none => exact ⟨_, .pure _, .accepted state r hl hdead hr (by omega) (by omega) hu⟩
      | some f =>
        have hroom := (h.room room state hl).1
        have h1 : r.charged ≤ state.charged := by
          rw [hroom.charged]; unfold entriesCharged
          have := Map.le_sumBy (·.charged) hr
          omega
        have h2 : state.charged ≤ index.charged := by
          rw [h.charged]; exact Map.le_sumBy (·.charged) hl
        exact ⟨_, (U64.saturatingSub_yields h1).bind ((U64.saturatingSub_yields (by omega)).bind (.pure _)),
          .concurrent state r f hl hr hu⟩

/-- The room after an in-flight upload charged `charged` was given up. -/
def abandonedRoom (state : RoomState) (digest : String) (charged : Nat) : RoomState :=
  { state with uploading := state.uploading.erase digest, charged := state.charged - charged }

theorem mine_eq_some {state : RoomState} {digest : String} {serial : Nat} {f : InFlight} :
    mine state digest serial = some f ↔ state.uploading.lookup digest = some f ∧ f.serial = serial := by
  unfold mine
  rw [Option.filter_eq_some_iff]
  simp

/-- The entry is gone, or another upload's. -/
def NotMine (index : Index) (room : RoomId) (digest : String) (serial : Nat) : Prop :=
  ∀ state f, index.rooms.lookup room = some state → state.uploading.lookup digest = some f → f.serial ≠ serial

theorem notMine_of_none {index : Index} {room : RoomId} (h : index.rooms.lookup room = none) (digest : String)
    (serial : Nat) : NotMine index room digest serial := fun state f hl _ => by rw [h] at hl; cases hl

theorem notMine_of_mine {index : Index} {room : RoomId} {state : RoomState} {digest : String} {serial : Nat}
    (hl : index.rooms.lookup room = some state) (hm : mine state digest serial = none) :
    NotMine index room digest serial := fun state' f hl' hf hs => by
  rw [hl] at hl'; cases hl'
  rw [mine_eq_some.mpr ⟨hf, hs⟩] at hm; cases hm

inductive Abandons (index : Index) (room : RoomId) (digest : String) (serial : Nat) : Index → Prop
  | foreign : NotMine index room digest serial → Abandons index room digest serial (dropRoomIfIdle index room)
  | mine (state : RoomState) (f : InFlight) : index.rooms.lookup room = some state →
      state.uploading.lookup digest = some f → f.serial = serial →
      Abandons index room digest serial (dropRoomIfIdle
        (index.setRoom room (abandonedRoom state digest f.charged) (index.charged - f.charged)) room)

theorem abandonUpload_spec {index : Index} (h : IndexBooks index) (room : RoomId) (digest : String) (serial : Nat) :
    ∃ v, (abandonUpload index room digest serial).Yields v ∧ Abandons index room digest serial v := by
  unfold abandonUpload
  cases hl : index.rooms.lookup room with
  | none =>
    have hv := Abandons.foreign (notMine_of_none hl digest serial)
    have hd : dropRoomIfIdle index room = index := by simp [dropRoomIfIdle, hl]
    rw [hd] at hv
    exact ⟨_, .pure _, hv⟩
  | some state =>
    cases hm : mine state digest serial with
    | none => simp only [hm]; exact ⟨_, .pure _, .foreign (notMine_of_mine hl hm)⟩
    | some f =>
      obtain ⟨hu, hs⟩ := mine_eq_some.mp hm
      have hroom := (h.room room state hl).1
      have h1 : f.charged ≤ state.charged := by
        rw [hroom.charged]; unfold entriesCharged
        have := Map.le_sumBy (·.charged) hu
        omega
      have h2 : state.charged ≤ index.charged := by
        rw [h.charged]; exact Map.le_sumBy (·.charged) hl
      simp only [hm]
      exact ⟨_, (U64.saturatingSub_yields h1).bind ((U64.saturatingSub_yields (by omega)).bind (.pure _)),
        .mine state f hl hu hs⟩

/-- The room after an upload of `bytes` that held `held` was settled. -/
def storedRoom (state : RoomState) (digest : String) (held bytes now : Nat) : RoomState :=
  { state with
    uploading := state.uploading.erase digest
    stored := state.stored.insert digest ⟨bytes, charge bytes, now + payloadTimeToLive⟩
    charged := state.charged + charge bytes - held - chargedAt (·.charged) state.stored digest }

inductive Commits (index : Index) (room : RoomId) (digest : String) (serial bytes now : Nat) :
    Except UploadError Unit × Index → Prop
  | gone : NotMine index room digest serial → Commits index room digest serial bytes now (.error .roomGone, index)
  | stored (state : RoomState) (f : InFlight) : index.rooms.lookup room = some state →
      state.uploading.lookup digest = some f → f.serial = serial →
      Commits index room digest serial bytes now (.ok (),
        index.setRoom room (storedRoom state digest f.charged bytes now)
          (index.charged + charge bytes - f.charged - chargedAt (·.charged) state.stored digest))

/-- The commit's side condition: an upload settles for no more than its entry holds. -/
def Covered (index : Index) (room : RoomId) (digest : String) (serial bytes : Nat) : Prop :=
  bytes ≤ maxPayloadBytes ∧ ∀ state f, index.rooms.lookup room = some state →
    state.uploading.lookup digest = some f → f.serial = serial → charge bytes ≤ f.charged

theorem commitUpload_spec {index : Index} (h : IndexBooks index) {room : RoomId} {digest : String} {serial bytes : Nat}
    (hc : Covered index room digest serial bytes) (now : Nat) :
    ∃ v, (commitUpload index room digest serial bytes now).Yields v ∧ Commits index room digest serial bytes now v := by
  unfold commitUpload
  cases hl : index.rooms.lookup room with
  | none => exact ⟨_, .pure _, .gone (notMine_of_none hl digest serial)⟩
  | some state =>
    cases hm : mine state digest serial with
    | none => simp only [hm]; exact ⟨_, .pure _, .gone (notMine_of_mine hl hm)⟩
    | some f =>
      obtain ⟨hu, hs⟩ := mine_eq_some.mp hm
      have hroom := (h.room room state hl).1
      have hcharge := hc.2 state f hl hu hs
      have hb := charge_le hc.1
      have hbound := hroom.bound
      have hstore := h.bound
      have hcl := ceilings
      have hu' := Map.le_sumBy (·.charged) hu
      have hst := chargedAt_le (·.charged) state.stored digest
      have heq := hroom.charged
      have hle : state.charged ≤ index.charged := by
        rw [h.charged]; exact Map.le_sumBy (·.charged) hl
      unfold entriesCharged at heq
      have total1 := addSub_yields (a := state.charged) (b := charge bytes) (c := f.charged) (by omega) (by omega)
      have total2 := addSub_yields (a := index.charged) (b := charge bytes) (c := f.charged) (by omega) (by omega)
      have hv := @Commits.stored index room digest serial bytes now state f hl hu hs
      simp only [hm]
      cases hr : state.stored.lookup digest with
      | none =>
        have h0 : chargedAt (·.charged) state.stored digest = 0 := by simp [chargedAt, hr]
        simp only [storedRoom, h0, Nat.sub_zero] at hv
        exact ⟨_, (chargeFor_yields hc.1).bind (total1.bind (total2.bind (.pure _))), hv⟩
      | some replaced =>
        have h0 : chargedAt (·.charged) state.stored digest = replaced.charged := by simp [chargedAt, hr]
        rw [h0] at hst
        simp only [storedRoom, h0] at hv
        exact ⟨_, (chargeFor_yields hc.1).bind (total1.bind (total2.bind ((U64.saturatingSub_yields (by omega)).bind
          ((U64.saturatingSub_yields (by omega)).bind (.pure _))))), hv⟩

inductive Forgets (index : Index) (room : RoomId) : List Removal × Index → Prop
  | absent : index.rooms.lookup room = none → Forgets index room ([], index)
  | present (state : RoomState) : index.rooms.lookup room = some state →
      Forgets index room ([.room room], ⟨index.rooms.erase room, index.charged - state.charged⟩)

theorem forgetRoom_spec {index : Index} (h : IndexBooks index) (room : RoomId) :
    ∃ v, (forgetRoom index room).Yields v ∧ Forgets index room v := by
  unfold forgetRoom
  cases hl : index.rooms.lookup room with
  | none => exact ⟨_, .pure _, .absent hl⟩
  | some state =>
    have hle : state.charged ≤ index.charged := by
      rw [h.charged]; exact Map.le_sumBy (·.charged) hl
    exact ⟨_, (U64.saturatingSub_yields hle).bind (.pure _), .present state hl⟩

/-! ### The sweep -/

theorem release_yields (charges : List Nat) : ∀ released, released + charges.sum < 2 ^ 64 →
    (release released charges).Yields (released + charges.sum) := by
  induction charges with
  | nil => intro released _; exact .pure _
  | cons c rest ih =>
    intro released h
    simp only [List.sum_cons] at h ⊢
    rw [← Nat.add_assoc]
    exact (U64.add_yields (by omega)).bind (ih (released + c) (by omega))

/-- What a room's turn of the sweep gives back. -/
def releasedBy (now : Nat) (state : RoomState) : Nat :=
  ((deadReservations now state).map (·.2.charged)).sum + ((deadPayloads now state).map (·.2.charged)).sum

/-- What it leaves. -/
def sweptRoom (now : Nat) (state : RoomState) : RoomState :=
  { state with
    reserved := state.reserved.retain (liveReservation now)
    stored := state.stored.retain (livePayload now)
    charged := state.charged - releasedBy now state }

theorem releasedBy_add (now : Nat) (state : RoomState) :
    releasedBy now state + entriesCharged (sweptRoom now state) = entriesCharged state := by
  have h1 := Map.sumBy_retain (·.charged) (liveReservation now) state.reserved
  have h2 := Map.sumBy_retain (·.charged) (livePayload now) state.stored
  simp only [releasedBy, entriesCharged, sweptRoom, deadReservations, deadPayloads]
  omega

theorem sweepRoom_yields {state : RoomState} (h : RoomBooks state) (now : Nat) :
    (sweepRoom now state).Yields (releasedBy now state, sweptRoom now state) := by
  have hadd := releasedBy_add now state
  have hc := h.charged
  have hb := h.bound
  have hcl := ceilings
  have hr : releasedBy now state ≤ state.charged := by omega
  unfold sweepRoom
  unfold releasedBy at hr
  have y1 := release_yields ((deadReservations now state).map (·.2.charged)) 0 (by omega)
  have y2 := release_yields ((deadPayloads now state).map (·.2.charged))
    (0 + ((deadReservations now state).map (·.2.charged)).sum) (by omega)
  have y3 := U64.saturatingSub_yields hr
  rw [Nat.zero_add] at y1 y2
  exact y1.bind (y2.bind (y3.bind (.pure _)))

theorem sweptRoom_books {state : RoomState} (h : RoomBooks state) (now : Nat) : RoomBooks (sweptRoom now state) := by
  have hadd := releasedBy_add now state
  have hc := h.charged
  have hb := h.bound
  refine ⟨?_, ?_, fun d r hr => ?_, h.uploadingFloor, fun d p hp => ?_⟩
  · show state.charged - releasedBy now state = _
    omega
  · show state.charged - releasedBy now state ≤ _
    omega
  · rw [sweptRoom, Map.lookup_retain] at hr
    exact h.reservedFloor d r (Option.filter_eq_some_iff.mp hr).1
  · rw [sweptRoom, Map.lookup_retain] at hp
    exact h.storedFloor d p (Option.filter_eq_some_iff.mp hp).1

theorem sweepCharged_yields (now : Nat) : ∀ (l : List (Σ _ : RoomId, RoomState)) (charged : Nat),
    (∀ e ∈ l, RoomBooks e.2) → (l.map fun e => e.2.charged).sum ≤ charged →
    (sweepCharged now l charged).Yields (charged - (l.map fun e => releasedBy now e.2).sum) := by
  intro l
  induction l with
  | nil => intro charged _ _; exact .pure _
  | cons e rest ih =>
    intro charged hb hs
    have he := hb e (by simp)
    have hadd := releasedBy_add now e.2
    have hc := he.charged
    simp only [List.map_cons, List.sum_cons] at hs ⊢
    have hrest := ih (charged - releasedBy now e.2) (fun x hx => hb x (by simp [hx])) (by omega)
    rw [Nat.sub_sub] at hrest
    exact (sweepRoom_yields he now).bind ((U64.saturatingSub_yields (by omega)).bind hrest)

/-- The index after a sweep. -/
def sweptIndex (now : Nat) (index : Index) : Index :=
  ⟨(index.rooms.mapVals fun _ state => sweptRoom now state).retain keepsRoom,
    index.charged - (index.rooms.entries.map fun e => releasedBy now e.2).sum⟩

theorem mapVals_congr {ν μ : Type} {f g : RoomId → ν → μ} {m : Map RoomId ν}
    (h : ∀ e ∈ m.entries, f e.1 e.2 = g e.1 e.2) : m.mapVals f = m.mapVals g := by
  apply AList.ext
  exact List.map_congr_left fun e he => by rw [h e he]

theorem sweep_spec {index : Index} (h : IndexBooks index) (now : Nat) :
    (sweep index now).Yields (sweptCounts now index, sweptRemovals now index, sweptIndex now index) := by
  have hb : ∀ e ∈ index.rooms.entries, RoomBooks e.2 := fun e he =>
    (h.room e.1 e.2 (Map.lookup_of_mem_entries he)).1
  have hs : (index.rooms.entries.map fun e => e.2.charged).sum ≤ index.charged := by rw [h.charged]; rfl
  have hrooms : (index.rooms.mapVals fun _ state => (sweepRoom now state).val.2) =
      index.rooms.mapVals fun _ state => sweptRoom now state :=
    mapVals_congr fun e he => by rw [(sweepRoom_yields (hb e he) now).1]
  unfold sweep
  simp only [hrooms]
  exact (sweepCharged_yields now _ _ hb hs).bind (.pure _)

/-! ## The books stay balanced -/

theorem entryCount_pos_of_reserved {state : RoomState} {d : String} {r : Reservation}
    (h : state.reserved.lookup d = some r) : 0 < entryCount state := by
  have := List.length_pos_of_mem (Map.mem_entries_of_lookup h)
  unfold entryCount Map.size; omega

theorem entryCount_pos_of_uploading {state : RoomState} {d : String} {f : InFlight}
    (h : state.uploading.lookup d = some f) : 0 < entryCount state := by
  have := List.length_pos_of_mem (Map.mem_entries_of_lookup h)
  unfold entryCount Map.size; omega

theorem entryCount_pos_of_stored {state : RoomState} {d : String} {p : Payload}
    (h : state.stored.lookup d = some p) : 0 < entryCount state := by
  have := List.length_pos_of_mem (Map.mem_entries_of_lookup h)
  unfold entryCount Map.size; omega

theorem reservedRoom_books {state : RoomState} (h : RoomBooks state) {digest : String} {bytes now : Nat}
    (hb : bytes ≤ maxPayloadBytes) (hm : (reservedRoom state digest bytes now).charged ≤ maxRoomBytes) :
    RoomBooks (reservedRoom state digest bytes now) := by
  refine ⟨?_, hm, fun d r hr => ?_, h.uploadingFloor, h.storedFloor⟩
  · have hi := Map.sumBy_insert (·.charged) state.reserved digest
      ⟨bytes, charge bytes, now + reservationTimeToLive⟩
    have hc := h.charged
    simp only [entriesCharged, reservedRoom, chargedAt] at hi hc ⊢
    omega
  · rcases Map.lookup_insert_some hr with ⟨_, rfl⟩ | ⟨_, hr⟩
    · exact ⟨rfl, hb⟩
    · exact h.reservedFloor d r hr

theorem uploadingRoom_books {state : RoomState} (h : RoomBooks state) {digest : String} {serial : Nat} {r : Reservation}
    (hr : state.reserved.lookup digest = some r) (hu : state.uploading.lookup digest = none) :
    RoomBooks (uploadingRoom state digest serial r.charged) := by
  refine ⟨?_, h.bound, fun d r' hr' => h.reservedFloor d r' (Map.lookup_erase_some hr').2, fun d f hf => ?_, h.storedFloor⟩
  · have he := Map.sumBy_erase (·.charged) state.reserved digest
    have hi := Map.sumBy_insert_new (·.charged) hu ⟨serial, r.charged⟩
    have hc := h.charged
    simp only [hr, Option.elim_some] at he
    simp only [entriesCharged, uploadingRoom] at hi hc ⊢
    omega
  · rcases Map.lookup_insert_some hf with ⟨_, rfl⟩ | ⟨_, hf⟩
    · simp only [(h.reservedFloor digest r hr).1]; exact charge_floor _
    · exact h.uploadingFloor d f hf

theorem releasedRoom_books {state : RoomState} (h : RoomBooks state) {digest : String} {r : Reservation}
    (hr : state.reserved.lookup digest = some r) : RoomBooks (releasedRoom state digest r.charged) := by
  have hb := h.bound
  refine ⟨?_, by simp only [releasedRoom]; omega, fun d r' hr' => h.reservedFloor d r' (Map.lookup_erase_some hr').2,
    h.uploadingFloor, h.storedFloor⟩
  have he := Map.sumBy_erase (·.charged) state.reserved digest
  have hc := h.charged
  simp only [hr, Option.elim_some] at he
  simp only [entriesCharged, releasedRoom] at hc ⊢
  omega

theorem abandonedRoom_books {state : RoomState} (h : RoomBooks state) {digest : String} {f : InFlight}
    (hf : state.uploading.lookup digest = some f) : RoomBooks (abandonedRoom state digest f.charged) := by
  have hb := h.bound
  refine ⟨?_, by simp only [abandonedRoom]; omega, h.reservedFloor,
    fun d f' hf' => h.uploadingFloor d f' (Map.lookup_erase_some hf').2, h.storedFloor⟩
  have he := Map.sumBy_erase (·.charged) state.uploading digest
  have hc := h.charged
  simp only [hf, Option.elim_some] at he
  simp only [entriesCharged, abandonedRoom] at hc ⊢
  omega

theorem storedRoom_charged {state : RoomState} (h : RoomBooks state) {digest : String} {f : InFlight} (bytes now : Nat)
    (hf : state.uploading.lookup digest = some f) :
    (storedRoom state digest f.charged bytes now).charged + f.charged + chargedAt (·.charged) state.stored digest =
      state.charged + charge bytes := by
  have hu := Map.le_sumBy (·.charged) hf
  have hs := chargedAt_le (·.charged) state.stored digest
  have he := h.charged
  simp only [entriesCharged, storedRoom] at he ⊢
  omega

theorem storedRoom_books {state : RoomState} (h : RoomBooks state) {digest : String} {f : InFlight} {bytes now : Nat}
    (hf : state.uploading.lookup digest = some f) (hc : charge bytes ≤ f.charged) :
    RoomBooks (storedRoom state digest f.charged bytes now) := by
  have hb := h.bound
  have hsc := storedRoom_charged h bytes now hf
  refine ⟨?_, by omega, h.reservedFloor, fun d f' hf' => h.uploadingFloor d f' (Map.lookup_erase_some hf').2,
    fun d p hp => ?_⟩
  · have he := Map.sumBy_erase (·.charged) state.uploading digest
    have hi := Map.sumBy_insert (·.charged) state.stored digest ⟨bytes, charge bytes, now + payloadTimeToLive⟩
    have hch := h.charged
    simp only [hf, Option.elim_some] at he
    simp only [entriesCharged, storedRoom, chargedAt] at hsc hi hch ⊢
    omega
  · rcases Map.lookup_insert_some hp with ⟨_, rfl⟩ | ⟨_, hp⟩
    · rfl
    · exact h.storedFloor d p hp

/-! ### The index -/

theorem Reserves.books {index : Index} (h : IndexBooks index) {room : RoomId} {digest : String} {bytes now : Nat}
    {v : Except Refusal Grant × Index} (hv : Reserves index room digest bytes now v) : IndexBooks v.2 := by
  cases hv with
  | refused r => exact h
  | held p _ _ _ => exact h
  | granted hb _ hroom hstore =>
    have hle := chargedAt_le (·.charged) (index.room room).reserved digest
    have heq := (h.get room).charged
    have hic := h.charged_le room
    refine h.setRoom (reservedRoom_books (h.get room) hb hroom)
      (entryCount_pos_of_reserved (AList.lookup_insert _)) ?_ hstore
    simp only [entriesCharged, reservedRoom] at heq ⊢
    omega

theorem Begins.books {index : Index} (h : IndexBooks index) {nextSerial : Nat} {room : RoomId} {digest : String}
    {declared now : Nat} {v : Except UploadRefusal Accepted × Index × Nat}
    (hv : Begins index nextSerial room digest declared now v) : IndexBooks v.2.1 := by
  cases hv with
  | refused r => exact h
  | held state p _ _ _ => exact h
  | concurrent state r f hl hr hf =>
    have hs := (h.room room state hl).1
    have hroom := room_of_lookup hl
    have hle := Map.le_sumBy (·.charged) hr
    have heq := hs.charged
    have hic := h.charged_le room
    have hb := h.bound
    rw [hroom] at hic
    refine h.setRoom (releasedRoom_books hs hr) (entryCount_pos_of_uploading hf) ?_ (by omega)
    simp only [entriesCharged, releasedRoom, hroom] at heq ⊢
    omega
  | accepted state r hl _ hr _ _ hu =>
    have hs := (h.room room state hl).1
    refine h.setRoom (uploadingRoom_books hs hr hu) (entryCount_pos_of_uploading (AList.lookup_insert _)) ?_ h.bound
    rw [room_of_lookup hl]; rfl

/-- Dropping a room that holds and owes nothing leaves every total as it was; any other room stays. -/
theorem dropRoomIfIdle_books {index : Index} {room : RoomId}
    (hr : ∀ r state, index.rooms.lookup r = some state → RoomBooks state ∧ (r ≠ room → 0 < entryCount state))
    (hc : index.charged = index.rooms.sumBy (·.charged)) (hb : index.charged ≤ maxStoreBytes) :
    IndexBooks (dropRoomIfIdle index room) := by
  unfold dropRoomIfIdle
  cases hl : index.rooms.lookup room with
  | none =>
    simp only [Option.any_none, Bool.false_eq_true, if_false]
    refine ⟨fun r s h => ⟨(hr r s h).1, (hr r s h).2 fun e => ?_⟩, hc, hb⟩
    subst e; rw [hl] at h; cases h
  | some state =>
    have hs := (hr room state hl).1
    simp only [Option.any_some]
    split
    · rename_i hidle
      have hz := hs.idle.mp hidle
      have he := Map.sumBy_erase (·.charged) index.rooms room
      have hcount := hs.count
      have hcz : state.charged = 0 := by
        simp only [isIdle, Bool.and_eq_true, beq_iff_eq] at hidle
        exact hidle.1.1.1
      simp only [hl, Option.elim_some] at he
      refine ⟨fun r s h => ?_, by simp only; omega, hb⟩
      have hne : r ≠ room := fun e => by subst e; simp only [AList.lookup_erase] at h; cases h
      simp only [AList.lookup_erase_ne hne] at h
      exact ⟨(hr r s h).1, (hr r s h).2 hne⟩
    · rename_i hbusy
      refine ⟨fun r s h => ⟨(hr r s h).1, ?_⟩, hc, hb⟩
      by_cases e : r = room
      · subst e
        rw [hl] at h; cases h
        have := hs.idle.not.mp hbusy
        omega
      · exact (hr r s h).2 e

theorem Abandons.books {index : Index} (h : IndexBooks index) {room : RoomId} {digest : String} {serial : Nat}
    {v : Index} (hv : Abandons index room digest serial v) : IndexBooks v := by
  cases hv with
  | foreign _ => exact dropRoomIfIdle_books (fun r s hr => ⟨(h.room r s hr).1, fun _ => (h.room r s hr).2⟩) h.charged h.bound
  | mine state f hl hf hs =>
    have hroom := (h.room room state hl).1
    have hle := Map.le_sumBy (·.charged) hf
    have heq := hroom.charged
    have hic := Map.le_sumBy (·.charged) hl
    have hi := Map.sumBy_insert (·.charged) index.rooms room (abandonedRoom state digest f.charged)
    have hc := h.charged
    have hb := h.bound
    simp only [hl, Option.elim_some] at hi
    refine dropRoomIfIdle_books (fun r s hr => ?_) ?_ (by simp only [Index.setRoom]; omega)
    · by_cases e : r = room
      · subst e
        simp only [Index.setRoom, AList.lookup_insert, Option.some.injEq] at hr
        subst hr
        exact ⟨abandonedRoom_books hroom hf, fun hne => absurd rfl hne⟩
      · simp only [Index.setRoom, AList.lookup_insert_ne e] at hr
        exact ⟨(h.room r s hr).1, fun _ => (h.room r s hr).2⟩
    · simp only [entriesCharged, abandonedRoom, Index.setRoom] at heq hi hic ⊢
      omega

theorem Commits.books {index : Index} (h : IndexBooks index) {room : RoomId} {digest : String} {serial bytes now : Nat}
    (hc : Covered index room digest serial bytes) {v : Except UploadError Unit × Index}
    (hv : Commits index room digest serial bytes now v) : IndexBooks v.2 := by
  cases hv with
  | gone _ => exact h
  | stored state f hl hf hs =>
    have hroom := (h.room room state hl).1
    have hcov := hc.2 state f hl hf hs
    have hsc := storedRoom_charged hroom bytes now hf
    have hle : state.charged ≤ index.charged := by rw [h.charged]; exact Map.le_sumBy (·.charged) hl
    have hb := h.bound
    refine h.setRoom (storedRoom_books hroom hf hcov) (entryCount_pos_of_stored (AList.lookup_insert _)) ?_
      (by omega)
    rw [room_of_lookup hl]
    omega

theorem Forgets.books {index : Index} (h : IndexBooks index) {room : RoomId} {v : List Removal × Index}
    (hv : Forgets index room v) : IndexBooks v.2 := by
  cases hv with
  | absent _ => exact h
  | present state hl =>
    have hle := h.charged_le room
    rw [room_of_lookup hl] at hle
    exact h.erase (by rw [room_of_lookup hl]; omega)

theorem lookup_sweptIndex {index : Index} {now : Nat} {room : RoomId} {state : RoomState}
    (h : (sweptIndex now index).rooms.lookup room = some state) :
    ∃ old, index.rooms.lookup room = some old ∧ state = sweptRoom now old ∧ keepsRoom room state = true := by
  simp only [sweptIndex, Map.lookup_retain, Map.lookup_mapVals] at h
  obtain ⟨hm, hk⟩ := Option.filter_eq_some_iff.mp h
  obtain ⟨old, ho, rfl⟩ := Option.map_eq_some_iff.mp hm
  exact ⟨old, ho, rfl, hk⟩

theorem sweptIndex_books {index : Index} (h : IndexBooks index) (now : Nat) : IndexBooks (sweptIndex now index) := by
  have hb : ∀ e ∈ index.rooms.entries, RoomBooks e.2 := fun e he =>
    (h.room e.1 e.2 (Map.lookup_of_mem_entries he)).1
  refine ⟨fun room state hr => ?_, ?_, ?_⟩
  · obtain ⟨old, ho, rfl, hk⟩ := lookup_sweptIndex hr
    have hs := sweptRoom_books (h.room room old ho).1 now
    refine ⟨hs, ?_⟩
    simp only [keepsRoom, Bool.not_eq_true'] at hk
    have := hs.idle.not.mp (by simp [hk])
    omega
  · -- the rooms dropped as idle owe nothing, so only the releases leave the sum
    have hret := Map.sumBy_retain (·.charged) keepsRoom (index.rooms.mapVals fun _ state => sweptRoom now state)
    have hzero : (((index.rooms.mapVals fun _ state => sweptRoom now state).entries.filter fun e =>
        !keepsRoom e.1 e.2).map fun e => e.2.charged).sum = 0 := by
      apply List.sum_eq_zero
      intro c hc
      obtain ⟨e, he, rfl⟩ := List.mem_map.mp hc
      have hk := (List.mem_filter.mp he).2
      simp only [keepsRoom, Bool.not_not, isIdle, Bool.and_eq_true, beq_iff_eq] at hk
      exact hk.1.1.1
    have hsum : ∀ l : List (Σ _ : RoomId, RoomState), (∀ e ∈ l, RoomBooks e.2) →
        (l.map fun e => (sweptRoom now e.2).charged).sum + (l.map fun e => releasedBy now e.2).sum =
          (l.map fun e => e.2.charged).sum := by
      intro l
      induction l with
      | nil => intro _; rfl
      | cons e rest ih =>
        intro hl
        have ht := ih fun x hx => hl x (by simp [hx])
        have hadd := releasedBy_add now e.2
        have hc := (hl e (by simp)).charged
        have hc' : (sweptRoom now e.2).charged = e.2.charged - releasedBy now e.2 := rfl
        simp only [List.map_cons, List.sum_cons]
        omega
    have hs := hsum index.rooms.entries hb
    have hc := h.charged
    rw [Map.sumBy_mapVals] at hret
    simp only [Map.sumBy] at hc
    simp only [sweptIndex]
    omega
  · have := h.bound
    simp only [sweptIndex]
    omega

end OmpRelayd.Blob
