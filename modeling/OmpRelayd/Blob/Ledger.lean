/-
  OmpRelayd.Blob.Ledger — the store as its three tables.

  What the store is for can be said without rooms, charges and sweeps: at every address, a
  room and a digest, there is at most one reservation, at most one upload in flight and at
  most one payload. `Ledger` is these three tables, `Change` what can happen to them, and
  `Allows` which section of the store makes which change, under what conditions.

  Proved (`storeStep_makes`): every section of a store whose books balance does to its index
  exactly one change allowed to it. What uploads may do, whose reservation they take and what
  outlives them is then argued over the tables alone.
-/

import OmpRelayd.Blob.Views

namespace OmpRelayd.Blob

/-! ## Tables -/

/-- A table by room and digest. -/
abbrev Table (ν : Type) := RoomId → String → Option ν

namespace Table

variable {ν : Type}

def set (t : Table ν) (room : RoomId) (digest : String) (v : Option ν) : Table ν :=
  fun r d => if r = room ∧ d = digest then v else t r d

def clear (t : Table ν) (room : RoomId) : Table ν := fun r d => if r = room then none else t r d

def retain (t : Table ν) (live : ν → Bool) : Table ν := fun r d => (t r d).filter live

@[simp] theorem set_same (t : Table ν) (room : RoomId) (digest : String) (v : Option ν) :
    t.set room digest v room digest = v := by simp [set]

theorem set_ne {t : Table ν} {room r : RoomId} {digest d : String} (h : ¬ (r = room ∧ d = digest)) (v : Option ν) :
    t.set room digest v r d = t r d := by simp [set, h]

/-- An entry of the changed table is the one put there, or an old one elsewhere. -/
theorem set_some {t : Table ν} {room r : RoomId} {digest d : String} {v : Option ν} {w : ν}
    (h : t.set room digest v r d = some w) : (r = room ∧ d = digest) ∧ v = some w ∨ ¬ (r = room ∧ d = digest) ∧ t r d = some w := by
  by_cases e : r = room ∧ d = digest
  · obtain ⟨rfl, rfl⟩ := e
    exact .inl ⟨⟨rfl, rfl⟩, by simpa using h⟩
  · exact .inr ⟨e, by rwa [set_ne e] at h⟩

theorem clear_some {t : Table ν} {room r : RoomId} {d : String} {w : ν} (h : t.clear room r d = some w) :
    r ≠ room ∧ t r d = some w := by
  unfold clear at h
  split at h
  · cases h
  · rename_i hne; exact ⟨hne, h⟩

end Table

/-- The reservation, the upload and the payload at each address. -/
@[ext] structure Ledger where
  reserved : Table Reservation
  uploading : Table InFlight
  stored : Table Payload

/-- What happens to the tables. -/
inductive Change where
  | none
  | reserved (room : RoomId) (digest : String) (bytes now : Nat)
  /-- A second upload of a digest in flight loses its reservation. -/
  | returned (room : RoomId) (digest : String)
  /-- A reservation becomes an upload. -/
  | taken (room : RoomId) (digest : String) (serial charged : Nat)
  | abandoned (room : RoomId) (digest : String)
  /-- An upload becomes a payload. -/
  | settled (room : RoomId) (digest : String) (bytes now : Nat)
  | forgot (room : RoomId)
  | swept (now : Nat)
  deriving DecidableEq, Repr

def Ledger.apply (l : Ledger) : Change → Ledger
  | .none => l
  | .reserved room digest bytes now =>
    { l with reserved := l.reserved.set room digest (some ⟨bytes, charge bytes, now + reservationTimeToLive⟩) }
  | .returned room digest => { l with reserved := l.reserved.set room digest none }
  | .taken room digest serial charged =>
    { l with
      reserved := l.reserved.set room digest none
      uploading := l.uploading.set room digest (some ⟨serial, charged⟩) }
  | .abandoned room digest => { l with uploading := l.uploading.set room digest none }
  | .settled room digest bytes now =>
    { l with
      uploading := l.uploading.set room digest none
      stored := l.stored.set room digest (some ⟨bytes, charge bytes, now + payloadTimeToLive⟩) }
  | .forgot room => ⟨l.reserved.clear room, l.uploading.clear room, l.stored.clear room⟩
  | .swept now =>
    { l with
      reserved := l.reserved.retain fun r => now < r.expiresAt
      stored := l.stored.retain fun p => now < p.expiresAt }

/-! ## What an entry outlives -/

section
variable (l : Ledger) (change : Change) {room : RoomId} {digest : String}

/-- A payload goes with its room or at its expiry, or is uploaded anew. -/
theorem Ledger.stored_apply {p : Payload} (h : l.stored room digest = some p) :
    (l.apply change).stored room digest = some p ∨ change = .forgot room ∨
      (∃ bytes now, change = .settled room digest bytes now) ∨ ∃ now, change = .swept now ∧ p.expiresAt ≤ now := by
  cases change with
  | settled r d bytes now =>
    by_cases e : room = r ∧ digest = d
    · obtain ⟨rfl, rfl⟩ := e; exact .inr (.inr (.inl ⟨bytes, now, rfl⟩))
    · exact .inl ((Table.set_ne e _).trans h)
  | forgot r =>
    by_cases e : room = r
    · subst e; exact .inr (.inl rfl)
    · left; simpa [Ledger.apply, Table.clear, e] using h
  | swept now =>
    by_cases e : now < p.expiresAt
    · left; simp [Ledger.apply, Table.retain, h, e]
    · exact .inr (.inr (.inr ⟨now, rfl, Nat.not_lt.mp e⟩))
  | _ => exact .inl h

/-- A payload was there before, or has just been uploaded. -/
theorem Ledger.stored_of_apply {p : Payload} (h : (l.apply change).stored room digest = some p) :
    l.stored room digest = some p ∨
      ∃ bytes now, change = .settled room digest bytes now ∧ p.expiresAt = now + payloadTimeToLive := by
  cases change with
  | settled r d bytes now =>
    rcases Table.set_some h with ⟨⟨rfl, rfl⟩, hv⟩ | ⟨-, hold⟩
    · cases hv; exact .inr ⟨bytes, now, rfl, rfl⟩
    · exact .inl hold
  | forgot r => exact .inl (Table.clear_some h).2
  | swept now => exact .inl (Option.filter_eq_some_iff.mp h).1
  | _ => exact .inl h

/-- An upload goes with its room, or is settled or abandoned. -/
theorem Ledger.uploading_apply {f : InFlight} (h : l.uploading room digest = some f) :
    (l.apply change).uploading room digest = some f ∨ change = .forgot room ∨ change = .abandoned room digest ∨
      (∃ bytes now, change = .settled room digest bytes now) ∨ ∃ serial charged, change = .taken room digest serial charged := by
  cases change with
  | taken r d serial charged =>
    by_cases e : room = r ∧ digest = d
    · obtain ⟨rfl, rfl⟩ := e; exact .inr (.inr (.inr (.inr ⟨serial, charged, rfl⟩)))
    · exact .inl ((Table.set_ne e _).trans h)
  | abandoned r d =>
    by_cases e : room = r ∧ digest = d
    · obtain ⟨rfl, rfl⟩ := e; exact .inr (.inr (.inl rfl))
    · exact .inl ((Table.set_ne e _).trans h)
  | settled r d bytes now =>
    by_cases e : room = r ∧ digest = d
    · obtain ⟨rfl, rfl⟩ := e; exact .inr (.inr (.inr (.inl ⟨bytes, now, rfl⟩)))
    · exact .inl ((Table.set_ne e _).trans h)
  | forgot r =>
    by_cases e : room = r
    · subst e; exact .inr (.inl rfl)
    · left; simpa [Ledger.apply, Table.clear, e] using h
  | _ => exact .inl h

/-- A reservation goes with its room or at its expiry, or is replaced, taken or given back. -/
theorem Ledger.reserved_apply {r : Reservation} (h : l.reserved room digest = some r) :
    (l.apply change).reserved room digest = some r ∨ change = .forgot room ∨
      (∃ bytes now, change = .reserved room digest bytes now) ∨ change = .returned room digest ∨
      (∃ serial charged, change = .taken room digest serial charged) ∨ ∃ now, change = .swept now ∧ r.expiresAt ≤ now := by
  cases change with
  | reserved r' d bytes now =>
    by_cases e : room = r' ∧ digest = d
    · obtain ⟨rfl, rfl⟩ := e; exact .inr (.inr (.inl ⟨bytes, now, rfl⟩))
    · exact .inl ((Table.set_ne e _).trans h)
  | returned r' d =>
    by_cases e : room = r' ∧ digest = d
    · obtain ⟨rfl, rfl⟩ := e; exact .inr (.inr (.inr (.inl rfl)))
    · exact .inl ((Table.set_ne e _).trans h)
  | taken r' d serial charged =>
    by_cases e : room = r' ∧ digest = d
    · obtain ⟨rfl, rfl⟩ := e; exact .inr (.inr (.inr (.inr (.inl ⟨serial, charged, rfl⟩))))
    · exact .inl ((Table.set_ne e _).trans h)
  | forgot r' =>
    by_cases e : room = r'
    · subst e; exact .inr (.inl rfl)
    · left; simpa [Ledger.apply, Table.clear, e] using h
  | swept now =>
    by_cases e : now < r.expiresAt
    · left; simp [Ledger.apply, Table.retain, h, e]
    · exact .inr (.inr (.inr (.inr (.inr ⟨now, rfl, Nat.not_lt.mp e⟩))))
  | _ => exact .inl h

end

/-- Which change a section may make, in which tables. -/
inductive Allows (l : Ledger) (nextSerial : Nat) : StoreEv → Change → Prop
  | notReserved (room : RoomId) (digest : String) (bytes now : Nat) :
      Allows l nextSerial (.reserve room digest bytes now) .none
  | reserved (room : RoomId) (digest : String) (bytes now : Nat) : bytes ≤ maxPayloadBytes →
      (∀ p, l.stored room digest = some p → p.expiresAt ≤ now) →
      Allows l nextSerial (.reserve room digest bytes now) (.reserved room digest bytes now)
  | notBegun (room : RoomId) (digest : String) (declared now : Nat) :
      Allows l nextSerial (.beginUpload room digest declared now) .none
  | returned (room : RoomId) (digest : String) (declared now : Nat) (r : Reservation) (f : InFlight) :
      l.reserved room digest = some r → l.uploading room digest = some f →
      Allows l nextSerial (.beginUpload room digest declared now) (.returned room digest)
  | taken (room : RoomId) (digest : String) (declared now : Nat) (r : Reservation) : l.reserved room digest = some r →
      now < r.expiresAt → declared ≤ r.declared → l.uploading room digest = none →
      (∀ p, l.stored room digest = some p → p.expiresAt ≤ now) →
      Allows l nextSerial (.beginUpload room digest declared now) (.taken room digest nextSerial r.charged)
  | notSettled (g : Guard) (now : Nat) : (∀ f, l.uploading g.room g.digest = some f → f.serial ≠ g.serial) →
      Allows l nextSerial (.commitUpload g now) .none
  | settled (g : Guard) (now : Nat) (f : InFlight) : l.uploading g.room g.digest = some f → f.serial = g.serial →
      Allows l nextSerial (.commitUpload g now) (.settled g.room g.digest g.declared now)
  | notAbandoned (room : RoomId) (digest : String) (serial : Nat) :
      (∀ f, l.uploading room digest = some f → f.serial ≠ serial) →
      Allows l nextSerial (.abandonUpload room digest serial) .none
  | abandoned (room : RoomId) (digest : String) (serial : Nat) (f : InFlight) : l.uploading room digest = some f →
      f.serial = serial → Allows l nextSerial (.abandonUpload room digest serial) (.abandoned room digest)
  | forgot (room : RoomId) : Allows l nextSerial (.forgetRoom room) (.forgot room)
  | swept (now : Nat) : Allows l nextSerial (.sweep now) (.swept now)
  | drawn : Allows l nextSerial .drawSerial .none

/-! ## The tables of an index -/

def ledgerOf (index : Index) : Ledger := ⟨reservedAt index, flightAt index, storedAt index⟩

section
variable {ν : Type} (m : RoomState → Map String ν) {index : Index} {room : RoomId}

/-- One address of one room changes. -/
theorem entryAt_set {state : RoomState} {digest : String} {v : Option ν} {total : Nat}
    (h : ∀ d, (m state).lookup d = if d = digest then v else entryAt m index room d) :
    entryAt m (index.setRoom room state total) = Table.set (entryAt m index) room digest v := by
  funext r d
  rw [entryAt_setRoom, Table.set]
  by_cases e : r = room
  · subst e
    simp [h d]
  · simp [e]

theorem entryAt_clear (total : Nat) : entryAt m ⟨index.rooms.erase room, total⟩ = Table.clear (entryAt m index) room := by
  funext r d
  exact entryAt_erase m index room total r d

end

/-- An idle room with nothing stored has no entry in any table. -/
theorem ledgerOf_dropRoomIfIdle (index : Index) (room : RoomId) : ledgerOf (dropRoomIfIdle index room) = ledgerOf index := by
  unfold dropRoomIfIdle
  split
  · rename_i hidle
    obtain ⟨state, hl, hb⟩ := (Option.any_eq_true _ _).mp hidle
    simp only [isIdle, Bool.and_eq_true] at hb
    exact Ledger.ext (entryAt_erase_same (·.reserved) hl hb.1.1.2 _) (entryAt_erase_same (·.uploading) hl hb.1.2 _)
      (entryAt_erase_same (·.stored) hl hb.2 _)
  · rfl

/-! ## Every section makes one allowed change -/

/-- The change made by a section, and the tables after it. -/
def Makes (index : Index) (nextSerial : Nat) (e : StoreEv) (index' : Index) : Prop :=
  ∃ change, Allows (ledgerOf index) nextSerial e change ∧ ledgerOf index' = (ledgerOf index).apply change

section
variable {index : Index} {room : RoomId} {digest : String}

theorem lookup_insert_eq {ν : Type} (m : Map String ν) (digest : String) (v : ν) (d : String) :
    (m.insert digest v).lookup d = if d = digest then some v else m.lookup d := by
  by_cases e : d = digest
  · subst e; simp
  · simp [AList.lookup_insert_ne e, e]

theorem lookup_erase_eq {ν : Type} (m : Map String ν) (digest d : String) :
    (m.erase digest).lookup d = if d = digest then none else m.lookup d := by
  by_cases e : d = digest
  · subst e; simp
  · simp [AList.lookup_erase_ne e, e]

theorem Reserves.makes {bytes now : Nat} {v : Except Refusal Grant × Index} (hv : Reserves index room digest bytes now v)
    (n : Nat) : Makes index n (.reserve room digest bytes now) v.2 := by
  cases hv with
  | refused r => exact ⟨.none, .notReserved .., rfl⟩
  | held p => exact ⟨.none, .notReserved .., rfl⟩
  | granted hb hdead =>
    refine ⟨.reserved room digest bytes now, .reserved _ _ _ _ hb fun p hp => hdead p ?_, ?_⟩
    · rw [storedAt_room]; exact hp
    · refine Ledger.ext ?_ ?_ ?_
      · refine entryAt_set (·.reserved) fun d => ?_
        rw [← entryAt_room (·.reserved) rfl index room d]
        exact lookup_insert_eq _ _ _ _
      · exact entryAt_setRoom_same (·.uploading) fun d => entryAt_room (·.uploading) rfl index room d
      · exact entryAt_setRoom_same (·.stored) fun d => entryAt_room (·.stored) rfl index room d

theorem Begins.makes {nextSerial declared now : Nat} {v : Except UploadRefusal Accepted × Index × Nat}
    (hv : Begins index nextSerial room digest declared now v) :
    Makes index nextSerial (.beginUpload room digest declared now) v.2.1 := by
  cases hv with
  | refused r => exact ⟨.none, .notBegun .., rfl⟩
  | held state p => exact ⟨.none, .notBegun .., rfl⟩
  | concurrent state r f hl hr hf =>
    have hsame : ∀ {ν : Type} (m : RoomState → Map String ν) (d : String), (m state).lookup d = entryAt m index room d :=
      fun m d => (entryAt_of_lookup _ hl d).symm
    refine ⟨.returned room digest, .returned _ _ _ _ r f ((hsame (·.reserved) digest).symm.trans hr)
      ((hsame (·.uploading) digest).symm.trans hf), ?_⟩
    refine Ledger.ext ?_ ?_ ?_
    · refine entryAt_set (·.reserved) fun d => ?_
      rw [← hsame (·.reserved)]
      exact lookup_erase_eq _ _ _
    · exact entryAt_setRoom_same (·.uploading) fun d => hsame (·.uploading) d
    · exact entryAt_setRoom_same (·.stored) fun d => hsame (·.stored) d
  | accepted state r hl hdead hr hlive hle hnone =>
    have hsame : ∀ {ν : Type} (m : RoomState → Map String ν) (d : String), (m state).lookup d = entryAt m index room d :=
      fun m d => (entryAt_of_lookup _ hl d).symm
    refine ⟨.taken room digest nextSerial r.charged, .taken _ _ _ _ r ((hsame (·.reserved) digest).symm.trans hr) hlive hle
      ((hsame (·.uploading) digest).symm.trans hnone) (fun p hp => hdead p ((hsame (·.stored) digest).trans hp)), ?_⟩
    refine Ledger.ext ?_ ?_ ?_
    · refine entryAt_set (·.reserved) fun d => ?_
      rw [← hsame (·.reserved)]
      exact lookup_erase_eq _ _ _
    · refine entryAt_set (·.uploading) fun d => ?_
      rw [← hsame (·.uploading)]
      exact lookup_insert_eq _ _ _ _
    · exact entryAt_setRoom_same (·.stored) fun d => hsame (·.stored) d

theorem NotMine.uploading {serial : Nat} (h : NotMine index room digest serial) :
    ∀ f, flightAt index room digest = some f → f.serial ≠ serial := by
  intro f hf
  obtain ⟨state, hl, hu⟩ := Option.bind_eq_some_iff.mp hf
  exact h state f hl hu

theorem Abandons.makes {serial : Nat} {v : Index} (hv : Abandons index room digest serial v) (n : Nat) :
    Makes index n (.abandonUpload room digest serial) v := by
  cases hv with
  | foreign hnot => exact ⟨.none, .notAbandoned _ _ _ hnot.uploading, ledgerOf_dropRoomIfIdle index room⟩
  | mine state f hl hu hs =>
    refine ⟨.abandoned room digest, .abandoned _ _ _ f ((flightAt_of_lookup hl digest).trans hu) hs, ?_⟩
    rw [ledgerOf_dropRoomIfIdle]
    refine Ledger.ext ?_ ?_ ?_
    · exact entryAt_setRoom_same (·.reserved) fun d => (entryAt_of_lookup _ hl d).symm
    · refine entryAt_set (·.uploading) fun d => ?_
      rw [entryAt_of_lookup _ hl]
      exact lookup_erase_eq _ _ _
    · exact entryAt_setRoom_same (·.stored) fun d => (entryAt_of_lookup _ hl d).symm

theorem Commits.makes {g : Guard} {now : Nat} {v : Except UploadError Unit × Index}
    (hv : Commits index g.room g.digest g.serial g.declared now v) (n : Nat) :
    Makes index n (.commitUpload g now) v.2 := by
  cases hv with
  | gone hnot => exact ⟨.none, .notSettled _ _ hnot.uploading, rfl⟩
  | stored state f hl hu hs =>
    refine ⟨.settled g.room g.digest g.declared now, .settled _ _ f ((flightAt_of_lookup hl _).trans hu) hs, ?_⟩
    refine Ledger.ext ?_ ?_ ?_
    · exact entryAt_setRoom_same (·.reserved) fun d => (entryAt_of_lookup _ hl d).symm
    · refine entryAt_set (·.uploading) fun d => ?_
      rw [entryAt_of_lookup _ hl]
      exact lookup_erase_eq _ _ _
    · refine entryAt_set (·.stored) fun d => ?_
      rw [entryAt_of_lookup _ hl]
      exact lookup_insert_eq _ _ _ _

theorem Forgets.makes {v : List Removal × Index} (hv : Forgets index room v) (n : Nat) :
    Makes index n (.forgetRoom room) v.2 := by
  refine ⟨.forgot room, .forgot room, ?_⟩
  cases hv with
  | absent hl =>
    have hclear : ∀ {ν : Type} (m : RoomState → Map String ν), entryAt m index = Table.clear (entryAt m index) room := by
      intro ν m
      funext r d
      unfold Table.clear
      split
      · rename_i e; subst e; simp [entryAt, hl]
      · rfl
    exact Ledger.ext (hclear (·.reserved)) (hclear (·.uploading)) (hclear (·.stored))
  | present state hl =>
    exact Ledger.ext (entryAt_clear (·.reserved) _) (entryAt_clear (·.uploading) _)
      (entryAt_clear (·.stored) _)

/-- A sweep leaves of each table what it leaves of each room: it drops no room that has an entry. -/
theorem entryAt_sweptIndex {ν : Type} {m : RoomState → Map String ν} {now : Nat}
    (hkeeps : ∀ {room state d v}, (m state).lookup d = some v → keepsRoom room state = true) (index : Index) :
    entryAt m (sweptIndex now index) = fun r d =>
      (index.rooms.lookup r).bind fun state => (m (sweptRoom now state)).lookup d := by
  funext r d
  simp only [entryAt, sweptIndex, Map.lookup_retain, Map.lookup_mapVals]
  cases index.rooms.lookup r with
  | none => rfl
  | some state =>
    simp only [Option.map_some, Option.bind_some]
    cases hk : keepsRoom r (sweptRoom now state) with
    | true => rw [Option.filter_some, if_pos hk, Option.bind_some]
    | false =>
      rw [Option.filter_some, if_neg (by simp [hk]), Option.bind_none]
      cases hv : (m (sweptRoom now state)).lookup d with
      | none => rfl
      | some v => rw [hkeeps hv] at hk; cases hk

theorem sweptIndex_makes (index : Index) (now n : Nat) : Makes index n (.sweep now) (sweptIndex now index) := by
  refine ⟨.swept now, .swept now, Ledger.ext ?_ ?_ ?_⟩
  · refine (entryAt_sweptIndex (m := (·.reserved)) (fun h => ?_) index).trans ?_
    · simp [keepsRoom, isIdle, Map.not_isEmpty_of_lookup h]
    · funext r d
      simp only [sweptRoom, Map.lookup_retain, Ledger.apply, Table.retain, ledgerOf, reservedAt]
      cases index.rooms.lookup r <;> rfl
  · exact entryAt_sweptIndex (m := (·.uploading)) keepsRoom_of_uploading index
  · refine (entryAt_sweptIndex (m := (·.stored)) keepsRoom_of_stored index).trans ?_
    funext r d
    simp only [sweptRoom, Map.lookup_retain, Ledger.apply, Table.retain, ledgerOf, storedAt]
    cases index.rooms.lookup r <;> rfl

end

theorem storeStep_makes {s t : Store} {e : StoreEv} (h : StoreInv s) (hs : storeStep s e = some t) :
    Makes s.index s.nextSerial e t.index := by
  cases e with
  | reserve room digest bytes now =>
    cases hs
    obtain ⟨v, ⟨rfl, _⟩, hv⟩ := reserve_spec h.books room digest bytes now
    exact hv.makes _
  | beginUpload room digest declared now =>
    cases hs
    obtain ⟨v, ⟨rfl, _⟩, hv⟩ := beginUpload_spec h.books s.nextSerial room digest declared now
    exact hv.makes
  | commitUpload g now =>
    simp only [storeStep] at hs
    split at hs
    · rename_i hg
      cases hs
      obtain ⟨v, ⟨rfl, _⟩, hv⟩ := commitUpload_spec h.books (h.covered g hg) now
      exact hv.makes _
    · cases hs
  | abandonUpload room digest serial =>
    cases hs
    obtain ⟨v, ⟨rfl, _⟩, hv⟩ := abandonUpload_spec h.books room digest serial
    exact hv.makes _
  | forgetRoom room =>
    cases hs
    obtain ⟨v, ⟨rfl, _⟩, hv⟩ := forgetRoom_spec h.books room
    exact hv.makes _
  | sweep now =>
    cases hs
    have hv := (sweep_spec h.books now).1
    simp only [Store.sweep, hv]
    exact sweptIndex_makes s.index now _
  | drawSerial =>
    cases hs
    exact ⟨.none, .drawn, rfl⟩

end OmpRelayd.Blob
