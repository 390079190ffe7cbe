/-
  OmpRelayd.Blob.Views — what each critical section does to the entries a path depends on.

  A file on disk is governed by two lookups: the payload stored under an address
  (`storedAt`) and the upload in flight for it (`flightAt`). This module says, once per
  section of a store whose books balance, how those two change. Reservations and totals
  play no part from here on.
-/

import OmpRelayd.Blob.Accounting

namespace OmpRelayd.Blob

/-! ## One room changes -/

section
variable {ν : Type} (entries : RoomState → Map String ν)

/-- The entries of one kind, by address; `storedAt` and `flightAt` are two of them. -/
def entryAt (index : Index) (room : RoomId) (digest : String) : Option ν :=
  (index.rooms.lookup room).bind fun state => (entries state).lookup digest

theorem entryAt_of_lookup {index : Index} {room : RoomId} {state : RoomState} (h : index.rooms.lookup room = some state)
    (d : String) : entryAt entries index room d = (entries state).lookup d := by
  simp [entryAt, h]

theorem entryAt_setRoom (index : Index) (room : RoomId) (state : RoomState) (total : Nat) (r : RoomId) (d : String) :
    entryAt entries (index.setRoom room state total) r d =
      if r = room then (entries state).lookup d else entryAt entries index r d := by
  unfold entryAt Index.setRoom
  by_cases e : r = room
  · subst e; simp
  · simp [AList.lookup_insert_ne e, e]

theorem entryAt_setRoom_same {index : Index} {room : RoomId} {state : RoomState} {total : Nat}
    (h : ∀ d, (entries state).lookup d = entryAt entries index room d) :
    entryAt entries (index.setRoom room state total) = entryAt entries index := by
  funext r d
  rw [entryAt_setRoom]
  by_cases e : r = room
  · subst e; rw [if_pos rfl, h]
  · rw [if_neg e]

theorem entryAt_erase (index : Index) (room : RoomId) (total : Nat) (r : RoomId) (d : String) :
    entryAt entries ⟨index.rooms.erase room, total⟩ r d = if r = room then none else entryAt entries index r d := by
  unfold entryAt
  by_cases e : r = room
  · subst e; simp
  · simp [AList.lookup_erase_ne e, e]

theorem entryAt_room (hempty : entries {} = ∅) (index : Index) (room : RoomId) (d : String) :
    (entries (index.room room)).lookup d = entryAt entries index room d := by
  unfold Index.room entryAt
  cases index.rooms.lookup room with
  | none =>
    show (entries {}).lookup d = none
    rw [hempty]
    rfl
  | some state => rfl

/-- A room that has none of this kind is dropped without a trace. -/
theorem entryAt_erase_same {index : Index} {room : RoomId} {state : RoomState} (h : index.rooms.lookup room = some state)
    (hempty : (entries state).isEmpty = true) (total : Nat) :
    entryAt entries ⟨index.rooms.erase room, total⟩ = entryAt entries index := by
  funext r d
  rw [entryAt_erase]
  by_cases e : r = room
  · subst e; rw [if_pos rfl, entryAt_of_lookup entries h, Map.isEmpty_iff.mp hempty]
  · rw [if_neg e]

end

theorem storedAt_of_lookup {index : Index} {room : RoomId} {state : RoomState}
    (h : index.rooms.lookup room = some state) (d : String) : storedAt index room d = state.stored.lookup d :=
  entryAt_of_lookup (·.stored) h d

theorem flightAt_of_lookup {index : Index} {room : RoomId} {state : RoomState}
    (h : index.rooms.lookup room = some state) (d : String) : flightAt index room d = state.uploading.lookup d :=
  entryAt_of_lookup (·.uploading) h d

theorem storedAt_setRoom (index : Index) (room : RoomId) (state : RoomState) (total : Nat) (r : RoomId) (d : String) :
    storedAt (index.setRoom room state total) r d = if r = room then state.stored.lookup d else storedAt index r d :=
  entryAt_setRoom (·.stored) index room state total r d

theorem flightAt_setRoom (index : Index) (room : RoomId) (state : RoomState) (total : Nat) (r : RoomId) (d : String) :
    flightAt (index.setRoom room state total) r d = if r = room then state.uploading.lookup d else flightAt index r d :=
  entryAt_setRoom (·.uploading) index room state total r d

/-- A room whose payloads stay as they were. -/
theorem storedAt_setRoom_same {index : Index} {room : RoomId} {state : RoomState} {total : Nat}
    (h : ∀ d, state.stored.lookup d = storedAt index room d) :
    storedAt (index.setRoom room state total) = storedAt index :=
  entryAt_setRoom_same (·.stored) h

theorem flightAt_setRoom_same {index : Index} {room : RoomId} {state : RoomState} {total : Nat}
    (h : ∀ d, state.uploading.lookup d = flightAt index room d) :
    flightAt (index.setRoom room state total) = flightAt index :=
  entryAt_setRoom_same (·.uploading) h

/-- A room whose in-flight entries are all old ones, apart from those that satisfy `P`. -/
theorem flightAt_setRoom_mem {index : Index} {room : RoomId} {state : RoomState} {total : Nat} {P : InFlight → Prop}
    (h : ∀ d f, state.uploading.lookup d = some f → flightAt index room d = some f ∨ P f) {r : RoomId} {d : String}
    {f : InFlight} (hf : flightAt (index.setRoom room state total) r d = some f) :
    flightAt index r d = some f ∨ P f := by
  rw [flightAt_setRoom] at hf
  by_cases e : r = room
  · subst e; rw [if_pos rfl] at hf; exact h d f hf
  · rw [if_neg e] at hf; exact .inl hf

theorem storedAt_erase (index : Index) (room : RoomId) (total : Nat) (r : RoomId) (d : String) :
    storedAt ⟨index.rooms.erase room, total⟩ r d = if r = room then none else storedAt index r d :=
  entryAt_erase (·.stored) index room total r d

theorem flightAt_erase (index : Index) (room : RoomId) (total : Nat) (r : RoomId) (d : String) :
    flightAt ⟨index.rooms.erase room, total⟩ r d = if r = room then none else flightAt index r d :=
  entryAt_erase (·.uploading) index room total r d

theorem storedAt_room (index : Index) (room : RoomId) (d : String) :
    (index.room room).stored.lookup d = storedAt index room d :=
  entryAt_room (·.stored) rfl index room d

theorem flightAt_room (index : Index) (room : RoomId) (d : String) :
    (index.room room).uploading.lookup d = flightAt index room d :=
  entryAt_room (·.uploading) rfl index room d

theorem ownsRoom_of_storedAt {index : Index} {room : RoomId} {d : String} {p : Payload}
    (h : storedAt index room d = some p) : ownsRoom index room = true := by
  obtain ⟨state, hl, _⟩ := Option.bind_eq_some_iff.mp h
  simp [ownsRoom, hl]

/-- A room is dropped only when it has neither. -/
theorem dropRoomIfIdle_views (index : Index) (room : RoomId) :
    storedAt (dropRoomIfIdle index room) = storedAt index ∧ flightAt (dropRoomIfIdle index room) = flightAt index := by
  unfold dropRoomIfIdle
  split
  · rename_i hidle
    obtain ⟨state, hl, hb⟩ := (Option.any_eq_true _ _).mp hidle
    simp only [isIdle, Bool.and_eq_true] at hb
    exact ⟨entryAt_erase_same (·.stored) hl hb.2 index.charged, entryAt_erase_same (·.uploading) hl hb.1.2 index.charged⟩
  · exact ⟨rfl, rfl⟩

/-! ## The sections -/

/-- Whatever the state of the store: a grant holds the payload or its reservation, and a refusal
    changes nothing. -/
theorem reserve_ensures (index : Index) (room : RoomId) (digest : String) (bytes now : Nat) :
    (reserve index room digest bytes now).Ensures fun v =>
      (∀ grant, v.1 = .ok grant → (∃ p, storedAt v.2 room digest = some p ∧ now < p.expiresAt) ∨
        ∃ r, reservedAt v.2 room digest = some r ∧ r.declared = bytes) ∧
      ∀ refusal, v.1 = .error refusal → v.2 = index := by
  have hrefused : ∀ refusal, (Pure.pure (Except.error refusal, index) : Audit (Except Refusal Grant × Index)).Ensures
      fun v => (∀ grant, v.1 = .ok grant → (∃ p, storedAt v.2 room digest = some p ∧ now < p.expiresAt) ∨
        ∃ r, reservedAt v.2 room digest = some r ∧ r.declared = bytes) ∧ ∀ refusal, v.1 = .error refusal → v.2 = index := by
    intro refusal
    refine .pure ⟨fun _ h => ?_, fun _ _ => rfl⟩
    cases h
  unfold reserve
  split
  · exact hrefused _
  refine .bind fun charged => ?_
  dsimp only
  split
  · rename_i payload hp
    obtain ⟨hl, he⟩ := Option.filter_eq_some_iff.mp hp
    refine .pure ⟨fun _ _ => .inl ⟨payload, ?_, of_decide_eq_true he⟩, fun _ h => ?_⟩
    · rw [← storedAt_room]; exact hl
    · cases h
  · refine .bind fun roomTotal => ?_
    split
    · exact hrefused _
    refine .bind fun storeTotal => ?_
    split
    · exact hrefused _
    refine .bind fun storeCharged => .bind fun roomCharged => .pure ⟨fun _ _ => .inr
      ⟨⟨bytes, charged, now + reservationTimeToLive⟩, ?_, rfl⟩, fun _ h => ?_⟩
    · simp only [reservedAt, Index.setRoom, AList.lookup_insert, Option.bind_some]
    · cases h

theorem Reserves.views {index : Index} {room : RoomId} {digest : String} {bytes now : Nat}
    {v : Except Refusal Grant × Index} (hv : Reserves index room digest bytes now v) :
    storedAt v.2 = storedAt index ∧ flightAt v.2 = flightAt index := by
  cases hv with
  | refused r => exact ⟨rfl, rfl⟩
  | held p _ _ _ => exact ⟨rfl, rfl⟩
  | granted _ _ _ _ =>
    exact ⟨storedAt_setRoom_same fun d => storedAt_room index room d,
      flightAt_setRoom_same fun d => flightAt_room index room d⟩

theorem Store.reserve_views {s : Store} (h : StoreInv s) (room : RoomId) (digest : String) (bytes now : Nat) :
    storedAt (s.reserve room digest bytes now).2.index = storedAt s.index ∧
      flightAt (s.reserve room digest bytes now).2.index = flightAt s.index := by
  obtain ⟨v, ⟨rfl, _⟩, hv⟩ := reserve_spec h.books room digest bytes now
  exact hv.views

/-- Beginning an upload moves no payload; if it is accepted, its entry is the one new in-flight
    entry, under a serial of its own. -/
theorem Begins.views {index : Index} {nextSerial : Nat} {room : RoomId} {digest : String} {declared now : Nat}
    {v : Except UploadRefusal Accepted × Index × Nat} (hv : Begins index nextSerial room digest declared now v) :
    storedAt v.2.1 = storedAt index ∧ ∀ r d f, flightAt v.2.1 r d = some f →
      flightAt index r d = some f ∨ f.serial = nextSerial := by
  cases hv with
  | refused r => exact ⟨rfl, fun _ _ _ h => .inl h⟩
  | held state p _ _ _ => exact ⟨rfl, fun _ _ _ h => .inl h⟩
  | concurrent state r f hl _ _ =>
    refine ⟨storedAt_setRoom_same fun d => (storedAt_of_lookup hl d).symm, fun _ _ _ h => ?_⟩
    refine flightAt_setRoom_mem (P := (·.serial = nextSerial)) (fun d f' hf' => ?_) h
    exact .inl ((flightAt_of_lookup hl d).trans hf')
  | accepted state r hl _ _ _ _ _ =>
    refine ⟨storedAt_setRoom_same fun d => (storedAt_of_lookup hl d).symm, fun _ _ _ h => ?_⟩
    refine flightAt_setRoom_mem (P := (·.serial = nextSerial)) (fun d f' hf' => ?_) h
    rcases Map.lookup_insert_some hf' with ⟨_, rfl⟩ | ⟨_, hf'⟩
    · exact .inr rfl
    · exact .inl ((flightAt_of_lookup hl d).trans hf')

theorem Store.beginUpload_views {s : Store} (h : StoreInv s) (room : RoomId) (digest : String) (declared now : Nat) :
    storedAt (s.beginUpload room digest declared now).2.index = storedAt s.index ∧
      ∀ r d f, flightAt (s.beginUpload room digest declared now).2.index r d = some f →
        flightAt s.index r d = some f ∨ f.serial = s.nextSerial := by
  obtain ⟨v, ⟨rfl, _⟩, hv⟩ := beginUpload_spec h.books s.nextSerial room digest declared now
  exact hv.views

theorem Abandons.views {index : Index} {room : RoomId} {digest : String} {serial : Nat} {v : Index}
    (hv : Abandons index room digest serial v) :
    storedAt v = storedAt index ∧ ∀ r d f, flightAt v r d = some f → flightAt index r d = some f := by
  cases hv with
  | foreign _ =>
    obtain ⟨hs, hf⟩ := dropRoomIfIdle_views index room
    exact ⟨hs, fun r d f h => by rwa [hf] at h⟩
  | mine state f hl _ _ =>
    obtain ⟨hs, hf⟩ := dropRoomIfIdle_views
      (index.setRoom room (abandonedRoom state digest f.charged) (index.charged - f.charged)) room
    refine ⟨hs.trans (storedAt_setRoom_same fun d => (storedAt_of_lookup hl d).symm), fun r d f' h => ?_⟩
    rw [hf] at h
    exact (flightAt_setRoom_mem (P := fun _ => False)
      (fun d f'' hf'' => .inl ((flightAt_of_lookup hl d).trans (Map.lookup_erase_some hf'').2)) h).resolve_right id

theorem Store.abandonUpload_views {s : Store} (h : StoreInv s) (room : RoomId) (digest : String) (serial : Nat) :
    storedAt (s.abandonUpload room digest serial).index = storedAt s.index ∧
      ∀ r d f, flightAt (s.abandonUpload room digest serial).index r d = some f → flightAt s.index r d = some f := by
  obtain ⟨v, ⟨rfl, _⟩, hv⟩ := abandonUpload_spec h.books room digest serial
  exact hv.views

/-- The in-flight entry at the upload's address is the one it created. -/
def Guard.Owns (g : Guard) (index : Index) : Prop := ∃ f, flightAt index g.room g.digest = some f ∧ f.serial = g.serial

/-- A commit succeeds on the upload's own entry only, and stores that address only; a refused
    one leaves the index as it was. -/
theorem Commits.views {index : Index} {g : Guard} {bytes now : Nat} {v : Except UploadError Unit × Index}
    (hv : Commits index g.room g.digest g.serial bytes now v) :
    (v.1 = .ok () ∧ g.Owns index ∧
      (∀ r d, storedAt v.2 r d = if r = g.room ∧ d = g.digest then
        some ⟨bytes, charge bytes, now + payloadTimeToLive⟩ else storedAt index r d) ∧
      ∀ r d f, flightAt v.2 r d = some f → flightAt index r d = some f) ∨
    (v.1 = .error .roomGone ∧ v.2 = index) := by
  cases hv with
  | gone _ => exact .inr ⟨rfl, rfl⟩
  | stored state f hl hu hs =>
    refine .inl ⟨rfl, ⟨f, by rw [flightAt_of_lookup hl, hu], hs⟩, fun r d => ?_, fun r d f' h => ?_⟩
    · rw [storedAt_setRoom]
      by_cases e : r = g.room
      · subst e
        rw [if_pos rfl, storedAt_of_lookup hl]
        by_cases e' : d = g.digest
        · subst e'; simp [storedRoom]
        · simp [storedRoom, AList.lookup_insert_ne e', e']
      · simp [e]
    · exact (flightAt_setRoom_mem (P := fun _ => False)
        (fun d f'' hf'' => .inl ((flightAt_of_lookup hl d).trans (Map.lookup_erase_some hf'').2)) h).resolve_right id

theorem Store.commitUpload_views {s : Store} (h : StoreInv s) {g : Guard} (hg : g ∈ s.accepted) (now : Nat) :
    ((s.commitUpload g now).1 = .ok () ∧ g.Owns s.index ∧
      (∀ r d, storedAt (s.commitUpload g now).2.index r d = if r = g.room ∧ d = g.digest then
        some ⟨g.declared, charge g.declared, now + payloadTimeToLive⟩ else storedAt s.index r d) ∧
      ∀ r d f, flightAt (s.commitUpload g now).2.index r d = some f → flightAt s.index r d = some f) ∨
    ((s.commitUpload g now).1 = .error .roomGone ∧ (s.commitUpload g now).2.index = s.index) := by
  obtain ⟨v, ⟨rfl, _⟩, hv⟩ := commitUpload_spec h.books (h.covered g hg) now
  exact hv.views

/-- A room that ends takes its entries with it and has its directory queued. -/
theorem Store.forgetRoom_views {s : Store} (h : StoreInv s) (room : RoomId) :
    (∀ r d, storedAt (s.forgetRoom room).2.index r d = if r = room then none else storedAt s.index r d) ∧
      (∀ r d, flightAt (s.forgetRoom room).2.index r d = if r = room then none else flightAt s.index r d) ∧
      ((s.forgetRoom room).1 = [.room room] ∨ (s.forgetRoom room).1 = [] ∧ ownsRoom s.index room = false) := by
  obtain ⟨v, ⟨hval, _⟩, hv⟩ := forgetRoom_spec h.books room
  simp only [Store.forgetRoom, hval]
  cases hv with
  | absent hl =>
    refine ⟨fun r d => ?_, fun r d => ?_, .inr ⟨rfl, by simp [ownsRoom, hl]⟩⟩
    · by_cases e : r = room
      · subst e; simp [storedAt, hl]
      · simp [e]
    · by_cases e : r = room
      · subst e; simp [flightAt, hl]
      · simp [e]
  | present state hl => exact ⟨storedAt_erase _ _ _, flightAt_erase _ _ _, .inl rfl⟩

theorem mem_deadPayloads {now : Nat} {state : RoomState} {d : String} {p : Payload}
    (h : state.stored.lookup d = some p) (hp : p.expiresAt ≤ now) : ⟨d, p⟩ ∈ deadPayloads now state := by
  refine List.mem_filter.mpr ⟨Map.mem_entries_of_lookup h, ?_⟩
  simp only [livePayload, Bool.not_eq_true', decide_eq_false_iff_not, Nat.not_lt]
  exact hp

theorem keepsRoom_of_stored {room : RoomId} {state : RoomState} {d : String} {p : Payload}
    (h : state.stored.lookup d = some p) : keepsRoom room state = true := by
  simp [keepsRoom, Map.not_isEmpty_of_lookup h]

theorem keepsRoom_of_uploading {room : RoomId} {state : RoomState} {d : String} {f : InFlight}
    (h : state.uploading.lookup d = some f) : keepsRoom room state = true := by
  simp [keepsRoom, isIdle, Map.not_isEmpty_of_lookup h]

theorem lookup_sweptIndex_of {index : Index} {now : Nat} {room : RoomId} {old : RoomState}
    (h : index.rooms.lookup room = some old) (hk : keepsRoom room (sweptRoom now old) = true) :
    (sweptIndex now index).rooms.lookup room = some (sweptRoom now old) := by
  simp only [sweptIndex, Map.lookup_retain, Map.lookup_mapVals, h, Option.map_some]
  exact Option.filter_eq_some_iff.mpr ⟨rfl, hk⟩

/-- A sweep keeps the payloads still live and the uploads in flight, and queues the file of
    every payload it takes. -/
theorem sweptIndex_views (index : Index) (now : Nat) :
    (∀ r d p, storedAt (sweptIndex now index) r d = some p → storedAt index r d = some p) ∧
      (∀ r d p, storedAt index r d = some p → storedAt (sweptIndex now index) r d = some p ∨
        Removal.payload r d ∈ sweptRemovals now index) ∧
      flightAt (sweptIndex now index) = flightAt index := by
  refine ⟨fun r d p h => ?_, fun r d p h => ?_, ?_⟩
  · obtain ⟨state, hl, hp⟩ := Option.bind_eq_some_iff.mp h
    obtain ⟨old, ho, rfl, _⟩ := lookup_sweptIndex hl
    rw [sweptRoom, Map.lookup_retain] at hp
    rw [storedAt_of_lookup ho]
    exact (Option.filter_eq_some_iff.mp hp).1
  · obtain ⟨old, ho, hp⟩ := Option.bind_eq_some_iff.mp h
    by_cases hlive : now < p.expiresAt
    · have hp' : (sweptRoom now old).stored.lookup d = some p := by
        rw [sweptRoom, Map.lookup_retain]
        exact Option.filter_eq_some_iff.mpr ⟨hp, by simpa [livePayload] using hlive⟩
      rw [storedAt_of_lookup (lookup_sweptIndex_of ho (keepsRoom_of_stored hp'))]
      exact .inl hp'
    · refine .inr (List.mem_flatMap.mpr ⟨⟨r, old⟩, Map.mem_entries_of_lookup ho, ?_⟩)
      exact List.mem_map.mpr ⟨⟨d, p⟩, mem_deadPayloads hp (by omega), rfl⟩
  · funext r d
    apply Option.ext
    intro f
    constructor
    · intro h
      obtain ⟨state, hl, hf⟩ := Option.bind_eq_some_iff.mp h
      obtain ⟨old, ho, rfl, _⟩ := lookup_sweptIndex hl
      rw [flightAt_of_lookup ho]; exact hf
    · intro h
      obtain ⟨old, ho, hf⟩ := Option.bind_eq_some_iff.mp h
      have hf' : (sweptRoom now old).uploading.lookup d = some f := hf
      rw [flightAt_of_lookup (lookup_sweptIndex_of ho (keepsRoom_of_uploading hf'))]
      exact hf

theorem Store.sweep_views {s : Store} (h : StoreInv s) (now : Nat) :
    (∀ r d p, storedAt (s.sweep now).2.index r d = some p → storedAt s.index r d = some p) ∧
      (∀ r d p, storedAt s.index r d = some p → storedAt (s.sweep now).2.index r d = some p ∨
        Removal.payload r d ∈ (s.sweep now).1.2) ∧
      flightAt (s.sweep now).2.index = flightAt s.index := by
  have hv := (sweep_spec h.books now).1
  simp only [Store.sweep, hv]
  exact sweptIndex_views s.index now

end OmpRelayd.Blob
