/-
  OmpRelayd.Blob.Authority — who may write a payload, and where it can be seen.

  The upload route carries no credential: `begin_upload` admits whoever names a room and a
  digest that have a reservation. So the reservation table is the whole authorisation, and
  the question is what an accepted upload proves about the past. The store runs here with
  its history (`traced storeStep`).

  Proved (`write_authority_is_one_grant`): behind every accepted upload is a `reserve` of the
  same room and digest, whose time has not run out, that granted at least the declared
  length; since then no other upload was accepted there and the room was not forgotten, so
  no two uploads share a grant. A commit stores what its own accepted upload declared. And
  whatever a room reports, serves or answers as already held was committed in that room.
-/

import OmpRelayd.Lib.Trace
import OmpRelayd.Blob.Grants

namespace OmpRelayd.Blob

/-- The answer to a fetch: the length the index states, and the file that is opened. -/
def get (index : Index) (room : RoomId) (digest : String) (now : Nat) : Option (Nat × Path) :=
  (payloadLen index room digest now).map fun len => (len, payloadPath room digest)

/-! ## Moments of a store's past -/

/-- `begin_upload` returned `Accepted::Upload`. -/
def Accepts (m : Moment Store StoreEv) (room : RoomId) (digest : String) (declared now serial : Nat) : Prop :=
  m.event = .beginUpload room digest declared now ∧
    (m.before.beginUpload room digest declared now).1 = .ok (.upload serial)

/-- An upload was accepted at this address. -/
def Spends (m : Moment Store StoreEv) (room : RoomId) (digest : String) : Prop :=
  ∃ declared now serial, Accepts m room digest declared now serial

/-- `reserve` granted a payload that was not held. -/
def Reserved (m : Moment Store StoreEv) (room : RoomId) (digest : String) (bytes now : Nat) : Prop :=
  m.event = .reserve room digest bytes now ∧ (∃ grant, (m.before.reserve room digest bytes now).1 = .ok grant) ∧
    payloadLen m.before.index room digest now = none

/-- `commit_upload` succeeded, for an upload of this room and digest. -/
def Stored (m : Moment Store StoreEv) (room : RoomId) (digest : String) : Prop :=
  ∃ g now, m.event = .commitUpload g now ∧ (m.before.commitUpload g now).1 = .ok () ∧ g.room = room ∧ g.digest = digest

/-- The instants the sections read never went back. -/
def InOrder (past : List (Moment Store StoreEv)) : Prop := (past.filterMap fun m => m.event.now).Pairwise (· ≥ ·)

abbrev StorePast := Reach (traced storeStep) ({}, []) Always

/-! ## Where entries come from -/

theorem Ledger.reserved_from (l : Ledger) (change : Change) {room : RoomId} {digest : String} {r : Reservation}
    (h : (l.apply change).reserved room digest = some r) : (l.reserved room digest = some r ∧ change ≠ .forgot room) ∨
      ∃ bytes now, change = .reserved room digest bytes now ∧ r = ⟨bytes, charge bytes, now + reservationTimeToLive⟩ := by
  cases change with
  | reserved r' d bytes now =>
    rcases Table.set_some h with ⟨⟨rfl, rfl⟩, hr⟩ | ⟨_, h⟩
    · cases hr; exact .inr ⟨bytes, now, rfl, rfl⟩
    · exact .inl ⟨h, nofun⟩
  | returned r' d | taken r' d serial charged =>
    rcases Table.set_some h with ⟨_, hr⟩ | ⟨_, h⟩
    · cases hr
    · exact .inl ⟨h, nofun⟩
  | forgot r' =>
    obtain ⟨hne, h⟩ := Table.clear_some h
    exact .inl ⟨h, fun e => by cases e; exact hne rfl⟩
  | swept now => exact .inl ⟨(Option.filter_eq_some_iff.mp h).1, nofun⟩
  | _ => exact .inl ⟨h, nofun⟩

theorem Ledger.stored_from (l : Ledger) (change : Change) {room : RoomId} {digest : String} {p : Payload}
    (h : (l.apply change).stored room digest = some p) :
    (l.stored room digest = some p ∧ change ≠ .forgot room) ∨ ∃ bytes now, change = .settled room digest bytes now := by
  cases change with
  | settled r d bytes now =>
    rcases Table.set_some h with ⟨⟨rfl, rfl⟩, _⟩ | ⟨_, h⟩
    · exact .inr ⟨bytes, now, rfl⟩
    · exact .inl ⟨h, nofun⟩
  | forgot r =>
    obtain ⟨hne, h⟩ := Table.clear_some h
    exact .inl ⟨h, fun e => by cases e; exact hne rfl⟩
  | swept now => exact .inl ⟨(Option.filter_eq_some_iff.mp h).1, nofun⟩
  | _ => exact .inl ⟨h, nofun⟩

theorem payloadLen_eq (index : Index) (room : RoomId) (digest : String) (now : Nat) :
    payloadLen index room digest now = ((storedAt index room digest).filter (now < ·.expiresAt)).map (·.bytes) := by
  unfold payloadLen storedAt
  cases index.rooms.lookup room <;> rfl

/-! ## What the answers say of the index -/

variable {s t : Store} {room : RoomId} {digest : String}

/-- An accepted upload takes a live reservation of its address that covers what it declares. -/
theorem Store.beginUpload_spends (h : StoreInv s) {declared now serial : Nat}
    (hr : (s.beginUpload room digest declared now).1 = .ok (.upload serial)) :
    ∃ r, reservedAt s.index room digest = some r ∧ now < r.expiresAt ∧ declared ≤ r.declared ∧
      r.declared ≤ maxPayloadBytes ∧ reservedAt (s.beginUpload room digest declared now).2.index room digest = none := by
  obtain ⟨v, ⟨hv, _⟩, hb⟩ := beginUpload_spec h.books s.nextSerial room digest declared now
  simp only [Store.beginUpload, hv] at hr ⊢
  cases hb with
  | refused _ => cases hr
  | held _ _ _ _ _ => cases hr
  | concurrent _ _ _ _ _ _ => cases hr
  | accepted state r hl _ hres hlive hle _ =>
    have hfloor := (h.books.room room state hl).1.reservedFloor digest r hres
    refine ⟨r, (entryAt_of_lookup (·.reserved) hl digest).trans hres, hlive, hle, hfloor.2, ?_⟩
    simp only [reservedAt, Index.setRoom, AList.lookup_insert, Option.bind_some, uploadingRoom, AList.lookup_erase]

/-- A room answers for a payload only if one is stored in it. -/
theorem Store.storedAt_of_answer (h : StoreInv s) {now : Nat}
    (ha : (payloadLen s.index room digest now).isSome ∨ (get s.index room digest now).isSome ∨
      (∃ declared, (s.beginUpload room digest declared now).1 = .ok .alreadyHeld) ∨
      ∃ bytes grant, (s.reserve room digest bytes now).1 = .ok grant ∧ grant.timeToLive ≠ payloadTimeToLive) :
    ∃ p, storedAt s.index room digest = some p := by
  have hlen : (payloadLen s.index room digest now).isSome → ∃ p, storedAt s.index room digest = some p := by
    intro hs
    rw [payloadLen_eq, Option.isSome_map] at hs
    obtain ⟨p, hp⟩ := Option.isSome_iff_exists.mp hs
    exact ⟨p, (Option.filter_eq_some_iff.mp hp).1⟩
  rcases ha with ha | ha | ⟨declared, ha⟩ | ⟨bytes, grant, hok, hlife⟩
  · exact hlen ha
  · exact hlen (by simpa [get] using ha)
  · obtain ⟨v, ⟨hv, _⟩, hb⟩ := beginUpload_spec h.books s.nextSerial room digest declared now
    simp only [Store.beginUpload, hv] at ha
    cases hb with
    | held state p hl hp _ => exact ⟨p, (storedAt_of_lookup hl digest).trans hp⟩
    | _ => cases ha
  · obtain ⟨v, ⟨hv, _⟩, hb⟩ := reserve_spec h.books room digest bytes now
    simp only [Store.reserve, hv] at hok
    cases hb with
    | refused _ => cases hok
    | held p _ hp _ => exact ⟨p, by rwa [storedAt_room] at hp⟩
    | granted _ _ _ _ => cases hok; exact absurd rfl hlife

/-! ## The invariant -/

/-- Since `start`, no upload was accepted at the address and its room was not forgotten. -/
def Unspent (room : RoomId) (digest : String) (start : Moment Store StoreEv → Prop) :
    List (Moment Store StoreEv) → Prop :=
  Since (fun m => ¬ Spends m room digest ∧ m.event ≠ .forgetRoom room) start

/-- Since `start`, the room was not forgotten. -/
def Lasting (room : RoomId) (start : Moment Store StoreEv → Prop) : List (Moment Store StoreEv) → Prop :=
  Since (fun m => m.event ≠ .forgetRoom room) start

/-- In a past whose instants never went back, the grant was made no later than the newest moment. -/
theorem Unspent.since_le {room : RoomId} {digest : String} {bytes since now : Nat} {m : Moment Store StoreEv}
    {earlier : List (Moment Store StoreEv)} (h : Unspent room digest (fun x => Reserved x room digest bytes since) earlier)
    (hnow : m.event.now = some now) (horder : InOrder (m :: earlier)) : since ≤ now := by
  obtain ⟨x, hx, hres⟩ := h.exists_mem
  rw [InOrder, List.filterMap_cons, hnow] at horder
  exact (List.pairwise_cons.mp horder).1 since (List.mem_filterMap.mpr ⟨x, hx, by rw [hres.1]; rfl⟩)

/-- Which grant an upload accepted at `now` spent, given what came before it. -/
def SpentGrant (m : Moment Store StoreEv) (earlier : List (Moment Store StoreEv)) (room : RoomId) (digest : String)
    (declared now : Nat) : Prop :=
  ∃ bytes since, reservedAt m.before.index room digest = some ⟨bytes, charge bytes, since + reservationTimeToLive⟩ ∧
    reservedAt (m.before.beginUpload room digest declared now).2.index room digest = none ∧
    Unspent room digest (fun x => Reserved x room digest bytes since) earlier ∧
    now < since + reservationTimeToLive ∧ (InOrder (m :: earlier) → since ≤ now) ∧
    declared ≤ bytes ∧ bytes ≤ maxPayloadBytes

/-- What a successful commit stores: the declared bytes of an upload accepted before it. -/
def StoresAccepted (m : Moment Store StoreEv) (earlier : List (Moment Store StoreEv)) (g : Guard) (now : Nat) : Prop :=
  (∃ x older since, (x :: older) <:+ earlier ∧ Accepts x g.room g.digest g.declared since g.serial) ∧
    ∃ p, storedAt (m.before.commitUpload g now).2.index g.room g.digest = some p ∧ p.bytes = g.declared

structure PastInv (s : Store) (past : List (Moment Store StoreEv)) : Prop where
  store : StoreInv s
  reserved : ∀ room digest r, reservedAt s.index room digest = some r → ∃ bytes since,
    r = ⟨bytes, charge bytes, since + reservationTimeToLive⟩ ∧
      Unspent room digest (fun x => Reserved x room digest bytes since) past
  stored : ∀ room digest p, storedAt s.index room digest = some p → Lasting room (fun x => Stored x room digest) past
  accepted : ∀ g ∈ s.accepted, ∃ x older since, (x :: older) <:+ past ∧
    Accepts x g.room g.digest g.declared since g.serial
  accepts : ∀ m earlier room digest declared now serial, (m :: earlier) <:+ past →
    Accepts m room digest declared now serial → SpentGrant m earlier room digest declared now
  commits : ∀ m earlier g now, (m :: earlier) <:+ past → m.event = .commitUpload g now →
    (m.before.commitUpload g now).1 = .ok () → StoresAccepted m earlier g now

variable {past : List (Moment Store StoreEv)}

theorem PastInv.init : PastInv {} [] := by
  refine ⟨.empty, ?_, ?_, ?_, ?_, ?_⟩
  · intro room digest r h; cases h
  · intro room digest p h; cases h
  · intro g h; cases h
  · intro m earlier room digest declared now serial h; cases List.suffix_nil.mp h
  · intro m earlier g now h; cases List.suffix_nil.mp h

/-- What a moment newly adds to the past it is judged by. -/
theorem reserved_step (h : PastInv s past) {e : StoreEv} (hs : storeStep s e = some t) {r : Reservation}
    (hr : reservedAt t.index room digest = some r) : ∃ bytes since,
      r = ⟨bytes, charge bytes, since + reservationTimeToLive⟩ ∧
        Unspent room digest (fun x => Reserved x room digest bytes since) (⟨s, e⟩ :: past) := by
  obtain ⟨change, hallows, hl⟩ := storeStep_makes h.store hs
  have hafter : ((ledgerOf s.index).apply change).reserved room digest = some r := by rw [← hl]; exact hr
  -- a reservation that was there before has not been spent by this event
  have hunspent : ¬ Spends ⟨s, e⟩ room digest := by
    rintro ⟨declared, now, serial, he, ha⟩
    simp only at he ha
    subst he
    cases hs
    obtain ⟨_, _, _, _, _, hnone⟩ := Store.beginUpload_spends h.store ha
    rw [hnone] at hr; cases hr
  have hold : reservedAt s.index room digest = some r → e ≠ .forgetRoom room → ∃ bytes since,
      r = ⟨bytes, charge bytes, since + reservationTimeToLive⟩ ∧
        Unspent room digest (fun x => Reserved x room digest bytes since) (⟨s, e⟩ :: past) := by
    intro hbefore hne
    obtain ⟨bytes, since, heq, hsince⟩ := h.reserved room digest r hbefore
    exact ⟨bytes, since, heq, .inr ⟨⟨hunspent, hne⟩, hsince⟩⟩
  rcases Ledger.reserved_from _ _ hafter with ⟨hbefore, hne⟩ | ⟨bytes, now, rfl, rfl⟩
  · refine hold hbefore fun he => ?_
    subst he
    cases hallows
    exact hne rfl
  · cases hallows with
    | reserved _ _ _ _ _ hdead =>
      cases hs
      cases hres : (s.reserve room digest bytes now).1 with
      | error refusal =>
        -- a refusal leaves the index, so the reservation is an old one
        have hsame : (s.reserve room digest bytes now).2.index = s.index :=
          (reserve_ensures s.index room digest bytes now).2 refusal hres
        exact hold (hsame ▸ hr) nofun
      | ok grant =>
        refine ⟨bytes, now, rfl, .inl ⟨rfl, ⟨grant, hres⟩, ?_⟩⟩
        rw [payloadLen_eq, Option.map_eq_none_iff, Option.filter_eq_none_iff]
        intro p hp hlive
        have := hdead p hp
        simp only [decide_eq_true_eq] at hlive
        omega

theorem stored_step (h : PastInv s past) {e : StoreEv} (hs : storeStep s e = some t) {p : Payload}
    (hp : storedAt t.index room digest = some p) : Lasting room (fun x => Stored x room digest) (⟨s, e⟩ :: past) := by
  obtain ⟨change, hallows, hl⟩ := storeStep_makes h.store hs
  have hafter : ((ledgerOf s.index).apply change).stored room digest = some p := by rw [← hl]; exact hp
  rcases Ledger.stored_from _ _ hafter with ⟨hbefore, hne⟩ | ⟨bytes, now, hc⟩
  · refine .inr ⟨fun he => ?_, h.stored room digest p hbefore⟩
    simp only at he
    subst he
    cases hallows
    exact hne rfl
  · cases hallows with
    | settled g now' _ _ _ =>
      simp only [Change.settled.injEq] at hc
      simp only [storeStep] at hs
      split at hs
      · rename_i hg
        cases hs
        rcases Store.commitUpload_views h.store hg now' with ⟨hok, _⟩ | ⟨_, hsame⟩
        · exact .inl ⟨g, now', rfl, hok, hc.1, hc.2.1⟩
        · refine .inr ⟨fun he => ?_, h.stored room digest p (hsame ▸ hp)⟩
          cases he
      · cases hs
    | _ => cases hc

theorem accepted_step (h : PastInv s past) {e : StoreEv} (hs : storeStep s e = some t) {g : Guard} (hg : g ∈ t.accepted) :
    ∃ x older since, (x :: older) <:+ (⟨s, e⟩ :: past : List (Moment Store StoreEv)) ∧
      Accepts x g.room g.digest g.declared since g.serial := by
  have hold : g ∈ s.accepted → ∃ x older since, (x :: older) <:+ (⟨s, e⟩ :: past : List (Moment Store StoreEv)) ∧
      Accepts x g.room g.digest g.declared since g.serial := by
    intro hg
    obtain ⟨x, older, since, hx, ha⟩ := h.accepted g hg
    exact ⟨x, older, since, hx.trans (List.suffix_cons _ _), ha⟩
  cases e with
  | beginUpload room digest declared now =>
    cases hs
    rcases List.mem_append.mp hg with hg | hg
    · exact hold hg
    · split at hg
      · rename_i serial hr
        cases List.mem_singleton.mp hg
        exact ⟨_, past, now, List.suffix_refl _, rfl, hr⟩
      · cases hg
  | commitUpload g' now =>
    simp only [storeStep] at hs
    split at hs
    · cases hs; exact hold hg
    · cases hs
  | _ => cases hs; exact hold hg

/-- The newest moment, if it accepts an upload, spends a grant of the past. -/
theorem PastInv.spends (h : PastInv s past) {declared now serial : Nat}
    (ha : (s.beginUpload room digest declared now).1 = .ok (.upload serial)) :
    SpentGrant ⟨s, .beginUpload room digest declared now⟩ past room digest declared now := by
  obtain ⟨r, hr, hlive, hle, hmax, hnone⟩ := Store.beginUpload_spends h.store ha
  obtain ⟨bytes, since, rfl, hunspent⟩ := h.reserved room digest r hr
  exact ⟨bytes, since, hr, hnone, hunspent, hlive, hunspent.since_le rfl, hle, hmax⟩

/-- Of two uploads accepted at one address, the later spent a grant made after the earlier. -/
theorem SpentGrant.after {m x : Moment Store StoreEv} {newer older : List (Moment Store StoreEv)} {declared now serial : Nat}
    (hm : Accepts m room digest declared now serial) (h : SpentGrant m (newer ++ x :: older) room digest declared now)
    (hx : Spends x room digest) : SpentGrant m newer room digest declared now := by
  obtain ⟨bytes, since, hr, hnone, hunspent, hlive, _, hle, hmax⟩ := h
  have hafter : Unspent room digest (fun x => Reserved x room digest bytes since) newer := by
    refine Since.after (fun hres => ?_) (fun hh => hh.1 hx) hunspent
    obtain ⟨_, _, _, hacc, _⟩ := hx
    rw [hres.1] at hacc; cases hacc
  exact ⟨bytes, since, hr, hnone, hafter, hlive, hafter.since_le (by rw [hm.1]; rfl), hle, hmax⟩

theorem PastInv.stores (h : PastInv s past) {g : Guard} {now : Nat} (hg : g ∈ s.accepted)
    (hok : (s.commitUpload g now).1 = .ok ()) : StoresAccepted ⟨s, .commitUpload g now⟩ past g now := by
  refine ⟨h.accepted g hg, ?_⟩
  rcases Store.commitUpload_views h.store hg now with ⟨_, _, hstored, _⟩ | ⟨herr, _⟩
  · exact ⟨_, (hstored g.room g.digest).trans (if_pos ⟨rfl, rfl⟩), rfl⟩
  · rw [hok] at herr; cases herr

theorem PastInv.step (h : PastInv s past) {e : StoreEv} (hs : storeStep s e = some t) : PastInv t (⟨s, e⟩ :: past) := by
  refine ⟨storeStep_inv _ _ _ h.store hs, fun _ _ _ hr => reserved_step h hs hr, fun _ _ _ hp => stored_step h hs hp,
    fun _ hg => accepted_step h hs hg, fun m earlier room digest declared now serial hm ha => ?_,
    fun m earlier g now hm he hok => ?_⟩
  · rcases List.suffix_cons_iff.mp hm with heq | hm
    · cases heq
      obtain ⟨he, ha⟩ := ha
      simp only at he
      subst he
      exact h.spends ha
    · exact h.accepts m earlier room digest declared now serial hm ha
  · rcases List.suffix_cons_iff.mp hm with heq | hm
    · cases heq
      simp only at he
      subst he
      simp only [storeStep] at hs
      split at hs
      · rename_i hg; exact h.stores hg hok
      · cases hs
    · exact h.commits m earlier g now hm he hok

theorem past_inv (h : StorePast (s, past)) : PastInv s past :=
  h.inv (P := fun s => PastInv s.1 s.2) .init fun s e t hi _ he => by
    obtain ⟨s, past⟩ := s
    obtain ⟨t, past'⟩ := t
    obtain ⟨hs, rfl⟩ := traced_some he
    exact hi.step hs

/-! ## One grant, one upload, one room -/

/-- In every run of the store, with its past: an accepted upload has spent a reservation that a
    `reserve` of its room and digest made less than its time to live before, for at least the
    declared bytes, and since which nothing was accepted there and the room was not forgotten (with
    another upload accepted there before, it lies after that one); a successful commit stores the
    bytes its own accepted upload declared; and a room that reports, serves or grants a payload as
    held has had it committed there and was not forgotten since. -/
theorem write_authority_is_one_grant (h : StorePast (s, past)) :
    (∀ m earlier room digest declared now serial, (m :: earlier) <:+ past →
      Accepts m room digest declared now serial → SpentGrant m earlier room digest declared now) ∧
    (∀ m newer x older room digest declared now serial, (m :: (newer ++ x :: older)) <:+ past →
      Accepts m room digest declared now serial → Spends x room digest → SpentGrant m newer room digest declared now) ∧
    (∀ m earlier g now, (m :: earlier) <:+ past → m.event = .commitUpload g now →
      (m.before.commitUpload g now).1 = .ok () → StoresAccepted m earlier g now) ∧
    ∀ room digest now, ((payloadLen s.index room digest now).isSome ∨ (get s.index room digest now).isSome ∨
        (∃ declared, (s.beginUpload room digest declared now).1 = .ok .alreadyHeld) ∨
        ∃ bytes grant, (s.reserve room digest bytes now).1 = .ok grant ∧ grant.timeToLive ≠ payloadTimeToLive) →
      Lasting room (fun x => Stored x room digest) past := by
  have hi := past_inv h
  refine ⟨hi.accepts, fun m newer x older room digest declared now serial hm ha hx => ?_, hi.commits,
    fun room digest now ha => ?_⟩
  · exact (hi.accepts m _ room digest declared now serial hm ha).after ha hx
  · obtain ⟨p, hp⟩ := Store.storedAt_of_answer hi.store ha
    exact hi.stored room digest p hp

/-- A reservation, its upload and its commit. -/
def oneUpload : List StoreEv :=
  [.reserve sampleRoom emptyDigest 8 0, .beginUpload sampleRoom emptyDigest 3 1,
    .commitUpload ⟨sampleRoom, emptyDigest, 0, 3⟩ 2]

def oneUploadEnd : Store × List (Moment Store StoreEv) := (run (traced storeStep) ({}, []) oneUpload).getD ({}, [])

theorem write_authority_is_one_grant_sample :
    StorePast oneUploadEnd ∧ payloadLen oneUploadEnd.1.index sampleRoom emptyDigest 3 = some 3 ∧
      Lasting sampleRoom (fun x => Stored x sampleRoom emptyDigest) oneUploadEnd.2 ∧
      ∃ m earlier, (m :: earlier) <:+ oneUploadEnd.2 ∧ Accepts m sampleRoom emptyDigest 3 1 0 ∧
        SpentGrant m earlier sampleRoom emptyDigest 3 1 := by
  have hr : StorePast oneUploadEnd := .of_run oneUpload .init rfl
  have hlen : payloadLen oneUploadEnd.1.index sampleRoom emptyDigest 3 = some 3 := rfl
  have hpast := write_authority_is_one_grant (show StorePast (oneUploadEnd.1, oneUploadEnd.2) from hr)
  have hm : oneUploadEnd.2.tail <:+ oneUploadEnd.2 := List.tail_suffix _
  refine ⟨hr, hlen, hpast.2.2.2 sampleRoom emptyDigest 3 (.inl (by rw [hlen]; rfl)), _, _, hm, ⟨rfl, rfl⟩, ?_⟩
  exact hpast.1 _ _ sampleRoom emptyDigest 3 1 0 hm ⟨rfl, rfl⟩

end OmpRelayd.Blob
