/-
  OmpRelayd.Blob.Grants — is a grant worth an upload?

  `reserve` tells a peer that its payload is admitted, and the peer uploads within
  `RESERVATION_TIME_TO_LIVE`. But the grants of one digest share one slot of the room's
  reservation table: of two peers that attach the same bytes at the same time the first to
  upload takes the slot and the second is refused (`two_peers_with_one_payload_collide`).
  An upload already in flight at the address refuses the next one too, and a grant for a
  payload already held reserves nothing, so it fails once that payload expires.

  `peerStep` runs the store with the caller of each `reserve` and `begin_upload` known and
  remembers the grants nobody has acted on yet. Proved (`a_grant_is_honoured`): in every run
  that keeps peers off each other's addresses (`crosses` is false) the first upload of a
  granted peer is accepted, or the payload is held already.
-/

import OmpRelayd.Blob.Ledger

namespace OmpRelayd.Blob

/-! ## Peers -/

/-- A grant nobody has acted on: whose, for what, and the instant `reserve` read. -/
structure Granted where
  peer : Nat
  room : RoomId
  digest : String
  bytes : Nat
  since : Nat
  deriving DecidableEq, Repr

structure Peers where
  store : Store := {}
  grants : List Granted := []
  /-- The latest instant a section has read. -/
  clock : Nat := 0

inductive PeerEv where
  | reserve (peer : Nat) (room : RoomId) (digest : String) (bytes now : Nat)
  | beginUpload (peer : Nat) (room : RoomId) (digest : String) (declared now : Nat)
  /-- Any other section of the store. -/
  | other (e : StoreEv)
  deriving Repr

/-- The instant a section reads. -/
def StoreEv.now : StoreEv → Option Nat
  | .reserve _ _ _ now => some now
  | .beginUpload _ _ _ now => some now
  | .commitUpload _ now => some now
  | .sweep now => some now
  | _ => none

/-- The sections a peer asks for. -/
def StoreEv.byPeer : StoreEv → Bool
  | .reserve .. => true
  | .beginUpload .. => true
  | _ => false

/-- The room a section ends. -/
def StoreEv.forgets : StoreEv → Option RoomId
  | .forgetRoom room => some room
  | _ => none

def Granted.to (g : Granted) (peer : Nat) (room : RoomId) (digest : String) : Bool :=
  g.peer == peer && g.room == room && g.digest == digest

def peerStep (s : Peers) : PeerEv → Option Peers
  | .reserve peer room digest bytes now =>
    let reserved := s.store.reserve room digest bytes now
    let grants := match reserved.1 with
      | .ok _ => ⟨peer, room, digest, bytes, now⟩ :: s.grants
      | .error _ => s.grants
    some ⟨reserved.2, grants, max s.clock now⟩
  -- a peer's first upload at the address is what its grants there were for
  | .beginUpload peer room digest declared now =>
    some ⟨(s.store.beginUpload room digest declared now).2, s.grants.filter fun g => !g.to peer room digest,
      max s.clock now⟩
  | .other e =>
    if e.byPeer then none
    else (storeStep s.store e).map fun store =>
      ⟨store, s.grants.filter fun g => e.forgets != some g.room, max s.clock (e.now.getD 0)⟩

abbrev PeerReach (ok : Peers → PeerEv → Prop) := Reach peerStep {} ok

/-- The grant is for this address, and its time has not run out. -/
def Granted.covers (g : Granted) (room : RoomId) (digest : String) (now : Nat) : Bool :=
  g.room == room && g.digest == digest && now < g.since + reservationTimeToLive

/-- The peers get in each other's way: a `reserve` at an address with an upload in flight, with a
    payload about to expire, or granted to somebody else or for more; an upload at an address
    granted to somebody else. Or a section reads an earlier instant than one before it. -/
def crosses (s : Peers) : PeerEv → Bool
  | .reserve peer room digest bytes now =>
    decide (now < s.clock) || (flightAt s.store.index room digest).isSome ||
      (storedAt s.store.index room digest).any (fun p => now < p.expiresAt && p.expiresAt < now + reservationTimeToLive) ||
      s.grants.any fun g => g.covers room digest now && !(g.peer == peer && g.bytes ≤ bytes)
  | .beginUpload peer room digest _ now =>
    decide (now < s.clock) || s.grants.any fun g => g.covers room digest now && g.peer != peer
  | .other e => e.now.any (· < s.clock)

/-! ## What stands behind a grant -/

/-- A payload that outlives the grant, or a reservation for as much and as long with no upload in
    its way. -/
def Standing (l : Ledger) (g : Granted) : Prop :=
  (∃ p, l.stored g.room g.digest = some p ∧ g.since + reservationTimeToLive ≤ p.expiresAt) ∨
    l.uploading g.room g.digest = none ∧
      ∃ r, l.reserved g.room g.digest = some r ∧ g.bytes ≤ r.declared ∧ g.since + reservationTimeToLive ≤ r.expiresAt

theorem reservationTimeToLive_le : reservationTimeToLive ≤ payloadTimeToLive := by decide

theorem Ledger.uploading_none (l : Ledger) {change : Change} {room : RoomId} {digest : String}
    (h : l.uploading room digest = none) (ht : ∀ serial charged, change ≠ .taken room digest serial charged) :
    (l.apply change).uploading room digest = none := by
  cases change with
  | taken r d serial charged =>
    have hne : ¬ (room = r ∧ digest = d) := fun ⟨hr, hd⟩ => ht serial charged (by rw [hr, hd])
    exact (Table.set_ne hne _).trans h
  | abandoned r d => simp [Ledger.apply, Table.set, h]
  | settled r d bytes now => simp [Ledger.apply, Table.set, h]
  | forgot r => simp [Ledger.apply, Table.clear, h]
  | _ => exact h

/-- What stands behind a grant survives a change that neither ends its room nor takes its
    reservation, made while the grant lasts. -/
theorem Standing.apply {l : Ledger} {n : Nat} {e : StoreEv} {change : Change} {g : Granted} (h : Standing l g)
    (ha : Allows l n e change) (hforgot : change ≠ .forgot g.room)
    (htaken : ∀ serial charged, change ≠ .taken g.room g.digest serial charged)
    (hreserved : ∀ bytes now, change = .reserved g.room g.digest bytes now → g.bytes ≤ bytes ∧ g.since ≤ now)
    (hsettled : ∀ bytes now, change = .settled g.room g.digest bytes now → g.since ≤ now)
    (hswept : ∀ now, change = .swept now → now < g.since + reservationTimeToLive) : Standing (l.apply change) g := by
  have hlife := reservationTimeToLive_le
  rcases h with ⟨p, hp, hlong⟩ | ⟨hu, r, hr, hb, hlong⟩
  · rcases Ledger.stored_apply l change hp with h | h | ⟨bytes, now, rfl⟩ | ⟨now, rfl, h⟩
    · exact .inl ⟨p, h, hlong⟩
    · exact absurd h hforgot
    · have hsince := hsettled bytes now rfl
      refine .inl ⟨_, Table.set_same .., ?_⟩
      simp only
      omega
    · have := hswept now rfl
      omega
  · have hu' := Ledger.uploading_none l hu htaken
    rcases Ledger.reserved_apply l change hr with h | h | ⟨bytes, now, rfl⟩ | rfl | ⟨serial, charged, h⟩ | ⟨now, rfl, h⟩
    · exact .inr ⟨hu', r, h, hb, hlong⟩
    · exact absurd h hforgot
    · obtain ⟨hmore, hsince⟩ := hreserved bytes now rfl
      refine .inr ⟨hu', _, Table.set_same .., hmore, ?_⟩
      simp only
      omega
    · -- a reservation is given back only when an upload is in the way
      cases ha with
      | returned _ _ _ _ _ f _ hf => rw [hu] at hf; cases hf
    · exact absurd h (htaken serial charged)
    · have := hswept now rfl
      omega

/-- What stands behind a grant serves an upload of at most the granted length, in time. -/
theorem Standing.begins {index : Index} {g : Granted} (h : Standing (ledgerOf index) g) {declared now : Nat} (n : Nat)
    (hle : declared ≤ g.bytes) (hnow : now < g.since + reservationTimeToLive) :
    ∃ accepted, (beginUpload index n g.room g.digest declared now).val.1 = .ok accepted := by
  unfold beginUpload
  cases hl : index.rooms.lookup g.room with
  | none => rcases h with ⟨p, hp, _⟩ | ⟨_, r, hr, _⟩ <;> simp [ledgerOf, storedAt, reservedAt, hl] at *
  | some state =>
    have hstored : (ledgerOf index).stored g.room g.digest = state.stored.lookup g.digest := storedAt_of_lookup hl _
    have huploading : (ledgerOf index).uploading g.room g.digest = state.uploading.lookup g.digest :=
      flightAt_of_lookup hl _
    have hreserved : (ledgerOf index).reserved g.room g.digest = state.reserved.lookup g.digest :=
      entryAt_of_lookup (·.reserved) hl _
    rw [Standing, hstored, huploading, hreserved] at h
    dsimp only
    by_cases hheld : (state.stored.lookup g.digest).any (now < ·.expiresAt) = true
    · rw [if_pos hheld]; exact ⟨.alreadyHeld, rfl⟩
    rw [if_neg hheld]
    rcases h with ⟨p, hp, hlong⟩ | ⟨hu, r, hr, hb, hlong⟩
    · refine absurd ?_ hheld
      rw [hp]
      exact decide_eq_true (by omega)
    · rw [hr]
      dsimp only
      rw [if_neg (by omega), if_neg (by omega), hu]
      exact ⟨.upload n, rfl⟩

/-! ## The invariant -/

/-- Every grant still in time has something behind it. -/
structure PeersInv (s : Peers) : Prop where
  store : StoreInv s.store
  since : ∀ g ∈ s.grants, g.since ≤ s.clock
  kept : ∀ g ∈ s.grants, s.clock < g.since + reservationTimeToLive → Standing (ledgerOf s.store.index) g

/-- The peers keep off each other's addresses. -/
def Apart (s : Peers) (e : PeerEv) : Prop := crosses s e = false

variable {s t : Peers}

theorem PeersInv.init : PeersInv {} := ⟨.empty, nofun, nofun⟩

theorem covers_of {g : Granted} {room : RoomId} {digest : String} {now : Nat} (hr : g.room = room) (hd : g.digest = digest)
    (hn : now < g.since + reservationTimeToLive) : g.covers room digest now = true := by
  simp [Granted.covers, hr, hd, hn]

/-- A new grant has the payload, which is not about to expire, or the reservation just made. -/
theorem Reserves.kept {index : Index} {room : RoomId} {digest : String} {bytes now : Nat}
    {v : Except Refusal Grant × Index} (hv : Reserves index room digest bytes now v) {grant : Grant} (hok : v.1 = .ok grant)
    (hu : flightAt index room digest = none)
    (hp : ∀ p, storedAt index room digest = some p → now < p.expiresAt → now + reservationTimeToLive ≤ p.expiresAt)
    (peer : Nat) : Standing (ledgerOf v.2) ⟨peer, room, digest, bytes, now⟩ := by
  obtain ⟨_, hflights⟩ := hv.views
  cases hv with
  | refused r => cases hok
  | held p _ hl hlive =>
    rw [storedAt_room] at hl
    exact .inl ⟨p, hl, hp p hl hlive⟩
  | granted _ _ _ _ =>
    refine .inr ⟨(congrFun (congrFun hflights room) digest).trans hu, ⟨bytes, charge bytes, now + reservationTimeToLive⟩,
      ?_, Nat.le_refl _, Nat.le_refl _⟩
    show reservedAt _ room digest = _
    simp only [reservedAt, Index.setRoom, AList.lookup_insert, Option.bind_some, reservedRoom]

theorem PeersInv.reserve (h : PeersInv s) {peer : Nat} {room : RoomId} {digest : String} {bytes now : Nat}
    (hok : Apart s (.reserve peer room digest bytes now))
    (hs : peerStep s (.reserve peer room digest bytes now) = some t) : PeersInv t := by
  simp only [Apart, crosses, Bool.or_eq_false_iff, decide_eq_false_iff_not, Nat.not_lt, List.any_eq_false,
    Option.isSome_eq_false_iff, Option.isNone_iff_eq_none] at hok
  obtain ⟨⟨⟨hclock, hu⟩, hexpires⟩, hothers⟩ := hok
  cases hs
  have hmax : max s.clock now = now := Nat.max_eq_right hclock
  obtain ⟨v, ⟨hval, _⟩, hv⟩ := reserve_spec h.store.books room digest bytes now
  obtain ⟨change, hallows, hl⟩ := hv.makes s.store.nextSerial
  have hold : ∀ g ∈ s.grants, now < g.since + reservationTimeToLive → Standing (ledgerOf v.2) g := by
    intro g hg hlive
    have hsince := h.since g hg
    rw [hl]
    refine (h.kept g hg (by omega)).apply hallows ?_ ?_ ?_ ?_ ?_
    · rintro rfl; cases hallows
    · rintro serial charged rfl; cases hallows
    · rintro b n rfl
      cases hallows with
      | reserved _ _ _ _ _ _ =>
        have hmine := hothers g hg
        simp only [covers_of rfl rfl hlive, Bool.true_and, Bool.not_eq_true', Bool.not_eq_false, Bool.and_eq_true,
          decide_eq_true_eq] at hmine
        exact ⟨hmine.2, by omega⟩
    · rintro b n rfl; cases hallows
    · rintro n rfl; cases hallows
  refine ⟨h.store.reserve room digest bytes now, fun g hg => ?_, fun g hg hlive => ?_⟩
  · simp only [hmax]
    split at hg
    · rcases List.mem_cons.mp hg with rfl | hg
      · exact Nat.le_refl _
      · exact Nat.le_trans (h.since g hg) hclock
    · exact Nat.le_trans (h.since g hg) hclock
  · simp only [hmax] at hlive
    simp only [Store.reserve, hval] at hg ⊢
    split at hg
    · rename_i grant hgrant
      rcases List.mem_cons.mp hg with rfl | hg
      · refine hv.kept hgrant hu (fun p hp hlt => ?_) peer
        simpa [hp, hlt] using hexpires
      · exact hold g hg hlive
    · exact hold g hg hlive

theorem PeersInv.beginUpload (h : PeersInv s) {peer : Nat} {room : RoomId} {digest : String} {declared now : Nat}
    (hok : Apart s (.beginUpload peer room digest declared now))
    (hs : peerStep s (.beginUpload peer room digest declared now) = some t) : PeersInv t := by
  simp only [Apart, crosses, Bool.or_eq_false_iff, decide_eq_false_iff_not, Nat.not_lt, List.any_eq_false] at hok
  obtain ⟨hclock, hothers⟩ := hok
  cases hs
  have hmax : max s.clock now = now := Nat.max_eq_right hclock
  obtain ⟨change, hallows, hl⟩ := storeStep_makes (e := .beginUpload room digest declared now) h.store rfl
  refine ⟨h.store.beginUpload room digest declared now, fun g hg => ?_, fun g hg hlive => ?_⟩
  · exact Nat.le_trans (h.since g (List.mem_filter.mp hg).1) (Nat.le_max_left _ _)
  · obtain ⟨hmem, hnot⟩ := List.mem_filter.mp hg
    simp only [hmax] at hlive
    rw [hl]
    refine (h.kept g hmem (by omega)).apply hallows ?_ ?_ ?_ ?_ ?_
    · rintro rfl; cases hallows
    · -- the reservation taken would be that of this peer, whose grants are gone, or of another's
      rintro serial charged rfl
      cases hallows with
      | taken _ _ _ _ _ _ _ _ _ _ =>
        have hmine := hothers g hmem
        simp only [covers_of rfl rfl hlive, Bool.true_and, bne_iff_ne, ne_eq, Decidable.not_not] at hmine
        simp [Granted.to, hmine] at hnot
    · rintro b n rfl; cases hallows
    · rintro b n rfl; cases hallows
    · rintro n rfl; cases hallows

theorem PeersInv.other (h : PeersInv s) {e : StoreEv} (hok : Apart s (.other e)) (hs : peerStep s (.other e) = some t) :
    PeersInv t := by
  simp only [peerStep] at hs
  split at hs
  · cases hs
  rename_i hpeer
  obtain ⟨store, hst, rfl⟩ := Option.map_eq_some_iff.mp hs
  simp only [Apart, crosses, Option.any_eq_false] at hok
  obtain ⟨change, hallows, hl⟩ := storeStep_makes h.store hst
  refine ⟨storeStep_inv _ _ _ h.store hst, fun g hg => ?_, fun g hg hlive => ?_⟩
  · exact Nat.le_trans (h.since g (List.mem_filter.mp hg).1) (Nat.le_max_left _ _)
  · obtain ⟨hg, hroom⟩ := List.mem_filter.mp hg
    have hsince := h.since g hg
    simp only at hlive ⊢
    rw [hl]
    refine (h.kept g hg (by omega)).apply hallows ?_ ?_ ?_ ?_ ?_
    · rintro rfl
      cases hallows with
      | forgot _ => simp [StoreEv.forgets] at hroom
    · rintro serial charged rfl
      cases hallows with
      | taken _ _ _ _ _ _ _ _ _ _ => exact absurd rfl hpeer
    · rintro b n rfl
      cases hallows with
      | reserved _ _ _ _ _ _ => exact absurd rfl hpeer
    · intro b n hc
      cases hallows with
      | settled guard now _ _ _ =>
        have hread := hok now rfl
        simp only [decide_eq_false_iff_not, Nat.not_lt] at hread
        have hnow : now = n := by injection hc
        omega
      | _ => cases hc
    · rintro n rfl
      cases hallows with
      | swept _ =>
        simp only [StoreEv.now, Option.getD_some] at hlive
        omega

theorem peers_inv (h : PeerReach Apart s) : PeersInv s :=
  h.inv .init fun _ e _ hi hok he => by
    cases e with
    | reserve peer room digest bytes now => exact hi.reserve hok he
    | beginUpload peer room digest declared now => exact hi.beginUpload hok he
    | other e => exact hi.other hok he

/-! ## Grants are honoured where addresses are not contended -/

/-- In every run that keeps peers off each other's addresses, with the upload itself doing so too,
    a peer granted `bytes` that first uploads at most that many in time is not refused. -/
theorem a_grant_is_honoured (h : PeerReach Apart s) {g : Granted} (hg : g ∈ s.grants) {declared now : Nat}
    (hle : declared ≤ g.bytes) (hnow : now < g.since + reservationTimeToLive)
    (hok : Apart s (.beginUpload g.peer g.room g.digest declared now)) :
    ∃ accepted, (s.store.beginUpload g.room g.digest declared now).1 = .ok accepted := by
  have hi := peers_inv h
  simp only [Apart, crosses, Bool.or_eq_false_iff, decide_eq_false_iff_not, Nat.not_lt] at hok
  exact (hi.kept g hg (by omega)).begins s.store.nextSerial hle hnow

/-- Peer 1 is granted the payload, uploads and commits it; peer 2 is granted what is held. -/
def inTurn : List PeerEv :=
  [.reserve 1 sampleRoom emptyDigest 0 0, .beginUpload 1 sampleRoom emptyDigest 0 1,
    .other (.commitUpload ⟨sampleRoom, emptyDigest, 0, 0⟩ 2), .reserve 2 sampleRoom emptyDigest 0 3]

def inTurnEnd : Peers := (runIf peerStep (fun s e => !crosses s e) {} inTurn).getD {}

theorem a_grant_is_honoured_sample :
    PeerReach Apart inTurnEnd ∧ (⟨2, sampleRoom, emptyDigest, 0, 3⟩ : Granted) ∈ inTurnEnd.grants ∧
      ∃ accepted, (inTurnEnd.store.beginUpload sampleRoom emptyDigest 0 4).1 = .ok accepted := by
  have hr : PeerReach Apart inTurnEnd :=
    .of_runIf (fun s e => !crosses s e) (fun _ _ => (Bool.not_eq_true' _).mp) inTurn .init rfl
  have hg : (⟨2, sampleRoom, emptyDigest, 0, 3⟩ : Granted) ∈ inTurnEnd.grants := List.mem_singleton.mpr rfl
  exact ⟨hr, hg, a_grant_is_honoured hr hg (Nat.le_refl _) (by decide) rfl⟩

/-- Both peers are granted the same payload, and the first has begun to upload it. -/
def atOnce : List PeerEv :=
  [.reserve 1 sampleRoom emptyDigest 0 0, .reserve 2 sampleRoom emptyDigest 0 0,
    .beginUpload 1 sampleRoom emptyDigest 0 1]

def atOnceEnd : Peers := (run peerStep {} atOnce).getD {}

theorem two_peers_with_one_payload_collide :
    ¬ ∀ s, PeerReach Always s → ∀ g ∈ s.grants, ∀ declared now, declared ≤ g.bytes → g.since ≤ now →
      now < g.since + reservationTimeToLive →
      ∃ accepted, (s.store.beginUpload g.room g.digest declared now).1 = .ok accepted := by
  intro h
  have hr : PeerReach Always atOnceEnd := .of_run atOnce .init rfl
  have hg : (⟨2, sampleRoom, emptyDigest, 0, 0⟩ : Granted) ∈ atOnceEnd.grants := List.mem_singleton.mpr rfl
  obtain ⟨accepted, ha⟩ := h atOnceEnd hr _ hg 0 2 (Nat.le_refl _) (by decide) (by decide)
  have hrefused : (atOnceEnd.store.beginUpload sampleRoom emptyDigest 0 2).1 = .error .unreserved := rfl
  rw [hrefused] at ha; cases ha

end OmpRelayd.Blob
