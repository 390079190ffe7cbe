/-
  OmpRelayd.Blob.Lifetimes — how long a payload is held, and what a grant says of it
  (server/src/blob.rs: `reserve`, `payload_len`, `begin_upload`, `commit_upload`).

  A payload's expiry is set when its upload commits. Neither a reservation nor a fetch moves it,
  an upload at the address of one that has not expired is turned away at its beginning, and one
  that was admitted has only an expired payload in its place: two uploads at one address are
  never both in flight, so nothing is stored there between an upload's beginning and its end.
  A sender repeats what `reserve` granted to the recipient. For a payload that is held the grant
  is what it has left, and a later one at the same address, whatever became of the room, was
  uploaded after the grant and lasts longer.

  Proved (`lifetimes_are_fixed_and_never_overstated`): so it is in every run of the store with a
  non-decreasing clock, for every payload and every grant of the run's history.
-/

import OmpRelayd.Blob.Grants
import OmpRelayd.Lib.Trace

namespace OmpRelayd.Blob

abbrev StoreMoment := Moment Store StoreEv

/-- No section reads an earlier instant than one before it. -/
def Steady (s : Store × List StoreMoment) (e : StoreEv) : Prop :=
  ∀ now, e.now = some now → ∀ m ∈ s.2, ∀ t, m.event.now = some t → t ≤ now

/-- The store with its history, under a non-decreasing clock. -/
abbrev StoreHistory := Reach (traced storeStep) ({}, []) Steady

/-- Some section has read this instant or a later one. -/
def Passed (past : List StoreMoment) (instant : Nat) : Prop :=
  ∃ m ∈ past, ∃ now, m.event.now = some now ∧ instant ≤ now

/-- The section ends the room, or reads an instant at which the payload is no longer held. -/
def Retires (room : RoomId) (p : Payload) (e : StoreEv) : Prop :=
  e = .forgetRoom room ∨ ∃ now, e.now = some now ∧ p.expiresAt ≤ now

/-! ## What the history says of the tables -/

structure Lifetimes (s : Store) (past : List StoreMoment) : Prop where
  store : StoreInv s
  /-- A payload lives for its time from an instant that was read. -/
  uploaded : ∀ room digest p, storedAt s.index room digest = some p →
    ∃ m ∈ past, ∃ now, m.event.now = some now ∧ p.expiresAt = now + payloadTimeToLive
  /-- What is in the place of an upload in flight has expired. -/
  expired : ∀ room digest f p, flightAt s.index room digest = some f → storedAt s.index room digest = some p →
    Passed past p.expiresAt
  kept : ∀ newer m older room digest p, past = newer ++ m :: older → storedAt m.before.index room digest = some p →
    storedAt s.index room digest = some p ∨ ∃ n ∈ newer ++ [m], Retires room p n.event
  granted : ∀ m ∈ past, ∀ room digest bytes t life, m.event = .reserve room digest bytes t →
    (m.before.reserve room digest bytes t).1 = .ok ⟨life⟩ → life ≤ payloadTimeToLive ∧
      ∀ p, storedAt s.index room digest = some p → p.expiresAt ≤ t ∨ t + life ≤ p.expiresAt

variable {s t : Store} {past : List StoreMoment} {e : StoreEv} {room : RoomId} {digest : String} {p : Payload}

theorem Passed.cons {instant : Nat} {m : StoreMoment} (h : Passed past instant) : Passed (m :: past) instant := by
  obtain ⟨n, hn, hread⟩ := h
  exact ⟨n, List.mem_cons_of_mem m hn, hread⟩

theorem Passed.le {instant now : Nat} (h : Passed past instant) (hsteady : Steady (s, past) e) (he : e.now = some now) :
    instant ≤ now := by
  obtain ⟨m, hm, t, ht, hle⟩ := h
  exact Nat.le_trans hle (hsteady now he m hm t ht)

/-- One section keeps a payload, ends its room, or finds it expired. -/
theorem Lifetimes.keeps (h : Lifetimes s past) (hsteady : Steady (s, past) e) (hs : storeStep s e = some t)
    (hp : storedAt s.index room digest = some p) : storedAt t.index room digest = some p ∨ Retires room p e := by
  obtain ⟨change, hallows, hl⟩ := storeStep_makes h.store hs
  have hstored : storedAt t.index room digest = ((ledgerOf s.index).apply change).stored room digest := by
    rw [← hl]; rfl
  rw [hstored]
  rcases Ledger.stored_apply (ledgerOf s.index) change hp with hkept | rfl | ⟨bytes, now, rfl⟩ | ⟨now, rfl, hdead⟩
  · exact .inl hkept
  · cases hallows with
    | forgot => exact .inr (.inl rfl)
  · cases hallows with
    | settled g now f hf hserial =>
      have hpassed := h.expired _ _ f p hf hp
      exact .inr (.inr ⟨now, rfl, hpassed.le hsteady rfl⟩)
  · cases hallows with
    | swept now => exact .inr (.inr ⟨now, rfl, hdead⟩)

/-- What is stored after a section was stored before it, or is what it committed. -/
theorem Lifetimes.back (h : Lifetimes s past) (hs : storeStep s e = some t) (hp : storedAt t.index room digest = some p) :
    storedAt s.index room digest = some p ∨
      flightAt t.index room digest = none ∧ ∃ now, e.now = some now ∧ p.expiresAt = now + payloadTimeToLive := by
  obtain ⟨change, hallows, hl⟩ := storeStep_makes h.store hs
  have hp' : ((ledgerOf s.index).apply change).stored room digest = some p := by rw [← hl]; exact hp
  rcases Ledger.stored_of_apply (ledgerOf s.index) change hp' with hold | ⟨bytes, now, rfl, hexpires⟩
  · exact .inl hold
  · refine .inr ⟨?_, now, ?_, hexpires⟩
    · show (ledgerOf t.index).uploading room digest = none
      rw [hl]
      exact Table.set_same ..
    · cases hallows; rfl

/-- An upload in flight after a section was so before it, or was admitted over an expired payload. -/
theorem Lifetimes.flight (h : Lifetimes s past) (hs : storeStep s e = some t) {f : InFlight}
    (hf : flightAt t.index room digest = some f) : flightAt s.index room digest = some f ∨
      ∃ now, e.now = some now ∧ ∀ p, storedAt s.index room digest = some p → p.expiresAt ≤ now := by
  obtain ⟨change, hallows, hl⟩ := storeStep_makes h.store hs
  have hf' : ((ledgerOf s.index).apply change).uploading room digest = some f := by rw [← hl]; exact hf
  cases change with
  | taken r d serial charged =>
    rcases Table.set_some hf' with ⟨⟨rfl, rfl⟩, -⟩ | ⟨-, hold⟩
    · cases hallows with
      | taken _ _ declared now r _ _ _ _ hdead => exact .inr ⟨now, rfl, hdead⟩
    · exact .inl hold
  | abandoned r d | settled r d bytes now =>
    rcases Table.set_some hf' with ⟨-, hnone⟩ | ⟨-, hold⟩
    · cases hnone
    · exact .inl hold
  | forgot r => exact .inl (Table.clear_some hf').2
  | _ => exact .inl hf'

/-- What a grant says of the payload it leaves in place. -/
theorem Lifetimes.grants (h : Lifetimes s past) {bytes now life : Nat}
    (hsteady : Steady (s, past) (.reserve room digest bytes now))
    (hgrant : (s.reserve room digest bytes now).1 = .ok ⟨life⟩) : life ≤ payloadTimeToLive ∧
      ∀ p, storedAt s.index room digest = some p → p.expiresAt ≤ now ∨ now + life ≤ p.expiresAt := by
  obtain ⟨v, ⟨hval, _⟩, hv⟩ := reserve_spec h.store.books room digest bytes now
  have hgrant : v.1 = .ok ⟨life⟩ := by rw [← hval]; exact hgrant
  cases hv with
  | refused r => cases hgrant
  | held p hb hl hlive =>
    rw [storedAt_room] at hl
    cases hgrant
    -- it was uploaded at an instant no later than this one
    obtain ⟨m, hm, since, hread, hexpires⟩ := h.uploaded room digest p hl
    have hsince := hsteady now rfl m hm since hread
    refine ⟨by omega, fun q hq => ?_⟩
    cases hl.symm.trans hq
    right; omega
  | granted hb hdead =>
    cases hgrant
    refine ⟨Nat.le_refl _, fun p hp => .inl (hdead p ?_)⟩
    rw [storedAt_room]; exact hp

theorem Lifetimes.step (h : Lifetimes s past) (hsteady : Steady (s, past) e) (hs : storeStep s e = some t) :
    Lifetimes t (⟨s, e⟩ :: past) := by
  refine ⟨storeStep_inv s e t h.store hs, fun room digest p hp => ?_, fun room digest f p hf hp => ?_,
    fun newer m older room digest p hpast hp => ?_, fun m hm room digest bytes since life hev hgrant => ?_⟩
  · rcases h.back hs hp with hold | ⟨-, now, he, hexpires⟩
    · obtain ⟨m, hm, hread⟩ := h.uploaded room digest p hold
      exact ⟨m, List.mem_cons_of_mem _ hm, hread⟩
    · exact ⟨_, List.mem_cons_self, now, he, hexpires⟩
  · rcases h.back hs hp with hold | ⟨hnone, -⟩
    · rcases h.flight hs hf with hf | ⟨now, he, hdead⟩
      · exact (h.expired room digest f p hf hold).cons
      · exact ⟨_, List.mem_cons_self, now, he, hdead p hold⟩
    · rw [hnone] at hf; cases hf
  · cases newer with
    | nil =>
      obtain ⟨rfl, rfl⟩ := List.cons_eq_cons.mp hpast
      rcases h.keeps hsteady hs hp with hkept | hends
      · exact .inl hkept
      · exact .inr ⟨_, List.mem_singleton.mpr rfl, hends⟩
    | cons n newer =>
      obtain ⟨rfl, htail⟩ := List.cons_eq_cons.mp hpast
      rcases h.kept newer m older room digest p htail hp with hstored | ⟨n, hn, hends⟩
      · rcases h.keeps hsteady hs hstored with hkept | hends
        · exact .inl hkept
        · exact .inr ⟨_, List.mem_cons_self, hends⟩
      · exact .inr ⟨n, List.mem_cons_of_mem _ hn, hends⟩
  · -- the grant was made before or just now, and a payload uploaded since lasts longer
    have hgranted : life ≤ payloadTimeToLive ∧ ∀ p, storedAt s.index room digest = some p →
        p.expiresAt ≤ since ∨ since + life ≤ p.expiresAt := by
      rcases List.mem_cons.mp hm with rfl | hm
      · obtain rfl : e = .reserve room digest bytes since := hev
        exact h.grants hsteady hgrant
      · exact h.granted m hm room digest bytes since life hev hgrant
    refine ⟨hgranted.1, fun p hp => ?_⟩
    rcases h.back hs hp with hold | ⟨-, now, he, hexpires⟩
    · exact hgranted.2 p hold
    · have hsince : since ≤ now := by
        rcases List.mem_cons.mp hm with rfl | hm
        · obtain rfl : e = .reserve room digest bytes since := hev
          cases he; exact Nat.le_refl _
        · exact hsteady now he m hm since (by rw [hev]; rfl)
      have := hgranted.1
      right; omega

theorem Lifetimes.init : Lifetimes {} [] := by
  refine ⟨.empty, fun room digest p hp => ?_, fun room digest f p hf => ?_, fun newer m older room digest p hpast => ?_,
    List.forall_mem_nil _⟩
  · simp [storedAt] at hp
  · simp [flightAt] at hf
  · cases newer <;> cases hpast

theorem lifetimes_inv (h : StoreHistory (s, past)) : Lifetimes s past := by
  refine h.inv (P := fun s => Lifetimes s.1 s.2) .init ?_
  rintro ⟨s, past⟩ e ⟨t, past'⟩ hi hsteady hs
  obtain ⟨hs', hpast⟩ := traced_some hs
  subst hpast
  exact hi.step hsteady hs'

/-! ## Lifetimes -/

theorem payloadLen_iff {index : Index} {now bytes : Nat} : payloadLen index room digest now = some bytes ↔
    ∃ p, storedAt index room digest = some p ∧ now < p.expiresAt ∧ p.bytes = bytes := by
  unfold payloadLen storedAt
  constructor
  · intro h
    obtain ⟨state, hl, hlen⟩ := Option.bind_eq_some_iff.mp h
    obtain ⟨p, hfilter, rfl⟩ := Option.map_eq_some_iff.mp hlen
    obtain ⟨hp, hlive⟩ := Option.filter_eq_some_iff.mp hfilter
    exact ⟨p, Option.bind_eq_some_iff.mpr ⟨state, hl, hp⟩, of_decide_eq_true hlive, rfl⟩
  · rintro ⟨p, hp, hlive, rfl⟩
    obtain ⟨state, hl, hp⟩ := Option.bind_eq_some_iff.mp hp
    simp [hl, hp, Option.filter_some, hlive]

/-- In every run with a non-decreasing clock and at every address: a payload once stored is still
    there as it was, unless its room was forgotten or its expiry has passed since; `payload_len`
    tells the length of what has not expired and of nothing else; and for every grant of the run,
    made at `t` for `life`, which is at most the time payloads live, what is stored at the address
    and has not expired at some instant since lasts until `t + life`. -/
theorem lifetimes_are_fixed_and_never_overstated (h : StoreHistory (s, past)) (room : RoomId) (digest : String) :
    (∀ newer m older p, past = newer ++ m :: older → storedAt m.before.index room digest = some p →
      storedAt s.index room digest = some p ∨ ∃ n ∈ newer ++ [m],
        n.event = .forgetRoom room ∨ ∃ now, n.event.now = some now ∧ p.expiresAt ≤ now) ∧
    (∀ now bytes, payloadLen s.index room digest now = some bytes ↔
      ∃ p, storedAt s.index room digest = some p ∧ now < p.expiresAt ∧ p.bytes = bytes) ∧
    ∀ newer m older bytes t life, past = newer ++ m :: older → m.event = .reserve room digest bytes t →
      (m.before.reserve room digest bytes t).1 = .ok ⟨life⟩ → life ≤ payloadTimeToLive ∧
        ∀ p now, storedAt s.index room digest = some p → t ≤ now → now < p.expiresAt → t + life ≤ p.expiresAt := by
  have hi := lifetimes_inv h
  refine ⟨fun newer m older p hpast hp => hi.kept newer m older room digest p hpast hp, fun now bytes => payloadLen_iff,
    fun newer m older bytes t life hpast hev hgrant => ?_⟩
  have hm : m ∈ past := by rw [hpast]; exact List.mem_append_right _ List.mem_cons_self
  obtain ⟨hlife, hstored⟩ := hi.granted m hm room digest bytes t life hev hgrant
  refine ⟨hlife, fun p now hp hnow hlive => ?_⟩
  rcases hstored p hp with hdead | hlong
  · omega
  · exact hlong

/-- As `Steady`, to be evaluated. -/
def steady (s : Store × List StoreMoment) (e : StoreEv) : Bool :=
  e.now.all fun now => s.2.all fun m => m.event.now.all (· ≤ now)

theorem steady_iff {h : Store × List StoreMoment} : steady h e = true ↔ Steady h e := by
  simp only [steady, Steady, Option.all_eq_true, List.all_eq_true, decide_eq_true_eq]

/-- A payload is uploaded at instant 2, and a grant for it at 5 states what it has left. -/
def reattached : List StoreEv :=
  [.reserve sampleRoom emptyDigest 0 0, .beginUpload sampleRoom emptyDigest 0 1,
    .commitUpload ⟨sampleRoom, emptyDigest, 0, 0⟩ 2, .reserve sampleRoom emptyDigest 0 5]

def reattachedEnd : Store × List StoreMoment := (runIf (traced storeStep) steady ({}, []) reattached).getD ({}, [])

theorem a_payload_attached_again_has_what_it_has_left :
    StoreHistory reattachedEnd ∧ ∃ m older life, reattachedEnd.2 = [] ++ m :: older ∧
      m.event = .reserve sampleRoom emptyDigest 0 5 ∧ (m.before.reserve sampleRoom emptyDigest 0 5).1 = .ok ⟨life⟩ ∧
      life + 3 = payloadTimeToLive ∧ ∀ p now, storedAt reattachedEnd.1.index sampleRoom emptyDigest = some p → 5 ≤ now →
        now < p.expiresAt → 5 + life ≤ p.expiresAt := by
  have hr : StoreHistory reattachedEnd := .of_runIf steady (fun _ _ => steady_iff.mp) reattached .init rfl
  refine ⟨hr, _, _, _, rfl, rfl, rfl, rfl, ?_⟩
  exact ((lifetimes_are_fixed_and_never_overstated hr sampleRoom emptyDigest).2.2 [] _ _ _ _ _ rfl rfl rfl).2

end OmpRelayd.Blob
