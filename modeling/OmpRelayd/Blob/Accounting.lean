/-
  OmpRelayd.Blob.Accounting — the store's totals are exact and bounded.

  A room's `charged` and the index's `charged` are maintained incrementally by six critical
  sections. `storeStep` runs those sections in any order, at any instants, over any rooms and
  digests; the store keeps the uploads `begin_upload` accepted, because a commit is made only by
  such an upload and with the length it declared, and the log of every `u64` expression
  evaluated so far.

  Proved:
  - `accounting_exact`: in every reachable state each total is the sum it stands for, every
    room and the store are within their ceilings, a room in the index has an entry and at
    most 512 of them, and no expression of the run wrapped or saturated.
  The invariant (`StoreInv`) adds to the books what a commit rests on: the in-flight entry
  an accepted upload still owns holds at least the charge of the length it declared.
-/

import OmpRelayd.Blob.Books
import OmpRelayd.Lib.Run

namespace OmpRelayd.Blob

/-! ## Runs of the store -/

inductive StoreEv where
  | reserve (room : RoomId) (digest : String) (bytes now : Nat)
  | beginUpload (room : RoomId) (digest : String) (declared now : Nat)
  | commitUpload (g : Guard) (now : Nat)
  | abandonUpload (room : RoomId) (digest : String) (serial : Nat)
  | forgetRoom (room : RoomId)
  | sweep (now : Nat)
  | drawSerial
  deriving Repr

/-- A commit is made only by an upload that was accepted; anything else may come at any time. -/
def storeStep (s : Store) : StoreEv → Option Store
  | .reserve room digest bytes now => some (s.reserve room digest bytes now).2
  | .beginUpload room digest declared now => some (s.beginUpload room digest declared now).2
  | .commitUpload g now => if g ∈ s.accepted then some (s.commitUpload g now).2 else none
  | .abandonUpload room digest serial => some (s.abandonUpload room digest serial)
  | .forgetRoom room => some (s.forgetRoom room).2
  | .sweep now => some (s.sweep now).2
  | .drawSerial => some s.drawSerial.2

structure StoreInv (s : Store) : Prop where
  books : IndexBooks s.index
  exact : ∀ a ∈ s.log, a.Exact
  drawn : ∀ g ∈ s.accepted, g.serial < s.nextSerial
  covered : ∀ g ∈ s.accepted, Covered s.index g.room g.digest g.serial g.declared

/-- `index'` has no in-flight entry that `index` did not have. -/
def FewerFlights (index index' : Index) : Prop :=
  ∀ room state' d f, index'.rooms.lookup room = some state' → state'.uploading.lookup d = some f →
    ∃ state, index.rooms.lookup room = some state ∧ state.uploading.lookup d = some f

theorem Covered.of_fewer {index index' : Index} (h : FewerFlights index index') {room : RoomId} {digest : String}
    {serial bytes : Nat} (hc : Covered index room digest serial bytes) : Covered index' room digest serial bytes :=
  ⟨hc.1, fun state' f hl hf hs => by
    obtain ⟨state, hl', hf'⟩ := h room state' digest f hl hf
    exact hc.2 state f hl' hf' hs⟩

theorem FewerFlights.refl (index : Index) : FewerFlights index index := fun _ state _ _ hl hf => ⟨state, hl, hf⟩

theorem FewerFlights.setRoom {index : Index} {room : RoomId} {state : RoomState} {total : Nat}
    (h : ∀ d f, state.uploading.lookup d = some f → ∃ old, index.rooms.lookup room = some old ∧
      old.uploading.lookup d = some f) : FewerFlights index (index.setRoom room state total) := by
  intro r s d f hl hf
  by_cases e : r = room
  · subst e
    simp only [Index.setRoom, AList.lookup_insert, Option.some.injEq] at hl
    subst hl; exact h d f hf
  · simp only [Index.setRoom, AList.lookup_insert_ne e] at hl
    exact ⟨s, hl, hf⟩

theorem FewerFlights.erase (index : Index) (room : RoomId) (total : Nat) :
    FewerFlights index ⟨index.rooms.erase room, total⟩ := by
  intro r s d f hl hf
  have hne : r ≠ room := fun e => by subst e; simp only [AList.lookup_erase] at hl; cases hl
  simp only [AList.lookup_erase_ne hne] at hl
  exact ⟨s, hl, hf⟩

theorem FewerFlights.dropRoomIfIdle (index : Index) (room : RoomId) : FewerFlights index (dropRoomIfIdle index room) := by
  unfold Blob.dropRoomIfIdle
  split
  · exact .erase index room _
  · exact .refl index

theorem FewerFlights.trans {a b c : Index} (h : FewerFlights a b) (h' : FewerFlights b c) : FewerFlights a c :=
  fun room state d f hl hf => by
    obtain ⟨s, hs, hf'⟩ := h' room state d f hl hf
    exact h room s d f hs hf'

theorem Reserves.fewer {index : Index} {room : RoomId} {digest : String} {bytes now : Nat}
    {v : Except Refusal Grant × Index} (hv : Reserves index room digest bytes now v) : FewerFlights index v.2 := by
  cases hv with
  | refused r => exact .refl _
  | held p _ _ _ => exact .refl _
  | granted _ _ _ _ =>
    refine .setRoom fun d f hf => ?_
    change (index.room room).uploading.lookup d = some f at hf
    unfold Index.room at hf
    cases hl : index.rooms.lookup room with
    | none => rw [hl] at hf; cases hf
    | some old => rw [hl] at hf; exact ⟨old, rfl, hf⟩

theorem Abandons.fewer {index : Index} {room : RoomId} {digest : String} {serial : Nat} {v : Index}
    (hv : Abandons index room digest serial v) : FewerFlights index v := by
  cases hv with
  | foreign _ => exact .dropRoomIfIdle index room
  | mine state f hl _ _ =>
    exact (FewerFlights.setRoom fun d f' hf' => ⟨state, hl, (Map.lookup_erase_some hf').2⟩).trans (.dropRoomIfIdle _ room)

theorem Commits.fewer {index : Index} {room : RoomId} {digest : String} {serial bytes now : Nat}
    {v : Except UploadError Unit × Index} (hv : Commits index room digest serial bytes now v) :
    FewerFlights index v.2 := by
  cases hv with
  | gone _ => exact .refl _
  | stored state f hl _ _ => exact .setRoom fun d f' hf' => ⟨state, hl, (Map.lookup_erase_some hf').2⟩

theorem Forgets.fewer {index : Index} {room : RoomId} {v : List Removal × Index} (hv : Forgets index room v) :
    FewerFlights index v.2 := by
  cases hv with
  | absent _ => exact .refl _
  | present state hl => exact .erase index room _

theorem sweptIndex_fewer (index : Index) (now : Nat) : FewerFlights index (sweptIndex now index) := by
  intro room state d f hl hf
  obtain ⟨old, ho, rfl, _⟩ := lookup_sweptIndex hl
  exact ⟨old, ho, hf⟩

/-- A section that adds no in-flight entry keeps the invariant when its books balance. -/
theorem StoreInv.fewer {s : Store} (h : StoreInv s) {index : Index} {log : List Arith} (hb : IndexBooks index)
    (hf : FewerFlights s.index index) (hl : ∀ a ∈ log, a.Exact) :
    StoreInv { s with index := index, log := s.log ++ log } := by
  refine ⟨hb, fun a ha => ?_, h.drawn, fun g hg => (h.covered g hg).of_fewer hf⟩
  rcases List.mem_append.mp ha with ha | ha
  · exact h.exact a ha
  · exact hl a ha

theorem StoreInv.reserve {s : Store} (h : StoreInv s) (room : RoomId) (digest : String) (bytes now : Nat) :
    StoreInv (s.reserve room digest bytes now).2 := by
  obtain ⟨v, ⟨rfl, hl⟩, hv⟩ := reserve_spec h.books room digest bytes now
  exact h.fewer (hv.books h.books) hv.fewer hl

theorem StoreInv.abandonUpload {s : Store} (h : StoreInv s) (room : RoomId) (digest : String) (serial : Nat) :
    StoreInv (s.abandonUpload room digest serial) := by
  obtain ⟨v, ⟨rfl, hl⟩, hv⟩ := abandonUpload_spec h.books room digest serial
  exact h.fewer (hv.books h.books) hv.fewer hl

theorem StoreInv.commitUpload {s : Store} (h : StoreInv s) {g : Guard} (hg : g ∈ s.accepted) (now : Nat) :
    StoreInv (s.commitUpload g now).2 := by
  obtain ⟨v, ⟨rfl, hl⟩, hv⟩ := commitUpload_spec h.books (h.covered g hg) now
  exact h.fewer (hv.books h.books (h.covered g hg)) hv.fewer hl

theorem StoreInv.forgetRoom {s : Store} (h : StoreInv s) (room : RoomId) : StoreInv (s.forgetRoom room).2 := by
  obtain ⟨v, ⟨rfl, hl⟩, hv⟩ := forgetRoom_spec h.books room
  exact h.fewer (hv.books h.books) hv.fewer hl

theorem StoreInv.sweep {s : Store} (h : StoreInv s) (now : Nat) : StoreInv (s.sweep now).2 := by
  obtain ⟨hv, hl⟩ := sweep_spec h.books now
  have hi := h.fewer (sweptIndex_books h.books now) (sweptIndex_fewer s.index now) hl
  simpa only [Store.sweep, hv] using hi

theorem StoreInv.drawSerial {s : Store} (h : StoreInv s) : StoreInv s.drawSerial.2 :=
  ⟨h.books, h.exact, fun g hg => Nat.lt_succ_of_lt (h.drawn g hg), h.covered⟩

/-- An accepted upload's own entry is new under its serial, so no earlier upload can settle it,
    and it holds what the reservation was charged for at least the declared length. -/
theorem Begins.covered {index : Index} {nextSerial : Nat} {room : RoomId} {digest : String} {declared now : Nat}
    {v : Except UploadRefusal Accepted × Index × Nat}
    (hv : Begins index nextSerial room digest declared now v) {g : Guard} (hg : g.serial < nextSerial)
    (hc : Covered index g.room g.digest g.serial g.declared) : Covered v.2.1 g.room g.digest g.serial g.declared := by
  cases hv with
  | refused r => exact hc
  | held state p _ _ _ => exact hc
  | concurrent state r f hl _ _ =>
    have hf : FewerFlights index (index.setRoom room (releasedRoom state digest r.charged) (index.charged - r.charged)) :=
      .setRoom fun d f' hf' => ⟨state, hl, hf'⟩
    exact hc.of_fewer hf
  | accepted state r hl _ _ _ _ _ =>
    refine ⟨hc.1, fun state' f hl' hf' hs => ?_⟩
    by_cases e : g.room = room
    · rw [e] at hl' hc
      simp only [Index.setRoom, AList.lookup_insert, Option.some.injEq] at hl'
      subst hl'
      rcases Map.lookup_insert_some hf' with ⟨_, rfl⟩ | ⟨_, hf'⟩
      · simp only at hs; omega
      · exact hc.2 state f hl hf' hs
    · simp only [Index.setRoom, AList.lookup_insert_ne e] at hl'
      exact hc.2 state' f hl' hf' hs

theorem StoreInv.beginUpload {s : Store} (h : StoreInv s) (room : RoomId) (digest : String) (declared now : Nat) :
    StoreInv (s.beginUpload room digest declared now).2 := by
  obtain ⟨v, ⟨hv, hl⟩, hb⟩ := beginUpload_spec h.books s.nextSerial room digest declared now
  have hold : ∀ g ∈ s.accepted, Covered v.2.1 g.room g.digest g.serial g.declared :=
    fun g hg => hb.covered (h.drawn g hg) (h.covered g hg)
  have hlog : ∀ a ∈ s.log ++ (Blob.beginUpload s.index s.nextSerial room digest declared now).log, a.Exact := fun a ha => by
    rcases List.mem_append.mp ha with ha | ha
    · exact h.exact a ha
    · exact hl a ha
  have hbooks := hb.books h.books
  simp only [Store.beginUpload, hv]
  cases hb with
  | refused r =>
    simp only [List.append_nil]
    exact ⟨hbooks, hlog, h.drawn, hold⟩
  | held state p _ _ _ =>
    simp only [List.append_nil]
    exact ⟨hbooks, hlog, h.drawn, hold⟩
  | concurrent state r f _ _ _ =>
    simp only [List.append_nil]
    exact ⟨hbooks, hlog, fun g hg => Nat.lt_succ_of_lt (h.drawn g hg), hold⟩
  | accepted state r hlk _ hr _ hd _ =>
    refine ⟨hbooks, hlog, fun g hg => ?_, fun g hg => ?_⟩
    · rcases List.mem_append.mp hg with hg | hg
      · exact Nat.lt_succ_of_lt (h.drawn g hg)
      · rw [List.mem_singleton.mp hg]; exact Nat.lt_succ_self _
    · rcases List.mem_append.mp hg with hg | hg
      · exact hold g hg
      · rw [List.mem_singleton.mp hg]
        obtain ⟨hcr, hmax⟩ := (h.books.room room state hlk).1.reservedFloor digest r hr
        refine ⟨by simp only; omega, fun state' f hl' hf' _ => ?_⟩
        simp only [Index.setRoom, AList.lookup_insert, Option.some.injEq] at hl'
        subst hl'
        simp only [uploadingRoom, AList.lookup_insert, Option.some.injEq] at hf'
        subst hf'
        rw [hcr]
        exact charge_mono hd

theorem storeStep_inv (s : Store) (e : StoreEv) (t : Store) (h : StoreInv s) (he : storeStep s e = some t) :
    StoreInv t := by
  cases e with
  | reserve room digest bytes now => cases he; exact h.reserve room digest bytes now
  | beginUpload room digest declared now => cases he; exact h.beginUpload room digest declared now
  | commitUpload g now =>
    simp only [storeStep] at he
    split at he
    · cases he; exact h.commitUpload ‹_› now
    · cases he
  | abandonUpload room digest serial => cases he; exact h.abandonUpload room digest serial
  | forgetRoom room => cases he; exact h.forgetRoom room
  | sweep now => cases he; exact h.sweep now
  | drawSerial => cases he; exact h.drawSerial

theorem StoreInv.empty : StoreInv {} := by
  refine ⟨⟨?_, rfl, Nat.zero_le _⟩, ?_, ?_, ?_⟩
  · intro room state h; cases h
  · intro a h; cases h
  · intro g h; cases h
  · intro g h; cases h

/-- Every state some run of the critical sections leads to. -/
abbrev StoreReach := Reach storeStep {} Always

theorem store_inv {s : Store} (h : StoreReach s) : StoreInv s :=
  h.inv .empty fun s e t hs _ he => storeStep_inv s e t hs he

/-- In every state a run of the store leads to, each room's total is the sum over its three
    maps and within its ceiling, the index's total is the sum over its rooms and within the
    store's, a room in the index holds between one and 512 entries, and every `u64`
    expression evaluated on the way was exact: nothing wrapped and nothing saturated. -/
theorem accounting_exact {s : Store} (h : StoreReach s) :
    (∀ room state, s.index.rooms.lookup room = some state →
      state.charged = state.reserved.sumBy (·.charged) + state.uploading.sumBy (·.charged) +
        state.stored.sumBy (·.charged) ∧
      state.charged ≤ maxRoomBytes ∧
      0 < state.reserved.size + state.uploading.size + state.stored.size ∧
      state.reserved.size + state.uploading.size + state.stored.size ≤ 512) ∧
    s.index.charged = s.index.rooms.sumBy (·.charged) ∧ s.index.charged ≤ maxStoreBytes ∧
    ∀ a ∈ s.log, a.Exact := by
  have hi := store_inv h
  refine ⟨fun room state hl => ?_, hi.books.charged, hi.books.bound, hi.exact⟩
  obtain ⟨hr, hpos⟩ := hi.books.room room state hl
  have hcount := hr.count
  have hbound := hr.bound
  refine ⟨hr.charged, hbound, hpos, ?_⟩
  simp only [entryCount, minChargeBytes, maxRoomBytes, maxPayloadBytes, maxFrameBytes] at hcount hbound
  omega

/-- The address of no bytes, by SHA-256. -/
def emptyDigest : String := "47DEQpj8HBSa-_TImW-5JCeuQeRkm5NMpJWZG3hSuFU"

def sampleRoom : RoomId := ⟨"omp-relayd", "attachments"⟩

/-- A room of one reservation of four units, an upload of less that settles for one, and a
    second reservation. -/
def sampleEvents : List StoreEv :=
  let room : RoomId := ⟨"omp-relayd", "attachments"⟩
  let digest := "47DEQpj8HBSa-_TImW-5JCeuQeRkm5NMpJWZG3hSuFU"
  [.reserve room digest 200000 0, .beginUpload room digest 3 1, .drawSerial, .commitUpload ⟨room, digest, 0, 3⟩ 2,
    .reserve room "ungWv48Bz-pBQUDeXa4iI7ADYaOWF3qctBD_YfIAFa0" 70000 3, .abandonUpload room digest 0]

def sampleStore : Store := (run storeStep {} sampleEvents).getD {}

theorem accounting_exact_sample :
    StoreReach sampleStore ∧ sampleStore.index.charged = 3 * minChargeBytes ∧
      sampleStore.index.charged = sampleStore.index.rooms.sumBy (·.charged) ∧ sampleStore.log ≠ [] ∧
      ∀ a ∈ sampleStore.log, a.Exact := by
  have hr : StoreReach sampleStore := .of_run sampleEvents .init rfl
  have h := accounting_exact hr
  exact ⟨hr, by decide, h.2.1, by decide, h.2.2.2⟩

end OmpRelayd.Blob
