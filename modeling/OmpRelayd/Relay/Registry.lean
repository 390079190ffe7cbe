/-
  OmpRelayd.Relay.Registry — who holds which peer name (server/src/relay.rs:
  `ServerState::register`, `deregister`, `Drop for RegisteredPeer`).

  `register` takes a connection id and inserts the handle in two steps, so ids need not be
  inserted in the order they were drawn; `deregister` runs when a connection's guard drops,
  at any later time and in any order. Both are steps of `registryStep`, over the registry
  together with the record of what was inserted and dropped (`trace`) and of the eviction
  flags set (`evictions`).

  A handle's queue and flag are made for its own connection and for nothing else, so a
  handle here is the connection's id. Ids are `Nat`: the `u64` counter repeats only after
  2^64 registrations. A flag whose receivers are gone is set like any other; nobody reads it.

  Proved (`registry_integrity`): in every reachable state a name is held by the connection
  that was inserted last under it and has not been dropped, and by nobody else; exactly the
  connections displaced by a later insert have been signalled, once each; and the registry
  holds no empty room, and nothing at all once every guard has dropped.
-/

import OmpRelayd.Lib.Map
import OmpRelayd.Lib.Run
import OmpRelayd.Protocol

namespace OmpRelayd.Relay

/-- A peer name within its room. -/
structure Name where
  room : RoomId
  peer : String
  deriving DecidableEq, Repr

abbrev Peers := Map String Nat

abbrev Rooms := Map RoomId Peers

/-! ## The registry's critical sections -/

/-- `register` under the write lock: the connection displaced, and the rooms after. -/
def register (rooms : Rooms) (room : RoomId) (peer : String) (connectionId : Nat) : Option Nat × Rooms :=
  let peers := (rooms.lookup room).getD ∅
  (peers.lookup peer, rooms.insert room (peers.insert peer connectionId))

/-- What `deregister` returns, and whether it emptied the room. -/
structure Deregistered where
  removed : Bool
  emptied : Bool
  rooms : Rooms

def deregister (rooms : Rooms) (room : RoomId) (peer : String) (connectionId : Nat) : Deregistered :=
  match rooms.lookup room with
  | none => ⟨false, false, rooms⟩
  | some peers =>
    if peers.lookup peer ≠ some connectionId then ⟨false, false, rooms⟩
    else if Map.isEmpty (peers.erase peer) then ⟨true, true, rooms.erase room⟩
    else ⟨true, false, rooms.insert room (peers.erase peer)⟩

/-- `route`'s section. -/
def outboundOf (rooms : Rooms) (room : RoomId) (target : String) : Option Nat :=
  (rooms.lookup room).bind fun peers => peers.lookup target

/-- `fanout`'s section: every handle of the room but those under the announcer's name. -/
def recipients (rooms : Rooms) (room : RoomId) (announcer : String) : List Nat :=
  match rooms.lookup room with
  | none => []
  | some peers => (peers.entries.filter fun e => e.1 != announcer).map (·.2)

/-- `list_peers`: the names, bytewise ascending (which for UTF-8 is by scalar value). -/
def listPeers (rooms : Rooms) (room : RoomId) : List String :=
  match rooms.lookup room with
  | none => []
  | some peers => peers.keys.mergeSort fun a b => decide (a ≤ b)

/-! ## Registering and dropping, step by step -/

inductive Entry where
  | inserted (connectionId : Nat) (name : Name)
  | dropped (connectionId : Nat)
  deriving DecidableEq, Repr

structure Registry where
  rooms : Rooms := ∅
  nextConnectionId : Nat := 1
  /-- Ids drawn by a `register` that has not inserted yet. -/
  drawn : Map Nat Name := ∅
  /-- The guards alive. -/
  guards : Map Nat Name := ∅
  /-- The connections whose eviction flag was set. -/
  evictions : List Nat := []
  trace : List Entry := []

namespace Registry

def draw (g : Registry) (name : Name) : Registry :=
  { g with nextConnectionId := g.nextConnectionId + 1, drawn := g.drawn.insert g.nextConnectionId name }

def insert (g : Registry) (connectionId : Nat) (name : Name) : Registry :=
  let registered := register g.rooms name.room name.peer connectionId
  { g with
    rooms := registered.2
    drawn := g.drawn.erase connectionId
    guards := g.guards.insert connectionId name
    evictions := g.evictions ++ registered.1.toList
    trace := g.trace ++ [.inserted connectionId name] }

def drop (g : Registry) (connectionId : Nat) (name : Name) : Registry :=
  { g with
    rooms := (deregister g.rooms name.room name.peer connectionId).rooms
    guards := g.guards.erase connectionId
    trace := g.trace ++ [.dropped connectionId] }

end Registry

inductive RegistryEv where
  | draw (name : Name)
  | insert (connectionId : Nat)
  | drop (connectionId : Nat)
  deriving Repr

def registryStep (g : Registry) : RegistryEv → Option Registry
  | .draw name => some (g.draw name)
  | .insert c => (g.drawn.lookup c).map fun name => g.insert c name
  | .drop c => (g.guards.lookup c).map fun name => g.drop c name

abbrev RegistryReach := Reach registryStep {} Always

/-! ## What the trace says -/

/-- The connection inserted last under a name. -/
def lastInserted (trace : List Entry) (name : Name) : Option Nat :=
  trace.foldl (fun last e => match e with
    | .inserted c n => if n = name then some c else last
    | .dropped _ => last) none

/-- A later insert took the name while the connection still held it. -/
def Displaced (trace : List Entry) (c : Nat) : Prop :=
  ∃ before c' name after, trace = before ++ .inserted c' name :: after ∧
    lastInserted before name = some c ∧ .dropped c ∉ before

/-- The ids of the connections registered, in the order they were inserted. -/
def registrations (trace : List Entry) : List Nat :=
  trace.filterMap fun e => match e with
    | .inserted c _ => some c
    | .dropped _ => none

theorem lastInserted_snoc_inserted (trace : List Entry) (c : Nat) (n name : Name) :
    lastInserted (trace ++ [.inserted c n]) name = if n = name then some c else lastInserted trace name := by
  simp [lastInserted, List.foldl_append]

theorem lastInserted_snoc_dropped (trace : List Entry) (c : Nat) (name : Name) :
    lastInserted (trace ++ [.dropped c]) name = lastInserted trace name := by
  simp [lastInserted, List.foldl_append]

theorem displaced_snoc {trace : List Entry} {e : Entry} {c : Nat} :
    Displaced (trace ++ [e]) c ↔
      Displaced trace c ∨ ∃ c' name, e = .inserted c' name ∧ lastInserted trace name = some c ∧ .dropped c ∉ trace := by
  constructor
  · rintro ⟨before, c', name, after, ht, hl, hd⟩
    rcases List.eq_nil_or_concat after with rfl | ⟨after, e', rfl⟩
    · -- the displacing insert is the new entry
      obtain ⟨rfl, he⟩ := List.append_inj' ht rfl
      cases he
      exact .inr ⟨c', name, rfl, hl, hd⟩
    · refine .inl ⟨before, c', name, after, ?_, hl, hd⟩
      rw [List.concat_eq_append, ← List.cons_append, ← List.append_assoc] at ht
      exact (List.append_inj' ht rfl).1
  · rintro (⟨before, c', name, after, rfl, hl, hd⟩ | ⟨c', name, rfl, hl, hd⟩)
    · exact ⟨before, c', name, after ++ [e], by simp, hl, hd⟩
    · exact ⟨trace, c', name, [], rfl, hl, hd⟩

/-! ## The rooms as one flat table -/

def holder (rooms : Rooms) (name : Name) : Option Nat := outboundOf rooms name.room name.peer

/-- No room is kept without a peer in it. -/
def NoEmptyRoom (rooms : Rooms) : Prop := ∀ room peers, rooms.lookup room = some peers → Map.isEmpty peers = false

theorem holder_of_lookup {rooms : Rooms} {room : RoomId} {peers : Peers} (h : rooms.lookup room = some peers)
    (peer : String) : holder rooms ⟨room, peer⟩ = peers.lookup peer := by simp [holder, outboundOf, h]

theorem holder_insert (rooms : Rooms) (room : RoomId) (peers : Peers) (name : Name) :
    holder (rooms.insert room peers) name = if name.room = room then peers.lookup name.peer else holder rooms name := by
  unfold holder outboundOf
  by_cases e : name.room = room
  · subst e; simp
  · simp [AList.lookup_insert_ne e, e]

theorem holder_erase (rooms : Rooms) (room : RoomId) (name : Name) :
    holder (rooms.erase room) name = if name.room = room then none else holder rooms name := by
  unfold holder outboundOf
  by_cases e : name.room = room
  · subst e; simp
  · simp [AList.lookup_erase_ne e, e]

theorem register_superseded (rooms : Rooms) (name : Name) (c : Nat) :
    (register rooms name.room name.peer c).1 = holder rooms name := by
  unfold register holder outboundOf
  cases rooms.lookup name.room <;> rfl

theorem holder_register (rooms : Rooms) (name : Name) (c : Nat) (n : Name) :
    holder (register rooms name.room name.peer c).2 n = if n = name then some c else holder rooms n := by
  have hold : ∀ peer, ((rooms.lookup name.room).getD ∅).lookup peer = holder rooms ⟨name.room, peer⟩ := fun peer => by
    unfold holder outboundOf
    cases rooms.lookup name.room <;> rfl
  obtain ⟨room, peer⟩ := name
  obtain ⟨r, p⟩ := n
  simp only [register, holder_insert, Name.mk.injEq]
  by_cases hr : r = room
  · subst hr
    by_cases hp : p = peer
    · subst hp; simp
    · simp only [hp, and_false, if_true, if_false, AList.lookup_insert_ne hp]; exact hold p
  · simp [hr]

theorem register_noEmptyRoom {rooms : Rooms} (h : NoEmptyRoom rooms) (name : Name) (c : Nat) :
    NoEmptyRoom (register rooms name.room name.peer c).2 := by
  intro room peers hl
  rcases Map.lookup_insert_some hl with ⟨_, rfl⟩ | ⟨_, hl⟩
  · exact Map.not_isEmpty_of_lookup (AList.lookup_insert _)
  · exact h room peers hl

/-- A connection that does not hold the name changes nothing. -/
theorem deregister_foreign {rooms : Rooms} {name : Name} {c : Nat} (h : holder rooms name ≠ some c) :
    deregister rooms name.room name.peer c = ⟨false, false, rooms⟩ := by
  unfold deregister
  split
  · rfl
  · rename_i peers hl
    rw [if_pos]
    exact (holder_of_lookup hl name.peer) ▸ h

/-- The one that holds it gives it up, and with it the room if nobody else is there. -/
theorem deregister_own {rooms : Rooms} {name : Name} {c : Nat} (h : holder rooms name = some c) :
    (deregister rooms name.room name.peer c).removed = true ∧
      (∀ n, holder (deregister rooms name.room name.peer c).rooms n = if n = name then none else holder rooms n) ∧
      (NoEmptyRoom rooms → NoEmptyRoom (deregister rooms name.room name.peer c).rooms) ∧
      ((deregister rooms name.room name.peer c).emptied = true ↔
        (deregister rooms name.room name.peer c).rooms.lookup name.room = none) := by
  obtain ⟨peers, hl, hp⟩ := Option.bind_eq_some_iff.mp h
  obtain ⟨room, peer⟩ := name
  simp only at hl hp
  have hview : ∀ q, holder rooms ⟨room, q⟩ = peers.lookup q := holder_of_lookup hl
  simp only [deregister, hl, hp, ne_eq, not_true_eq_false, if_false]
  split
  · rename_i hempty
    refine ⟨rfl, fun n => ?_, fun hne r ps hlr => ?_, ?_⟩
    · obtain ⟨r, q⟩ := n
      simp only [holder_erase, Name.mk.injEq]
      by_cases hr : r = room
      · subst hr
        by_cases hq : q = peer
        · simp [hq]
        · have hnone := Map.isEmpty_iff.mp hempty q
          rw [AList.lookup_erase_ne hq] at hnone
          simp [hq, hview, hnone]
      · simp [hr]
    · exact hne r ps (Map.lookup_erase_some hlr).2
    · simp [AList.lookup_erase]
  · rename_i hempty
    refine ⟨rfl, fun n => ?_, fun hne r ps hlr => ?_, ?_⟩
    · obtain ⟨r, q⟩ := n
      simp only [holder_insert, Name.mk.injEq]
      by_cases hr : r = room
      · subst hr
        by_cases hq : q = peer
        · subst hq; simp
        · simp [hq, hview, AList.lookup_erase_ne hq]
      · simp [hr]
    · rcases Map.lookup_insert_some hlr with ⟨_, rfl⟩ | ⟨_, hlr⟩
      · simpa using hempty
      · exact hne r ps hlr
    · simp [AList.lookup_insert]

theorem deregister_noEmptyRoom {rooms : Rooms} (h : NoEmptyRoom rooms) (name : Name) (c : Nat) :
    NoEmptyRoom (deregister rooms name.room name.peer c).rooms := by
  by_cases hh : holder rooms name = some c
  · exact (deregister_own hh).2.2.1 h
  · rw [deregister_foreign hh]; exact h

/-- Nobody holding a name, and no empty room: no room. -/
theorem rooms_empty {rooms : Rooms} (h : NoEmptyRoom rooms) (hn : ∀ name, holder rooms name = none) : rooms = ∅ := by
  have hnone : ∀ room, rooms.lookup room = none := by
    intro room
    cases hl : rooms.lookup room with
    | none => rfl
    | some peers =>
      obtain ⟨peer, c, hp⟩ := Map.exists_lookup_of_not_isEmpty (h room peers hl)
      have := hn ⟨room, peer⟩
      rw [holder_of_lookup hl, hp] at this; cases this
  exact AList.ext (List.isEmpty_iff.mp (Map.isEmpty_iff.mpr hnone))

/-- A fanout goes to whoever holds another name of the room. -/
theorem mem_recipients {rooms : Rooms} {room : RoomId} {announcer : String} {o : Nat} :
    o ∈ recipients rooms room announcer ↔ ∃ peer, peer ≠ announcer ∧ holder rooms ⟨room, peer⟩ = some o := by
  unfold recipients
  split
  · rename_i hl
    refine ⟨fun h => (List.not_mem_nil h).elim, fun ⟨peer, _, hh⟩ => ?_⟩
    simp [holder, outboundOf, hl] at hh
  · rename_i peers hl
    simp only [List.mem_map, List.mem_filter, bne_iff_ne]
    constructor
    · rintro ⟨⟨peer, o⟩, ⟨hmem, hne⟩, rfl⟩
      exact ⟨peer, hne, (holder_of_lookup hl peer).trans (AList.mem_lookup_iff.mpr hmem)⟩
    · rintro ⟨peer, hne, hh⟩
      rw [holder_of_lookup hl] at hh
      exact ⟨⟨peer, o⟩, ⟨AList.mem_lookup_iff.mp hh, hne⟩, rfl⟩

/-- No handle twice, if every handle is under one name. -/
theorem recipients_nodup {rooms : Rooms}
    (h : ∀ n m c, holder rooms n = some c → holder rooms m = some c → n = m) (room : RoomId) (announcer : String) :
    (recipients rooms room announcer).Nodup := by
  unfold recipients
  split
  · exact .nil
  · rename_i peers hl
    refine List.Nodup.map_on ?_ (peers.nodupKeys.nodup.filter _)
    rintro ⟨p, o⟩ hp ⟨q, o'⟩ hq rfl
    have hold : ∀ p, ⟨p, o⟩ ∈ peers.entries → holder rooms ⟨room, p⟩ = some o := fun p hmem =>
      (holder_of_lookup hl p).trans (AList.mem_lookup_iff.mpr hmem)
    cases h _ _ o (hold p (List.mem_of_mem_filter hp)) (hold q (List.mem_of_mem_filter hq))
    rfl

/-! ## The invariant -/

structure RegistryInv (g : Registry) : Prop where
  noEmpty : NoEmptyRoom g.rooms
  /-- A name is held by the last connection inserted under it, until that one drops. -/
  held : ∀ name c, holder g.rooms name = some c ↔ lastInserted g.trace name = some c ∧ .dropped c ∉ g.trace
  drawn : ∀ c name, g.drawn.lookup c = some name → c < g.nextConnectionId ∧ c ∉ registrations g.trace
  guards : ∀ c name, g.guards.lookup c = some name ↔ .inserted c name ∈ g.trace ∧ .dropped c ∉ g.trace
  below : ∀ c ∈ registrations g.trace, c < g.nextConnectionId
  dropped : ∀ c, .dropped c ∈ g.trace → c ∈ registrations g.trace
  once : (registrations g.trace).Nodup
  evicted : ∀ c, c ∈ g.evictions ↔ Displaced g.trace c
  /-- A connection that was displaced holds no name. -/
  lost : ∀ c ∈ g.evictions, ∀ name, holder g.rooms name ≠ some c
  signalled : g.evictions.Nodup

theorem lastInserted_mem {trace : List Entry} {name : Name} {c : Nat} (h : lastInserted trace name = some c) :
    .inserted c name ∈ trace := by
  induction trace using List.reverseRecOn with
  | nil => cases h
  | append_singleton trace e ih =>
    cases e with
    | dropped c' =>
      rw [lastInserted_snoc_dropped] at h
      exact List.mem_append_left _ (ih h)
    | inserted c' n =>
      rw [lastInserted_snoc_inserted] at h
      split at h
      · rename_i hn; cases h; subst hn; exact List.mem_append_right _ (List.mem_singleton.mpr rfl)
      · exact List.mem_append_left _ (ih h)

theorem mem_registrations {trace : List Entry} {c : Nat} :
    c ∈ registrations trace ↔ ∃ name, .inserted c name ∈ trace := by
  unfold registrations
  rw [List.mem_filterMap]
  constructor
  · rintro ⟨e, he, hc⟩
    cases e with
    | inserted c' name => cases hc; exact ⟨name, he⟩
    | dropped c' => cases hc
  · rintro ⟨name, he⟩
    exact ⟨_, he, rfl⟩

theorem registrations_snoc_inserted (trace : List Entry) (c : Nat) (name : Name) :
    registrations (trace ++ [.inserted c name]) = registrations trace ++ [c] := by
  simp [registrations]

theorem registrations_snoc_dropped (trace : List Entry) (c : Nat) :
    registrations (trace ++ [.dropped c]) = registrations trace := by simp [registrations]

/-- An id is inserted under one name only. -/
theorem inserted_unique {trace : List Entry} (h : (registrations trace).Nodup) {c : Nat} {n m : Name}
    (hn : .inserted c n ∈ trace) (hm : .inserted c m ∈ trace) : n = m := by
  induction trace with
  | nil => cases hn
  | cons e trace ih =>
    cases e with
    | dropped c' =>
      exact ih h ((List.mem_cons.mp hn).resolve_left (by simp)) ((List.mem_cons.mp hm).resolve_left (by simp))
    | inserted c' k =>
      obtain ⟨hfresh, hrest⟩ := List.nodup_cons.mp h
      rcases List.mem_cons.mp hn with hn' | hn' <;> rcases List.mem_cons.mp hm with hm' | hm'
      · cases hn'; cases hm'; rfl
      · cases hn'; exact absurd (mem_registrations.mpr ⟨_, hm'⟩) hfresh
      · cases hm'; exact absurd (mem_registrations.mpr ⟨_, hn'⟩) hfresh
      · exact ih hrest hn' hm'

theorem RegistryInv.init : RegistryInv {} := by
  have hno : ∀ c, ¬ Displaced [] c := by
    rintro c ⟨before, c', name, after, h, _⟩
    cases before <;> cases h
  refine ⟨?_, fun name c => ⟨?_, ?_⟩, ?_, fun c name => ⟨?_, ?_⟩, ?_, ?_, .nil, fun c => ⟨?_, ?_⟩, ?_, .nil⟩
  · intro room peers h; cases h
  · intro h; cases h
  · intro h; cases h.1
  · intro c name h; cases h
  · intro h; cases h
  · intro h; cases h.1
  · intro c h; cases h
  · intro c h; cases h
  · intro h; cases h
  · intro h; exact absurd h (hno c)
  · intro c h; cases h

theorem RegistryInv.draw {g : Registry} (h : RegistryInv g) (name : Name) : RegistryInv (g.draw name) := by
  refine ⟨h.noEmpty, h.held, fun c n hl => ?_, h.guards, fun c hc => Nat.lt_succ_of_lt (h.below c hc), h.dropped, h.once,
    h.evicted, h.lost, h.signalled⟩
  rcases Map.lookup_insert_some hl with ⟨rfl, _⟩ | ⟨_, hl⟩
  · exact ⟨Nat.lt_succ_self _, fun hm => Nat.lt_irrefl _ (h.below _ hm)⟩
  · exact ⟨Nat.lt_succ_of_lt (h.drawn c n hl).1, (h.drawn c n hl).2⟩

/-- A connection holds one name at most. -/
theorem RegistryInv.holder_inj {g : Registry} (h : RegistryInv g) {c : Nat} {n m : Name}
    (hn : holder g.rooms n = some c) (hm : holder g.rooms m = some c) : n = m :=
  inserted_unique h.once (lastInserted_mem ((h.held n c).mp hn).1) (lastInserted_mem ((h.held m c).mp hm).1)

/-- A connection is inserted, under an id nobody was inserted under before. -/
theorem RegistryInv.insert {g : Registry} (h : RegistryInv g) {c : Nat} {name : Name}
    (hd : g.drawn.lookup c = some name) : RegistryInv (g.insert c name) := by
  obtain ⟨hlt, hfresh⟩ := h.drawn c name hd
  have hnotDrop : Entry.dropped c ∉ g.trace := fun hm => hfresh (h.dropped c hm)
  have hnotHeld : ∀ n, holder g.rooms n ≠ some c := fun n hh =>
    hfresh (mem_registrations.mpr ⟨n, lastInserted_mem ((h.held n c).mp hh).1⟩)
  have hdrop : ∀ c', Entry.dropped c' ∈ g.trace ++ [Entry.inserted c name] ↔ Entry.dropped c' ∈ g.trace := by simp
  have hmem : ∀ c', c' ∈ registrations (g.insert c name).trace ↔ c' ∈ registrations g.trace ∨ c' = c := fun c' => by
    simp [Registry.insert, registrations_snoc_inserted]
  have hevict : ∀ c', c' ∈ (g.insert c name).evictions ↔ c' ∈ g.evictions ∨ holder g.rooms name = some c' := fun c' => by
    simp [Registry.insert, register_superseded, eq_comm]
  refine ⟨register_noEmptyRoom h.noEmpty name c, fun n c' => ?_, fun c' n hl => ?_, fun c' n => ?_, fun c' hc' => ?_,
    fun c' hc' => (hmem c').mpr (.inl (h.dropped c' ((hdrop c').mp hc'))), ?_, fun c' => ?_, fun c' hc' n => ?_, ?_⟩
  · simp only [Registry.insert, holder_register, lastInserted_snoc_inserted, hdrop]
    by_cases hn : n = name
    · subst hn
      simp only [if_true, Option.some.injEq]
      constructor
      · rintro rfl; exact ⟨rfl, hnotDrop⟩
      · exact fun hc => hc.1
    · simp only [hn, Ne.symm hn, if_false]; exact h.held n c'
  · obtain ⟨hne, hl⟩ := Map.lookup_erase_some hl
    exact ⟨(h.drawn c' n hl).1, fun hm => ((hmem c').mp hm).elim (h.drawn c' n hl).2 hne⟩
  · simp only [Registry.insert, hdrop, List.mem_append, List.mem_singleton, Entry.inserted.injEq]
    by_cases hc : c' = c
    · subst hc
      rw [AList.lookup_insert]
      constructor
      · intro hn; cases hn; exact ⟨.inr ⟨rfl, rfl⟩, hnotDrop⟩
      · rintro ⟨hm | ⟨_, rfl⟩, _⟩
        · exact absurd (mem_registrations.mpr ⟨n, hm⟩) hfresh
        · rfl
    · rw [AList.lookup_insert_ne hc, h.guards c' n]
      simp [hc]
  · rcases (hmem c').mp hc' with hc' | rfl
    · exact h.below c' hc'
    · exact hlt
  · simp only [Registry.insert, registrations_snoc_inserted]
    exact List.nodup_append.mpr ⟨h.once, List.nodup_singleton c, fun a ha b hb => by
      rw [List.mem_singleton.mp hb]; rintro rfl; exact hfresh ha⟩
  · -- the connection found under the name is the one displaced
    have hsnoc : Displaced (g.insert c name).trace c' ↔ Displaced g.trace c' ∨ holder g.rooms name = some c' := by
      show Displaced (g.trace ++ [.inserted c name]) c' ↔ _
      rw [displaced_snoc, h.held]
      simp
    rw [hevict, hsnoc, h.evicted]
  · simp only [Registry.insert, holder_register]
    have hne : c' ≠ c := by
      rintro rfl
      rcases (hevict c').mp hc' with hc' | hc'
      · obtain ⟨before, c', m, after, ht, hl, _⟩ := (h.evicted _).mp hc'
        exact hfresh (mem_registrations.mpr ⟨m, ht ▸ List.mem_append_left _ (lastInserted_mem hl)⟩)
      · exact hnotHeld name hc'
    by_cases hn : n = name
    · simp only [hn, if_true, ne_eq, Option.some.injEq]; exact hne.symm
    · simp only [hn, if_false]
      rcases (hevict c').mp hc' with hc' | hc'
      · exact h.lost c' hc' n
      · exact fun hh => hn (h.holder_inj hh hc')
  · simp only [Registry.insert, register_superseded]
    refine List.nodup_append.mpr ⟨h.signalled, ?_, fun a ha b hb => ?_⟩
    · cases holder g.rooms name <;> simp
    · rintro rfl
      exact h.lost a ha name (Option.mem_toList.mp hb)

/-- A guard drops. If its connection was displaced, the registry stays as it is. -/
theorem RegistryInv.drop {g : Registry} (h : RegistryInv g) {c : Nat} {name : Name}
    (hg : g.guards.lookup c = some name) : RegistryInv (g.drop c name) := by
  obtain ⟨hins, hnot⟩ := (h.guards c name).mp hg
  have hreg : c ∈ registrations g.trace := mem_registrations.mpr ⟨name, hins⟩
  have hholder : ∀ n, holder (g.drop c name).rooms n = if holder g.rooms n = some c then none else holder g.rooms n := by
    intro n
    simp only [Registry.drop]
    by_cases hh : holder g.rooms name = some c
    · rw [(deregister_own hh).2.1 n]
      by_cases hn : n = name
      · rw [if_pos hn, hn, if_pos hh]
      · rw [if_neg hn, if_neg fun hh' => hn (h.holder_inj hh' hh)]
    · rw [deregister_foreign hh, if_neg]
      intro hh'
      -- a connection holds no name but the one it was inserted under
      have hn := inserted_unique h.once (lastInserted_mem ((h.held n c).mp hh').1) hins
      exact hh (hn ▸ hh')
  have hdrop : ∀ c', Entry.dropped c' ∈ (g.drop c name).trace ↔ Entry.dropped c' ∈ g.trace ∨ c' = c := fun c' => by
    simp [Registry.drop]
  refine ⟨deregister_noEmptyRoom h.noEmpty name c, fun n c' => ?_, fun c' n hl => ?_, fun c' n => ?_, fun c' hc' => ?_,
    fun c' hc' => ?_, ?_, fun c' => ?_, fun c' hc' n => ?_, h.signalled⟩
  · rw [hholder, hdrop]
    show _ ↔ lastInserted (g.trace ++ [.dropped c]) n = some c' ∧ _
    rw [lastInserted_snoc_dropped, not_or, ← and_assoc, ← h.held]
    by_cases hh : holder g.rooms n = some c
    · rw [if_pos hh, hh]
      constructor
      · intro he; cases he
      · rintro ⟨he, hne⟩; cases he; exact absurd rfl hne
    · rw [if_neg hh]
      constructor
      · intro he; exact ⟨he, fun hc => hh (hc ▸ he)⟩
      · exact fun he => he.1
  · refine ⟨(h.drawn c' n hl).1, ?_⟩
    simp only [Registry.drop, registrations_snoc_dropped]
    exact (h.drawn c' n hl).2
  · rw [hdrop, not_or, ← and_assoc]
    have hmem : Entry.inserted c' n ∈ (g.drop c name).trace ↔ Entry.inserted c' n ∈ g.trace := by simp [Registry.drop]
    rw [hmem, ← h.guards c' n]
    by_cases hc : c' = c
    · subst hc; simp [Registry.drop]
    · simp [Registry.drop, AList.lookup_erase_ne hc, hc]
  · simp only [Registry.drop, registrations_snoc_dropped] at hc'
    exact h.below c' hc'
  · simp only [Registry.drop, registrations_snoc_dropped]
    rcases (hdrop c').mp hc' with hc' | rfl
    · exact h.dropped c' hc'
    · exact hreg
  · simp only [Registry.drop, registrations_snoc_dropped]; exact h.once
  · show c' ∈ g.evictions ↔ Displaced (g.trace ++ [.dropped c]) c'
    rw [displaced_snoc, ← h.evicted]
    simp
  · rw [hholder]
    split
    · intro he; cases he
    · exact h.lost c' hc' n

theorem registryStep_inv {g g' : Registry} {e : RegistryEv} (h : RegistryInv g) (hs : registryStep g e = some g') :
    RegistryInv g' := by
  cases e with
  | draw name => cases hs; exact h.draw name
  | insert c =>
    obtain ⟨name, hd, rfl⟩ := Option.map_eq_some_iff.mp hs
    exact h.insert hd
  | drop c =>
    obtain ⟨name, hg, rfl⟩ := Option.map_eq_some_iff.mp hs
    exact h.drop hg

theorem registry_inv {g : Registry} (h : RegistryReach g) : RegistryInv g :=
  h.inv .init fun _ _ _ hi _ hs => registryStep_inv hi hs

/-- Whatever the order of draws, inserts and drops: names belong to the last one inserted that has
    not dropped, the displaced are signalled once each and nobody else is, a drop by anyone but the
    holder changes nothing, rooms are never empty, ids are never reused, and when every guard has
    dropped nothing is left. -/
theorem registry_integrity {g : Registry} (h : RegistryReach g) :
    (∀ name c, holder g.rooms name = some c ↔ lastInserted g.trace name = some c ∧ .dropped c ∉ g.trace) ∧
    ((∀ c, c ∈ g.evictions ↔ Displaced g.trace c) ∧ g.evictions.Nodup) ∧
    (∀ name c, holder g.rooms name ≠ some c → deregister g.rooms name.room name.peer c = ⟨false, false, g.rooms⟩) ∧
    (∀ room peers, g.rooms.lookup room = some peers → Map.isEmpty peers = false) ∧
    ((registrations g.trace).Nodup ∧ ∀ c name, g.drawn.lookup c = some name → c ∉ registrations g.trace) ∧
    ((∀ c ∈ registrations g.trace, .dropped c ∈ g.trace) → g.rooms = ∅) := by
  have hi := registry_inv h
  refine ⟨hi.held, ⟨hi.evicted, hi.signalled⟩, fun name c => deregister_foreign, hi.noEmpty,
    ⟨hi.once, fun c name hd => (hi.drawn c name hd).2⟩, fun hall => ?_⟩
  refine rooms_empty hi.noEmpty fun name => ?_
  cases hh : holder g.rooms name with
  | none => rfl
  | some c =>
    obtain ⟨hl, hd⟩ := (hi.held name c).mp hh
    exact absurd (hall c (mem_registrations.mpr ⟨name, lastInserted_mem hl⟩)) hd

/-- Three connections take one name, inserted in another order than their ids were drawn in, and
    the first two to be displaced drop late. -/
def takeovers : List RegistryEv :=
  let name : Name := ⟨⟨"omp-relayd", "registry"⟩, "reviewer"⟩
  [.draw name, .draw name, .draw name, .insert 2, .insert 1, .drop 2, .insert 3, .drop 1]

def takeoversEnd : Registry := (run registryStep {} takeovers).getD {}

theorem registry_integrity_sample :
    RegistryReach takeoversEnd ∧ takeoversEnd.evictions = [2, 1] ∧
      holder takeoversEnd.rooms ⟨⟨"omp-relayd", "registry"⟩, "reviewer"⟩ = some 3 ∧ Displaced takeoversEnd.trace 1 := by
  have hr : RegistryReach takeoversEnd := .of_run takeovers .init rfl
  have hi := registry_integrity hr
  exact ⟨hr, rfl, (hi.1 _ 3).mpr ⟨rfl, by decide⟩, (hi.2.1.1 1).mp (by decide)⟩

end OmpRelayd.Relay
