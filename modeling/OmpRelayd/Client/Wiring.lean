/-
  OmpRelayd.Client.Wiring — what the client holds of the runtime.

  Every armed timer is remembered, by a field of the client or by the entry of a request, and
  what they remember is armed (`Wired`): so clearing a field leaves no timer behind that could
  fire, and settling a request takes its deadline with it. Every socket but the current one is
  destroyed and has lost its listeners (`Owned`): so what is heard comes from the current one.
-/

import OmpRelayd.Client.Connection
import OmpRelayd.Lib.Handles

namespace OmpRelayd.Client

/-! ## Timers -/

/-- Who remembers an armed timer: a field of the client, or the entry of a request. -/
inductive Owner where
  | slot (slot : Slot)
  | request (key : Key)
  deriving DecidableEq

def Timer.owner : Timer → Owner
  | .reconnect => .slot .reconnect
  | .handshake _ => .slot .handshake
  | .heartbeat => .slot .heartbeat
  | .request key => .request key

def entryOf (pending : List PendingRequest) (key : Key) : Option PendingRequest := pending.find? (·.key = key)

def held (handles : Slot → Option Nat) (pending : List PendingRequest) : Owner → Option Nat
  | .slot slot => handles slot
  | .request key => (entryOf pending key).bind (·.timer)

structure Wired (timers : Map Nat Timer) (next : Nat) (handles : Slot → Option Nat) (pending : List PendingRequest) :
    Prop where
  timers : Remembered timers next Timer.owner (held handles pending)
  keys : (pending.map (·.key)).Nodup

section
variable {timers : Map Nat Timer} {next h : Nat} {handles : Slot → Option Nat} {pending : List PendingRequest}
  {slot : Slot} {timer : Timer} {key : Key} {entry : PendingRequest}

theorem held_slot (value : Option Nat) :
    held (Function.update handles slot value) pending = Function.update (held handles pending) (.slot slot) value := by
  funext o
  cases o with
  | slot s =>
    by_cases e : s = slot
    · subst e; simp only [held, Function.update_self]
    · rw [Function.update_of_ne (fun h => e (Owner.slot.inj h))]
      exact Function.update_of_ne e _ _
  | request key => rw [Function.update_of_ne (by nofun)]; rfl

/-- Two lists of entries that differ in one request's timer. -/
theorem held_request {pending' : List PendingRequest} {value : Option Nat}
    (hkey : (entryOf pending' key).bind (·.timer) = value)
    (hother : ∀ k, k ≠ key → (entryOf pending' k).bind (·.timer) = (entryOf pending k).bind (·.timer)) :
    held handles pending' = Function.update (held handles pending) (.request key) value := by
  funext o
  cases o with
  | slot s => rw [Function.update_of_ne (by nofun)]; rfl
  | request k =>
    by_cases e : k = key
    · subst e; rw [Function.update_self]; exact hkey
    · rw [Function.update_of_ne (fun h => e (Owner.request.inj h))]; exact hother k e

theorem entryOf_eq_some_iff (hkeys : (pending.map (·.key)).Nodup) :
    entryOf pending key = some entry ↔ entry ∈ pending ∧ entry.key = key := by
  constructor
  · intro h
    exact ⟨List.mem_of_find?_eq_some h, by simpa using List.find?_some h⟩
  · intro ⟨he, hk⟩
    cases h : entryOf pending key with
    | none => exact absurd hk (by simpa using List.find?_eq_none.mp h entry he)
    | some e =>
      have hke : e.key = key := by simpa using List.find?_some h
      rw [List.inj_on_of_nodup_map hkeys (List.mem_of_find?_eq_some h) he (hke.trans hk.symm)]

theorem entryOf_filter (k : Key) :
    entryOf (pending.filter (·.key ≠ key)) k = if k = key then none else entryOf pending k := by
  unfold entryOf
  rw [List.find?_filter]
  split
  · rename_i e
    subst e
    rw [List.find?_eq_none]
    simp
  · rename_i e
    congr 1
    funext x
    by_cases hx : x.key = k
    · simp [hx, e]
    · simp [hx]

theorem entryOf_map {f : PendingRequest → PendingRequest} (hkey : ∀ e, (f e).key = e.key) (k : Key) :
    entryOf (pending.map f) k = (entryOf pending k).map f := by
  unfold entryOf
  rw [List.find?_map]
  simp only [Function.comp_def, hkey]

theorem entryOf_append (hnew : entryOf pending entry.key = none) (k : Key) :
    entryOf (pending ++ [entry]) k = if k = entry.key then some entry else entryOf pending k := by
  unfold entryOf at *
  rw [List.find?_append]
  split
  · rename_i e
    subst e
    rw [hnew]
    simp
  · rename_i e
    have : [entry].find? (fun x => decide (x.key = k)) = none := by simp [Ne.symm e]
    rw [this, Option.or_none]

theorem keys_map {f : PendingRequest → PendingRequest} (hkey : ∀ e, (f e).key = e.key) :
    (pending.map f).map (·.key) = pending.map (·.key) := by
  rw [List.map_map]
  exact List.map_congr_left fun e _ => hkey e

namespace Wired

theorem clear (w : Wired timers next handles pending) (hh : handles slot = some h) :
    Wired (timers.erase h) next (Function.update handles slot none) pending :=
  ⟨by rw [held_slot]; exact w.timers.drop hh, w.keys⟩

theorem arm (w : Wired timers next handles pending) (hh : handles slot = none) (ht : timer.owner = .slot slot) :
    Wired (timers.insert next timer) (next + 1) (Function.update handles slot (some next)) pending := by
  refine ⟨?_, w.keys⟩
  rw [held_slot, ← ht]
  exact w.timers.take (by rw [ht]; exact hh)

/-- A request leaves with its deadline. -/
theorem settle (w : Wired timers next handles pending) (hfind : entryOf pending key = some entry) :
    Wired (match entry.timer with | some h => timers.erase h | none => timers) next handles
      (pending.filter (·.key ≠ key)) := by
  refine ⟨?_, w.keys.sublist ((List.filter_sublist).map _)⟩
  have hafter : held handles (pending.filter (·.key ≠ key)) = Function.update (held handles pending) (.request key) none :=
    held_request (by rw [entryOf_filter, if_pos rfl]; rfl) fun k hk => by rw [entryOf_filter, if_neg hk]
  have hbefore : held handles pending (.request key) = entry.timer := by rw [held, hfind]; rfl
  rw [hafter]
  cases ht : entry.timer with
  | some h => exact w.timers.drop (hbefore.trans ht)
  | none =>
    have hsame : Function.update (held handles pending) (.request key) none = held handles pending := by
      rw [← hbefore.trans ht, Function.update_eq_self]
    rw [hsame]; exact w.timers

theorem issue (w : Wired timers next handles pending) (entry : PendingRequest) (ht : entry.timer = some next)
    (hnew : entryOf pending entry.key = none) :
    Wired (timers.insert next (.request entry.key)) (next + 1) handles (pending ++ [entry]) := by
  refine ⟨?_, ?_⟩
  · have hafter : held handles (pending ++ [entry]) =
        Function.update (held handles pending) (.request entry.key) (some next) :=
      held_request (by rw [entryOf_append hnew, if_pos rfl]; exact ht) fun k hk => by
        rw [entryOf_append hnew, if_neg hk]
    rw [hafter]
    exact w.timers.take (t := .request entry.key) (by rw [Timer.owner, held, hnew]; rfl)
  · rw [List.map_append, List.nodup_append]
    refine ⟨w.keys, List.nodup_singleton _, ?_⟩
    simp only [List.map_cons, List.map_nil, List.mem_singleton, List.mem_map]
    rintro _ ⟨e, he, rfl⟩ _ rfl
    simpa using List.find?_eq_none.mp hnew e he

/-- Entries may change in what is neither their key nor their timer. -/
theorem relabel (w : Wired timers next handles pending) {f : PendingRequest → PendingRequest}
    (hkey : ∀ e, (f e).key = e.key) (htimer : ∀ e, (f e).timer = e.timer) :
    Wired timers next handles (pending.map f) := by
  refine ⟨?_, by rw [keys_map hkey]; exact w.keys⟩
  have hsame : held handles (pending.map f) = held handles pending := by
    funext o
    cases o with
    | slot s => rfl
    | request k =>
      simp only [held, entryOf_map hkey]
      cases entryOf pending k with
      | none => rfl
      | some e => exact htimer e
  rw [hsame]; exact w.timers

theorem lapse (w : Wired timers next handles pending) (hl : timers.lookup h = some (.request key)) :
    Wired (timers.erase h) next handles
      (pending.map fun e => if e.key = key then { e with timer := none } else e) := by
  have hkey : ∀ e : PendingRequest, (if e.key = key then { e with timer := none } else e).key = e.key := by
    intro e; split <;> rfl
  refine ⟨?_, by rw [keys_map hkey]; exact w.keys⟩
  have hof : ∀ k e, entryOf pending k = some e → e.key = k := fun k e he => by simpa using List.find?_some he
  have hafter : held handles (pending.map fun e => if e.key = key then { e with timer := none } else e) =
      Function.update (held handles pending) (.request key) none := by
    refine held_request ?_ ?_
    · rw [entryOf_map hkey]
      cases he : entryOf pending key with
      | none => rfl
      | some e => simp [hof key e he]
    · intro k hk
      rw [entryOf_map hkey]
      cases he : entryOf pending k with
      | none => rfl
      | some e => simp [hof k e he, hk]
  rw [hafter]
  exact w.timers.drop (w.timers.kept h _ hl)

end Wired

end

/-! ## Sockets -/

structure Owned (sockets : Map Nat Socket) (next : Nat) (current : Option Nat) : Prop where
  fresh : ∀ s socket, sockets.lookup s = some socket → s < next
  known : ∀ s, current = some s → s < next
  others : ∀ s socket, sockets.lookup s = some socket → current ≠ some s →
    socket.listening = false ∧ socket.destroyed = true

namespace Owned

variable {sockets : Map Nat Socket} {next s : Nat} {current : Option Nat}

/-- The current socket is given up and released. -/
theorem release (o : Owned sockets next (some s)) : Owned (sockets.insert s ⟨false, true⟩) next none := by
  refine ⟨?_, nofun, ?_⟩
  · intro s' socket hl
    rcases Map.lookup_insert_some hl with ⟨rfl, -⟩ | ⟨-, hl⟩
    · exact o.known s' rfl
    · exact o.fresh s' socket hl
  · intro s' socket hl _
    rcases Map.lookup_insert_some hl with ⟨rfl, rfl⟩ | ⟨hne, hl⟩
    · exact ⟨rfl, rfl⟩
    · exact o.others s' socket hl fun e => hne (Option.some.inj e).symm

theorem connect (o : Owned sockets next none) : Owned (sockets.insert next ⟨true, false⟩) (next + 1) (some next) := by
  refine ⟨?_, ?_, ?_⟩
  · intro s socket hl
    rcases Map.lookup_insert_some hl with ⟨rfl, -⟩ | ⟨-, hl⟩
    · exact Nat.lt_succ_self s
    · exact Nat.lt_succ_of_lt (o.fresh s socket hl)
  · intro s hs
    cases hs
    exact Nat.lt_succ_self next
  · intro s socket hl hs
    rcases Map.lookup_insert_some hl with ⟨rfl, -⟩ | ⟨-, hl⟩
    · exact absurd rfl hs
    · exact o.others s socket hl nofun

theorem perish (o : Owned sockets next current) {socket : Socket} (hs : sockets.lookup s = some socket) :
    Owned (sockets.insert s { socket with destroyed := true }) next current := by
  refine ⟨?_, o.known, ?_⟩
  · intro s' socket' hl
    rcases Map.lookup_insert_some hl with ⟨rfl, -⟩ | ⟨-, hl⟩
    · exact o.fresh s' socket hs
    · exact o.fresh s' socket' hl
  · intro s' socket' hl hne
    rcases Map.lookup_insert_some hl with ⟨rfl, rfl⟩ | ⟨-, hl⟩
    · exact ⟨(o.others s' socket hs hne).1, rfl⟩
    · exact o.others s' socket' hl hne

theorem current_of_listening (o : Owned sockets next current) {socket : Socket} (hs : sockets.lookup s = some socket)
    (hl : socket.listening = true) : current = some s := by
  by_contra hne
  rw [(o.others s socket hs hne).1] at hl
  cases hl

end Owned

end OmpRelayd.Client
