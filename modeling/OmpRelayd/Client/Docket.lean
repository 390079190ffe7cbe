/-
  OmpRelayd.Client.Docket — the requests of a client, and what its history says of them.

  Requests are numbered as they are issued. `Docket` is the agreement between the entries that are
  pending, the number of calls so far and the history: every request is settled or pending and
  never both, the entries stand in the order of their numbers, and what has not been written yet
  is newer than all that has. Of the history alone it says that each effect was in order when it
  came (`Follows`): nothing is settled twice, and a request is written on a connection that is
  ready, before it is settled and after every older one that is written at all.

  One lemma for each thing that can happen to the entries.
-/

import OmpRelayd.Client.Wiring
import OmpRelayd.Lib.Trace

namespace OmpRelayd.Client

/-! ## What the history says -/

def Written (history : List Effect) (request : Nat) : Prop :=
  ∃ socket encoded, .wrote socket (.request request) encoded ∈ history

def IsSettled (history : List Effect) (request : Nat) : Prop := ∃ settlement, .settled request settlement ∈ history

/-- The relay has admitted the client on this socket. -/
def Welcomed (history : List Effect) (socket : Nat) : Prop := ∃ version, .dispatched socket (.ready version) ∈ history

def Follows (e : Effect) (older : List Effect) : Prop :=
  match e with
  | .issued r _ _ => ∀ r' kind token, .issued r' kind token ∈ older → r' < r
  | .wrote s frame _ =>
    (frame ≠ .hello → Welcomed older s) ∧
      ∀ r, frame = .request r → ¬ IsSettled older r ∧ ∀ r', Written older r' → r' < r
  | .settled r _ => ¬ IsSettled older r
  | _ => True

/-- An effect that says nothing of a request. -/
def Effect.plain : Effect → Bool
  | .issued _ _ _ => false
  | .wrote _ (.request _) _ => false
  | .settled _ _ => false
  | _ => true

section
variable {history : List Effect} {e : Effect} {r : Nat}

theorem IsSettled.cons (h : IsSettled history r) : IsSettled (e :: history) r := by
  obtain ⟨o, h⟩ := h
  exact ⟨o, List.mem_cons_of_mem _ h⟩

theorem Welcomed.cons {s : Nat} (h : Welcomed history s) : Welcomed (e :: history) s := by
  obtain ⟨v, h⟩ := h
  exact ⟨v, List.mem_cons_of_mem _ h⟩

theorem written_plain (h : e.plain = true) : Written (e :: history) r ↔ Written history r := by
  refine exists_congr fun s => exists_congr fun encoded => ?_
  rw [List.mem_cons, or_iff_right]
  rintro rfl
  cases h

theorem isSettled_plain (h : e.plain = true) : IsSettled (e :: history) r ↔ IsSettled history r := by
  refine exists_congr fun o => ?_
  rw [List.mem_cons, or_iff_right]
  rintro rfl
  cases h

theorem issued_plain {kind : RequestKind} {token : String} (h : e.plain = true) :
    .issued r kind token ∈ e :: history ↔ .issued r kind token ∈ history := by
  rw [List.mem_cons, or_iff_right]
  rintro rfl
  cases h

variable {r' s : Nat} {kind : RequestKind} {token : String} {encoded : Bytes} {settlement : Settlement}

@[simp] theorem written_issued : Written (.issued r' kind token :: history) r ↔ Written history r := by
  simp [Written]

@[simp] theorem written_settled : Written (.settled r' settlement :: history) r ↔ Written history r := by
  simp [Written]

@[simp] theorem written_wrote :
    Written (.wrote s (.request r') encoded :: history) r ↔ r = r' ∨ Written history r := by
  simp [Written, exists_or]

@[simp] theorem isSettled_issued : IsSettled (.issued r' kind token :: history) r ↔ IsSettled history r := by
  simp [IsSettled]

@[simp] theorem isSettled_wrote {frame : Outgoing} :
    IsSettled (.wrote s frame encoded :: history) r ↔ IsSettled history r := by
  simp [IsSettled]

@[simp] theorem isSettled_settled : IsSettled (.settled r' settlement :: history) r ↔ r = r' ∨ IsSettled history r := by
  simp [IsSettled, exists_or]

end

/-! ## The docket -/

structure Docket (pending : List PendingRequest) (requests : Nat) (history : List Effect) : Prop where
  order : pending.Pairwise (·.request < ·.request)
  known : ∀ e ∈ pending, e.request < requests
  named : ∀ e ∈ pending, .issued e.request e.kind e.key.token ∈ history
  space : ∀ e ∈ pending, e.key.space = e.kind.replySpace
  unsettled : ∀ e ∈ pending, ¬ IsSettled history e.request
  waiting : ∀ e ∈ pending, e.unwritten ≠ none → ∀ r, Written history r → r < e.request
  issued : ∀ r kind token, .issued r kind token ∈ history → r < requests
  written : ∀ r, Written history r → r < requests
  settled : ∀ r, IsSettled history r → r < requests
  accounted : ∀ r, r < requests → IsSettled history r ∨ ∃ e ∈ pending, e.request = r
  each : Each Follows history

namespace Docket

variable {pending : List PendingRequest} {requests : Nat} {history : List Effect}

theorem empty : Docket [] 0 [] := by
  refine ⟨.nil, List.forall_mem_nil _, List.forall_mem_nil _, List.forall_mem_nil _, List.forall_mem_nil _,
    List.forall_mem_nil _, ?_, ?_, ?_, ?_, .nil⟩
  · intro r kind token h; cases h
  · intro r h; obtain ⟨s, encoded, h⟩ := h; cases h
  · intro r h; obtain ⟨o, h⟩ := h; cases h
  · intro r h; exact absurd h (Nat.not_lt_zero r)

/-- An entry is known by its number. -/
theorem eq_of_request (d : Docket pending requests history) {e e' : PendingRequest} (he : e ∈ pending) (he' : e' ∈ pending)
    (h : e.request = e'.request) : e = e' := by
  have hnodup : (pending.map (·.request)).Nodup := List.pairwise_map.mpr (d.order.imp fun h => Nat.ne_of_lt h)
  exact List.inj_on_of_nodup_map hnodup he he' h

theorem plain (d : Docket pending requests history) {e : Effect} (he : e.plain = true) (hf : Follows e history) :
    Docket pending requests (e :: history) where
  order := d.order
  known := d.known
  named := fun e' h => (issued_plain he).mpr (d.named e' h)
  space := d.space
  unsettled := fun e' h => (isSettled_plain he).not.mpr (d.unsettled e' h)
  waiting := fun e' h hu r hr => d.waiting e' h hu r ((written_plain he).mp hr)
  issued := fun r kind token h => d.issued r kind token ((issued_plain he).mp h)
  written := fun r h => d.written r ((written_plain he).mp h)
  settled := fun r h => d.settled r ((isSettled_plain he).mp h)
  accounted := fun r h => (d.accounted r h).imp_left .cons
  each := .cons hf d.each

/-- Entries may change in their timer, and lose their encoding. -/
theorem relabel (d : Docket pending requests history) {f : PendingRequest → PendingRequest} (hkey : ∀ e, (f e).key = e.key)
    (hkind : ∀ e, (f e).kind = e.kind) (hrequest : ∀ e, (f e).request = e.request)
    (hunwritten : ∀ e, (f e).unwritten ≠ none → e.unwritten ≠ none) : Docket (pending.map f) requests history where
  order := List.pairwise_map.mpr (by simpa only [hrequest] using d.order)
  known := List.forall_mem_map.mpr fun e he => hrequest e ▸ d.known e he
  named := List.forall_mem_map.mpr fun e he => by rw [hrequest, hkind, hkey]; exact d.named e he
  space := List.forall_mem_map.mpr fun e he => by rw [hkey, hkind]; exact d.space e he
  unsettled := List.forall_mem_map.mpr fun e he => by rw [hrequest]; exact d.unsettled e he
  waiting := List.forall_mem_map.mpr fun e he hu => by rw [hrequest]; exact d.waiting e he (hunwritten e hu)
  issued := d.issued
  written := d.written
  settled := d.settled
  accounted := fun r hr => (d.accounted r hr).imp_right fun ⟨e, he, h⟩ =>
    ⟨f e, List.mem_map_of_mem he, (hrequest e).trans h⟩
  each := d.each

/-- A request is written that is older than all that wait. -/
theorem write (d : Docket pending requests history) {s r : Nat} {encoded : Bytes} (hr : r < requests)
    (hready : Welcomed history s) (hopen : ¬ IsSettled history r) (hold : ∀ r', Written history r' → r' < r)
    (hfirst : ∀ e ∈ pending, e.unwritten ≠ none → r < e.request) :
    Docket pending requests (.wrote s (.request r) encoded :: history) where
  order := d.order
  known := d.known
  named := fun e h => List.mem_cons_of_mem _ (d.named e h)
  space := d.space
  unsettled := fun e h => isSettled_wrote.not.mpr (d.unsettled e h)
  waiting := by
    intro e h hu r' hr'
    rcases written_wrote.mp hr' with rfl | hr'
    · exact hfirst e h hu
    · exact d.waiting e h hu r' hr'
  issued := fun r' kind token h => d.issued r' kind token (by simpa using h)
  written := by
    intro r' h
    rcases written_wrote.mp h with rfl | h
    · exact hr
    · exact d.written r' h
  settled := fun r' h => d.settled r' (isSettled_wrote.mp h)
  accounted := fun r' h => (d.accounted r' h).imp_left .cons
  each := by
    refine .cons ⟨fun _ => hready, ?_⟩ d.each
    intro r' he
    cases he
    exact ⟨hopen, hold⟩

theorem settle (d : Docket pending requests history) (hkeys : (pending.map (·.key)).Nodup) {key : Key} {entry : PendingRequest}
    (hfind : entryOf pending key = some entry) (settlement : Settlement) :
    Docket (pending.filter (·.key ≠ key)) requests (.settled entry.request settlement :: history) := by
  obtain ⟨hentry, hkey⟩ := (entryOf_eq_some_iff hkeys).mp hfind
  have hin : ∀ e, e ∈ pending.filter (·.key ≠ key) ↔ e ∈ pending ∧ e ≠ entry := by
    intro e
    rw [List.mem_filter]
    refine and_congr_right fun he => ?_
    simp only [ne_eq, decide_eq_true_eq]
    refine not_congr ⟨fun h => ?_, fun h => h ▸ hkey⟩
    exact List.inj_on_of_nodup_map hkeys he hentry (h.trans hkey.symm)
  have hsub : ∀ e ∈ pending.filter (·.key ≠ key), e ∈ pending := fun e he => ((hin e).mp he).1
  refine ⟨d.order.sublist List.filter_sublist, fun e he => d.known e (hsub e he),
    fun e he => List.mem_cons_of_mem _ (d.named e (hsub e he)), fun e he => d.space e (hsub e he), ?_,
    fun e he hu r h => d.waiting e (hsub e he) hu r (written_settled.mp h),
    fun r kind token h => d.issued r kind token (by simpa using h), fun r h => d.written r (written_settled.mp h), ?_, ?_,
    .cons (d.unsettled entry hentry) d.each⟩
  · intro e he hs
    obtain ⟨he, hne⟩ := (hin e).mp he
    rcases isSettled_settled.mp hs with hr | hs
    · exact hne (d.eq_of_request he hentry hr)
    · exact d.unsettled e he hs
  · intro r h
    rcases isSettled_settled.mp h with rfl | h
    · exact d.known entry hentry
    · exact d.settled r h
  · intro r hr
    rcases d.accounted r hr with h | ⟨e, he, rfl⟩
    · exact .inl h.cons
    · by_cases h : e = entry
      · subst h; exact .inl ⟨settlement, List.mem_cons_self⟩
      · exact .inr ⟨e, (hin e).mpr ⟨he, h⟩, rfl⟩

/-- A call takes the next number. -/
theorem issued_succ (d : Docket pending requests history) {kind : RequestKind} {token : String} :
    ∀ r kind' token', .issued r kind' token' ∈ .issued requests kind token :: history → r < requests + 1 := by
  intro r kind' token' h
  rcases List.mem_cons.mp h with h | h
  · cases h; exact Nat.lt_succ_self _
  · exact Nat.lt_succ_of_lt (d.issued r kind' token' h)

theorem enter (d : Docket pending requests history) (entry : PendingRequest) (hr : entry.request = requests)
    (hspace : entry.key.space = entry.kind.replySpace) :
    Docket (pending ++ [entry]) (requests + 1) (.issued requests entry.kind entry.key.token :: history) := by
  refine ⟨?_, ?_, ?_, ?_, ?_, ?_, d.issued_succ, fun r h => Nat.lt_succ_of_lt (d.written r (written_issued.mp h)),
    fun r h => Nat.lt_succ_of_lt (d.settled r (isSettled_issued.mp h)), ?_, .cons d.issued d.each⟩
  · refine List.pairwise_append.mpr ⟨d.order, List.pairwise_singleton _ _, ?_⟩
    intro e he e' he'
    rw [List.mem_singleton.mp he', hr]; exact d.known e he
  all_goals first | refine List.forall_mem_append.mpr ⟨?_, List.forall_mem_singleton.mpr ?_⟩ | skip
  · intro e he; exact Nat.lt_succ_of_lt (d.known e he)
  · rw [hr]; exact Nat.lt_succ_self _
  · intro e he; exact List.mem_cons_of_mem _ (d.named e he)
  · rw [hr]; exact List.mem_cons_self
  · exact d.space
  · exact hspace
  · intro e he hs; exact d.unsettled e he (isSettled_issued.mp hs)
  · intro hs
    rw [hr] at hs; exact Nat.lt_irrefl _ (d.settled _ (isSettled_issued.mp hs))
  · intro e he hu r h; exact d.waiting e he hu r (written_issued.mp h)
  · intro _ r h
    rw [hr]; exact d.written r (written_issued.mp h)
  · intro r h
    rcases Nat.lt_succ_iff_lt_or_eq.mp h with h | rfl
    · refine (d.accounted r h).imp .cons ?_
      rintro ⟨e, he, h⟩
      exact ⟨e, List.mem_append_left _ he, h⟩
    · exact .inr ⟨entry, List.mem_append_right _ List.mem_cons_self, hr⟩

/-- A call that is refused is settled at once. -/
theorem refuse (d : Docket pending requests history) (kind : RequestKind) (token : String) (settlement : Settlement) :
    Docket pending (requests + 1) (.settled requests settlement :: .issued requests kind token :: history) := by
  refine ⟨d.order, fun e he => Nat.lt_succ_of_lt (d.known e he),
    fun e he => List.mem_cons_of_mem _ (List.mem_cons_of_mem _ (d.named e he)), d.space, ?_,
    fun e he hu r h => d.waiting e he hu r (by simpa using h),
    fun r kind' token' h => d.issued_succ r kind' token' (by simpa using h),
    fun r h => Nat.lt_succ_of_lt (d.written r (by simpa using h)), ?_, ?_,
    .cons (fun hs => Nat.lt_irrefl _ (d.settled _ (isSettled_issued.mp hs))) (.cons d.issued d.each)⟩
  · intro e he hs
    rcases isSettled_settled.mp hs with hr | hs
    · exact Nat.ne_of_lt (d.known e he) hr
    · exact d.unsettled e he (isSettled_issued.mp hs)
  · intro r h
    rcases isSettled_settled.mp h with rfl | h
    · exact Nat.lt_succ_self _
    · exact Nat.lt_succ_of_lt (d.settled r (isSettled_issued.mp h))
  · intro r h
    rcases Nat.lt_succ_iff_lt_or_eq.mp h with h | rfl
    · exact (d.accounted r h).imp_left fun h => h.cons.cons
    · exact .inl ⟨settlement, List.mem_cons_self⟩

end Docket

end OmpRelayd.Client
