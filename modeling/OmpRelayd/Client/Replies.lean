/-
  OmpRelayd.Client.Replies — whose answer a reply is.

  The relay answers a request with one frame at most: the reply of its kind or an error, with the
  request's token, and perhaps long after the client has given up. `Honest answered` says that of
  everything a client was told: the frame at each place answers the request `answered` names for
  it, one that was written on the same connection and that no frame before it answers.

  An error names a token and no kind, and the client tries the reply spaces in a fixed order. With
  a `list` and a `send` outstanding under one token the error of the `send` settles the `list`
  (`an_error_settles_another_request`). In runs in which no call has a token that is outstanding,
  or timed out, in another reply space, every answer settles the request it answers or nothing
  (`a_reply_settles_only_its_request`): what has been written and not answered is still pending,
  or its token is still known for a late one.
-/

import OmpRelayd.Client.Courses
import OmpRelayd.Client.Lifecycle

namespace OmpRelayd.Client

/-! ## An honest relay -/

/-- The token a frame answers by. -/
def tokenOf : ServerFrame → Option String
  | .peers requestId _ => some requestId
  | .receipt id _ _ => some id
  | .accepted id _ _ => some id
  | .reserved requestId _ _ => some requestId
  | .error _ _ requestId => requestId
  | _ => none

/-- The frame can be the answer to such a request. -/
def Answers (frame : ServerFrame) (kind : RequestKind) (token : String) : Prop :=
  tokenOf frame = some token ∧ (frame.type = kind.reply ∨ frame.type = "error")

/-- No frame so far is the answer to this request. -/
def Unanswered (answered : Nat → Nat) (history : List Effect) (r : Nat) : Prop :=
  ∀ newer s frame older, history = newer ++ .dispatched s frame :: older → tokenOf frame ≠ none → answered older.length ≠ r

/-- What a relay may say: a frame with a token is the first answer to a request written on its connection, and there
    is no refusal that names none. -/
def Said (answered : Nat → Nat) (e : Effect) (older : List Effect) : Prop :=
  ∀ s frame, e = .dispatched s frame →
    (∀ message, frame ≠ .error "unsupported_frame" message none) ∧
    (tokenOf frame ≠ none → Unanswered answered older (answered older.length) ∧
      ∃ kind token encoded, .issued (answered older.length) kind token ∈ older ∧
        .wrote s (.request (answered older.length)) encoded ∈ older ∧ Answers frame kind token)

/-- `answered n` is the request that a frame which comes after `n` effects is the answer to. -/
def Honest (answered : Nat → Nat) (history : List Effect) : Prop := Each (Said answered) history

theorem Unanswered.of_suffix {answered : Nat → Nat} {history older : List Effect} {r : Nat}
    (h : Unanswered answered history r) (hs : older <:+ history) : Unanswered answered older r := by
  obtain ⟨newer, rfl⟩ := hs
  exact fun newer' s frame older' he => h (newer ++ newer') s frame older' (by rw [he, List.append_assoc])

/-! ## Settlements -/

/-- The relay's word, and not the client's own. -/
def Settlement.ofRelay : Settlement → Prop
  | .resolved _ => True
  | .rejected error => error.reason ∈ [.relayError, .unexpectedReply, .unsupported]

/-- A settlement by the relay comes right after the frame that is the answer to the request. -/
def Caused (answered : Nat → Nat) (e : Effect) (older : List Effect) : Prop :=
  ∀ r settlement, e = .settled r settlement → settlement.ofRelay →
    ∃ s frame before, older = .dispatched s frame :: before ∧ tokenOf frame ≠ none ∧ answered before.length = r

theorem not_ofRelay {kind : RequestKind} {token : String} {error : RequestFailed}
    (h : error.reason ∈ [.stopped, .disconnected, .timeout, .invalidRequest]) :
    ¬ (kind.conclude token (.failed error)).ofRelay := by
  rw [conclude_failed (by intro he; rw [he] at h; simp at h)]
  intro hr
  have hr : error.reason ∈ [.relayError, .unexpectedReply, .unsupported] := hr
  simp only [List.mem_cons, List.not_mem_nil, or_false] at h hr
  rcases h with h | h | h | h <;> rw [h] at hr <;> simp at hr

/-! ## What is written and not answered -/

/-- The keys an answer can still find, or is known to be too late for. -/
def Known (c : RelayClient) (key : Key) : Prop := (∃ e ∈ c.pending, e.key = key) ∨ key ∈ c.timedOut

/-- The token of a call is neither outstanding nor timed out in another reply space. -/
def Apart (c : RelayClient) (key : Key) : Prop := ∀ space, space ≠ key.space → ¬ Known c ⟨space, key.token⟩

structure Matched (answered : Nat → Nat) (c : RelayClient) : Prop where
  apart : ∀ k k', Known c k → Known c k' → k.token = k'.token → k = k'
  buried : ∀ e ∈ c.pending, e.key ∉ c.timedOut
  /-- A frame that has just come is not counted yet. -/
  traced : ∀ s r encoded, c.socket = some s → .wrote s (.request r) encoded ∈ c.history →
    Unanswered answered c.history.tail r →
    (∃ e ∈ c.pending, e.request = r) ∨ ∃ kind token, .issued r kind token ∈ c.history ∧ ⟨kind.replySpace, token⟩ ∈ c.timedOut
  each : Each (Caused answered) c.history

/-- A request has one kind and one token. -/
theorem Docket.issued_unique {pending : List PendingRequest} {requests : Nat} {history : List Effect}
    (d : Docket pending requests history) {r : Nat} {kind kind' : RequestKind} {token token' : String}
    (h : .issued r kind token ∈ history) (h' : .issued r kind' token' ∈ history) : kind = kind' ∧ token = token' := by
  obtain ⟨newer, older, he⟩ := List.append_of_mem h
  rw [he] at h'
  rcases List.mem_append.mp h' with h' | h'
  · obtain ⟨newer, between, rfl⟩ := List.append_of_mem h'
    rw [List.append_assoc] at he
    have hlt : r < r := d.each newer (.issued r kind' token') _ he r kind token
      (List.mem_append_right _ List.mem_cons_self)
    exact absurd hlt (Nat.lt_irrefl r)
  · rcases List.mem_cons.mp h' with h' | h'
    · cases h'; exact ⟨rfl, rfl⟩
    · have hlt : r < r := d.each newer (.issued r kind token) older he r kind' token' h'
      exact absurd hlt (Nat.lt_irrefl r)

section
variable {world : World} {answered : Nat → Nat} {c c' : RelayClient}

theorem unanswered_tail {new history : List Effect} {r : Nat} (h : Unanswered answered (new ++ history).tail r) :
    Unanswered answered history.tail r := by
  cases new with
  | nil => exact h
  | cons e new => exact h.of_suffix ((List.tail_suffix _).trans (List.suffix_append new history))

/-- What the client settles of its own accord has no frame as its cause. -/
theorem Settles.caused {error : RequestFailed} {new : List Effect} (h : ∀ e ∈ new, Settles (.failed error) e)
    (hown : error.reason ∈ [.stopped, .disconnected, .timeout, .invalidRequest]) : ∀ e ∈ new, ∀ past, Caused answered e past := by
  intro e he past r settlement hs hr
  obtain ⟨r', kind, token, rfl⟩ := h e he
  cases hs
  exact absurd hr (not_ofRelay hown)

namespace Matched

theorem apart_of (h : Matched answered c) (hknown : ∀ k, Known c' k → Known c k) :
    ∀ k k', Known c' k → Known c' k' → k.token = k'.token → k = k' :=
  fun k k' hk hk' => h.apart k k' (hknown k hk) (hknown k' hk')

/-- Requests and tombstones are as they were, no request was written, and what was settled was by the client. -/
theorem extend (h : Matched answered c) (new : List Effect) (hpending : c'.pending = c.pending)
    (htimedOut : c'.timedOut = c.timedOut) (hsocket : c'.socket = c.socket) (hhistory : c'.history = new ++ c.history)
    (hnew : ∀ e ∈ new, (∀ past, Caused answered e past) ∧ ∀ s r encoded, e ≠ .wrote s (.request r) encoded) :
    Matched answered c' := by
  refine ⟨h.apart_of fun k hk => ?_, ?_, ?_, ?_⟩
  · rw [Known, hpending, htimedOut] at hk; exact hk
  · rw [hpending, htimedOut]; exact h.buried
  · rw [hpending, htimedOut, hsocket, hhistory]
    intro s r encoded hs hw hu
    have hw : .wrote s (.request r) encoded ∈ c.history :=
      (List.mem_append.mp hw).resolve_left fun hm => (hnew _ hm).2 s r encoded rfl
    refine (h.traced s r encoded hs hw (unanswered_tail hu)).imp_right ?_
    rintro ⟨kind, token, hissued, hk⟩
    exact ⟨kind, token, List.mem_append_right _ hissued, hk⟩
  · rw [hhistory]
    exact .append (fun e he => (hnew e he).1) h.each

/-- No connection, no request and no tombstone. -/
theorem down (h : Matched answered c) (new : List Effect) (hpending : c'.pending = []) (htimedOut : c'.timedOut = [])
    (hsocket : c'.socket = none) (hhistory : c'.history = new ++ c.history) (hnew : ∀ e ∈ new, ∀ past, Caused answered e past) :
    Matched answered c' := by
  refine ⟨?_, ?_, ?_, ?_⟩
  · intro k k' hk
    simp [Known, hpending, htimedOut] at hk
  · rw [hpending]; exact List.forall_mem_nil _
  · intro s r encoded hs
    rw [hsocket] at hs; cases hs
  · rw [hhistory]; exact .append hnew h.each

/-- A frame comes and its token is that of a pending request: then the frame is its answer. -/
theorem answers (h : Matched answered c) (hi : Intact c) {s : Nat} {frame : ServerFrame} {before : List Effect} {key : Key}
    {outcome : RequestOutcome} {e : PendingRequest} (hh : c.history = .dispatched s frame :: before)
    (hsaid : Said answered (.dispatched s frame) before) (hr : Reply frame key outcome) (hs : c.socket = some s)
    (he : e ∈ c.pending) (hkey : e.key = key) : tokenOf frame ≠ none ∧ answered before.length = e.request := by
  have htoken : tokenOf frame = some key.token := by cases hr <;> rfl
  have hsome : tokenOf frame ≠ none := by rw [htoken]; exact Option.some_ne_none _
  refine ⟨hsome, ?_⟩
  obtain ⟨hfirst, kind, token, encoded, hissued, hwrote, hanswers⟩ := (hsaid s frame rfl).2 hsome
  cases htoken.symm.trans hanswers.1
  have hbefore : ∀ x ∈ before, x ∈ c.history := fun x hx => hh ▸ List.mem_cons_of_mem _ hx
  rcases h.traced s _ encoded hs (hbefore _ hwrote) (by rw [hh]; exact hfirst) with ⟨e', he', hr'⟩ | ⟨kind', token', hissued', hlate⟩
  · -- it is pending: two entries with one token are one
    have hnamed := hi.books.docket.named e' he'
    rw [hr'] at hnamed
    obtain ⟨-, htok⟩ := hi.books.docket.issued_unique hnamed (hbefore _ hissued)
    have hsame := h.apart e'.key e.key (.inl ⟨e', he', rfl⟩) (.inl ⟨e, he, rfl⟩) (by rw [htok, hkey])
    rw [List.inj_on_of_nodup_map hi.books.wired.keys he he' hsame.symm]; exact hr'.symm
  · -- it timed out: then its token is not that of a pending request
    obtain ⟨-, htok⟩ := hi.books.docket.issued_unique hissued' (hbefore _ hissued)
    have hsame := h.apart _ e.key (.inr hlate) (.inl ⟨e, he, rfl⟩) (by rw [hkey]; exact htok)
    rw [hsame] at hlate
    exact absurd hlate (h.buried e he)

theorem settleKey (h : Matched answered c) (hi : Intact c) {s : Nat} {frame : ServerFrame} {before : List Effect} {key : Key}
    {outcome : RequestOutcome} (hh : c.history = .dispatched s frame :: before)
    (hsaid : Said answered (.dispatched s frame) before) (hr : Reply frame key outcome) (hs : c.socket = some s) :
    Matched answered (c.settleKey key outcome).2 := by
  cases hfind : c.find key with
  | none =>
    rw [RelayClient.settleKey, hfind]
    exact h
  | some entry =>
    obtain ⟨hentry, hkey⟩ := (entryOf_eq_some_iff hi.books.wired.keys).mp hfind
    obtain ⟨hsome, hmine⟩ := h.answers hi hh hsaid hr hs hentry hkey
    obtain ⟨timers, hform⟩ := c.settleKey_found hfind outcome
    rw [hform]
    refine ⟨?_, fun e he => h.buried e (List.mem_of_mem_filter he), ?_, .cons ?_ h.each⟩
    · refine h.apart_of fun k hk => ?_
      rcases hk with ⟨e, he, hk⟩ | hk
      · exact .inl ⟨e, List.mem_of_mem_filter he, hk⟩
      · exact .inr hk
    · intro s' r encoded hs' hw hu
      have hw : .wrote s' (.request r) encoded ∈ c.history := by simpa using hw
      have hu : Unanswered answered c.history r := hu
      rcases h.traced s' r encoded hs' hw (hu.of_suffix (List.tail_suffix _)) with ⟨e, he, rfl⟩ | ⟨kind, token, hissued, hlate⟩
      · -- the one that went has been answered
        refine .inl ⟨e, List.mem_filter.mpr ⟨he, ?_⟩, rfl⟩
        simp only [ne_eq, decide_eq_true_eq]
        intro hk
        rw [List.inj_on_of_nodup_map hi.books.wired.keys he hentry (hk.trans hkey.symm)] at hu
        exact hu [] s frame before hh hsome hmine
      · exact .inr ⟨kind, token, List.mem_cons_of_mem _ hissued, hlate⟩
    · intro r settlement heq _
      cases heq
      exact ⟨s, frame, before, hh, hsome, hmine⟩

theorem expire (h : Matched answered c) (hi : Intact c) (handle : Nat) (key : Key) :
    Matched answered (c.fire world handle (.request key)) := by
  have hdead : ∀ k, k ∈ c.tombstones key → k ∈ c.timedOut ∨ k = key ∧ ∃ e ∈ c.pending, e.key = key := by
    intro k hk
    unfold RelayClient.tombstones at hk
    split at hk
    · rename_i hany
      obtain ⟨e, he, -⟩ := (Option.any_eq_true ..).mp hany
      obtain ⟨hmem, hkey⟩ := (entryOf_eq_some_iff hi.books.wired.keys).mp he
      exact (List.mem_cons.mp hk).symm.imp_right fun hk => ⟨hk, e, hmem, hkey⟩
    · exact .inl hk
  have holder : ∀ k ∈ c.timedOut, k ∈ c.tombstones key := by
    intro k hk
    unfold RelayClient.tombstones
    split
    · exact List.mem_cons_of_mem _ hk
    · exact hk
  obtain ⟨timers, new, hnew, hform⟩ := c.expire_form world handle key
  rw [hform]
  refine ⟨?_, ?_, ?_, .append (Settles.caused hnew (by decide)) h.each⟩
  · refine h.apart_of fun k hk => ?_
    rcases hk with ⟨e, he, hk⟩ | hk
    · exact .inl ⟨e, List.mem_of_mem_filter he, hk⟩
    · rcases hdead k hk with hk | ⟨rfl, hpending⟩
      · exact .inr hk
      · exact .inl hpending
  · intro e he hlate
    obtain ⟨he, hkey⟩ := List.mem_filter.mp he
    rcases hdead _ hlate with hlate | ⟨hk, -⟩
    · exact h.buried e he hlate
    · simp [hk] at hkey
  · intro s r encoded hs hw hu
    have hw : .wrote s (.request r) encoded ∈ c.history :=
      (List.mem_append.mp hw).resolve_left (Settles.not_wrote hnew s _ encoded)
    rcases h.traced s r encoded hs hw (unanswered_tail hu) with ⟨e, he, rfl⟩ | ⟨kind, token, hissued, hlate⟩
    · by_cases hk : e.key = key
      · -- it was written, so it leaves a tombstone
        have hwritten : e.unwritten = none := by
          by_contra hu
          exact Nat.lt_irrefl _ (hi.books.docket.waiting e he hu e.request ⟨s, encoded, hw⟩)
        have hfind : c.find key = some e := (entryOf_eq_some_iff hi.books.wired.keys).mpr ⟨he, hk⟩
        refine .inr ⟨e.kind, e.key.token, List.mem_append_right _ (hi.books.docket.named e he), ?_⟩
        show _ ∈ c.tombstones key
        rw [RelayClient.tombstones, hfind, ← hi.books.docket.space e he]
        simp [hwritten, ← hk]
      · exact .inl ⟨e, List.mem_filter.mpr ⟨he, by simpa using hk⟩, rfl⟩
    · exact .inr ⟨kind, token, List.mem_append_right _ hissued, holder _ hlate⟩

theorem enter (h : Matched answered c) {key : Key} (kind : RequestKind) (encoded : Bytes) (hold : key ∉ c.timedOut)
    (hapart : Apart c key) : Matched answered (c.entered key kind encoded) := by
  have hknown : ∀ k, Known (c.entered key kind encoded) k → Known c k ∨ k = key := by
    rintro k (⟨e, he, hk⟩ | hk)
    · rcases List.mem_append.mp he with he | he
      · exact .inl (.inl ⟨e, he, hk⟩)
      · rw [List.mem_singleton.mp he] at hk; exact .inr hk.symm
    · exact .inl (.inr hk)
  have hnone : ∀ k, Known c k → k.token = key.token → k = key := by
    intro k hk htoken
    by_contra hne
    obtain ⟨space, token⟩ := k
    cases htoken
    exact hapart space (fun hs => hne (by rw [hs])) hk
  refine ⟨?_, ?_, ?_, .cons (fun r o heq => by cases heq) h.each⟩
  · intro k k' hk hk' htoken
    rcases hknown k hk with hold | hnew
    · rcases hknown k' hk' with hold' | hnew'
      · exact h.apart k k' hold hold' htoken
      · rw [hnew'] at htoken ⊢; exact hnone k hold htoken
    · rcases hknown k' hk' with hold' | hnew'
      · rw [hnew] at htoken ⊢; exact (hnone k' hold' htoken.symm).symm
      · rw [hnew, hnew']
  · exact List.forall_mem_append.mpr ⟨h.buried, List.forall_mem_singleton.mpr hold⟩
  · intro s r encoded' hs hw hu
    have hw : .wrote s (.request r) encoded' ∈ c.history := by simpa [RelayClient.entered] using hw
    have hu : Unanswered answered c.history r := hu
    refine (h.traced s r encoded' hs hw (hu.of_suffix (List.tail_suffix _))).imp ?_ ?_
    · rintro ⟨e, he, hr⟩
      exact ⟨e, List.mem_append_left _ he, hr⟩
    · rintro ⟨kind', token, hissued, hlate⟩
      exact ⟨kind', token, List.mem_cons_of_mem _ hissued, hlate⟩

theorem sent (h : Matched answered c) {s : Nat} {entry : PendingRequest} (encoded : Bytes) (he : entry ∈ c.pending) :
    Matched answered ((c.markWritten entry.request).record (.wrote s (.request entry.request) encoded)) := by
  have hmark := mark_same entry.request
  have hpending : ∀ e, e ∈ (c.markWritten entry.request).pending ↔ ∃ e' ∈ c.pending, mark entry.request e' = e :=
    fun e => by rw [markWritten_pending, List.mem_map]
  refine ⟨h.apart_of fun k hk => ?_, ?_, ?_, .cons (fun r o heq => by cases heq) h.each⟩
  · rcases hk with ⟨e, he, hk⟩ | hk
    · obtain ⟨e', he', rfl⟩ := (hpending e).mp he
      exact .inl ⟨e', he', (hmark e').1 ▸ hk⟩
    · exact .inr hk
  · intro e he
    obtain ⟨e', he', rfl⟩ := (hpending e).mp he
    rw [(hmark e').1]; exact h.buried e' he'
  · intro s' r encoded' hs hw hu
    have hu : Unanswered answered c.history r := hu
    rcases List.mem_cons.mp hw with hw | hw
    · cases hw
      exact .inl ⟨_, (hpending _).mpr ⟨entry, he, rfl⟩, (hmark entry).2.2.1⟩
    · refine (h.traced s' r encoded' hs hw (hu.of_suffix (List.tail_suffix _))).imp ?_ ?_
      · rintro ⟨e, he, hr⟩
        exact ⟨_, (hpending _).mpr ⟨e, he, rfl⟩, ((hmark e).2.2.1).trans hr⟩
      · rintro ⟨kind, token, hissued, hlate⟩
        exact ⟨kind, token, List.mem_cons_of_mem _ hissued, hlate⟩

end Matched

theorem Move.matched (hm : Move world Apart c c') (h : Matched answered c) (hi : Intact c) (hh : Honest answered c'.history) :
    Matched answered c' := by
  cases hm with
  | aside accumulator attempt outageReported statedCause generation detached connects writes calls =>
    exact ⟨h.apart, h.buried, h.traced, h.each⟩
  | passed e he =>
    refine h.extend [e] rfl rfl rfl rfl (List.forall_mem_singleton.mpr ⟨?_, ?_⟩)
    · rintro past r o rfl; cases he
    · rintro s r encoded rfl; cases he
  | dispatched s frame hs =>
    refine h.extend [.dispatched s frame] rfl rfl rfl rfl (List.forall_mem_singleton.mpr ⟨?_, ?_⟩)
    · intro past r o heq; cases heq
    · intro s r encoded heq; cases heq
  | cleared slot =>
    obtain ⟨timers, he⟩ := c.clear_form slot
    rw [he]
    exact ⟨h.apart, h.buried, h.traced, h.each⟩
  | armed slot timer ht hfree hlone hon | displaced hs | readied s hs hd | perished s socket hs =>
    exact ⟨h.apart, h.buried, h.traced, h.each⟩
  | stopped =>
    obtain ⟨timers, new, hnew, he⟩ := c.stop_form
    rw [he]
    refine h.down (new ++ [.stopped]) rfl rfl rfl (by simp) (List.forall_mem_append.mpr ⟨?_, List.forall_mem_singleton.mpr ?_⟩)
    · exact Settles.caused hnew (by simp [RelayClient.stopError])
    · intro past r o heq; cases heq
  | tornDown s reason hs =>
    obtain ⟨timers, new, hnew, he⟩ := c.teardown_form s reason
    rw [he]
    exact h.down new rfl rfl rfl rfl (Settles.caused hnew (by simp))
  | connected hr hs hw =>
    refine ⟨h.apart, h.buried, ?_, h.each⟩
    intro s r encoded hs' hwrote
    cases hs'
    exact absurd (hi.sites _ _ encoded hwrote) (Nat.lt_irrefl _)
  | wrote s frame encoded hs hf =>
    refine h.extend [.wrote s frame encoded] rfl rfl rfl rfl (List.forall_mem_singleton.mpr ⟨?_, ?_⟩)
    · intro past r o heq; cases heq
    · intro s' r encoded' heq
      cases heq
      rcases hf with hf | ⟨hf, -⟩ <;> cases hf
  | sent s entry encoded hs hr he hu hfirst => exact h.sent encoded he
  | entered key kind encoded hr hnew hold hspace hlaw => exact h.enter kind encoded hold hlaw
  | refused kind token error herr =>
    refine h.extend [.settled c.requests (.rejected error), .issued c.requests kind token] rfl rfl rfl rfl
      (List.forall_mem_cons.mpr ⟨⟨?_, ?_⟩, List.forall_mem_singleton.mpr ⟨?_, ?_⟩⟩)
    · intro past r o heq hr
      cases heq
      simp only [List.mem_cons, List.not_mem_nil, or_false] at herr
      rcases herr with herr | herr <;> simp [Settlement.ofRelay, herr] at hr
    · intro s r encoded heq; cases heq
    · intro past r o heq; cases heq
    · intro s r encoded heq; cases heq
  | answered s frame older key outcome hh' hr hs =>
    obtain ⟨timers, new, -, he⟩ := c.settleKey_form key outcome
    rw [he] at hh
    have hsaid : Each (Said answered) c.history := Each.of_append hh
    exact h.settleKey hi hh' (hsaid [] _ older hh') hr hs
  | denied s message key outcome hd =>
    obtain ⟨timers, new, -, he⟩ := c.settleKey_form key outcome
    rw [he] at hh
    have hsaid : Each (Said answered) c.history := Each.of_append hh
    obtain ⟨newer, older, hsplit⟩ := List.append_of_mem hd
    exact absurd rfl ((hsaid newer _ older hsplit s _ rfl).1 message)
  | expired handle key hl => exact h.expire hi handle key

theorem Honest.of_suffix {history older : List Effect} (h : Honest answered history) (hs : older <:+ history) :
    Honest answered older := by
  obtain ⟨newer, rfl⟩ := hs
  exact Each.of_append h

theorem Moves.matched (hm : Moves world Apart c c') (h : Matched answered c) (hi : Intact c)
    (hh : Honest answered c'.history) : Matched answered c' := by
  induction hm with
  | refl => exact h
  | tail hms hm ih => exact hm.matched (ih (hh.of_suffix hm.grows)) (Moves.intact hms hi) hh

theorem matched_init : Matched answered {} := by
  refine ⟨?_, List.forall_mem_nil _, ?_, .nil⟩
  · rintro k k' (⟨e, he, -⟩ | hk)
    · cases he
    · cases hk
  · intro s r encoded hs; cases hs

theorem begun_matched (h : Matched answered c) : Matched answered c.begun := by
  refine h.extend [.started] rfl rfl rfl rfl (List.forall_mem_singleton.mpr ⟨?_, ?_⟩)
  · intro past r o heq; cases heq
  · intro s r encoded heq; cases heq

end

/-- No call has a token that is outstanding, or timed out on the connection, in another reply space. -/
def TokensApart (c : RelayClient) (event : Event) : Prop :=
  ∀ call, event = .call call → Apart c ⟨call.kind.replySpace, call.token⟩

theorem a_reply_settles_only_its_request (world : World) (answered : Nat → Nat) (c : RelayClient)
    (h : Reach (step world) {} TokensApart c) (hh : Honest answered c.history) :
    ∀ newer r settlement older, c.history = newer ++ .settled r settlement :: older → settlement.ofRelay →
      ∃ s frame before, older = .dispatched s frame :: before ∧ tokenOf frame ≠ none ∧ answered before.length = r := by
  suffices hm : Matched answered c from fun newer r settlement older he hr => hm.each newer _ older he r settlement rfl hr
  induction h with
  | init => exact matched_init
  | step e hreach hok he ih =>
    obtain ⟨hi, hrest⟩ := intact_of_reach hreach
    rcases step_course hi hrest hok he with hcourse | ⟨-, hs, hcourse⟩
    · exact hcourse.moves.matched (ih (hh.of_suffix hcourse.moves.grows)) hi hh
    · have hgrows := Moves.grows hcourse.moves
      refine hcourse.moves.matched (begun_matched (ih (hh.of_suffix ?_))) (begun_intact hi hs) hh
      exact (List.suffix_cons _ _).trans hgrows

/-! ## One roster, asked for and answered -/

/-- Nothing the relay said carries a token. -/
def tokenless : Effect → Bool
  | .dispatched _ (.ready _) => true
  | .dispatched _ _ => false
  | _ => true

theorem tokenOf_tokenless {s : Nat} {frame : ServerFrame} (h : tokenless (.dispatched s frame) = true) :
    tokenOf frame = none ∧ frame.type = "ready" := by
  cases frame <;> first | exact ⟨rfl, rfl⟩ | cases h

theorem unanswered_of_tokenless {answered : Nat → Nat} {history : List Effect} (h : ∀ e ∈ history, tokenless e = true) (r : Nat) :
    Unanswered answered history r := by
  intro newer s frame older he hsome
  have hmem : .dispatched s frame ∈ history := by rw [he]; exact List.mem_append_right _ List.mem_cons_self
  exact absurd (tokenOf_tokenless (h _ hmem)).1 hsome

theorem said_of_tokenless {answered : Nat → Nat} {e : Effect} (h : tokenless e = true) (past : List Effect) :
    Said answered e past := by
  rintro s frame rfl
  obtain ⟨hnone, htype⟩ := tokenOf_tokenless h
  refine ⟨?_, fun hsome => absurd hnone hsome⟩
  rintro message rfl
  exact absurd htype (by simp [ServerFrame.type])

theorem honest_of_tokenless {answered : Nat → Nat} {history : List Effect} (h : ∀ e ∈ history, tokenless e = true) :
    Honest answered history := by
  have heach : Each (Said answered) (history ++ []) := .append (fun e he => said_of_tokenless (h e he)) .nil
  rwa [List.append_nil] at heach

/-- The first frame with a token is an answer, and something is settled by it. -/
theorem honest_of_first {answered : Nat → Nat} {before : List Effect} {s r : Nat} {frame : ServerFrame} {o : Settlement}
    (hbefore : ∀ e ∈ before, tokenless e = true) (hnamed : ∀ message, frame ≠ .error "unsupported_frame" message none)
    (hanswer : ∃ kind token encoded, .issued (answered before.length) kind token ∈ before ∧
      .wrote s (.request (answered before.length)) encoded ∈ before ∧ Answers frame kind token) :
    Honest answered (.settled r o :: .dispatched s frame :: before) := by
  have hsettled : Said answered (.settled r o) (.dispatched s frame :: before) := by
    intro s' frame' heq; cases heq
  have hsaid : Said answered (.dispatched s frame) before := by
    intro s' frame' heq
    cases heq
    exact ⟨hnamed, fun _ => ⟨unanswered_of_tokenless hbefore _, hanswer⟩⟩
  exact .cons hsettled (.cons hsaid (honest_of_tokenless hbefore))

/-- `peers` for the token `roster`, with one name -/
def peersWire : Bytes :=
  [0, 0, 0, 41, 0x83, 0xa4, 0x74, 0x79, 0x70, 0x65, 0xa5, 0x70, 0x65, 0x65, 0x72, 0x73, 0xaa, 0x72, 0x65, 0x71, 0x75, 0x65,
    0x73, 0x74, 0x5f, 0x69, 0x64, 0xa6, 0x72, 0x6f, 0x73, 0x74, 0x65, 0x72, 0xa5, 0x70, 0x65, 0x65, 0x72, 0x73, 0x91, 0xa3,
    0x62, 0x6f, 0x62]

/-- `error` for the token `x` -/
def errorWire : Bytes :=
  [0, 0, 0, 49, 0x83, 0xa4, 0x74, 0x79, 0x70, 0x65, 0xa5, 0x65, 0x72, 0x72, 0x6f, 0x72, 0xa4, 0x63, 0x6f, 0x64, 0x65, 0xb2,
    0x69, 0x6e, 0x76, 0x61, 0x6c, 0x69, 0x64, 0x5f, 0x69, 0x64, 0x65, 0x6e, 0x74, 0x69, 0x66, 0x69, 0x65, 0x72, 0xaa, 0x72,
    0x65, 0x71, 0x75, 0x65, 0x73, 0x74, 0x5f, 0x69, 0x64, 0xa1, 0x78]

def peersValue : Js :=
  .record [("type", .string "peers"), ("request_id", .string "roster"), ("peers", .array [.string "bob"])]

def errorValue : Js :=
  .record [("type", .string "error"), ("code", .string "invalid_identifier"), ("request_id", .string "x")]

set_option maxRecDepth 4000 in
theorem nextFrame_peers : nextFrame quietWorld.decode peersWire = .item peersValue [] :=
  nextFrame_whole (by decide) (by decide) (by decide) rfl

set_option maxRecDepth 4000 in
theorem nextFrame_error : nextFrame quietWorld.decode errorWire = .item errorValue [] :=
  nextFrame_whole (by decide) (by decide) (by decide) rfl

/-- The client is ready. -/
def welcomed : RelayClient := afterHello.told quietWorld 0 readyWire readyValue

/-- It asks for the roster, and is answered. -/
def asked : RelayClient := welcomed.call quietWorld (.list "roster")

def informed : RelayClient := asked.told quietWorld 0 peersWire peersValue

/-- Up to `ready` there has been no call. -/
theorem reach_welcomed : Reach (step quietWorld) {} TokensApart welcomed := by
  have hhello : Reach (step quietWorld) {} TokensApart afterHello := by
    refine Reach.of_runIf (fun _ e => match e with | .call _ => false | _ => true) ?_ [.start, .fired 0, .connected 0] .init rfl
    rintro c e he call rfl
    cases he
  exact .step (.data 0 readyWire) hhello (fun call h => by cases h) (step_told rfl rfl rfl nextFrame_ready)

set_option maxRecDepth 4000 in
theorem a_roster_answers_the_request_for_it :
    Reach (step quietWorld) {} TokensApart informed ∧ Honest (fun _ => 0) informed.history ∧
      ∃ older, informed.history = .settled 0 (.resolved (.peers "roster" ["bob"])) :: older ∧
        ∃ s frame before, older = .dispatched s frame :: before ∧ tokenOf frame ≠ none := by
  have hasked : Reach (step quietWorld) {} TokensApart asked := by
    refine .step (.call (.list "roster")) reach_welcomed ?_ rfl
    rintro call h space - (⟨e, he, -⟩ | hk)
    · cases he
    · cases hk
  have hinformed : Reach (step quietWorld) {} TokensApart informed :=
    .step (.data 0 peersWire) hasked (fun call h => by cases h) (step_told rfl rfl rfl nextFrame_peers)
  have htokenless : ∀ e ∈ .heard 0 peersWire :: asked.history, tokenless e = true := List.all_eq_true.mp rfl
  have hhistory : informed.history = .settled 0 (.resolved (.peers "roster" ["bob"])) ::
      .dispatched 0 (.peers "roster" ["bob"]) :: .heard 0 peersWire :: asked.history := rfl
  have hhonest : Honest (fun _ => 0) informed.history := by
    rw [hhistory]
    exact honest_of_first htokenless (by simp) ⟨.list, "roster", _,
      List.mem_cons_of_mem _ (List.mem_cons_of_mem _ List.mem_cons_self), List.mem_cons_of_mem _ List.mem_cons_self,
      rfl, .inl rfl⟩
  obtain ⟨s, frame, before, hbefore, hsome, -⟩ :=
    a_reply_settles_only_its_request quietWorld (fun _ => 0) informed hinformed hhonest [] 0 _ _ hhistory trivial
  exact ⟨hinformed, hhonest, _, hhistory, s, frame, before, hbefore, hsome⟩

/-! ## One token, asked for twice -/

/-- A `list` and a `send` are outstanding under one token. -/
def doubled : RelayClient := (welcomed.call quietWorld (.list "x")).call quietWorld (.send "x" "bob" "hi" none none)

/-- The relay refuses the `send`. -/
def mistaken : RelayClient := doubled.told quietWorld 0 errorWire errorValue

set_option maxRecDepth 4000 in
theorem an_error_settles_another_request :
    Reach (step quietWorld) {} Always mistaken ∧ Honest (fun _ => 1) mistaken.history ∧
      .issued 0 .list "x" ∈ mistaken.history ∧ .issued 1 .send "x" ∈ mistaken.history ∧
      ∃ error before, mistaken.history =
          .settled 0 (.rejected error) :: .dispatched 0 (.error "invalid_identifier" none (some "x")) :: before ∧
        Settlement.ofRelay (.rejected error) := by
  have hdoubled : Reach (step quietWorld) {} Always doubled :=
    .of_run [.call (.list "x"), .call (.send "x" "bob" "hi" none none)] (reach_welcomed.mono fun _ _ _ => trivial) rfl
  have hmistaken : Reach (step quietWorld) {} Always mistaken :=
    .step (.data 0 errorWire) hdoubled trivial (step_told rfl rfl rfl nextFrame_error)
  have htokenless : ∀ e ∈ .heard 0 errorWire :: doubled.history, tokenless e = true := List.all_eq_true.mp rfl
  have hissued : .issued 1 .send "x" ∈ .heard 0 errorWire :: doubled.history :=
    List.mem_cons_of_mem _ (List.mem_cons_of_mem _ List.mem_cons_self)
  have hhistory : mistaken.history =
      .settled 0 (.rejected ⟨.relayError, "the relay rejected the request: invalid_identifier", some "invalid_identifier"⟩) ::
      .dispatched 0 (.error "invalid_identifier" none (some "x")) :: .heard 0 errorWire :: doubled.history := rfl
  have hhonest : Honest (fun _ => 1) mistaken.history := by
    rw [hhistory]
    exact honest_of_first htokenless (by simp)
      ⟨.send, "x", _, hissued, List.mem_cons_of_mem _ List.mem_cons_self, rfl, .inr rfl⟩
  have holder : ∀ e ∈ .heard 0 errorWire :: doubled.history, e ∈ mistaken.history :=
    fun e he => hhistory ▸ List.mem_cons_of_mem _ (List.mem_cons_of_mem _ he)
  refine ⟨hmistaken, hhonest, holder _ ?_, holder _ hissued, _, _, hhistory, by simp [Settlement.ofRelay]⟩
  exact List.mem_cons_of_mem _ (List.mem_cons_of_mem _ (List.mem_cons_of_mem _ (List.mem_cons_of_mem _ List.mem_cons_self)))

end OmpRelayd.Client
