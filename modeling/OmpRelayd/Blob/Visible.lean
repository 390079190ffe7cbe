/-
  OmpRelayd.Blob.Visible — is a payload visible only once every byte is written?

  `commit` drops the handle, renames and commits without waiting for the write its last
  `write_all` handed to a background thread. A fetch can then open a file that is still
  short, and if that write fails nobody learns of it: `finish` has returned the length and
  the entry stays (`a_dropped_handle_shows_a_short_file`).

  Proved: that is the only way (`visible_once_written`). In every run whose commits find the
  handle's last write completed and no rename races a removal (the gap of `Blob.Held`, which
  would take the file altogether), a stored payload's file holds exactly the bytes that
  were declared and they hash to its address, and an upload one of whose writes failed
  ends with an error.

  Two uploads of one address can each rename their file to it, so that the length of the
  file is the length the entry states rests on this: no two of the bodies hashed in the run
  are of different lengths and have one digest (`CollisionFree`). All else does not.
-/

import OmpRelayd.Blob.Content
import OmpRelayd.Blob.Held

namespace OmpRelayd.Blob

/-- Every stored payload's file is there, as long as the entry states, and hashes to its address. -/
def Visible (hash : Bytes → String) (s : Sys) : Prop :=
  ∀ room digest p, storedAt s.store.index room digest = some p →
    ∃ n, s.fs.files.lookup (payloadPath room digest) = some n ∧ (s.fs.content n).length = p.bytes ∧
      hash (s.fs.content n) = digest

/-- An upload to whose file a write failed did not end well. -/
def Reported (s : Sys) : Prop :=
  ∀ o ∈ s.outcomes, ∀ n, o.file = some n → n ∈ s.faults → ∃ error, o.result = .error error

/-- Renames race no removal, and handles are dropped once their last write has completed. -/
def Settled (hash : Bytes → String) (s : Sys) (e : DiskEv) : Prop := Unraced s e ∧ closesEarly hash s e = false

/-- In such a run a stored payload's file is there and hashes to its address, and a failed write was
    reported; and where no two bodies of the run collide, the file is as long as the entry states. -/
theorem visible_once_written {hash : Bytes → String} {s : Sys} {past : DiskPast}
    (h : DiskHistory hash (Settled hash) (s, past)) :
    (∀ room digest p, storedAt s.store.index room digest = some p →
      ∃ n, s.fs.files.lookup (payloadPath room digest) = some n ∧ hash (s.fs.content n) = digest) ∧
    (CollisionFree hash (hashedIn past) → Visible hash s) ∧ Reported s := by
  obtain ⟨hr, hcontent⟩ := hashed_content True (fun _ _ _ he => he.2) h
  have hheld := (held_inv (hr.mono fun _ _ he => he.1)).2
  -- the file of a stored payload, with the body that is behind it
  have hfile : ∀ room digest p, storedAt s.store.index room digest = some p →
      ∃ n, s.fs.files.lookup (payloadPath room digest) = some n ∧
        Digested (· ∈ hashedIn past) hash digest (s.fs.content n) := by
    intro room digest p hp
    obtain ⟨n, hn⟩ := (hheld room digest (.inl ⟨p, hp⟩)).1
    obtain ⟨body, hb, hs⟩ := hcontent.payloads room digest n hn
    refine ⟨n, hn, ?_⟩
    rw [(hs.whole trivial).1]
    exact hb
  refine ⟨?_, ?_, ?_⟩
  · intro room digest p hp
    obtain ⟨n, hn, hbody⟩ := hfile room digest p hp
    exact ⟨n, hn, hbody.digest⟩
  · intro hfree room digest p hp
    obtain ⟨n, hn, hbody⟩ := hfile room digest p hp
    obtain ⟨body', hb', hlen⟩ := hcontent.stored room digest p hp
    refine ⟨n, hn, ?_, hbody.digest⟩
    rw [← hlen]
    exact hfree _ hbody.known body' hb'.known (hbody.digest.trans hb'.digest.symm)
  · intro o ho n hn hf
    cases hr : o.result with
    | error error => exact ⟨error, rfl⟩
    | ok bytes =>
      obtain ⟨body, hs⟩ := hcontent.outcomes o ho bytes n hr hn
      exact absurd hf (hs.whole trivial).2.2

/-! ## The last write -/

/-- Upload "abc" as upload 0: the chunk is handed over, and its write completes as `early` says,
    before the body ends. -/
def uploadAbc (early : List DiskEv) : List DiskEv :=
  let digest := "ungWv48Bz-pBQUDeXa4iI7ADYaOWF3qctBD_YfIAFa0"
  [.reserve sampleRoom digest 3 0, .beginUpload sampleRoom digest 3 0, .chunk 0 [97, 98, 99], .perform 0, .resume 0 0,
    .perform 0, .resume 0 0] ++ early ++ [.endBody 0, .perform 0, .resume 0 0]

/-- The write is still pending when the payload becomes visible. -/
def shortRun : Sys × DiskPast := (run (traced (diskStep sampleHash)) ({}, []) (uploadAbc [])).getD ({}, [])

/-- Later it fails. -/
def lostRun : Sys × DiskPast :=
  (run (traced (diskStep sampleHash)) ({}, []) (uploadAbc [] ++ [.backgroundOrphan 1 (some 0)])).getD ({}, [])

theorem shortRun_reached : DiskHistory sampleHash Always shortRun := by
  have hsome : (run (traced (diskStep sampleHash)) ({}, []) (uploadAbc [])).isSome = true := by decide +kernel
  exact .of_run _ .init (some_getD_of_isSome hsome _)

theorem lostRun_reached : DiskHistory sampleHash Always lostRun := by
  have hsome : (run (traced (diskStep sampleHash)) ({}, []) (uploadAbc [] ++ [.backgroundOrphan 1 (some 0)])).isSome =
    true := by decide +kernel
  exact .of_run _ .init (some_getD_of_isSome hsome _)

def abcGuard : Guard := ⟨sampleRoom, "ungWv48Bz-pBQUDeXa4iI7ADYaOWF3qctBD_YfIAFa0", 0, 3⟩

theorem lostRun_outcomes : lostRun.1.outcomes = [⟨abcGuard, some 1, .ok 3⟩] := rfl

theorem a_dropped_handle_shows_a_short_file :
    (¬ ∀ hash s past, DiskHistory hash Always (s, past) → CollisionFree hash (hashedIn past) → Visible hash s) ∧
      ¬ ∀ hash s past, DiskHistory hash Always (s, past) → CollisionFree hash (hashedIn past) → Reported s := by
  constructor
  · intro h
    obtain ⟨n, hn, hlen, _⟩ := h sampleHash shortRun.1 shortRun.2 shortRun_reached (by decide +kernel) sampleRoom
      "ungWv48Bz-pBQUDeXa4iI7ADYaOWF3qctBD_YfIAFa0" ⟨3, 65536, payloadTimeToLive⟩ (by decide +kernel)
    have hfile : shortRun.1.fs.files.lookup (payloadPath sampleRoom "ungWv48Bz-pBQUDeXa4iI7ADYaOWF3qctBD_YfIAFa0") =
        some 1 := by decide +kernel
    rw [hfile] at hn; cases hn
    have hshort : (shortRun.1.fs.content 1).length = 0 := by decide +kernel
    rw [hshort] at hlen; cases hlen
  · intro h
    obtain ⟨error, he⟩ := h sampleHash lostRun.1 lostRun.2 lostRun_reached (by decide +kernel) _
      (lostRun_outcomes ▸ List.mem_singleton.mpr rfl) 1 rfl (by decide +kernel)
    cases he

/-- The write completes first. -/
def writtenRun : Sys × DiskPast :=
  (runIf (traced (diskStep sampleHash)) (fun s e => !racesRemoval s.1 e && !closesEarly sampleHash s.1 e) ({}, [])
    (uploadAbc [.background 0 none])).getD ({}, [])

theorem writtenRun_reached : DiskHistory sampleHash (Settled sampleHash) writtenRun := by
  have hsome : (runIf (traced (diskStep sampleHash)) (fun s e => !racesRemoval s.1 e && !closesEarly sampleHash s.1 e)
    ({}, []) (uploadAbc [.background 0 none])).isSome = true := by decide +kernel
  refine .of_runIf _ (fun s e he => ?_) _ .init (some_getD_of_isSome hsome _)
  obtain ⟨hraced, hearly⟩ := Bool.and_eq_true_iff.mp he
  exact ⟨(Bool.not_eq_true' _).mp hraced, (Bool.not_eq_true' _).mp hearly⟩

theorem visible_once_written_sample :
    DiskHistory sampleHash (Settled sampleHash) writtenRun ∧
      (storedAt writtenRun.1.store.index sampleRoom "ungWv48Bz-pBQUDeXa4iI7ADYaOWF3qctBD_YfIAFa0").isSome = true ∧
      hashedIn writtenRun.2 = [[97, 98, 99]] ∧ Visible sampleHash writtenRun.1 ∧ Reported writtenRun.1 := by
  have hfree : CollisionFree sampleHash (hashedIn writtenRun.2) := by decide +kernel
  obtain ⟨-, hvisible, hreported⟩ := @visible_once_written sampleHash writtenRun.1 writtenRun.2 writtenRun_reached
  exact ⟨writtenRun_reached, by decide +kernel, by decide +kernel, hvisible hfree, hreported⟩

end OmpRelayd.Blob
