/-
  OmpRelayd.Blob.Readers — a file that is being read while everything else goes on.

  A fetch opens a payload's file by its address and reads it piece by piece. Meanwhile the address
  can be unlinked, swept or uploaded again, and the write its uploader left behind can be performed,
  in part or not at all. The handle stays with the file it opened, and a file that had an address is
  sealed: whatever any task does, its bytes stay and at most grow towards the body that hashes to the
  address.

  Proved: one step (`Moves.reads_on`), and so every run, keeps a sealed file sealed and its bytes
  where they were, so that what was read from it in pieces, at different moments, begins that body.
-/

import OmpRelayd.Blob.Content

namespace OmpRelayd.Blob

variable {hash : Bytes → String} {s t : Sys} {n : Nat} {body : Bytes}

/-- The file is still sealed, and only longer. -/
def Sealed.ReadsOn (s t : Sys) (n : Nat) (body : Bytes) : Prop :=
  Sealed False t n body ∧ s.fs.content n <+: t.fs.content n

/-- The step leaves the file and what is pending for it alone, and nobody begins to write to it. -/
theorem Sealed.kept (h : Sealed False s n body) (hk : Sealed.Kept s t n) : Sealed.ReadsOn s t n body :=
  ⟨h.of hk, by rw [hk.content]⟩

theorem Sealed.rename (h : Sealed False s n body) {k : Nat} {u u₁ : Upload} {temp : Path}
    (hu : s.uploads.lookup k = some u) (hw : u₁.Writes n → u.Writes n) :
    Sealed.ReadsOn s (s.rename k u₁ temp) n body := by
  have hown : ¬ u₁.Writes n := fun hwn => h.unwritten k u hu (hw hwn)
  refine h.kept { untouched s n with writers := writers_insert fun hwn => ?_, orphans := orphaned_of_not_writes hown }
  rcases hwn with ⟨-, hf⟩ | ⟨reply, next, hp⟩
  · cases hf
  · cases hp

theorem Sealed.dropUpload (h : Sealed False s n body) {k : Nat} {u : Upload} (hu : s.uploads.lookup k = some u) :
    Sealed.ReadsOn s (s.dropUpload k u) n body := by
  have hown := h.unwritten k u hu
  refine h.kept { untouched s n with writers := fun j v hv hwv => ⟨j, v, (Map.lookup_erase_some hv).2, hwv⟩
                                     creates := fun r d hmem => ?_, orphans := orphaned_of_not_writes hown }
  rcases List.mem_append.mp hmem with hmem | hmem
  · exact hmem
  · -- what it leaves to be performed is an operation on its own file
    have hop := Option.mem_toList.mp hmem
    unfold Upload.op at hop
    split at hop <;> cases hop
    exact absurd (.inr ⟨_, _, ‹_›⟩) hown

/-- An operation that is performed writes only to a file it creates. -/
theorem Fs.perform_content (fs : Fs) (op : Op) (h : ∀ r d, op ≠ .create r d n) :
    (fs.perform op).1.content n = fs.content n := by
  cases op with
  | mkdir room =>
    simp only [Fs.perform]
    split <;> rfl
  | create room digest m =>
    have hne : n ≠ m := fun e => h room digest (by rw [e])
    simp only [Fs.perform]
    split
    · exact Function.update_of_ne hne _ _
    · rfl
  | rename source target =>
    simp only [Fs.perform]
    split <;> rfl
  | _ => rfl

theorem Sealed.performed (h : Sealed False s n body) {k : Nat} {u : Upload} {op : Op} (hu : s.uploads.lookup k = some u)
    (hop : u.op = some op) : Sealed.ReadsOn s (s.performed k u op) n body := by
  have hown := h.unwritten k u hu
  have hcreate : ∀ r d, op ≠ .create r d n := by
    intro r d he
    subst he
    unfold Upload.op at hop
    split at hop <;> cases hop
    rename_i next hphase
    exact hown (.inr ⟨none, next, hphase⟩)
  refine h.kept { untouched s n with writers := writers_insert fun hw => ⟨k, u, hu, ?_⟩
                                     content := Fs.perform_content _ op hcreate }
  rcases hw with hw | ⟨reply, next, hp⟩
  · exact .inl hw
  · refine .inr ?_
    unfold Upload.op at hop
    split at hop <;> cases hop <;> rename_i hphase <;> simp only [hphase, Phase.answer] at hp
    all_goals cases hp
    exact ⟨none, next, hphase⟩

/-- The write that a dropped handle left is performed, as far as it gets. -/
theorem Sealed.orphan (h : Sealed False s n body) {m : Nat} {buffer : Bytes} {short : Option Nat}
    (ho : s.orphans.lookup m = some buffer) :
    Sealed.ReadsOn s { s.wrote m buffer short with orphans := s.orphans.erase m } n body := by
  by_cases hm : n = m
  · subst hm
    have hrest := h.rest buffer ho
    have hcontent : (s.wrote n buffer short).fs.content n = s.fs.content n ++ short.elim buffer buffer.take :=
      s.fs.append_content_self n _
    refine ⟨⟨h.drawn, h.unwritten, h.uncreated, ?_, fun c hc => ?_, False.elim⟩, ?_⟩
    · show (s.wrote n buffer short).fs.content n <+: body
      rw [hcontent, ← hrest]
      refine (List.prefix_append_right_inj _).mpr ?_
      cases short with
      | none => exact List.prefix_rfl
      | some j => exact List.take_prefix _ _
    · exact absurd rfl (Map.lookup_erase_some hc).1
    · show s.fs.content n <+: (s.wrote n buffer short).fs.content n
      rw [hcontent]
      exact List.prefix_append _ _
  · exact h.kept { untouched s n with content := s.fs.append_content_ne hm _, orphans := AList.lookup_erase_ne hm
                                      faults := (mem_wrote_faults_ne s buffer short hm).mp }

/-- Whatever the step is, a sealed file is read on as if nothing had happened. -/
theorem Moves.reads_on {e : DiskEv} (hm : Moves hash s e t) (hi : SysInv hash s) (h : Sealed False s n body) :
    Sealed.ReadsOn s t n body := by
  cases hm with
  | accepted room digest declared now serial _ =>
    refine h.kept { untouched s n with serial := beginUpload_draws hi.store room digest declared now
                                       writers := writers_insert fun hw => ?_ }
    rcases hw with ⟨hc, -⟩ | ⟨reply, next, hp⟩
    · cases hc
    · cases hp
  | notAccepted room digest declared now _ =>
    exact h.kept { untouched s n with serial := beginUpload_draws hi.store room digest declared now }
  | rmdir room _ =>
    refine h.kept { untouched s n with content := ?_ }
    show (s.fs.rmdir room).content n = s.fs.content n
    unfold Fs.rmdir
    split <;> rfl
  | turn e k u u' hu ht =>
    exact h.kept { untouched s n with writers := writers_insert fun hw => ⟨k, u, hu, (ht.writes (hi.shape k u hu) hw).1⟩ }
  | create k now u call next hu hp =>
    refine h.kept { untouched s n with serial := Nat.le_succ _, writers := writers_insert fun hw => ?_ }
    have hs := (hi.shape k u hu).phase
    rw [hp] at hs
    rcases hw with ⟨hc, -⟩ | ⟨reply, next', hp'⟩
    · have hc : u.created = some n := hc
      rw [hs.1.2.2.1] at hc
      cases hc
    · -- the number was drawn just now
      cases hp'
      exact absurd h.drawn (Nat.lt_irrefl _)
  | close k u temp hu hp hv ht => exact h.rename hu id
  | created k now m u hu hp =>
    refine h.rename hu fun hw => ?_
    rcases hw with ⟨hc, -⟩ | ⟨reply, next', hp'⟩
    · cases hc
      exact .inr ⟨_, _, hp⟩
    · exact .inr ⟨reply, next', hp'⟩
  | perform k u op hu ho => exact h.performed hu ho
  | committed k now u source hu hp _ =>
    exact h.kept { untouched s n with writers := fun j v hv hwv => ⟨j, v, (Map.lookup_erase_some hv).2, hwv⟩ }
  | notCommitted k _ u _ _ hu | recheckOwned k _ u _ hu | recheck k _ u _ _ hu =>
    refine h.kept { untouched s n with writers := writers_insert fun hw => ⟨k, u, hu, ?_⟩ }
    rcases hw with hw | ⟨reply, next, hp'⟩
    · exact .inl hw
    · cases hp'
  | fails e k u error hu _ =>
    obtain ⟨hsealed, hlonger⟩ := h.dropUpload hu
    obtain ⟨hsealed, hstays⟩ := hsealed.kept (t := s.endUpload k u error) { untouched _ n with }
    exact ⟨hsealed, hlonger.trans hstays⟩
  | cancel k u hu _ => exact h.dropUpload hu
  | background k m u buffer short hu hc hf =>
    have hw : u.Writes m := .inl ⟨hc, by rw [hf]; rfl⟩
    have hne : n ≠ m := fun e => h.unwritten k u hu (e ▸ hw)
    refine h.kept { untouched s n with writers := writers_insert fun hwn => ⟨k, u, hu, ?_⟩
                                       content := s.fs.append_content_ne hne _
                                       faults := (mem_wrote_faults_ne s buffer short hne).mp }
    rcases hwn with ⟨hcn, -⟩ | ⟨reply, next, hp⟩
    · exact .inl ⟨hcn, by rw [hf]; rfl⟩
    · exact .inr ⟨reply, next, hp⟩
  | performDetached i op ho =>
    have hmem := List.mem_of_getElem? ho
    refine h.kept { untouched s n with creates := fun _ _ hd => List.mem_of_mem_eraseIdx hd, content := ?_ }
    refine Fs.perform_content _ op fun r d he => ?_
    subst he
    exact h.uncreated r d hmem
  | backgroundOrphan m buffer short ho => exact h.orphan ho
  | _ => exact h.kept { untouched s n with }

/-- A file that is found at an address is sealed around a body that was hashed to it. -/
theorem opened_sealed {known : Bytes → Prop} (h : DiskReach hash (HashesKnown known) s) {room : RoomId} {digest : String}
    (hn : s.fs.files.lookup (payloadPath room digest) = some n) :
    ∃ body, Digested known hash digest body ∧ Sealed False s n body :=
  (content_inv False known (fun hx => hx.elim) (fun _ _ hk => hk) h).2.payloads room digest n hn

/-- And what the index says of its length is the length of such a body. -/
theorem stated_length {known : Bytes → Prop} (h : DiskReach hash (HashesKnown known) s) {room : RoomId} {digest : String}
    {p : Payload} (hp : storedAt s.store.index room digest = some p) :
    ∃ body, Digested known hash digest body ∧ body.length = p.bytes :=
  (content_inv False known (fun hx => hx.elim) (fun _ _ hk => hk) h).2.stored room digest p hp

end OmpRelayd.Blob
