/-
  OmpRelayd.Blob.Paths — where the store keeps its files (server/src/blob.rs: `room_dir_name`,
  `digest_of`, `Store::room_dir`, `Store::payload_path`, `Store::temp_path`).

  A room's directory is named by a hash of the room's two names, each behind its length, so that
  no text of one can pass for a part of the other; a payload's file is named by its digest, and a
  temporary file by the digest and a serial, behind a dot. The rest of the store's model has a
  file go by its room and its name (`Path`); `Path.onDisk` is the path it stands for.

  SHA-256 is any function to 32 bytes. That no two rooms of a store have the same hash is said of
  the rooms at hand: of all byte strings it cannot be true.

  Proved (`store_paths_are_contained_and_apart`): whatever the names of the room, the path of a
  payload or a temporary file is the root's with two plain names behind it, and two of them are
  the same only if they are meant to be.
-/

import OmpRelayd.Blob.Encoding
import OmpRelayd.Blob.Index
import OmpRelayd.Lib.Path
import OmpRelayd.Limits

namespace OmpRelayd.Blob

/-! ## Paths -/

structure Sha256 where
  run : Bytes → Bytes
  length_run : ∀ bytes, (run bytes).length = 32

/-- `to_le_bytes` of a 64-bit number. -/
def toLeBytes (n : Nat) : Bytes := (bigEndian 8 n).reverse

/-- What is hashed of a room. -/
def roomParts (room : RoomId) : List Bytes :=
  let project := utf8 room.project
  let task := utf8 room.task
  [toLeBytes project.length, project, toLeBytes task.length, task]

section
variable (sha : Sha256) (root : PathBuf)

def digestOf (parts : List Bytes) : Option String := base64url (sha.run parts.flatten)

def roomDirName (room : RoomId) : Option String := digestOf sha (roomParts room)

namespace OnDisk

def roomDir (room : RoomId) : Option PathBuf := (roomDirName sha room).map fun name => root.join name.toList

def payloadPath (room : RoomId) (digest : String) : Option PathBuf :=
  (roomDir sha root room).map fun dir => dir.join digest.toList

/-- The serial is the one drawn for this path. -/
def tempPath (room : RoomId) (digest : String) (n : Nat) : Option PathBuf :=
  (roomDir sha root room).map fun dir => dir.join (s!".{digest}.{n}").toList

end OnDisk

def Path.onDisk (path : Path) : Option PathBuf :=
  match path.name with
  | .payload digest => OnDisk.payloadPath sha root path.room digest
  | .temp digest n => OnDisk.tempPath sha root path.room digest n

end

/-! ## Names -/

def Name.digest : Name → String
  | .payload digest => digest
  | .temp digest _ => digest

/-- The file's own name. -/
def Name.text : Name → List Char
  | .payload digest => digest.toList
  | .temp digest n => (s!".{digest}.{n}").toList

theorem temp_text (digest : String) (n : Nat) :
    (Name.temp digest n).text = '.' :: (digest.toList ++ '.' :: Nat.toDigits 10 n) := by
  simp only [Name.text, String.toList_append, Nat.toString_eq_ofList_toDigits, String.toList_ofList, List.append_assoc]
  rfl

theorem plain_of_base64url {name : List Char} (hne : name ≠ []) (h : ∀ c ∈ name, isBase64Url c = true) :
    PathBuf.Plain name := by
  have hnot : ∀ c, isBase64Url c = false → c ∉ name := by
    intro c hc hmem
    rw [h c hmem] at hc
    cases hc
  have hdot := hnot '.' (by decide)
  refine ⟨hne, ?_, ?_, hnot '/' (by decide)⟩
  · intro heq
    rw [heq] at hdot
    exact hdot List.mem_cons_self
  · intro heq
    rw [heq] at hdot
    exact hdot List.mem_cons_self

theorem digest_ne_nil {digest : String} (h : validateDigest digest = .ok ()) : digest.toList ≠ [] := by
  intro heq
  have := (validateDigest_ok h).1
  rw [heq] at this
  cases this

theorem plain_digest {digest : String} (h : validateDigest digest = .ok ()) : PathBuf.Plain digest.toList :=
  plain_of_base64url (digest_ne_nil h) (validateDigest_ok h).2

/-- A name of either kind is plain, as a temporary one is longer than two dots. -/
theorem Name.plain {name : Name} (h : validateDigest name.digest = .ok ()) : PathBuf.Plain name.text := by
  cases name with
  | payload digest => exact plain_digest h
  | temp digest n =>
    have hdigest : PathBuf.Plain digest.toList := plain_digest h
    have hdigits : '/' ∉ Nat.toDigits 10 n := by
      intro hmem
      have := Nat.isDigit_of_mem_toDigits (by decide) (by decide) hmem
      exact absurd this (by decide)
    rw [temp_text]
    refine ⟨List.cons_ne_nil _ _, ?_, ?_, ?_⟩
    · intro heq
      simp at heq
    · intro heq
      have hlength := congrArg List.length heq
      have := List.length_pos_of_ne_nil hdigest.something
      simp only [List.length_cons, List.length_append, List.length_nil] at hlength
      omega
    · simp [hdigest.onePiece, hdigits]

/-- Two names are the same text only if they are the same: a payload's does not begin with a dot, and a
    temporary one's digest ends where its length says. -/
theorem Name.text_injective {a b : Name} (ha : validateDigest a.digest = .ok ()) (hb : validateDigest b.digest = .ok ())
    (h : a.text = b.text) : a = b := by
  have hdot : ∀ {digest : String} {rest : List Char}, validateDigest digest = .ok () → digest.toList ≠ '.' :: rest := by
    intro digest rest hdigest heq
    have := (validateDigest_ok hdigest).2 '.' (heq ▸ List.mem_cons_self)
    exact absurd this (by decide)
  cases a with
  | payload digest =>
    cases b with
    | payload digest' => rw [String.toList_inj.1 h]
    | temp digest' n => exact absurd (h.trans (temp_text digest' n)) (hdot ha)
  | temp digest n =>
    cases b with
    | payload digest' => exact absurd (h.symm.trans (temp_text digest n)) (hdot hb)
    | temp digest' n' =>
      rw [temp_text, temp_text, List.cons_eq_cons] at h
      obtain ⟨hdigest, hserial⟩ := List.append_inj h.2 ((validateDigest_ok ha).1.trans (validateDigest_ok hb).1.symm)
      have hn := congrArg (fun digits => Nat.ofDigitChars 10 digits 0) (List.cons_eq_cons.1 hserial).2
      have hn : n = n' := by simpa using hn
      rw [String.toList_inj.1 hdigest, hn]

/-! ## Rooms -/

theorem toLeBytes_injective {m n : Nat} (hm : m < 2 ^ 64) (hn : n < 2 ^ 64) (h : toLeBytes m = toLeBytes n) : m = n := by
  have hbytes := congrArg ofBigEndian (List.reverse_inj.1 h)
  rwa [ofBigEndian_bigEndian (by omega), ofBigEndian_bigEndian (by omega)] at hbytes

/-- A name's length says where it ends, so the parts come apart one way only. -/
theorem roomParts_injective {room room' : RoomId} (hroom : room.project.utf8ByteSize < 2 ^ 64)
    (hroom' : room'.project.utf8ByteSize < 2 ^ 64) (h : (roomParts room).flatten = (roomParts room').flatten) :
    room = room' := by
  simp only [roomParts, List.flatten_cons, List.flatten_nil, List.append_nil, length_utf8] at h
  have hwidth : ∀ n, (toLeBytes n).length = 8 := by
    intro n
    rw [toLeBytes, List.length_reverse, length_bigEndian]
  obtain ⟨hlength, h⟩ := List.append_inj h (by rw [hwidth, hwidth])
  have hsize := toLeBytes_injective hroom hroom' hlength
  obtain ⟨hproject, h⟩ := List.append_inj h (by rw [length_utf8, length_utf8, hsize])
  obtain ⟨-, htask⟩ := List.append_inj h (by rw [hwidth, hwidth])
  cases room
  cases room'
  cases utf8_injective hproject
  cases utf8_injective htask
  rfl

section
variable (sha : Sha256) (root : PathBuf)

theorem roomDirName_eq (room : RoomId) : roomDirName sha room = some (encoded (sha.run (roomParts room).flatten)) :=
  base64url_eq _

theorem onDisk_eq (path : Path) :
    path.onDisk sha root = some ((root.join (encoded (sha.run (roomParts path.room).flatten)).toList).join path.name.text) := by
  obtain ⟨room, name⟩ := path
  simp only [Path.onDisk, OnDisk.payloadPath, OnDisk.tempPath, OnDisk.roomDir, roomDirName_eq, Option.map_some]
  cases name <;> rfl

theorem plain_dir (room : RoomId) : PathBuf.Plain (encoded (sha.run (roomParts room).flatten)).toList :=
  plain_digest (validateDigest_encoded (sha.length_run _))

/-- Below the root are the room's directory and the file, and nothing else. -/
theorem components_onDisk {path : Path} (h : validateDigest path.name.digest = .ok ()) :
    ∃ found, path.onDisk sha root = some found ∧ found.components = root.components ++
      [.normal (encoded (sha.run (roomParts path.room).flatten)).toList, .normal path.name.text] := by
  refine ⟨_, onDisk_eq sha root path, ?_⟩
  rw [PathBuf.components_join _ (Name.plain h), PathBuf.components_join root (plain_dir sha path.room), List.append_assoc]
  rfl

/-- A file is found again by its path: the name is its own, and the directory has the hash of its room. -/
theorem onDisk_apart {path path' : Path} {found found' : PathBuf} (h : validateDigest path.name.digest = .ok ())
    (h' : validateDigest path'.name.digest = .ok ()) (hfound : path.onDisk sha root = some found)
    (hfound' : path'.onDisk sha root = some found') (hsame : found.components = found'.components) :
    path.name = path'.name ∧ sha.run (roomParts path.room).flatten = sha.run (roomParts path'.room).flatten := by
  obtain ⟨_, hsome, hparts⟩ := components_onDisk sha root h
  obtain ⟨_, hsome', hparts'⟩ := components_onDisk sha root h'
  cases hsome.symm.trans hfound
  cases hsome'.symm.trans hfound'
  rw [hparts, hparts', List.append_cancel_left_eq] at hsame
  simp only [List.cons.injEq, Component.normal.injEq, and_true] at hsame
  obtain ⟨hdir, hname⟩ := hsame
  refine ⟨Name.text_injective h h' hname, base64url_injective ?_⟩
  rw [base64url_eq, base64url_eq, String.toList_inj.1 hdir]

end

/-- The two rooms do not have the same hash, unless what is hashed is the same. -/
def Sha256.Apart (sha : Sha256) (room room' : RoomId) : Prop :=
  sha.run (roomParts room).flatten = sha.run (roomParts room').flatten → (roomParts room).flatten = (roomParts room').flatten

theorem store_paths_are_contained_and_apart (sha : Sha256) (root : PathBuf) (room room' : RoomId) (digest digest' : String)
    (n n' : Nat) (hroom : room.project.utf8ByteSize < 2 ^ 64) (hroom' : room'.project.utf8ByteSize < 2 ^ 64)
    (hdigest : validateDigest digest = .ok ()) (hdigest' : validateDigest digest' = .ok ()) :
    ∃ dir payload temp payload' temp',
      OnDisk.payloadPath sha root room digest = some payload ∧ OnDisk.tempPath sha root room digest n = some temp ∧
      OnDisk.payloadPath sha root room' digest' = some payload' ∧ OnDisk.tempPath sha root room' digest' n' = some temp' ∧
      payload.components = root.components ++ [.normal dir, .normal digest.toList] ∧
      temp.components = root.components ++ [.normal dir, .normal (s!".{digest}.{n}").toList] ∧
      (∀ name ∈ [dir, digest.toList, (s!".{digest}.{n}").toList], PathBuf.Plain name) ∧
      (room ≠ room' → (roomParts room).flatten ≠ (roomParts room').flatten) ∧
      (sha.Apart room room' → (room, digest) ≠ (room', digest') → payload.components ≠ payload'.components) ∧
      (n ≠ n' → temp.components ≠ temp'.components) ∧ payload.components ≠ temp'.components := by
  let payload : Path := payloadPath room digest
  let temp : Path := tempPath room digest n
  let payload' : Path := payloadPath room' digest'
  let temp' : Path := tempPath room' digest' n'
  have hpayload : validateDigest payload.name.digest = .ok () := hdigest
  have htemp : validateDigest temp.name.digest = .ok () := hdigest
  have hpayload' : validateDigest payload'.name.digest = .ok () := hdigest'
  have htemp' : validateDigest temp'.name.digest = .ok () := hdigest'
  obtain ⟨p, hp, hpParts⟩ := components_onDisk sha root hpayload
  obtain ⟨t, ht, htParts⟩ := components_onDisk sha root htemp
  obtain ⟨p', hp', -⟩ := components_onDisk sha root hpayload'
  obtain ⟨t', ht', -⟩ := components_onDisk sha root htemp'
  refine ⟨(encoded (sha.run (roomParts room).flatten)).toList, p, t, p', t', hp, ht, hp', ht', hpParts, htParts, ?_, ?_, ?_, ?_, ?_⟩
  · simp only [List.forall_mem_cons]
    exact ⟨plain_dir sha room, Name.plain hpayload, Name.plain htemp, List.forall_mem_nil _⟩
  · intro hne hparts
    exact hne (roomParts_injective hroom hroom' hparts)
  · intro hapart hne hsame
    obtain ⟨hname, hhash⟩ := onDisk_apart sha root hpayload hpayload' hp hp' hsame
    cases roomParts_injective hroom hroom' (hapart hhash)
    cases hname
    exact hne rfl
  · intro hne hsame
    obtain ⟨hname, -⟩ := onDisk_apart sha root htemp htemp' ht ht' hsame
    cases hname
    exact hne rfl
  · intro hsame
    obtain ⟨hname, -⟩ := onDisk_apart sha root hpayload htemp' hp ht' hsame
    cases hname

/-- A stand-in for the hash that is the hash of what is hashed of the two rooms below. -/
def sampleSha256 : Sha256 where
  run bytes :=
    if bytes = (roomParts ⟨"..", ".."⟩).flatten then
      bigEndian 32 0xa0ca487b940a17770b29aebcb15da161f354d1b5810c8f77271c05be2e1106c8
    else if bytes = (roomParts ⟨"../", "."⟩).flatten then
      bigEndian 32 0x5fcd5b637abfecc3e64e1eb06824bf073872cec043f548b5b0585891eefc434e
    else bigEndian 32 0
  length_run bytes := by split_ifs <;> exact length_bigEndian 32 _

def sampleRoot : PathBuf := "/tmp/omp-relayd/127.0.0.1".toList

def zeroDigest : String := encoded (List.replicate 32 0)

theorem dotted_rooms_are_contained_and_apart :
    ∃ dir payload payload', OnDisk.payloadPath sampleSha256 sampleRoot ⟨"..", ".."⟩ zeroDigest = some payload ∧
      OnDisk.payloadPath sampleSha256 sampleRoot ⟨"../", "."⟩ zeroDigest = some payload' ∧
      payload.components = sampleRoot.components ++ [.normal dir, .normal zeroDigest.toList] ∧
      payload.components ≠ payload'.components := by
  have hdigest : validateDigest zeroDigest = .ok () := validateDigest_encoded List.length_replicate
  obtain ⟨dir, payload, _, payload', _, hpayload, -, hpayload', -, hparts, -, -, -, hapart, -⟩ :=
    store_paths_are_contained_and_apart sampleSha256 sampleRoot ⟨"..", ".."⟩ ⟨"../", "."⟩ _ _ 0 1 (by decide) (by decide)
      hdigest hdigest
  refine ⟨dir, payload, payload', hpayload, hpayload', hparts, hapart ?_ ?_⟩
  · intro hhash
    exact absurd hhash (by decide +kernel)
  · decide

end OmpRelayd.Blob
