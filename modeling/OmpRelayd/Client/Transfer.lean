/-
  OmpRelayd.Client.Transfer — the way from a room to its route (extension/src/client.ts:
  `pathSegment`, `#transfer`).

  The client writes a room's components into the path of a URL, percent-encoded with their dots;
  `fetch` parses the URL, and the relay takes the path apart again. Only the path is modelled:
  host and port come from the configuration and name no room.

  An encoded dot is a dot to the parser in between. A room with a component `.` or `..` loses
  segments on the way, so its transfers reach no route, and rooms that differ lead to one path
  (`a_dotted_room_is_not_reached`). Proved (`a_transfer_reaches_its_room`): a room is reached, with
  its digest and by a path of its own, if and only if neither component is one dot or two; and the
  path of any other room is no route at all.
-/

import OmpRelayd.Http
import OmpRelayd.Limits

namespace OmpRelayd.Client

open Url Http

/-- What `encodeURIComponent` leaves as it is: letters, digits and `-_.!~*'()`. -/
def unreserved (b : UInt8) : Bool :=
  (0x41 ≤ b && b ≤ 0x5a) || (0x61 ≤ b && b ≤ 0x7a) || (0x30 ≤ b && b ≤ 0x39) || b == 0x2d || b == 0x5f || b == 0x2e ||
    b == 0x21 || b == 0x7e || b == 0x2a || b == 0x27 || b == 0x28 || b == 0x29

/-- Text is Unicode scalar values here, so there is no unpaired surrogate to throw on. -/
def encodeURIComponent (value : String) : Bytes := percentEncode unreserved (utf8 value)

/-- `replaceAll(".", "%2E")` -/
def escapeDots (text : Bytes) : Bytes := text.flatMap fun b => if b = 0x2e then [0x25, 0x32, 0x45] else [b]

def pathSegment (value : String) : Bytes := escapeDots (encodeURIComponent value)

/-- The path `#transfer` writes. -/
def transferPath (room : RoomId) (digest : String) : Bytes :=
  routePrefix ++ (pathSegment room.project ++ 0x2f :: (pathSegment room.task ++ 0x2f :: utf8 digest))

/-- The path of the request `fetch` makes of it. -/
def requestPath (room : RoomId) (digest : String) : Bytes := pathname (transferPath room digest)

/-! ## Segments -/

def keptInSegment (b : UInt8) : Bool := unreserved b && b != 0x2e

theorem pathSegment_eq (value : String) : pathSegment value = percentEncode keptInSegment (utf8 value) := by
  have hdigit : ∀ {n : Nat}, n < 16 → hexDigit n ≠ 0x2e := fun hn =>
    forall_hexDigit (P := (· ≠ 0x2e)) (by decide) hn
  unfold pathSegment encodeURIComponent
  generalize utf8 value = bytes
  induction bytes with
  | nil => rfl
  | cons b rest ih =>
    have hb := b.toNat_lt
    simp only [percentEncode, escapeDots, List.flatMap_cons, List.flatMap_append] at ih ⊢
    rw [ih]
    congr 1
    by_cases hdot : b = 0x2e
    · subst hdot; rfl
    · by_cases hkeep : unreserved b = true
      · simp [keptInSegment, hkeep, hdot]
      · simp [keptInSegment, hkeep, percent, hdigit (show b.toNat / 16 < 16 by omega),
          hdigit (show b.toNat % 16 < 16 by omega)]

theorem keptInSegment_plain : ∀ b, keptInSegment b = true →
    pathSet b = false ∧ separator b = false ∧ b ≠ 0x2e ∧ b ≠ 0x25 := forall_byte (by decide +kernel)

def isDots (value : String) : Bool := value == "." || value == ".."

theorem pathSegment_plain {value : String} (h : isDots value = false) : Plain (pathSegment value) := by
  simp only [isDots, Bool.or_eq_false_iff, beq_eq_false_iff_ne] at h
  rw [pathSegment_eq]
  refine percentEncode_plain keptInSegment_plain (fun hone => h.1 ?_) fun htwo => h.2 ?_
  · exact utf8_injective (hone.trans rfl)
  · exact utf8_injective (htwo.trans rfl)

theorem pathSegment_decodes (value : String) : percentDecode (pathSegment value) = some value := by
  rw [pathSegment_eq]
  exact percentDecode_encode rfl value

theorem keptInSegment_of_isBase64Url {c : Char} (h : isBase64Url c = true) :
    String.utf8EncodeChar c = [c.val.toUInt8] ∧ keptInSegment c.val.toUInt8 = true := by
  have hsize := isBase64Url_utf8Size h
  refine ⟨String.utf8EncodeChar_eq_singleton hsize, ?_⟩
  have hascii : c.toNat < 128 := Nat.lt_succ_of_le (UInt32.le_iff_toNat_le.mp (Char.utf8Size_eq_one_iff.mp hsize))
  have hall : ∀ n : Fin 128, isBase64Url (Char.ofNat n) = true → keptInSegment (UInt8.ofNat n) = true := by decide +kernel
  have hc := hall ⟨c.toNat, hascii⟩
  simp only [Char.ofNat_toNat] at hc
  exact hc h

/-- A digest is written as it is. -/
theorem digest_plain {digest : String} (h : validateDigest digest = .ok ()) : Plain (utf8 digest) := by
  have hkept : ∀ b ∈ utf8 digest, keptInSegment b = true := by
    intro b hb
    rw [utf8_eq_flatMap] at hb
    obtain ⟨c, hc, hb⟩ := List.mem_flatMap.mp hb
    obtain ⟨hencoded, hkept⟩ := keptInSegment_of_isBase64Url ((validateDigest_ok h).2 c hc)
    rw [hencoded] at hb
    rw [List.mem_singleton.mp hb]
    exact hkept
  have hdot : 0x2e ∉ utf8 digest := fun hb => (keptInSegment_plain _ (hkept _ hb)).2.2.1 rfl
  rw [← percentEncode_of_keep hkept]
  exact percentEncode_plain keptInSegment_plain (fun hone => hdot (by rw [hone]; decide)) fun htwo => hdot (by rw [htwo]; decide)

/-! ## Rooms -/

/-- One of its components is a dot segment. -/
def dotted (room : RoomId) : Bool := isDots room.project || isDots room.task

/-- What the client may be asked to transfer: a room and a digest that pass their rules. -/
structure Addressable (room : RoomId) (digest : String) : Prop where
  project : validateIdentifier room.project = .ok ()
  task : validateIdentifier room.task = .ok ()
  digest : validateDigest digest = .ok ()

/-- What the path is put together from. -/
def route (room : RoomId) (digest : String) : List Bytes :=
  [[0x62, 0x6c, 0x6f, 0x62], pathSegment room.project, pathSegment room.task, utf8 digest]

theorem transferPath_eq (room : RoomId) (digest : String) : transferPath room digest = joined (route room digest) := by
  simp [transferPath, routePrefix, joined, route]

theorem blob_plain : Plain [0x62, 0x6c, 0x6f, 0x62] := ⟨by unfold Clean; decide +kernel, rfl, rfl⟩

/-- Without dot segments the path arrives as it was written. -/
theorem requestPath_eq {room : RoomId} {digest : String} (h : Addressable room digest) (hdots : dotted room = false) :
    requestPath room digest = transferPath room digest := by
  simp only [dotted, Bool.or_eq_false_iff] at hdots
  have hsegments : ∀ segment ∈ route room digest, Plain segment := by
    simp only [route, List.forall_mem_cons]
    exact ⟨blob_plain, pathSegment_plain hdots.1, pathSegment_plain hdots.2, digest_plain h.digest, List.forall_mem_nil _⟩
  rw [requestPath, transferPath_eq, pathname_joined (show route room digest ≠ [] from List.cons_ne_nil _ _) hsegments]

/-- One dot or two are still that when they are encoded. -/
theorem pathSegment_dots {value : String} (h : isDots value = true) :
    singleDot (pathSegment value) = true ∨ doubleDot (pathSegment value) = true := by
  simp only [isDots, Bool.or_eq_true, beq_iff_eq] at h
  rcases h with rfl | rfl
  · exact .inl (by decide +kernel)
  · exact .inr (by decide +kernel)

/-- A dot segment before the digest is one segment less, if not two. -/
theorem length_walk_dotted {blob project task digest : Bytes} (hblob : Plain blob) (hdigest : Plain digest)
    (h : (singleDot project = true ∨ doubleDot project = true) ∨ singleDot task = true ∨ doubleDot task = true) :
    (walk [] [blob, project, task, digest]).length < 4 := by
  simp only [walk, hblob.single, hblob.double, hdigest.single, hdigest.double, Bool.false_eq_true, if_false, List.nil_append]
  split_ifs <;> simp_all

/-- The path of a dotted room has lost a segment of the route. -/
theorem parse_dotted {room : RoomId} {digest : String} (h : Addressable room digest) (hdots : dotted room = true) :
    Target.parse (requestPath room digest) = none := by
  have hclean : ∀ value, Clean (pathSegment value) := by
    intro value
    rw [pathSegment_eq]
    exact percentEncode_clean (fun b hb => ⟨(keptInSegment_plain b hb).1, (keptInSegment_plain b hb).2.1⟩) _
  have hsegments : ∀ segment ∈ route room digest, Clean segment := by
    simp only [route, List.forall_mem_cons]
    exact ⟨blob_plain.bytes, hclean _, hclean _, (digest_plain h.digest).bytes, List.forall_mem_nil _⟩
  obtain ⟨hpath, hwalked⟩ := pathname_clean (show route room digest ≠ [] from List.cons_ne_nil _ _) hsegments
  cases hparse : Target.parse (requestPath room digest) with
  | none => rfl
  | some target =>
    have hfour := slashes_of_parse hparse
    rw [requestPath, transferPath_eq, hpath, slashes_joined hwalked] at hfour
    simp only [dotted, Bool.or_eq_true] at hdots
    have hless := length_walk_dotted blob_plain (digest_plain h.digest) (hdots.imp pathSegment_dots pathSegment_dots)
    exact absurd hfour (Nat.not_le.mpr hless)

theorem parse_transferPath {room : RoomId} {digest : String} (h : Addressable room digest) (hdots : dotted room = false) :
    Target.parse (transferPath room digest) = some ⟨room, digest⟩ := by
  simp only [dotted, Bool.or_eq_false_iff] at hdots
  have hslash : ∀ {segment : Bytes}, Plain segment → ∀ b ∈ segment, b ≠ 0x2f := by
    rintro segment hplain b hb rfl
    exact absurd (hplain.bytes _ hb).2 (by decide)
  refine parse_route ?_ (pathSegment_decodes room.project) (pathSegment_decodes room.task) (ofUtf8_utf8 digest)
    (validateIdentifier_ok h.project).1 (validateIdentifier_ok h.task).1
  simp only [List.forall_mem_cons]
  exact ⟨hslash (pathSegment_plain hdots.1), hslash (pathSegment_plain hdots.2), hslash (digest_plain h.digest), nofun⟩

/-- The room is reached with its digest, and by its own path. -/
def Reached (room : RoomId) (digest : String) : Prop :=
  Target.parse (requestPath room digest) = some ⟨room, digest⟩ ∧
    ∀ room' digest', Addressable room' digest' → requestPath room' digest' = requestPath room digest →
      room' = room ∧ digest' = digest

/-- A room is reached if and only if it has no dot segment, and with one there is no route. -/
theorem a_transfer_reaches_its_room {room : RoomId} {digest : String} (h : Addressable room digest) :
    (Reached room digest ↔ dotted room = false) ∧
      (dotted room = true → Target.parse (requestPath room digest) = none) := by
  have hparse : ∀ {room : RoomId} {digest : String}, Addressable room digest → dotted room = false →
      Target.parse (requestPath room digest) = some ⟨room, digest⟩ := fun h hdots => by
    rw [requestPath_eq h hdots, parse_transferPath h hdots]
  refine ⟨⟨fun hreached => ?_, fun hdots => ⟨hparse h hdots, fun room' digest' h' hpath => ?_⟩⟩, parse_dotted h⟩
  · by_contra hdots
    cases (parse_dotted h (Bool.eq_true_of_not_eq_false hdots)).symm.trans hreached.1
  · have hsame : Target.parse (requestPath room' digest') = some ⟨room, digest⟩ := by rw [hpath, hparse h hdots]
    have hdots' : dotted room' = false := by
      by_contra hdots'
      cases (parse_dotted h' (Bool.eq_true_of_not_eq_false hdots')).symm.trans hsame
    cases (hparse h' hdots').symm.trans hsame
    exact ⟨rfl, rfl⟩

def sampleAddress : String := "47DEQpj8HBSa-_TImW-5JCeuQeRkm5NMpJWZG3hSuFU"

/-- Spaces, a percent sign, a plus, dots and characters of three bytes. -/
def odd : RoomId := ⟨"a b%2E+...", "日本"⟩

theorem an_odd_room_is_reached :
    Addressable odd sampleAddress ∧ dotted odd = false ∧ Reached odd sampleAddress := by
  have hodd : Addressable odd sampleAddress := ⟨rfl, rfl, rfl⟩
  exact ⟨hodd, rfl, (a_transfer_reaches_its_room hodd).1.mpr rfl⟩

/-- Two dots twice take the whole route away; and what comes before two dots is lost. -/
theorem a_dotted_room_is_not_reached :
    Addressable ⟨"..", ".."⟩ sampleAddress ∧ requestPath ⟨"..", ".."⟩ sampleAddress = 0x2f :: utf8 sampleAddress ∧
      Target.parse (requestPath ⟨"..", ".."⟩ sampleAddress) = none ∧
      Addressable ⟨"a", ".."⟩ sampleAddress ∧ Addressable ⟨"b", ".."⟩ sampleAddress ∧
      requestPath ⟨"a", ".."⟩ sampleAddress = requestPath ⟨"b", ".."⟩ sampleAddress :=
  ⟨⟨rfl, rfl, rfl⟩, by decide +kernel, by decide +kernel, ⟨rfl, rfl, rfl⟩, ⟨rfl, rfl, rfl⟩, by decide +kernel⟩

end OmpRelayd.Client
