/-
  OmpRelayd.Http — the transfer route (server/src/http.rs: `Target::parse`, `percent_decode`).

  A request's path is `/blob/<project>/<task>/<digest>`, the room's two components
  percent-encoded; anything else addresses nothing. A path is text, and its slashes are the only
  bytes that cut it, so it is taken as its bytes here.

  Proved: a component is read back from any encoding of it that writes no slash and keeps no
  percent sign (`percentDecode_encode`), and so is a whole target (`parse_route`).
-/

import OmpRelayd.Lib.Url
import OmpRelayd.Protocol

namespace OmpRelayd.Http

open Url

def hexValue (byte : UInt8) : Option UInt8 :=
  if 0x30 ≤ byte ∧ byte ≤ 0x39 then some (byte - 0x30)
  else if 0x61 ≤ byte ∧ byte ≤ 0x66 then some (byte - 0x61 + 10)
  else if 0x41 ≤ byte ∧ byte ≤ 0x46 then some (byte - 0x41 + 10)
  else none

/-- The loop of `percent_decode`, from its index on. -/
def decodeEscapes : Bytes → Option Bytes
  | [] => some []
  | byte :: rest =>
    if byte = 0x25 then
      match rest with
      | high :: low :: rest => do
        let h ← hexValue high
        let l ← hexValue low
        let out ← decodeEscapes rest
        some ((h <<< 4 ||| l) :: out)
      | _ => none
    else (decodeEscapes rest).map (byte :: ·)

def percentDecode (value : Bytes) : Option String := (decodeEscapes value).bind ofUtf8

structure Target where
  room : RoomId
  digest : String
  deriving DecidableEq, Repr

/-- `ROUTE_PREFIX`: `/blob/` -/
def routePrefix : Bytes := [0x2f, 0x62, 0x6c, 0x6f, 0x62, 0x2f]

def Target.parse (path : Bytes) : Option Target := do
  let rest ← path.dropPrefix? routePrefix
  let segments := rest.splitOnP (· == 0x2f)
  let project ← segments[0]?.bind percentDecode
  let task ← segments[1]?.bind percentDecode
  let digest ← segments[2]?
  if segments[3]?.isSome || project == "" || task == "" then none
  else
    let digest ← ofUtf8 digest
    some ⟨⟨project, task⟩, digest⟩

/-! ## Reading back -/

theorem decodeEscapes_cons {b : UInt8} (h : b ≠ 0x25) (rest : Bytes) :
    decodeEscapes (b :: rest) = (decodeEscapes rest).map (b :: ·) := by
  match rest with
  | [] => simp [decodeEscapes, h]
  | [_] => rw [decodeEscapes, if_neg h]; nofun
  | _ :: _ :: _ => rw [decodeEscapes, if_neg h]

theorem decodeEscapes_percent (b : UInt8) (rest : Bytes) :
    decodeEscapes (percent b ++ rest) = (decodeEscapes rest).map (b :: ·) := by
  have hdigits : ∀ b : UInt8, ∃ h l, hexValue (hexDigit (b.toNat / 16)) = some h ∧
      hexValue (hexDigit (b.toNat % 16)) = some l ∧ h <<< 4 ||| l = b := by
    have hdecided : ∀ b : UInt8, ((hexValue (hexDigit (b.toNat / 16))).bind fun h =>
        (hexValue (hexDigit (b.toNat % 16))).map fun l => h <<< 4 ||| l) = some b := forall_byte (by decide +kernel)
    intro b
    obtain ⟨h, hh, hrest⟩ := Option.bind_eq_some_iff.mp (hdecided b)
    obtain ⟨l, hl, hb⟩ := Option.map_eq_some_iff.mp hrest
    exact ⟨h, l, hh, hl, hb⟩
  obtain ⟨h, l, hh, hl, hb⟩ := hdigits b
  rw [percent, List.cons_append, List.cons_append, List.cons_append, List.nil_append, decodeEscapes]
  simp only [if_true, hh, hl, hb, Option.bind_eq_bind, Option.bind_some]
  cases decodeEscapes rest <;> rfl

theorem decodeEscapes_encode {keep : UInt8 → Bool} (hkeep : keep 0x25 = false) (bytes : Bytes) :
    decodeEscapes (percentEncode keep bytes) = some bytes := by
  induction bytes with
  | nil => rfl
  | cons b rest ih =>
    rw [percentEncode, List.flatMap_cons]
    by_cases hb : keep b = true
    · have hne : b ≠ 0x25 := by
        rintro rfl
        rw [hkeep] at hb; cases hb
      rw [if_pos hb, List.singleton_append, decodeEscapes_cons hne]
      exact congrArg (Option.map (b :: ·)) ih
    · rw [if_neg hb, decodeEscapes_percent]
      exact congrArg (Option.map (b :: ·)) ih

theorem percentDecode_encode {keep : UInt8 → Bool} (hkeep : keep 0x25 = false) (value : String) :
    percentDecode (percentEncode keep (utf8 value)) = some value := by
  rw [percentDecode, decodeEscapes_encode hkeep, Option.bind_some, ofUtf8_utf8]

/-- Three segments without a slash in them are the target they decode to. -/
theorem parse_route {project task digest : Bytes} {room : RoomId} {address : String}
    (hslash : ∀ segment ∈ [project, task, digest], ∀ b ∈ segment, b ≠ 0x2f)
    (hproject : percentDecode project = some room.project) (htask : percentDecode task = some room.task)
    (hdigest : ofUtf8 digest = some address) (hp : room.project ≠ "") (ht : room.task ≠ "") :
    Target.parse (routePrefix ++ (project ++ 0x2f :: (task ++ 0x2f :: digest))) = some ⟨room, address⟩ := by
  have hcut : ∀ segment ∈ [project, task, digest], ∀ b ∈ segment, (b == 0x2f) = false :=
    fun segment hs b hb => beq_eq_false_iff_ne.mpr (hslash segment hs b hb)
  have hsegments : (project ++ 0x2f :: (task ++ 0x2f :: digest)).splitOnP (· == 0x2f) = [project, task, digest] := by
    rw [List.splitOnP_append_cons_of_forall_mem (hcut project (by simp)) _ rfl,
      List.splitOnP_append_cons_of_forall_mem (hcut task (by simp)) _ rfl,
      List.splitOnP_eq_singleton (hcut digest (by simp))]
  have hrest : (routePrefix ++ (project ++ 0x2f :: (task ++ 0x2f :: digest))).dropPrefix? routePrefix =
      some (project ++ 0x2f :: (task ++ 0x2f :: digest)) := by
    simp [routePrefix, List.dropPrefix?]
  unfold Target.parse
  rw [hrest]
  simp [hsegments, hproject, htask, hdigest, hp, ht]

/-- A path with fewer than four slashes is no route. -/
theorem slashes_of_parse {path : Bytes} {target : Target} (h : Target.parse path = some target) : 4 ≤ slashes path := by
  simp only [Target.parse, Option.bind_eq_bind, Option.bind_eq_some_iff] at h
  obtain ⟨rest, hrest, -, -, -, -, digest, hdigest, -⟩ := h
  obtain ⟨start, rfl, hstart⟩ := List.dropPrefix?_eq_some_iff.mp hrest
  have hlength := (List.getElem?_eq_some_iff.mp hdigest).1
  have htwo : slashes start = 2 := by rw [eq_of_beq hstart]; rfl
  rw [length_split_slashes] at hlength
  simp only [slashes, List.countP_append] at htwo hlength ⊢
  omega

end OmpRelayd.Http
