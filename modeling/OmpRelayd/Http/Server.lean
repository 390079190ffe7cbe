/-
  OmpRelayd.Http.Server — the transfer side of the relay (server/src/http.rs: `route`, `put`,
  `refuse_upload`, `get`, `content_length`, `empty`).

  Every request is a task of its own over the one store and its files. A task is where its handler
  awaits: `put` for a body frame or for an operation of its upload, `get` for the file to be opened,
  and then the connection for the next piece of the file. The frames of a body, their end, an error
  and the silence that runs into `BODY_PROGRESS_TIMEOUT` come as they like, and so does the end of
  the connection, which drops the task. A file is read at the moment it is read, and between two
  pieces anything can happen to it.

  The head of a fetch goes out before its body and states the length. The HTTP library passes on no
  more than that, and closes the connection if the stream ends or fails before (`cut`).
-/

import OmpRelayd.Blob.Bodies
import OmpRelayd.Http

namespace OmpRelayd.Http

open Blob (DiskEv diskStep payloadPath payloadLen UploadError)

/-! ## Requests and responses -/

inductive Method where
  | put
  | get
  | head
  | other
  deriving DecidableEq, Repr

structure Request where
  method : Method
  path : Bytes
  /-- The value of `Content-Length`. -/
  contentLength : Option Bytes := none
  deriving DecidableEq, Repr

inductive Status where
  | ok
  | created
  | noContent
  | badRequest
  | forbidden
  | notFound
  | methodNotAllowed
  | requestTimeout
  | conflict
  | lengthRequired
  | payloadTooLarge
  | internalServerError
  deriving DecidableEq, Repr

inductive Header where
  | allow (methods : String)
  | contentType (value : String)
  | contentLength (bytes : Nat)
  | cacheControl (value : String)
  deriving DecidableEq, Repr

/-- The head of a response. -/
structure Response where
  status : Status
  headers : List Header := []
  deriving DecidableEq, Repr

def empty (status : Status) : Response := { status := status }

/-- `PAYLOAD_CONTENT_TYPE` -/
def payloadContentType : String := "application/octet-stream"

/-- `IMMUTABLE` -/
def immutable : String := "public, max-age=31536000, immutable"

/-- The head of every fetch that is answered, with or without the body. -/
def payloadHead (bytes : Nat) : Response :=
  { status := .ok
    headers := [.contentType payloadContentType, .contentLength bytes, .cacheControl immutable] }

/-! ### The declared length -/

/-- What `HeaderValue::to_str` takes for text. -/
def visible (byte : UInt8) : Bool := (0x20 ≤ byte && byte < 0x7f) || byte == 0x09

def blank (byte : UInt8) : Bool := byte == 0x20 || byte == 0x09

def trim (text : Bytes) : Bytes := ((text.dropWhile blank).reverse.dropWhile blank).reverse

def isDigit (byte : UInt8) : Bool := 0x30 ≤ byte && byte ≤ 0x39

def decimal (digits : Bytes) : Nat := digits.foldl (fun value byte => 10 * value + (byte.toNat - 0x30)) 0

/-- `str::parse` for a `u64`: digits, behind one plus sign at most. -/
def parseU64 (text : Bytes) : Option Nat :=
  let digits := if text.head? = some 0x2b then text.tail else text
  if digits = [] ∨ ¬ digits.all isDigit ∨ 2 ^ 64 ≤ decimal digits then none else some (decimal digits)

def contentLength (request : Request) : Option Nat :=
  request.contentLength.bind fun value => if value.all visible then parseU64 (trim value) else none

/-! ### Dispatch -/

/-- What a request comes to before the store is asked. -/
inductive Route where
  | answer (response : Response)
  | put (target : Target)
  | get (target : Target) (withBody : Bool)
  deriving DecidableEq, Repr

def route (request : Request) : Route :=
  match Target.parse request.path with
  | none => .answer (empty .notFound)
  | some target =>
    match validateDigest target.digest with
    | .error _ => .answer (empty .badRequest)
    | .ok () =>
      match request.method with
      | .put => .put target
      | .get => .get target true
      | .head => .get target false
      | .other => .answer { status := .methodNotAllowed, headers := [.allow "GET, HEAD, PUT"] }

def refuseUpload : UploadError → Response
  | .digestMismatch _ _ => empty .badRequest
  | .lengthMismatch _ _ => empty .badRequest
  | .roomGone => empty .conflict
  | .io => empty .internalServerError

/-- What `put` answers when its upload is over. -/
def uploadResponse : Except UploadError Nat → Response
  | .ok _ => empty .created
  | .error error => refuseUpload error

/-! ## Tasks -/

/-- An upload as its request knows it. -/
structure Put where
  target : Target
  declared : Nat
  /-- What has come of the body. -/
  body : Bytes := []
  deriving DecidableEq, Repr

/-- A fetch whose file is open. -/
structure Fetch where
  target : Target
  /-- The length in its head. -/
  bytes : Nat
  file : Nat
  sent : Bytes := []
  deriving DecidableEq, Repr

inductive Task where
  | uploading (put : Put) (serial : Nat)
  /-- The upload is over, and this is the answer. -/
  | uploaded (put : Put) (response : Response)
  /-- `get` waits for the file. -/
  | opening (target : Target) (bytes : Nat)
  | streaming (fetch : Fetch)
  /-- The stream gave out before the length in the head. -/
  | cut (fetch : Fetch)
  /-- Answered without a body; the target is the one the handler was called for. -/
  | answered (target : Option Target) (response : Response)
  deriving DecidableEq, Repr

structure Server where
  disk : Blob.Sys := {}
  tasks : Map Nat Task := ∅
  nextTask : Nat := 0

inductive Ev where
  | request (request : Request) (now : Nat)
  /-- A frame of the body. -/
  | frame (id : Nat) (chunk : Bytes)
  | trailers (id : Nat)
  | endBody (id : Nat)
  /-- The connection fails in the middle of the body. -/
  | bodyFails (id : Nat)
  /-- Nothing came for `BODY_PROGRESS_TIMEOUT`. -/
  | stall (id : Nat)
  /-- The operation the upload awaits is done, and its task runs on. -/
  | resume (id now : Nat)
  /-- `File::open`, which can fail for a reason of the system's. -/
  | openFile (id : Nat) (fails : Bool)
  /-- The stream's next read, of up to `length` bytes. -/
  | pull (id length : Nat)
  | readFails (id : Nat)
  /-- The connection is gone, and its task is dropped. -/
  | hangUp (id : Nat)
  /-- Whatever else moves the store or its files. -/
  | disk (e : DiskEv)

/-- The buffer `ReaderStream` reads into. -/
def readerCapacity : Nat := 4096

namespace Server

def put (s : Server) (id : Nat) (task : Task) : Server := { s with tasks := s.tasks.insert id task }

/-- The task of an upload after a step of it: waiting again, or done. -/
def progress (disk : Blob.Sys) (put : Put) (serial : Nat) : Task :=
  if (disk.uploads.lookup serial).isSome then .uploading put serial
  else .uploaded put ((disk.outcomes.getLast?.map fun o => uploadResponse o.result).getD (empty .internalServerError))

variable (hash : Bytes → String)

/-- A step of the task's own upload, which brings it `grow` of the body. -/
def advance (s : Server) (id : Nat) (e : Nat → DiskEv) (grow : Bytes) : Option Server :=
  match s.tasks.lookup id with
  | some (.uploading put serial) => (diskStep hash s.disk (e serial)).map fun disk =>
    { s with disk := disk }.put id (progress disk { put with body := put.body ++ grow } serial)
  | _ => none

/-- The upload whose `put` waits for a frame of the body. -/
def waiting (s : Server) (id : Nat) : Option (Put × Nat) :=
  match s.tasks.lookup id with
  | some (.uploading put serial) =>
    if (s.disk.uploads.lookup serial).any (fun u => u.phase = .ready) then some (put, serial) else none
  | _ => none

/-- `put` returns while it waits for a frame, and drops its upload. -/
def giveUp (s : Server) (id : Nat) (status : Status) : Option Server :=
  (s.waiting id).bind fun w => (diskStep hash s.disk (.cancel w.2)).map fun disk =>
    { s with disk := disk }.put id (.uploaded w.1 (empty status))

/-- `put`, up to its first await. -/
def beginPut (s : Server) (request : Request) (target : Target) (now : Nat) : Option (Blob.Sys × Task) :=
  match contentLength request with
  | none => some (s.disk, .answered (some target) (empty .lengthRequired))
  | some declared => (diskStep hash s.disk (.beginUpload target.room target.digest declared now)).map fun disk =>
    (disk, match (s.disk.store.beginUpload target.room target.digest declared now).1 with
      | .error .unreserved => .answered (some target) (empty .forbidden)
      | .error (.overReservation _ _) => .answered (some target) (empty .payloadTooLarge)
      | .ok .alreadyHeld => .answered (some target) (empty .noContent)
      | .ok (.upload serial) => .uploading ⟨target, declared, []⟩ serial)

/-- `get`, up to its first await. -/
def beginGet (s : Server) (target : Target) (withBody : Bool) (now : Nat) : Task :=
  match payloadLen s.disk.store.index target.room target.digest now with
  | none => .answered (some target) (empty .notFound)
  | some bytes => if withBody then .opening target bytes else .answered (some target) (payloadHead bytes)

def begin (s : Server) (request : Request) (now : Nat) : Option (Blob.Sys × Task) :=
  match route request with
  | .answer response => some (s.disk, .answered none response)
  | .put target => s.beginPut hash request target now
  | .get target withBody => some (s.disk, s.beginGet target withBody now)

/-- `get` has its file, or not. -/
def opened (s : Server) (target : Target) (bytes : Nat) (fails : Bool) : Task :=
  match s.disk.fs.files.lookup (payloadPath target.room target.digest) with
  | none => .answered (some target) (empty .notFound)
  | some file =>
    if fails then .answered (some target) (empty .notFound) else .streaming ⟨target, bytes, file, []⟩

/-- The next piece of the file, of which no more is passed on than the head states. -/
def read (s : Server) (fetch : Fetch) (length : Nat) : Task :=
  let piece := ((s.disk.fs.content fetch.file).drop fetch.sent.length).take length
  if piece = [] then .cut fetch
  else .streaming { fetch with sent := fetch.sent ++ piece.take (fetch.bytes - fetch.sent.length) }

/-- The fetch that still has something to send. -/
def sending (s : Server) (id : Nat) : Option Fetch :=
  match s.tasks.lookup id with
  | some (.streaming fetch) => if fetch.sent.length < fetch.bytes then some fetch else none
  | _ => none

def step (s : Server) : Ev → Option Server
  | .request request now => (s.begin hash request now).map fun begun =>
    { disk := begun.1, tasks := s.tasks.insert s.nextTask begun.2, nextTask := s.nextTask + 1 }
  | .frame id chunk => s.advance hash id (fun serial => .chunk serial chunk) chunk
  | .trailers id => (s.waiting id).map fun _ => s
  | .endBody id => s.advance hash id (fun serial => .endBody serial) []
  | .bodyFails id => s.giveUp hash id .badRequest
  | .stall id => s.giveUp hash id .requestTimeout
  | .resume id now => s.advance hash id (fun serial => .resume serial now) []
  | .openFile id fails =>
    match s.tasks.lookup id with
    | some (.opening target bytes) => some (s.put id (s.opened target bytes fails))
    | _ => none
  | .pull id length =>
    if 0 < length ∧ length ≤ readerCapacity then (s.sending id).map fun fetch => s.put id (s.read fetch length)
    else none
  | .readFails id => (s.sending id).map fun fetch => s.put id (.cut fetch)
  | .hangUp id =>
    match s.tasks.lookup id with
    | some (.uploading _ serial) => (diskStep hash s.disk (.cancel serial)).map fun disk =>
      { s with disk := disk, tasks := s.tasks.erase id }
    | some _ => some { s with tasks := s.tasks.erase id }
    | none => none
  | .disk e => if e.elsewhere then (diskStep hash s.disk e).map fun disk => { s with disk := disk } else none

end Server

abbrev ServerReach (hash : Bytes → String) := Reach (Server.step hash) {} Always

end OmpRelayd.Http
