/-
  OmpRelayd.Extension.Inbound — a delivery as the session is shown it (extension/src/index.ts:
  `quotedBody`, `buildInboundInjection`).

  The provenance of a delivery is at the beginning of its lines, one field a line; the body's
  lines are all quoted, so none of them stands there. The frame's own values are kept beside the
  text, unchanged, as an entry of the transcript that no model is shown. The purpose, which the
  operator wrote, comes first and as it is.
-/

import OmpRelayd.Extension.Mesh

namespace OmpRelayd.Extension

inductive DeliveryType where
  | message
  | notice
  deriving DecidableEq, Repr

/-- A `message` or a `notice`, as the client's validation leaves it. -/
structure DeliveryFrame where
  type : DeliveryType
  id : String
  sender : String
  body : String
  replyTo : Option String
  attachment : Option String
  deriving DecidableEq, Repr

structure InboundDetails where
  id : String
  sender : String
  project : String
  task : String
  body : String
  replyTo : Option String
  attachment : Option String
  deriving DecidableEq, Repr

structure InboundInjection where
  text : String
  details : InboundDetails
  entryType : String
  deriving DecidableEq, Repr

def inboundMessageType : String := "io.github.pashifika.omp-relay.message"

def inboundNoticeType : String := "io.github.pashifika.omp-relay.notice"

def bodyQuote : String := "> "

/-- `CONTROL_CHARACTERS_OUTSIDE_TEXT` -/
def isControlOutsideText (c : Char) : Bool := isControl c && c != '\t' && c != '\n'

def quotedBody (value : String) : List String :=
  ((value.toList.map fun c => if isControlOutsideText c then neutralized else c).splitOn '\n').map
    fun line => bodyQuote ++ String.ofList line

def provenance (delivery : DeliveryFrame) (room : RoomId) : List String :=
  let sender := singleLine delivery.sender
  let project := singleLine room.project
  let task := singleLine room.task
  let id := singleLine delivery.id
  (match delivery.type with
    | .notice => [s!"Room announcement from {sender}, addressed to everyone in this room", s!"Project: {project}",
      s!"Task: {task}", s!"Announcement ID: {id}"]
    | .message => [s!"Remote message from {sender}", s!"Project: {project}", s!"Task: {task}", s!"Message ID: {id}"]) ++
  (delivery.replyTo.toList.map fun replyTo => "Reply to: " ++ singleLine replyTo) ++
  delivery.attachment.toList.flatMap fun attachment =>
    ["Attachment available, not downloaded: " ++ singleLine attachment,
      "Fetch it deliberately with mesh action \"fetch\" if this work needs it."]

def buildInboundInjection (delivery : DeliveryFrame) (room : RoomId) (purpose : Option String) : InboundInjection where
  text := String.intercalate "\n"
    ((purpose.toList.flatMap fun purpose => [purposeHeading, purpose, ""]) ++ provenance delivery room ++ [""] ++
      quotedBody delivery.body)
  details := ⟨delivery.id, delivery.sender, room.project, room.task, delivery.body, delivery.replyTo, delivery.attachment⟩
  entryType := match delivery.type with
    | .notice => inboundNoticeType
    | .message => inboundMessageType

end OmpRelayd.Extension
