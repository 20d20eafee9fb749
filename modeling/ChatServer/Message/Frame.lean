import ChatServer.Message.Error
import ChatServer.Message.Record

/-!
What the server sends to a client: one JSON object per frame, whose first member tells its type.
-/

namespace ChatServer

open Json (Value)

inductive ErrorCode
  | notIdentified
  | notInRoom
  | invalidMessage
  | storeUnavailable
  | internal
  deriving DecidableEq

def ErrorCode.name : ErrorCode → String
  | .notIdentified => "not_identified"
  | .notInRoom => "not_in_room"
  | .invalidMessage => "invalid_message"
  | .storeUnavailable => "store_unavailable"
  | .internal => "internal"

inductive Frame
  | connected (connection : String)
  | identified (user : String)
  | roomCreated (room : String)
  | joined (room : String)
  | left (room : String)
  | sent (room : String)
  /-- A payload from the joined room. -/
  | message (room payload : String)
  /-- The joined room was deleted. -/
  | roomClosed (room : String)
  | roomDeleted (room : String)
  | history (room : String) (messages : List ChatRecord)
  | directSent (receiver : String)
  | directMessages (sender receiver : String) (messages : List DirectRecord)
  | directDeleted (sender receiver : String)
  | error (code : ErrorCode) (message : String)
  deriving DecidableEq

namespace Frame

def typeName : Frame → String
  | .connected _ => "connected"
  | .identified _ => "identified"
  | .roomCreated _ => "room_created"
  | .joined _ => "joined"
  | .left _ => "left"
  | .sent _ => "sent"
  | .message .. => "message"
  | .roomClosed _ => "room_closed"
  | .roomDeleted _ => "room_deleted"
  | .history .. => "history"
  | .directSent _ => "direct_sent"
  | .directMessages .. => "direct_messages"
  | .directDeleted .. => "direct_deleted"
  | .error .. => "error"

/-- The members of a frame after its type. -/
def members : Frame → List (String × Value)
  | .connected connection => [("connection_id", .text connection)]
  | .identified user => [("user_id", .text user)]
  | .roomCreated room => [("room_id", .text room)]
  | .joined room => [("room_id", .text room)]
  | .left room => [("room_id", .text room)]
  | .sent room => [("room_id", .text room)]
  | .message room payload => [("room_id", .text room), ("payload", .text payload)]
  | .roomClosed room => [("room_id", .text room)]
  | .roomDeleted room => [("room_id", .text room)]
  | .history room messages =>
    [("room_id", .text room), ("messages", .array (messages.map ChatRecord.toValue))]
  | .directSent receiver => [("receiver_id", .text receiver)]
  | .directMessages sender receiver messages =>
    [("sender_id", .text sender), ("receiver_id", .text receiver),
      ("messages", .array (messages.map DirectRecord.toValue))]
  | .directDeleted sender receiver =>
    [("sender_id", .text sender), ("receiver_id", .text receiver)]
  | .error code text => [("code", .text code.name), ("message", .text text)]

def toValue (f : Frame) : Value := .object (("type", .text f.typeName) :: f.members)

def json (f : Frame) : String := f.toValue.render

/-- Whether a frame belongs to the stream of a joined room; all others answer a request. -/
def isStream : Frame → Bool
  | .message .. => true
  | .roomClosed _ => true
  | _ => false

def ofError : ServiceError → Frame
  | .notIdentified => .error .notIdentified "Identify before sending"
  | .notInRoom => .error .notInRoom "You are not in a room"
  | .json r => .error .invalidMessage ("Invalid message format: " ++ r.message)
  | .log e => .error .storeUnavailable e.message
  | _ => .error .internal "Internal error"

end Frame

end ChatServer
