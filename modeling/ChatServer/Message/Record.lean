import ChatServer.Identity
import ChatServer.Json.Record
import ChatServer.Json.Render
import ChatServer.Time.Write

/-!
The records that are kept in the log: what was said in a room, and what one user sent another.
-/

namespace ChatServer

open Json (Kind Datum Field Schema Value Reader)

structure ChatRecord where
  sender : UserId
  room : RoomId
  text : String
  sentAt : Instant
  deriving DecidableEq, Inhabited

structure DirectRecord where
  sender : UserId
  receiver : UserId
  text : String
  /-- Set in every message made here; a stored record may say otherwise. -/
  isDirect : Bool
  deriving DecidableEq, Inhabited

namespace ChatRecord

/-- The line listeners see. -/
def line (r : ChatRecord) : String := r.sender.text ++ ": " ++ r.text

def schema : Schema :=
  ⟨"ChatMessage", [⟨"sender_id", .text⟩, ⟨"room_id", .text⟩, ⟨"text", .text⟩,
    ⟨"sent_at", .timestamp⟩]⟩

def toValue (r : ChatRecord) : Value :=
  .object [("sender_id", .text r.sender.text), ("room_id", .text r.room.text),
    ("text", .text r.text), ("sent_at", .text r.sentAt.text)]

def json (r : ChatRecord) : String := r.toValue.render

def ofData : List Datum → Option ChatRecord
  | [.text sender, .text room, .text text, .timestamp sentAt] =>
    some ⟨⟨sender⟩, ⟨room⟩, text, sentAt⟩
  | _ => none

def reader : Reader ChatRecord := fun cs =>
  match Json.readRecord schema cs with
  | .error f => .error f
  | .ok (ds, rest) =>
    match ofData ds with
    | some r => .ok (r, rest)
    | none => .error (Json.stopAt .expectedValue rest)

def parse (text : String) : Except Json.Refusal ChatRecord := Json.readWhole reader text

end ChatRecord

namespace DirectRecord

def new (sender receiver : UserId) (text : String) : DirectRecord :=
  ⟨sender, receiver, text, true⟩

def schema : Schema :=
  ⟨"DirectMessage", [⟨"sender_id", .text⟩, ⟨"receiver_id", .text⟩, ⟨"text", .text⟩,
    ⟨"is_dm", .flag⟩]⟩

def toValue (r : DirectRecord) : Value :=
  .object [("sender_id", .text r.sender.text), ("receiver_id", .text r.receiver.text),
    ("text", .text r.text), ("is_dm", .flag r.isDirect)]

def json (r : DirectRecord) : String := r.toValue.render

def ofData : List Datum → Option DirectRecord
  | [.text sender, .text receiver, .text text, .flag isDirect] =>
    some ⟨⟨sender⟩, ⟨receiver⟩, text, isDirect⟩
  | _ => none

def reader : Reader DirectRecord := fun cs =>
  match Json.readRecord schema cs with
  | .error f => .error f
  | .ok (ds, rest) =>
    match ofData ds with
    | some r => .ok (r, rest)
    | none => .error (Json.stopAt .expectedValue rest)

def parse (text : String) : Except Json.Refusal DirectRecord := Json.readWhole reader text

end DirectRecord

/-- The entries that hold records, in their order; others are passed over. -/
def readable {α : Type} (parse : String → Except Json.Refusal α) (entries : List String) :
    List α :=
  entries.filterMap fun entry => (parse entry).toOption

end ChatServer
