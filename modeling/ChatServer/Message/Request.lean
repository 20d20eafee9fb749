import ChatServer.Json.Tagged

/-!
What a client asks of the server: one JSON value per frame, told apart by its type.
-/

namespace ChatServer

inductive Request
  | identify (user : String)
  | createRoom (room : String)
  | join (room : String)
  | leave
  | chat (text : String)
  | deleteRoom (room : String)
  | history (room : String)
  | direct (receiver text : String)
  | fetchDirect (sender receiver : String)
  | deleteDirect (sender receiver : String)
  deriving DecidableEq

namespace Request

/-- A kind of request: its type, its name in error messages, and the names of its fields. -/
structure Form where
  tag : String
  title : String
  fields : List String
  make : List String → Option Request

def form0 (tag title : String) (r : Request) : Form :=
  ⟨tag, title, [], fun
    | [] => some r
    | _ => none⟩

def form1 (tag title field : String) (make : String → Request) : Form :=
  ⟨tag, title, [field], fun
    | [a] => some (make a)
    | _ => none⟩

def form2 (tag title field field' : String) (make : String → String → Request) : Form :=
  ⟨tag, title, [field, field'], fun
    | [a, b] => some (make a b)
    | _ => none⟩

def forms : List Form := [
  form1 "identify" "Identify" "user_id" identify,
  form1 "create_room" "CreateRoom" "room_id" createRoom,
  form1 "join" "Join" "room_id" join,
  form0 "leave" "Leave" leave,
  form1 "chat" "Chat" "text" chat,
  form1 "delete_room" "DeleteRoom" "room_id" deleteRoom,
  form1 "history" "History" "room_id" history,
  form2 "direct" "Direct" "receiver_id" "text" direct,
  form2 "fetch_direct" "FetchDirect" "sender_id" "receiver_id" fetchDirect,
  form2 "delete_direct" "DeleteDirect" "sender_id" "receiver_id" deleteDirect]

def tags : List String := forms.map Form.tag

/-- How a kind of request is named where its array is too short. -/
def Form.heading (f : Form) : String := "struct variant ClientMessage::" ++ f.title

/-- The request of a given type with a given body. -/
def ofBody (tag : String) (body : Json.Body) : Except Json.Cause Request :=
  match forms.find? fun f => f.tag = tag with
  | none => .error (.unknownVariant tag tags)
  | some form =>
    match body.texts form.heading form.fields with
    | .error c => .error c
    | .ok values =>
      match form.make values with
      | some r => .ok r
      | none => .error .expectedValue

/-- Reads a request; a fault in a field has no place in the text. -/
def reader : Json.Reader Request := fun cs =>
  match Json.readTagged tags "internally tagged enum ClientMessage" cs with
  | .error f => .error f
  | .ok ((tag, body), rest) =>
    match ofBody tag body with
    | .error c => .error ⟨c, none⟩
    | .ok r => .ok (r, rest)

def parse (text : String) : Except Json.Refusal Request := Json.readWhole reader text

end Request

end ChatServer
