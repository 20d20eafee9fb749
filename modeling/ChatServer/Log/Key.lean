import ChatServer.Identity

/-!
The keys under which the log keeps what was said in a room and what one user sent another.
-/

namespace ChatServer

def roomKey (room : RoomId) : String := "chat:" ++ room.text

/-- The key of the messages from `sender` to `receiver`; the order of the pair matters. -/
def directKey (sender receiver : UserId) : String := "dm:" ++ sender.text ++ ":" ++ receiver.text

end ChatServer
