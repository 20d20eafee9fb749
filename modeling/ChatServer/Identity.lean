/-!
Names of rooms and users, which callers choose freely, and identities of listeners, which the
server hands out.
-/

namespace ChatServer

/-- The name of a room, used verbatim wherever the room is looked up. -/
structure RoomId where
  text : String
  deriving DecidableEq, Inhabited

/-- The name of a user, trusted as given. -/
structure UserId where
  text : String
  deriving DecidableEq, Inhabited

/-- The identity of one subscription; no two subscriptions share one. -/
structure ListenerId where
  number : Nat
  deriving DecidableEq, Inhabited

end ChatServer
