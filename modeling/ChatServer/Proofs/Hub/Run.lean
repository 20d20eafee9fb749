import ChatServer.Hub.Step

/-!
A server that lives through one moment after another. Each moment has its own civil time, which is
all that the messages submitted in it take from there.
-/

namespace ChatServer

/-- An event and the civil time at which it happens. -/
structure Moment where
  wall : Instant
  event : Hub.Event

namespace Hub

/-- The server at a civil time. -/
def dated (h : Hub) (wall : Instant) : Hub := { h with wall }

/-- What a moment shows and what the server is after it. -/
def face (h : Hub) (m : Moment) : Answer × Hub :=
  let (a, _, after) := (h.dated m.wall).step m.event
  (a, after)

/-- The server after a series of moments. -/
def through (h : Hub) (ms : List Moment) : Hub := ms.foldl (fun h m => (h.face m).2) h

@[simp] theorem through_nil (h : Hub) : h.through [] = h := rfl

theorem through_cons (h : Hub) (m : Moment) (ms : List Moment) :
    h.through (m :: ms) = (h.face m).2.through ms := rfl

theorem through_append (h : Hub) (ms ms' : List Moment) :
    h.through (ms ++ ms') = (h.through ms).through ms' := List.foldl_append

end Hub

end ChatServer
