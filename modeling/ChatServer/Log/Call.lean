import ChatServer.Clock

/-!
The five calls every durable log answers: values are appended to the list under a key, read
back by position, given a time to live, removed and looked for.
-/

namespace ChatServer

inductive LogCall
  | push (key value : String)
  /-- Both bounds are inclusive; a negative one counts from the end. -/
  | range (key : String) (start stop : Int)
  | expire (key : String) (ttl : Duration)
  | delete (key : String)
  | contains (key : String)
  deriving DecidableEq

inductive LogAnswer
  | done
  | values (vs : List String)
  | found (b : Bool)
  deriving DecidableEq

end ChatServer
