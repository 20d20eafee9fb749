import ChatServer.Number.Integer
import ChatServer.Redis.Error
import ChatServer.Url.Percent
import ChatServer.Url.Read

/-!
The address of a Redis store, as a URL gives it. Addresses that no connection can be made to are
refused without trying.
-/

namespace ChatServer.Redis

inductive Address
  | tcp (host : String) (port : Nat) (database : Int)
  | unix (path : List UInt8) (database : Int)
  deriving DecidableEq

def refused (description : String) : Error := .described .invalidClientConfig description none

/-- The port of a store when none is given. -/
def standardPort : Nat := 6379

/-- The text without the slashes at its two ends. -/
def trimSlashes (cs : List Char) : List Char :=
  ((cs.dropWhile (· = '/')).reverse.dropWhile (· = '/')).reverse

/-- Whether a part of a URL stands for a text. -/
def isText (cs : List Char) : Bool := (spelled? (Url.percentBytes cs)).isSome

/-- The address of a store on a host: the path is the number of a database, zero if it is empty. -/
def hostAddress (u : Url) (host : List Char) : Except Error Address :=
  let path := trimSlashes u.path.text
  match if path.isEmpty then some 0 else integer? path with
  | none => .error (refused "Invalid database number")
  | some database =>
    if !isText u.user then .error (refused "Username is not valid UTF-8 string")
    else if !isText u.password then .error (refused "Password is not valid UTF-8 string")
    else .ok (.tcp (String.ofList host) (u.port.getD standardPort) database)

/-- The address of a store behind a socket: the path is that of the socket, which no host may own,
and a query gives the number of a database. -/
def socketAddress (u : Url) : Except Error Address :=
  match u.path with
  | .bare _ => .error (refused "Missing path")
  | .segments _ =>
    if u.host ≠ none ∧ u.host ≠ some "localhost".toList then .error (refused "Missing path")
    else
      let path := Url.percentBytes u.path.text
      match Url.lastValue? (u.query.getD []) "db" with
      | none => .ok (.unix path 0)
      | some bytes =>
        match (spelled? bytes).bind fun s => integer? s.toList with
        | none => .error (refused "Invalid database number")
        | some database => .ok (.unix path database)

def address (url : String) : Except Error Address :=
  match Url.read? url with
  | none => .error (refused "Redis URL did not parse")
  | some u =>
    if u.scheme = "unix" ∨ u.scheme = "redis+unix" then socketAddress u
    else if u.scheme ≠ "redis" ∧ u.scheme ≠ "rediss" then
      .error (refused "Redis URL did not parse")
    else
      match u.host with
      | none => .error (refused "Missing hostname")
      | some host =>
        if u.scheme = "rediss" then
          .error (refused "can't connect with TLS, the feature is not enabled")
        else hostAddress u host

end ChatServer.Redis
