import ChatServer.Url.Host
import ChatServer.Url.Path

/-!
Reading a URL: a scheme, behind two slashes a host with a user before it and a port behind it, a
path and a query. Control characters and blanks around a URL and line breaks and tabs anywhere in
it do not count.
-/

namespace ChatServer

/-- A URL. The user name, the password and the query are kept as they are written. -/
structure Url where
  /-- In lower case. -/
  scheme : String
  user : List Char
  password : List Char
  host : Option (List Char)
  port : Option Nat
  path : Url.Path
  query : Option (List Char)
  deriving DecidableEq, Inhabited

namespace Url

/-- The characters of a URL that count. -/
def essential (url : String) : List Char :=
  let isEdge (c : Char) : Bool := c.toNat ≤ 0x20
  let cs := ((url.toList.dropWhile isEdge).reverse.dropWhile isEdge).reverse
  cs.filter fun c => c ≠ '\t' && c ≠ '\n' && c ≠ '\r'

/-- The scheme of a URL in lower case, and what follows its colon. -/
def splitScheme (cs : List Char) : Option (String × List Char) :=
  let name := cs.takeWhile fun c => c.isAlphanum || c = '+' || c = '-' || c = '.'
  match name, cs.drop name.length with
  | first :: _, ':' :: rest =>
    if first.isAlpha then some (String.ofList (name.map Char.toLower), rest) else none
  | _, _ => none

/-- Characters that end the user, the host and the port. -/
def endsAuthority (c : Char) : Bool := c = '/' || c = '?' || c = '#'

/-- What stands before the last at sign in front of the path, if there is one, and what follows
it. -/
def splitUser (cs : List Char) : Option (List Char) × List Char :=
  let reach := cs.takeWhile fun c => !endsAuthority c
  let after := (reach.reverse.takeWhile (· ≠ '@')).reverse
  if after.length < reach.length then
    (some (reach.take (reach.length - after.length - 1)),
     cs.drop (reach.length - after.length))
  else (none, cs)

/-- The host that a text begins with: colons belong to it between brackets. -/
def hostText (inside : Bool) : List Char → List Char
  | [] => []
  | c :: cs =>
    if endsAuthority c || (c = ':' && !inside) then []
    else c :: hostText (c = '[' || (c ≠ ']' && inside)) cs

/-- The port that may follow a host, and what follows it. -/
def splitPort (cs : List Char) : Option (Option Nat × List Char) :=
  match cs with
  | ':' :: cs =>
    let digits := cs.takeWhile isDigit
    let rest := cs.drop digits.length
    let ended :=
      match rest with
      | [] => true
      | c :: _ => endsAuthority c || c = '\\'
    if !ended || 65535 < digitsValue digits then none
    else some (if digits.isEmpty then none else some (digitsValue digits), rest)
  | cs => some (none, cs)

/-- The path and the query that end a URL; with a host before it, every path begins with a slash
or is empty. -/
def withPath (u : Url) (cs : List Char) : Url :=
  let path := cs.takeWhile fun c => c ≠ '?' && c ≠ '#'
  { u with
    path :=
      match path with
      | [] => .bare []
      | '/' :: rest => .ofRest rest
      | rest => if u.host.isSome then .ofRest rest else .bare rest
    query :=
      match cs.drop path.length with
      | '?' :: rest => some (rest.takeWhile (· ≠ '#'))
      | _ => none }

/-- Reads what follows the two slashes. A user needs a host, and so does a port. -/
def readAuthority (u : Url) (cs : List Char) : Option Url :=
  let (info, rest) := splitUser cs
  let (user, password) := halves ':' (info.getD [])
  let guarded := !user.isEmpty || !password.isEmpty
  let host := hostText false rest
  let behind := rest.drop host.length
  if info = some [] && (rest.head?.map endsAuthority).getD false then none
  else if !isHost host then none
  else if host.isEmpty && (guarded || behind.head? = some ':') then none
  else
    (splitPort behind).map fun (port, rest) =>
      { u with user, password, host := if host.isEmpty then none else some host, port }.withPath
        rest

def read? (url : String) : Option Url :=
  (splitScheme (essential url)).bind fun (scheme, rest) =>
    let u : Url := ⟨scheme, [], [], none, none, .bare [], none⟩
    match rest with
    | '/' :: '/' :: rest => u.readAuthority rest
    | rest => some (u.withPath rest)

end Url

end ChatServer
