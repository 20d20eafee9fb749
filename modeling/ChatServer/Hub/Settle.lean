import ChatServer.Hub.Serve

/-!
Background work. After every event all tasks run until each of them can only wait: connections
serve their inboxes, pumps and streams pass on what has been published, and the writer attempts
what is in line. When nobody can give commands any more, all rooms are closed and the writer,
having attempted what is left, ends.
-/

namespace ChatServer.Hub

def runPump (h : Hub) (name : Label) : Hub :=
  match h.pumps.get? name with
  | none => h
  | some p =>
    let (p, registry) := p.run h.registry
    { h with registry, pumps := h.pumps.put name p }

def runWriter (h : Hub) : Hub := { h with journal := h.journal.settle .writer }

def round (h : Hub) : Hub :=
  let h := h.connections.keys.foldl serveAll h
  let h := h.pumps.keys.foldl runPump h
  let h := h.connections.keys.foldl forward h
  h.runWriter

def permits (h : Hub) : Nat := (h.journal.store.gate.map Gate.permits).getD 0

/-- Every task runs at most `n` times; a round in which nobody takes a permit is the last one that
changes anything. -/
def rounds (h : Hub) : Nat → Hub
  | 0 => h
  | n + 1 =>
    let after := h.round
    if after.permits = h.permits then after else rounds after n

/-- Whether someone can still give commands: the user of the server, a pump or a connection. -/
def attended (h : Hub) : Bool :=
  h.handle || h.pumps.entries.any (fun e => e.2.running) ||
    h.connections.entries.any (fun e => e.2.alive)

/-- Stops handling commands once nobody can give any. -/
def retire (h : Hub) : Hub :=
  if h.managed && !h.attended then h.dismiss.runWriter else h

/-- Runs until every task can only wait; every round but the last takes a permit. -/
def settle (h : Hub) : Hub := (h.rounds (h.permits + 1)).retire

end ChatServer.Hub
