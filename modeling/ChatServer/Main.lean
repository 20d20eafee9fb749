import ChatServer.CommandLine.Parse
import ChatServer.Hub.Step
import ChatServer.Redis.Address
import ChatServer.Time.Unix
import Std.Time.DateTime.Timestamp

/-!
The command line. A server is set up from arguments and environment and serves one connection, a
text frame a line: requests come on standard input and frames go to standard output.
-/

namespace ChatServer

/-- The variables of the environment that options fall back to. -/
def environment : IO CommandLine.Environment :=
  CommandLine.Opt.all.filterMapM fun o => do
    return (← IO.getEnv o.envName).map fun v => (o.envName, v)

def wallTime : IO Instant := do
  let t ← Std.Time.Timestamp.now
  return Instant.ofUnixNanos t.toNanosecondsSinceUnixEpoch.val

def connectionName : IO String := do
  let bytes ← IO.getRandomBytes 16
  let hex (b : UInt8) : List Char := [Json.hexDigit (b.toNat / 16), Json.hexDigit (b.toNat % 16)]
  return String.ofList (bytes.toList.flatMap hex)

/-- Writes what has been sent, and returns whether the connection was closed after it. -/
def writeFrames (output : IO.FS.Stream) (sent : List (Label × Parcel)) : IO Bool := do
  for (_, parcel) in sent do
    for f in parcel.frames do
      output.putStrLn f.json
  output.flush
  return sent.any fun (_, parcel) => parcel.closed

partial def serveLines (input output : IO.FS.Stream) (clock : Nat) (h : Hub) : IO Unit := do
  let line ← input.getLine
  let now ← IO.monoNanosNow
  let (_, _, h) := { h with wall := ← wallTime }.step (.advance (now - clock))
  if line.isEmpty then
    let (_, sent, _) := h.step (.disconnect "")
    let _ ← writeFrames output sent
  else
    let text := String.ofList (line.toList.filter fun c => c ≠ '\n' && c ≠ '\r')
    let (_, sent, h) := h.step (.text "" text)
    let closed ← writeFrames output sent
    if !closed then serveLines input output now h

def run (s : Settings) : IO UInt32 := do
  match s.redisUrl.map Redis.address with
  | some (.error e) =>
    IO.eprintln (LogError.redis e).message
    return 1
  | some (.ok _) =>
    IO.eprintln "Durable log unavailable: only a log in memory can be served here"
    return 1
  | none =>
    match Hub.start? s.tuning Outages.none false (← wallTime) with
    | none =>
      IO.eprintln "So many commands cannot wait"
      return 1
    | some h =>
      let (_, sent, h) := h.step (.connect "" (← connectionName))
      let output ← IO.getStdout
      let _ ← writeFrames output sent
      serveLines (← IO.getStdin) output (← IO.monoNanosNow) h
      return 0

end ChatServer

/-- Sets a server up and runs it; the help and refusals are printed instead. -/
def main (args : List String) : IO UInt32 := do
  let env ← ChatServer.environment
  match ChatServer.CommandLine.parse args env with
  | .ok s => ChatServer.run s
  | .error .help =>
    IO.print (ChatServer.CommandLine.Refusal.help.message env)
    return 0
  | .error e =>
    IO.eprintln (e.message env)
    return 2
