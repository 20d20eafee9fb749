import ChatServer.CommandLine.Number
import ChatServer.Settings

/-!
The options of the command line. Each takes one value, and each has an environment variable that
is looked up when the option is not given.
-/

namespace ChatServer.CommandLine

inductive Opt
  | host
  | port
  | redisUrl
  | commandBuffer
  | subscriberBuffer
  | logQueue
  | messageTtl
  deriving DecidableEq, Inhabited

namespace Opt

/-- All options in the order in which they are shown and looked up in the environment. -/
def all : List Opt :=
  [host, port, redisUrl, commandBuffer, subscriberBuffer, logQueue, messageTtl]

/-- The name behind two hyphens. -/
def long : Opt → String
  | host => "host"
  | port => "port"
  | redisUrl => "redis-url"
  | commandBuffer => "command-buffer"
  | subscriberBuffer => "subscriber-buffer"
  | logQueue => "log-queue"
  | messageTtl => "message-ttl-secs"

/-- The letter behind one hyphen. -/
def short : Opt → Option Char
  | host => some 'H'
  | port => some 'p'
  | _ => none

def envName : Opt → String
  | host => "CHAT_HOST"
  | port => "CHAT_PORT"
  | redisUrl => "REDIS_URL"
  | commandBuffer => "CHAT_COMMAND_BUFFER"
  | subscriberBuffer => "CHAT_SUBSCRIBER_BUFFER"
  | logQueue => "CHAT_LOG_QUEUE"
  | messageTtl => "CHAT_MESSAGE_TTL_SECS"

def help : Opt → String
  | host => "Host address to bind the server to"
  | port => "Port number to bind the server to"
  | redisUrl => "Redis URL for the durable log; in-memory log when absent"
  | commandBuffer => "Room command channel capacity"
  | subscriberBuffer => "Pending messages per listener before drops"
  | logQueue => "Queued room-log writes before drops"
  | messageTtl => "Seconds before a chat or direct-message key expires"

/-- The value of an option that is given nowhere. -/
def fallback : Opt → Option String
  | host => some Settings.default.host
  | port => some (toString Settings.default.port)
  | redisUrl => Settings.default.redisUrl
  | commandBuffer => some (toString Settings.default.commandBuffer)
  | subscriberBuffer => some (toString Settings.default.subscriberBuffer)
  | logQueue => some (toString Settings.default.logQueue)
  | messageTtl => some (toString Settings.default.messageTtlSeconds)

/-- The name an option's value goes by. -/
def valueName (o : Opt) : String :=
  String.ofList (o.long.toList.map fun c => if c = '-' then '_' else c.toUpper)

/-- The option with its value, as messages show it. -/
def usage (o : Opt) : String := "--" ++ o.long ++ " <" ++ o.valueName ++ ">"

def ofLong? (name : String) : Option Opt := all.find? fun o => o.long = name

def ofShort? (c : Char) : Option Opt := all.find? fun o => o.short = some c

end Opt

structure Draft where
  host : Option String
  port : Option Nat
  redisUrl : Option String
  commandBuffer : Option Nat
  subscriberBuffer : Option Nat
  logQueue : Option Nat
  messageTtl : Option Nat
  deriving DecidableEq, Inhabited

namespace Draft

def empty : Draft := ⟨none, none, none, none, none, none, none⟩

def has (d : Draft) : Opt → Bool
  | .host => d.host.isSome
  | .port => d.port.isSome
  | .redisUrl => d.redisUrl.isSome
  | .commandBuffer => d.commandBuffer.isSome
  | .subscriberBuffer => d.subscriberBuffer.isSome
  | .logQueue => d.logQueue.isSome
  | .messageTtl => d.messageTtl.isSome

def set (d : Draft) (o : Opt) (v : String) : Except NumberError Draft :=
  match o with
  | .host => .ok { d with host := some v }
  | .port => (readPort v).map fun n => { d with port := some n }
  | .redisUrl => .ok { d with redisUrl := some v }
  | .commandBuffer => (readSize v).map fun n => { d with commandBuffer := some n }
  | .subscriberBuffer => (readSize v).map fun n => { d with subscriberBuffer := some n }
  | .logQueue => (readSize v).map fun n => { d with logQueue := some n }
  | .messageTtl => (readSize v).map fun n => { d with messageTtl := some n }

/-- The settings, with the default for what has not been given. -/
def settings (d : Draft) : Settings :=
  { host := d.host.getD Settings.default.host
    port := d.port.getD Settings.default.port
    redisUrl := d.redisUrl
    commandBuffer := d.commandBuffer.getD Settings.default.commandBuffer
    subscriberBuffer := d.subscriberBuffer.getD Settings.default.subscriberBuffer
    logQueue := d.logQueue.getD Settings.default.logQueue
    messageTtlSeconds := d.messageTtl.getD Settings.default.messageTtlSeconds }

end Draft

end ChatServer.CommandLine
