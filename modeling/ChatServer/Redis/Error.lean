/-!
What can go wrong between the server and a Redis store, and how it is told.
-/

namespace ChatServer.Redis

/-- The kinds of failure a client tells apart. -/
inductive ErrorKind
  | responseError
  | typeError
  | parseError
  | execAbortError
  | busyLoadingError
  | noScriptError
  | moved
  | ask
  | tryAgain
  | clusterDown
  | crossSlot
  | masterDown
  | readOnly
  | notBusy
  | invalidClientConfig
  deriving DecidableEq

def ErrorKind.name : ErrorKind → String
  | .responseError => "ResponseError"
  | .typeError => "TypeError"
  | .parseError => "ParseError"
  | .execAbortError => "ExecAbortError"
  | .busyLoadingError => "BusyLoadingError"
  | .noScriptError => "NoScriptError"
  | .moved => "Moved"
  | .ask => "Ask"
  | .tryAgain => "TryAgain"
  | .clusterDown => "ClusterDown"
  | .crossSlot => "CrossSlot"
  | .masterDown => "MasterDown"
  | .readOnly => "ReadOnly"
  | .notBusy => "NotBusy"
  | .invalidClientConfig => "InvalidClientConfig"

inductive Error
  | described (kind : ErrorKind) (description : String) (detail : Option String)
  /-- An error whose code has no kind of its own. -/
  | coded (code detail : String)
  | brokenPipe
  deriving DecidableEq

def Error.message : Error → String
  | .described kind description none => description ++ "- " ++ kind.name
  | .described kind description (some detail) =>
    description ++ " - " ++ kind.name ++ ": " ++ detail
  | .coded code detail => code ++ ": " ++ detail
  | .brokenPipe => "broken pipe"

end ChatServer.Redis
