import RespClient.Backoff
import RespClient.Text.Blank
import RespClient.Text.Numeral
import RespClient.Text.Utf8

/-!
# Settings

Where the client connects and how long it waits.  Each value comes from the command
line, else from a settings file, else from the defaults; the chosen values are checked,
the passed over ones are not.
-/

namespace RespClient

/-! ## §1  Flags and faults -/

inductive Flag
  | host
  | port
  | retryInterval
  | maxRetryDelay
  | replyTimeout
  | logLevel
  | config
  deriving DecidableEq, Repr

namespace Flag

def name : Flag → String
  | .host => "--host"
  | .port => "--port"
  | .retryInterval => "--retry-interval"
  | .maxRetryDelay => "--max-retry-delay"
  | .replyTimeout => "--reply-timeout"
  | .logLevel => "--log-level"
  | .config => "--config"

def all : List Flag :=
  [.host, .port, .retryInterval, .maxRetryDelay, .replyTimeout, .logLevel, .config]

def ofName? (name : String) : Option Flag := all.find? (·.name = name)

end Flag

inductive SettingsError
  | invalidFlag (arg : String)
  /-- A flag without a value, or with one that does not fit. -/
  | invalidFlagValue (flag : Flag)
  | fileRead (path reason : String)
  | fileParse (path reason : String)
  | emptyHost
  | invalidPort (port : Nat)
  deriving DecidableEq, Repr

def SettingsError.message : SettingsError → String
  | .invalidFlag arg => "Invalid command line flag: " ++ arg
  | .invalidFlagValue flag => "Invalid value for command line flag " ++ flag.name
  | .fileRead path reason => "Failed to read config file '" ++ path ++ "': " ++ reason
  | .fileParse path reason => "Failed to parse config file '" ++ path ++ "': " ++ reason
  | .emptyHost => "Host must not be empty"
  | .invalidPort port => "Port must be between 1 and 65535, got " ++ toString port

/-! ## §2  Layers -/

/-- The values that one source gives; each may be missing. -/
structure Layer where
  host : Option String := none
  port : Option Nat := none
  /-- Milliseconds. -/
  retryInterval : Option Nat := none
  /-- Milliseconds. -/
  maxRetryDelay : Option Nat := none
  /-- Milliseconds. -/
  replyTimeout : Option Nat := none
  logLevel : Option String := none
  deriving DecidableEq, Repr

structure Settings where
  host : String := "localhost"
  port : Nat := 6379
  retryInterval : Duration := .ofMillis 50
  maxRetryDelay : Duration := .ofMillis 60000
  replyTimeout : Duration := .ofMillis 1000
  logLevel : String := "info"
  deriving DecidableEq, Repr

namespace Settings

def default : Settings := {}

def address (s : Settings) : String := s.host ++ ":" ++ toString s.port

/-- The first layer's value, else the second's, else the default. -/
def choose {α : Type} (upper lower : Option α) (default : α) : α :=
  (upper.or lower).getD default

/-- The settings of two layers over the defaults. -/
def merge (flags file : Layer) : Except SettingsError Settings :=
  let host := choose flags.host file.host default.host
  let port := choose flags.port file.port default.port
  let millis (upper lower : Option Nat) (default : Duration) : Duration :=
    choose (upper.map .ofMillis) (lower.map .ofMillis) default
  if Blank.isBlankText host then .error .emptyHost
  else if port < 1 ∨ 65535 < port then .error (.invalidPort port)
  else .ok
    { host, port
      retryInterval := millis flags.retryInterval file.retryInterval default.retryInterval
      maxRetryDelay := millis flags.maxRetryDelay file.maxRetryDelay default.maxRetryDelay
      replyTimeout := millis flags.replyTimeout file.replyTimeout default.replyTimeout
      logLevel := choose flags.logLevel file.logLevel default.logLevel }

end Settings

end RespClient
