import RespClient.Settings.Basic

/-!
# The command line

Flags are read from left to right, each with the argument after it as its value,
whatever that looks like.  The first fault ends the reading, before any file is opened;
of several files only the last is opened.
-/

namespace RespClient

structure Arguments where
  flags : Layer := {}
  file : Option String := none
  deriving DecidableEq, Repr

namespace Arguments

/-- The arguments with one more flag; none if the value does not fit. -/
def set (a : Arguments) (flag : Flag) (value : String) : Option Arguments :=
  match flag with
  | .host => some { a with flags.host := some value }
  | .port => (Numeral.uint32? value).map fun n => { a with flags.port := some n }
  | .retryInterval =>
    (Numeral.uint64? value).map fun n => { a with flags.retryInterval := some n }
  | .maxRetryDelay =>
    (Numeral.uint64? value).map fun n => { a with flags.maxRetryDelay := some n }
  | .replyTimeout =>
    (Numeral.uint64? value).map fun n => { a with flags.replyTimeout := some n }
  | .logLevel => some { a with flags.logLevel := some value }
  | .config => some { a with file := some value }

/-- Read flags on top of those already there. -/
def scan (a : Arguments) : List String → Except SettingsError Arguments
  | [] => .ok a
  | [arg] =>
    match Flag.ofName? arg with
    | none => .error (.invalidFlag arg)
    | some flag => .error (.invalidFlagValue flag)
  | arg :: value :: rest =>
    match Flag.ofName? arg with
    | none => .error (.invalidFlag arg)
    | some flag =>
      match a.set flag value with
      | none => .error (.invalidFlagValue flag)
      | some a => a.scan rest

/-- The arguments of a process; the first is the program's name. -/
def ofProcess (args : List String) : Except SettingsError Arguments := scan {} args.tail

end Arguments

/-- The settings of a process, with `load` to read a settings file. -/
def Settings.ofArguments (load : String → Except SettingsError Layer) (args : List String) :
    Except SettingsError Settings :=
  match Arguments.ofProcess args with
  | .error e => .error e
  | .ok a =>
    match a.file with
    | none => merge a.flags {}
    | some path =>
      match load path with
      | .error e => .error e
      | .ok file => merge a.flags file

end RespClient
