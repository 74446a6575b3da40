import InputRelay.CommandLine.Arguments
import InputRelay.CommandLine.Listing
import InputRelay.Config.File
import InputRelay.Touchmap.Document

namespace InputRelay.CommandLine

inductive Failure
  | config (e : ConfigError)
  | touchmap (path : String) (e : TouchmapError)
deriving DecidableEq, Repr

def Failure.headline : Failure → String
  | config e => "Error: " ++ e.message
  | touchmap path _ =>
    "Error: invalid touchmap " ++ String.ofList (path.toList.takeWhile (· ≠ '\n'))

inductive Outcome
  | printed (lines : List String)
  | failed (e : Failure)
  | misused
deriving DecidableEq, Repr

namespace Outcome

def exitCode : Outcome → UInt8
  | printed _ => 0
  | failed _ => 1
  | misused => 2

end Outcome

def versionNumber : String := "0.1.0-alpha.1"

def versionLine (command : Option CommandName) : String :=
  "touchdeck" ++ (command.elim "" fun c ↦ "-" ++ Named.name c) ++ " " ++ versionNumber

def usage : List String := [
  "Usage: touchdeck [-c FILE] COMMAND",
  "",
  "  check FILE      print the controls of a touchmap",
  "  shortcuts       print the keyboard shortcuts",
  "  default-config  print the default configuration"]

def Stop.outcome : Stop → Outcome
  | help => .printed usage
  | version command => .printed [versionLine command]
  | misuse => .misused

def linesOf (s : String) : List String :=
  (Text.cut '\n' s.toList).dropLast.map String.ofList

namespace Invocation

/-- The configuration is read first, also by a command that does not use it. -/
def run (disk : Disk) (defaultPath : String) (i : Invocation) : Outcome :=
  match Config.loadOrDefault disk (i.config.getD defaultPath) with
  | .error e => .failed (.config e)
  | .ok config =>
    match i.request with
    | .check file =>
      match Touchmap.ofFile disk file with
      | .error e => .failed (.touchmap file e)
      | .ok map => .printed map.listing
    | .shortcuts => .printed (Shortcut.listing config.input.shortcutMods)
    | .defaultConfig => .printed (linesOf (Config.toToml {}))

def paths (defaultPath : String) (i : Invocation) : List String :=
  i.config.getD defaultPath :: match i.request with
    | .check file => [file]
    | _ => []

end Invocation

/-- Run a command line. Without an option for it, the configuration is at the default path. -/
def run (disk : Disk) (defaultPath : String) (args : List String) : Outcome :=
  match Invocation.read args with
  | .ok i => i.run disk defaultPath
  | .error stop => stop.outcome

end InputRelay.CommandLine
