import InputRelay.Named

namespace InputRelay.CommandLine

inductive CommandName
  | check | shortcuts | defaultConfig
deriving DecidableEq, Repr, Inhabited

instance : Named CommandName where
  all := [.check, .shortcuts, .defaultConfig]
  name
    | .check => "check"
    | .shortcuts => "shortcuts"
    | .defaultConfig => "default-config"

inductive Stop
  | help
  | version (command : Option CommandName)
  | misuse
deriving DecidableEq, Repr

inductive Flag
  | config (attached : Option String)
  | help
  | version
deriving DecidableEq, Repr

inductive Argument
  | flag (f : Flag)
  /-- Two dashes. No options follow. -/
  | separator
  | unknown
  | plain (s : String)
deriving DecidableEq, Repr

namespace Argument

def ofLong (s : List Char) : Argument :=
  let attached := match s.dropWhile (· ≠ '=') with
    | [] => none
    | _ :: value => some (String.ofList value)
  match String.ofList (s.takeWhile (· ≠ '=')), attached with
  | "config", attached => .flag (.config attached)
  | "help", none => .flag .help
  | "version", none => .flag .version
  | _, _ => unknown

/-- A dash alone is no option. What follows a short option for help or the version is not read. -/
def ofText (s : String) : Argument :=
  match s.toList with
  | ['-', '-'] => separator
  | '-' :: '-' :: name => ofLong name
  | ['-', 'c'] => .flag (.config none)
  | '-' :: 'c' :: '=' :: value => .flag (.config (some (String.ofList value)))
  | '-' :: 'c' :: value => .flag (.config (some (String.ofList value)))
  | '-' :: 'h' :: _ => .flag .help
  | '-' :: 'V' :: _ => .flag .version
  | '-' :: _ :: _ => unknown
  | _ => plain s

end Argument

/-- A value that was read and is still to be looked at, or an option that waits for its value. -/
inductive Pending
  | nothing
  | config (value : Option String)
  | file (value : String)
deriving DecidableEq, Repr

/-- What was read of the arguments of one command. A value is looked at only when the next option
or file comes, or at the end of the arguments. -/
structure Arguments where
  config : Option String := none
  file : Option String := none
  pending : Pending := .nothing
deriving DecidableEq, Repr

namespace Arguments

/-- Look at the value that is pending. No value may be empty, and an option counts once. -/
def settle (a : Arguments) : Except Stop Arguments :=
  match a.pending with
  | .nothing => .ok a
  | .config none => .error .misuse
  | .config (some value) =>
    if value.isEmpty || a.config.isSome then .error .misuse
    else .ok { a with config := some value, pending := .nothing }
  | .file value =>
    if value.isEmpty then .error .misuse
    else .ok { a with file := some value, pending := .nothing }

def flag (a : Arguments) (command : Option CommandName) (f : Flag) : Except Stop Arguments := do
  let a ← a.settle
  match f with
  | .config none => .ok { a with pending := .config none }
  | .config (some value) => settle { a with pending := .config (some value) }
  | .help => .error .help
  | .version => .error (.version command)

def operand (a : Arguments) (command : CommandName) (s : String) : Except Stop Arguments := do
  let a ← a.settle
  if command = .check ∧ a.file = none then .ok { a with pending := .file s } else .error .misuse

def read (command : CommandName) (a : Arguments) : List String → Except Stop Arguments
  | [] => a.settle
  | s :: args => do
    match Argument.ofText s with
    | .flag f => read command (← a.flag command f) args
    | .separator => (← args.foldlM (operand · command ·) a).settle
    | .unknown => .error .misuse
    | .plain s =>
      if a.pending = .config none then
        read command { a with pending := .config (some s) } args
      else read command (← a.operand command s) args

end Arguments

inductive Request
  | check (file : String)
  | shortcuts
  | defaultConfig
deriving DecidableEq, Repr

structure Invocation where
  config : Option String
  request : Request
deriving DecidableEq, Repr

namespace Invocation

/-- A configuration may be named in front of a command and behind it; the latter counts. -/
def ofArguments (command : CommandName) (outer inner : Arguments) : Except Stop Invocation :=
  let config := inner.config <|> outer.config
  match command, inner.file with
  | .check, some file => .ok ⟨config, .check file⟩
  | .check, none => .error .misuse
  | .shortcuts, _ => .ok ⟨config, .shortcuts⟩
  | .defaultConfig, _ => .ok ⟨config, .defaultConfig⟩

def helpAbout : List String → Stop
  | [] => .help
  | [topic] =>
    if topic = "help" ∨ (Named.ofName? topic : Option CommandName).isSome then .help else .misuse
  | _ => .misuse

def readFrom (a : Arguments) : List String → Except Stop Invocation
  | [] => .error .misuse
  | s :: args => do
    match Argument.ofText s with
    | .flag f => readFrom (← a.flag none f) args
    | .separator | .unknown => .error .misuse
    | .plain s =>
      if a.pending = .config none then readFrom { a with pending := .config (some s) } args
      else if s = "help" then .error (helpAbout args)
      else match Named.ofName? s with
        | none => .error .misuse
        | some command =>
          let inner ← Arguments.read command {} args
          ofArguments command (← a.settle) inner

def read (args : List String) : Except Stop Invocation :=
  readFrom {} args

end Invocation

end InputRelay.CommandLine
