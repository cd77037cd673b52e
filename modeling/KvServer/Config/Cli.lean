import KvServer.Number.Decimal

/-!
# The command line

The server takes `--host <HOST>`, `-p` or `--port <PORT>` and `--replicaof <VALUE>`, each at most
once, and `-h` or `--help` and `-V` or `--version`. A value is attached (`--port=7000`, `-p7000`,
`-p=7000`) or is the next argument; a separate value is taken up only when the next argument
that names an option, or the end, comes, and errors in it are reported then. A value that
begins with `-` is read as options, and after `--` every argument is positional. There are no
positional arguments.

The port is read as a signed 64-bit integer and must lie between 0 and 65535.
-/

namespace KvServer

/-- An option that takes a value. -/
inductive CliOption where
  | host | port | replicaof
  deriving DecidableEq, Inhabited

/-- How reading a command line stops without a configuration. -/
inductive CliStop where
  /-- An argument that names no option, or a positional one. -/
  | unknownArgument
  /-- An option given without its value. -/
  | invalidValue
  /-- A value that does not read as the option's type. -/
  | valueValidation
  /-- An option given twice. -/
  | argumentConflict
  /-- A value attached to a flag that takes none. -/
  | tooManyValues
  /-- Help was asked for. -/
  | displayHelp
  /-- The version was asked for. -/
  | displayVersion
  deriving DecidableEq, Inhabited

/-- What the command line sets. -/
structure CliArgs where
  host : Option String := none
  port : Option UInt16 := none
  replicaof : Option String := none
  deriving Inhabited

namespace CliArgs

/-- Whether the option has been given. -/
def has (a : CliArgs) : CliOption → Bool
  | .host => a.host.isSome
  | .port => a.port.isSome
  | .replicaof => a.replicaof.isSome

/-- Takes one value of an option: a second occurrence conflicts before its value is read. -/
def apply (a : CliArgs) (o : CliOption) (v : String) : Except CliStop CliArgs :=
  if a.has o then .error .argumentConflict
  else match o with
    | .host => .ok { a with host := some v }
    | .replicaof => .ok { a with replicaof := some v }
    | .port =>
      match Decimal.parseInt64? v with
      | some n => if 0 ≤ n ∧ n ≤ 65535 then .ok { a with port := some n.toNat.toUInt16 }
        else .error .valueValidation
      | none => .error .valueValidation

/-- Takes up the option waiting for its value: without one it is an error. -/
def settle (a : CliArgs) : Option (CliOption × Option String) → Except CliStop CliArgs
  | none => .ok a
  | some (_, none) => .error .invalidValue
  | some (o, some v) => a.apply o v

end CliArgs

/-- The option a long name stands for. -/
def CliOption.ofLong? : String → Option CliOption
  | "host" => some .host
  | "port" => some .port
  | "replicaof" => some .replicaof
  | _ => none

/-- Reads the arguments one by one. `pending` is the option waiting for its separate value (and
the value once it has come); `trailing` is set after `--`. -/
def readCli (trailing : Bool) (pending : Option (CliOption × Option String)) (a : CliArgs) :
    List String → Except CliStop CliArgs
  | [] => a.settle pending
  | arg :: rest =>
    let cs := arg.toList
    if trailing then .error .unknownArgument
    else if arg = "--" then readCli true pending a rest
    else match cs with
      | '-' :: '-' :: long =>
        let name := String.ofList (long.takeWhile (· ≠ '='))
        let attached := match long.dropWhile (· ≠ '=') with
          | _ :: v => some (String.ofList v)
          | [] => none
        match CliOption.ofLong? name, attached with
        | some o, some v => do
          let a ← a.settle pending
          let a ← a.apply o v
          readCli false none a rest
        | some o, none => do
          let a ← a.settle pending
          readCli false (some (o, none)) a rest
        | none, _ =>
          if name = "help" ∨ name = "version" then
            match attached with
            | some _ => .error .tooManyValues
            | none => do
              let _ ← a.settle pending
              .error (if name = "help" then .displayHelp else .displayVersion)
          else .error .unknownArgument
      | '-' :: c :: more =>
        if c = 'h' ∨ c = 'V' then do
          let _ ← a.settle pending
          .error (if c = 'h' then .displayHelp else .displayVersion)
        else if c = 'p' then
          match more with
          | [] => do
            let a ← a.settle pending
            readCli false (some (.port, none)) a rest
          | v => do
            let value := match v with
              | '=' :: w => String.ofList w
              | w => String.ofList w
            let a ← a.settle pending
            let a ← a.apply .port value
            readCli false none a rest
        else .error .unknownArgument
      | _ =>
        match pending with
        | some (o, none) => readCli false (some (o, some arg)) a rest
        | _ => .error .unknownArgument

/-- Reads a command line, the program name left out. -/
def CliArgs.parse (args : List String) : Except CliStop CliArgs :=
  readCli false none {} args

end KvServer
