import Splice.Arguments
import Splice.CommandLine.Topic

set_option autoImplicit false

namespace Splice.CommandLine

inductive Key where
  | help | version | config | verbose | quiet | paths | comment | start | output | rule | target
  | force | shell
  deriving DecidableEq, Repr

def Key.takesValue : Key → Bool
  | help | version | verbose | quiet | force => false
  | _ => true

def shells : List Text := ["bash".toList, "zsh".toList, "fish".toList, "tcsh".toList]

def Key.choices : Key → List Text
  | shell => shells
  | _ => []

def Key.isFinal : Key → Bool
  | help | version => true
  | _ => false

def helpOptions : List (String × Key) := [("-h", .help), ("--help", .help)]

def sourceOptions : List (String × Key) :=
  helpOptions ++
    [("-I", .paths), ("--include", .paths), ("-c", .comment), ("--comment", .comment),
      ("--strip-prefix", .start)]

def options : Topic → List (String × Key)
  | .program =>
    helpOptions ++
      [("--version", .version), ("--config", .config), ("-v", .verbose), ("--verbose", .verbose),
        ("-q", .quiet), ("--quiet", .quiet)]
  | .build =>
    sourceOptions ++
      [("-o", .output), ("--output", .output), ("-MF", .rule), ("--depfile", .rule)]
  | .deps => sourceOptions ++ [("--target", .target)]
  | .init => helpOptions ++ [("--force", .force)]
  | .completion => helpOptions ++ [("--shell", .shell)]

def operand : Topic → Operand
  | .program => .tail
  | .build | .deps => .one
  | .init | .completion => .none

def grammar (t : Topic) : Grammar Key where
  spellings := (options t).map fun p => (p.1.toList, p.2)
  takesValue := Key.takesValue
  choices := Key.choices
  isFinal := Key.isFinal
  operand := operand t

/-- What is said about an option that takes a value. -/
inductive Argument where
  | absent
  | blank
  | text (t : Text)
  deriving DecidableEq, Repr

structure Job where
  file : Text
  paths : List Argument
  comment : Argument
  start : Argument
  deriving DecidableEq, Repr

inductive Command where
  | build (job : Job) (output rule : Argument)
  | deps (job : Job) (target : Argument)
  | init (force : Bool)
  | completion (shell : Argument)
  deriving DecidableEq, Repr

structure Invocation where
  verbose : Bool
  quiet : Bool
  config : Argument
  command : Option Command
  deriving DecidableEq, Repr

/-- What arguments lead to instead of an invocation. -/
inductive Notice where
  | help (topic : Topic)
  | version
  | misuse (topic : Topic) (m : Misuse)
  deriving DecidableEq, Repr

def Argument.ofSetting : Option Text → Argument
  | some t => .text t
  | none => .blank

def allOf (k : Key) (settings : List (Key × Option Text)) : List Argument :=
  (settings.filter fun s => s.1 = k).map fun s => .ofSetting s.2

def lastOf (k : Key) (settings : List (Key × Option Text)) : Argument :=
  (allOf k settings).getLastD .absent

def isSet (k : Key) (settings : List (Key × Option Text)) : Bool := settings.any fun s => s.1 = k

def parseFor (t : Topic) (arguments : List Text) : Except Notice (Parsed Key) :=
  match (grammar t).parse arguments with
  | .ok p => .ok p
  | .error (.misuse m) => .error (.misuse t m)
  | .error (.final .version) => .error .version
  | .error (.final _) => .error (.help t)

def commands : List (Text × Topic) :=
  [("build".toList, .build), ("deps".toList, .deps), ("init".toList, .init),
    ("completion".toList, .completion)]

def fileOf (t : Topic) (p : Parsed Key) : Except Notice Text :=
  match p.operand with
  | f :: _ => .ok f
  | [] => .error (.misuse t (.missingOperand "file".toList))

def jobOf (t : Topic) (p : Parsed Key) : Except Notice Job :=
  (fileOf t p).map fun f =>
    ⟨f, allOf .paths p.settings, lastOf .comment p.settings, lastOf .start p.settings⟩

def commandOf (t : Topic) (p : Parsed Key) : Except Notice (Option Command) :=
  match t with
  | .program => .ok none
  | .build =>
    (jobOf t p).map fun j => some (.build j (lastOf .output p.settings) (lastOf .rule p.settings))
  | .deps => (jobOf t p).map fun j => some (.deps j (lastOf .target p.settings))
  | .init => .ok (some (.init (isSet .force p.settings)))
  | .completion => .ok (some (.completion (lastOf .shell p.settings)))

def readCommand : List Text → Except Notice (Option Command × List Text)
  | [] => .ok (none, [])
  | name :: arguments =>
    match Keyed.get? name commands with
    | none =>
      .error (.misuse .program (.badChoice "command".toList name (Keyed.keys commands)))
    | some t => do
      let p ← parseFor t arguments
      let c ← commandOf t p
      pure (c, p.extras)

def read (arguments : List Text) : Except Notice Invocation := do
  let p ← parseFor .program arguments
  let (command, extras) ← readCommand p.operand
  if p.extras ++ extras ≠ [] then
    .error (.misuse .program (.unrecognized (p.extras ++ extras)))
  else
    pure
      { verbose := isSet .verbose p.settings
        quiet := isSet .quiet p.settings
        config := lastOf .config p.settings
        command := command }

end Splice.CommandLine
