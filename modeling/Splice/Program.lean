import Splice.Assembly
import Splice.CommandLine.Invocation
import Splice.Config.Lookup
import Splice.Output
import Splice.Rule
import Splice.Setup

set_option autoImplicit false

namespace Splice

open CommandLine (Argument Command Invocation Job Notice Topic)

structure ToolRun where
  code : Nat
  output : Text
  errors : Text
  deriving DecidableEq, Repr

/-- Where the program prints. Its encoding need not have all characters. -/
structure Console where
  shows : Char → Bool
  shows_ascii : ∀ c : Char, c.toNat < 128 → shows c = true

namespace Console

def full : Console := ⟨fun _ => true, fun _ _ => rfl⟩

def canShow (c : Console) (t : Text) : Bool := t.all c.shows

end Console

structure Machine where
  disk : Disk
  environment : Config.Environment
  hasCompletion : Bool
  /-- The tool that writes completion scripts, if there is one: what it does with arguments. -/
  completionTool : Option (List Text → ToolRun)
  console : Console := .full
  /-- How configuration files are read. -/
  reader : Config.Reader := Toml.parse
  /-- The configuration file that is made to start from. -/
  template : Text := CommandLine.configTemplate

structure Report where
  output : Text
  errors : Text
  disk : Disk
  status : Except Failure Nat

structure Progress where
  disk : Disk
  events : List Event
  output : Text

/-- A part of a command. What was done before a failure stays done. -/
abbrev Action := ExceptT Failure (StateM Progress)

structure Answer where
  code : Nat
  errors : Text
  deriving DecidableEq, Repr

namespace Program

def printed (ls : List Text) : Text := ls.flatMap fun l => l ++ ['\n']

def report (events : List Event) : Action Unit :=
  modify fun p => { p with events := p.events ++ events }

/-- Prints a text, if the console can show all of it. -/
def put (c : Console) (t : Text) : Action Unit :=
  if c.canShow t then modify fun p => { p with output := p.output ++ t } else throw .unencodable

/-- Prints lines, up to the first one that cannot be shown. -/
def say (c : Console) : List Text → Action Unit
  | [] => pure ()
  | l :: ls => do
    put c (l ++ ['\n'])
    say c ls

def writeBytes (r : Route) (bytes : List UInt8) : Action Unit := do
  let d ← (← get).disk.write r bytes
  modify fun p => { p with disk := d }

/-- Writes a text in an encoding. The file is there, and empty, before the encoding matters. -/
def writeText (r : Route) (encoding : Value) (t : Text) : Action Unit :=
  match encoding with
  | .text name => do
    if '\x00' ∈ name then throw .zeroInName
    writeBytes r []
    match Encoding.ofName? name with
    | none => throw (.unknownEncoding name)
    | some e =>
      match e.encode t with
      | none => throw .unencodable
      | some bytes => writeBytes r bytes
  | _ => throw .mistyped

def valueOf : Argument → Value
  | .absent => .null
  | .blank => .list []
  | .text t => .text t

def configured (m : Machine) (file : Argument) : Except Failure Table :=
  match file with
  | .absent => Config.effective m.disk m.environment none none m.reader
  | .blank => .error .mistyped
  | .text t => Config.effective m.disk m.environment (some (.ofText t)) none m.reader

def discovered (m : Machine) (config : Value) (job : Job) : Action Built := do
  let o := discover m.disk config (.list (job.paths.map valueOf)) (valueOf job.comment)
    (.ofSeed job.file)
  report o.events
  let b ← o.result
  pure b

def ruleFor (target : Text) (g : Graph) (config : Value) (start : Argument) : Action Text := do
  let asked := match start with
    | .absent => none
    | a => some (valueOf a)
  let start ← Config.removedStart asked config
  let r ← Rule.makeBy target g.keys (start.getD .null)
  report r.events
  pure r.text

def build (m : Machine) (i : Invocation) (job : Job) (output rule : Argument) : Action Answer := do
  let config := Value.table (← configured m i.config)
  let encoding ←
    Config.setting "preprocess".toList "encoding".toList (.text "utf-8".toList) config
  let b ← discovered m config job
  let text ← b.graph.assemble
  let out ← match output with
    | .text t => pure (Route.ofText t)
    | _ => Config.outputPath job.file config
  writeText out encoding text
  let written ← match rule with
    | .text t => do
      let r ← ruleFor out.text b.graph config job.start
      writeText (.ofText t) (.text "utf-8".toList) (r ++ ['\n'])
      pure ["wrote dependencies to ".toList ++ (Route.ofText t).text]
    | _ => pure []
  unless i.quiet do
    say m.console (b.graph.keys.map ("processed ".toList ++ ·) ++ written ++
      ["wrote to ".toList ++ out.text])
  pure ⟨0, []⟩

def deps (m : Machine) (i : Invocation) (job : Job) (target : Argument) : Action Answer := do
  let config := Value.table (← configured m i.config)
  let b ← discovered m config job
  let target ← match target with
    | .text (c :: t) => pure (c :: t)
    | _ => do
      let out ← Config.outputPath job.file config
      pure out.text
  let r ← ruleFor target b.graph config job.start
  say m.console [r]
  pure ⟨0, []⟩

def init (m : Machine) (i : Invocation) (force : Bool) : Action Answer := do
  let path : Route := ⟨1, m.disk.cwd ++ [Config.fileName]⟩
  let isPresent ← m.disk.isPresent path
  if isPresent && !force then
    pure ⟨1, printed
      ["Error: ".toList ++ path.text ++ " already exists (use --force to overwrite)".toList]⟩
  else
    writeText path (.text "utf-8".toList) m.template
    unless i.quiet do
      say m.console ["Created ".toList ++ path.text]
    pure ⟨0, []⟩

def completionArguments (shell : Text) : List Text :=
  (if shell = "fish".toList ∨ shell = "tcsh".toList then ["--shell=".toList ++ shell] else []) ++
    ["preproc".toList]

def completion (m : Machine) (shell : Argument) : Action Answer :=
  if !m.hasCompletion then
    pure ⟨1, CommandLine.block
      ["Error: argcomplete not installed.", "Install with: pip install preproc[completion]"]⟩
  else
    match shell with
    | .text (c :: s) =>
      match m.completionTool with
      | none =>
        pure ⟨1, CommandLine.block
          ["Error: register-python-argcomplete not found.",
            "Make sure argcomplete is properly installed."]⟩
      | some tool =>
        let r := tool (completionArguments (c :: s))
        if r.code ≠ 0 then
          pure ⟨1, printed ["Error generating completion script: ".toList ++ r.errors]⟩
        else do
          say m.console [r.output]
          pure ⟨0, []⟩
    | _ => do
      put m.console CommandLine.completionSetup
      pure ⟨0, []⟩

def perform (m : Machine) (i : Invocation) : Command → Action Answer
  | .build job output rule => build m i job output rule
  | .deps job target => deps m i job target
  | .init force => init m i force
  | .completion shell => completion m shell

def logLevel (i : Invocation) : Level :=
  if i.verbose then .debug else if i.quiet then .error else .warning

def logged (i : Invocation) (events : List Event) : Text :=
  printed ((events.filter fun e => (logLevel i).rank ≤ e.level.rank).map Event.line)

/-- Runs a command. A failure is printed, or handed on if everything is to be said. -/
def carryOut (m : Machine) (i : Invocation) (c : Command) : Report :=
  match (perform m i c).run ⟨m.disk, [], []⟩ with
  | (.ok a, p) => ⟨p.output, logged i p.events ++ a.errors, p.disk, .ok a.code⟩
  | (.error e, p) =>
    if i.verbose then ⟨p.output, logged i p.events, p.disk, .error e⟩
    else
      ⟨p.output, logged i p.events ++ printed ["Error: ".toList ++ e.message], p.disk, .ok 1⟩

def notify (m : Machine) : Notice → Report
  | .help t => ⟨t.help, [], m.disk, .ok 0⟩
  | .version => ⟨CommandLine.version, [], m.disk, .ok 0⟩
  | .misuse t e =>
    ⟨[], t.usage ++ printed [t.title ++ ": error: ".toList ++ e.message], m.disk, .ok 2⟩

def run (m : Machine) (arguments : List Text) : Report :=
  match CommandLine.read arguments with
  | .error n => notify m n
  | .ok i =>
    match i.command with
    | none => notify m (.help .program)
    | some c => carryOut m i c

end Program
end Splice
