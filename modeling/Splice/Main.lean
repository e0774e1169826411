import Splice.Disk.Change
import Splice.Program

/-!
The program on a real machine. It runs on a copy of the files that it can see: those below the
working directory and the configuration files above it. The copy is made by changes of an empty
disk, so it is one of those that arise. The files that the program changed are written back.
-/

set_option autoImplicit false

namespace Splice.Snapshot

/-- Puts what really stands at a place on the disk, a link with the real path that it leads to. -/
def copy (d : Disk) (p : Place) : IO Disk := do
  let here := (IO.FS.DirEntry.mk "/" (String.ofList p.text)).path
  let found ← match (← here.symlinkMetadata).type with
    | .dir => pure (some Entry.directory)
    | .file => pure (some (.file (← IO.FS.readBinFile here).toList))
    | .symlink => pure (some (.link (← IO.FS.realPath here).toString.toList))
    | .other => pure none
  match found.map (d.plant [] p) with
  | some (.ok d) => return d
  | _ => return d

def copyBelow : (depth : Nat) → Disk → Place → IO Disk
  | 0, d, _ => return d
  | depth + 1, d, p => do
    let mut d ← copy d p
    if d.tree.node? p = some .directory then
      for e in ← (IO.FS.DirEntry.mk "/" (String.ofList p.text)).path.readDir do
        d ← copyBelow depth d (p ++ [e.fileName.toList])
    return d

def take (cwd : Place) : IO Disk := do
  let mut d ← copyBelow Tree.pathLimit ⟨.empty, []⟩ cwd
  for n in List.range cwd.length do
    d ← copy d (cwd.take n ++ [Config.fileName]) <|> pure d
  return (d.move ⟨1, cwd⟩).toOption.getD d

def environment : IO Config.Environment := do
  let bytes ← IO.FS.readBinFile "/proc/self/environ"
  let assignments := match Codec.Utf8.decode bytes.toList with
    | .ok t => Text.pieces '\x00' t
    | .error _ => []
  return assignments.filterMap fun v => match Text.cut '=' v with
    | (name, value) => value.map (name, ·)

def commit (before after : Tree) : IO Unit := do
  for (p, e) in after.entries do
    if let .file b := e then
      if before.node? p ≠ some e then
        IO.FS.writeBinFile (String.ofList p.text) ⟨b.toArray⟩

end Splice.Snapshot

open Splice in
def main (arguments : List String) : IO UInt32 := do
  let cwd := Route.namesOf (← IO.FS.realPath (← IO.currentDir)).toString.toList
  let disk ← Snapshot.take cwd
  let machine : Machine :=
    { disk, environment := ← Snapshot.environment, hasCompletion := false, completionTool := none }
  let r := Program.run machine (arguments.map String.toList)
  Snapshot.commit disk.tree r.disk.tree
  (← IO.getStdout).putStr (String.ofList r.output)
  (← IO.getStderr).putStr (String.ofList r.errors)
  match r.status with
  | .ok code => return code.toUInt32
  | .error e =>
    (← IO.getStderr).putStr (String.ofList ("Error: ".toList ++ e.message ++ ['\n']))
    return 1
