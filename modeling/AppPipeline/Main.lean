import AppPipeline.CommandLine.Session
import AppPipeline.Run.Script

/-!
# The program

Reads the files that a request names into a tree, does the request, prints its
texts and writes the files that it left. The outcomes of processes are read
from the standard input, one JSON object a line. The program keeps no listing
of its calls.
-/

namespace AppPipeline.Program

open Files CommandLine

/-- Everything on the way to a path, the path itself last. -/
def wayTo (p : Path) : List Path :=
  (List.range (p.names.length + 1)).map fun n => { p with names := p.names.take n }

/-- The paths that an action looks at. -/
def pathsOf : Action → List Path
  | .generate config output => [Path.ofText config, Path.ofText output]
  | .validate workflow => [Path.ofText workflow]
  | .extract config _ _ => [Path.ofText config]
  | .matrix mode folder => [(Path.ofText folder).child (Matrix.filename (Choice.name mode))]
  | .runEntry r => [Path.ofText r.matrixFile, Path.ofText r.fixture]
  | .runApp r =>
    let app := Path.ofText r.app
    [App.packageFile app, app.child "tsconfig.json"]
      ++ App.lockFiles.map fun f => app.child f.1

def runsProcesses : Action → Bool
  | .runEntry _ => true
  | .runApp _ => true
  | _ => false

/-- Adds to a tree what stands at a path. -/
def look (t : FileTree) (p : Path) : IO FileTree := do
  let there := (← IO.currentDir) / Text.sent p.text
  if ← there.isDir then return t.putFolder p.place
  if ← there.pathExists then return t.putFile p.place (Text.received (← IO.FS.readFile there))
  return t

def treeFor (action : Action) : IO FileTree := do
  let working := Path.ofText (Text.received (← IO.currentDir).toString)
  ((pathsOf action).flatMap wayTo).foldlM look ⟨working, [], []⟩

/-- Writes the files that were put into the tree. -/
def keep (old new : FileTree) : IO Unit := do
  for f in (new.files.take (new.files.length - old.files.length)).reverse do
    let p := f.1.path new.working
    IO.FS.createDirAll (Text.sent p.parent.text)
    IO.FS.writeFile (Text.sent p.text) (Text.sent f.2)

partial def readOutcomes (input : IO.FS.Stream) : IO (List Run.Outcome) := do
  let line ← input.getLine
  if line.isEmpty then return []
  match Json.parse (Text.received line) with
  | .ok j => return .ofJson j :: (← readOutcomes input)
  | .error f => throw (IO.userError f.message)

def environment : IO Environment := do
  let names := ["RNCI_MATRIX_DIR", "RNCI_COMMAND_TIMEOUT"]
  names.filterMapM fun name => return (← IO.getEnv name).map fun value => (name, Text.received value)

def escapeMessage : Escape → String
  | .file f => f.message
  | .unread f => f.message
  | .wrongKind => "package.json does not hold what it should"
  | .text f => f.message
  | .unprintable f => f.message

def act (debug : Bool) (action : Action) : IO UInt32 := do
  let tree ← treeFor action
  let outcomes ← if runsProcesses action then readOutcomes (← IO.getStdin) else pure []
  let s := Session.perform tree outcomes debug "" action
  IO.print (Text.sent (s.transcript.text .out))
  IO.eprint (Text.sent (s.transcript.text .err))
  match s.escape with
  | some e => IO.eprintln (Text.sent ("Error: " ++ escapeMessage e))
  | none => pure ()
  keep tree s.tree
  return s.exitCode.toUInt32

end AppPipeline.Program

open AppPipeline AppPipeline.Program CommandLine in
def main (args : List String) : IO UInt32 := do
  match Request.ofArgs (← environment) (args.map Text.received) with
  | .error f => do
    IO.eprintln (Text.sent f.message)
    return 2
  | .ok .help => do
    IO.print helpText
    return 0
  | .ok (.act debug action) => act debug action
