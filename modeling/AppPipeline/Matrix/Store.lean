import AppPipeline.Files.Tree
import AppPipeline.Json.Reader
import AppPipeline.Json.Writer
import AppPipeline.Matrix.Generation

/-!
# Stored matrices

A matrix is kept in a file as a JSON list, an item a line.

* `fileText`, `parse`: the text of a matrix and the matrix of a text;
* `save`, `load`: the same for a file;
* `entryAt`: the entry at an index, counted from zero and never from the end.
-/

namespace AppPipeline.Matrix

open Files

inductive LoadFault where
  | missing (path : Path)
  | file (fault : FileFault)
  | unread (fault : Json.ReadFault)
  | refused (failure : Failure)

/-! ## Texts -/

def fileText (entries : List Entry) : String :=
  Json.indentedText (.list (entries.map Entry.toJson)) ++ "\n"

/-- The matrix of the text of the file at a path. -/
def parse (path text : String) : Except LoadFault (List Entry) :=
  match Json.parse text with
  | .error f => .error (.unread f)
  | .ok (.list items) =>
    match Entry.readAll items with
    | .ok entries => .ok entries
    | .error f => .error (.refused f)
  | .ok _ => .error (.refused (.notAList path))

/-! ## Files -/

def save (t : FileTree) (entries : List Entry) (p : Path) : Except FileFault FileTree :=
  t.save p (fileText entries)

def load (t : FileTree) (p : Path) : Except LoadFault (List Entry) :=
  if t.holds p then
    match t.read p with
    | .ok text => parse p.text text
    | .error f => .error (.file f)
  else .error (.missing p)

/-! ## Single entries -/

def entryAt (entries : List Entry) (index : Int) (path : String) : Except Failure Entry :=
  if entries.isEmpty then .error (.emptyMatrix index path)
  else
    match index with
    | .ofNat i =>
      match entries[i]? with
      | some e => .ok e
      | none => .error (.outOfRange index entries.length path)
    | .negSucc _ => .error (.outOfRange index entries.length path)

/-- The entry at an index of the file at a path, which a fault of the index shows as it was given. -/
def loadEntry (t : FileTree) (path : String) (index : Int) : Except LoadFault Entry :=
  match load t (Path.ofText path) with
  | .error f => .error f
  | .ok entries =>
    match entryAt entries index path with
    | .ok e => .ok e
    | .error f => .error (.refused f)

end AppPipeline.Matrix
