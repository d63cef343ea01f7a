import AppPipeline.Files.Path
import AppPipeline.Text.Half
import AppPipeline.Text.Lines
import AppPipeline.Text.Quoted

/-!
# File trees

A `FileTree` holds the texts of files and the folders there are. A path is
followed name by name through folders; `Spot` is what it ends at.

* `read`: the text of a file with line feeds only;
* `write`: sets the text of a file whose folder exists; what was written is
  read again (`read_write`);
* `makeFolders`: makes a folder and those around it;
* `save`: makes the folders around a file, then writes it.
-/

namespace AppPipeline.Files

/-! ## Faults -/

inductive FileCause where
  | absent
  | present
  | noFolder
  | folder
  /-- the path holds a character that ends names -/
  | nullByte
  /-- the path holds a half that has no bytes -/
  | unencoded (fault : Text.HalfFault)
  deriving DecidableEq, Repr

structure FileFault where
  cause : FileCause
  path : String
  deriving DecidableEq, Repr

def FileFault.message (f : FileFault) : String :=
  match f.cause with
  | .absent => "[Errno 2] No such file or directory: " ++ Text.quoted f.path
  | .present => "[Errno 17] File exists: " ++ Text.quoted f.path
  | .noFolder => "[Errno 20] Not a directory: " ++ Text.quoted f.path
  | .folder => "[Errno 21] Is a directory: " ++ Text.quoted f.path
  | .nullByte => "embedded null byte"
  | .unencoded h => h.message

def FileCause.kind : FileCause → String
  | .absent => "FileNotFoundError"
  | .present => "FileExistsError"
  | .noFolder => "NotADirectoryError"
  | .folder => "IsADirectoryError"
  | .nullByte => "ValueError"
  | .unencoded h => h.raised.kind

def FileFault.raised (f : FileFault) : Raised := ⟨f.cause.kind, f.message⟩

/-- The halves that stand for single bytes of a name. -/
def isByteHalf (n : Nat) : Bool := 0xDC80 ≤ n && n ≤ 0xDCFF

/-- Why no file can have the path, if none can. -/
def nameCause? (path : String) : Option FileCause :=
  let ns := (Text.codes path.toList).map fun n => if isByteHalf n then n - 0xDC00 else n
  match Text.firstHalves? ns with
  | some h => some (.unencoded h)
  | none => if ns.contains 0 then some .nullByte else none

/-! ## Trees -/

structure FileTree where
  /-- the path of the working directory -/
  working : Path
  files : List (Place × String)
  folders : List Place
  deriving DecidableEq, Repr

inductive Spot where
  | file (place : Place) (text : String)
  | folder (place : Place)
  /-- nothing, in a folder that exists -/
  | free (place : Place)
  /-- nothing, in a folder that does not exist -/
  | missing
  /-- a file stands where a folder should be -/
  | blocked
  deriving DecidableEq, Repr

namespace FileTree

def isFolder (t : FileTree) (p : Place) : Bool := p.names.isEmpty || t.folders.contains p

def file? (t : FileTree) (p : Place) : Option String := t.files.lookup p

/-- What the names lead to from a folder. -/
def spotFrom (t : FileTree) (here : Place) : List String → Spot
  | [] => .folder here
  | name :: rest =>
    if name = ".." then t.spotFrom here.up rest
    else
      let next := here.child name
      if t.isFolder next then t.spotFrom next rest
      else
        match t.file? next with
        | some text => if rest.isEmpty then .file next text else .blocked
        | none => if rest.isEmpty then .free next else .missing

def spot (t : FileTree) (p : Path) : Spot := t.spotFrom p.start p.names

/-- A file or a folder is there. -/
def holds (t : FileTree) (p : Path) : Bool :=
  match t.spot p with
  | .file _ _ => true
  | .folder _ => true
  | _ => false

def holdsFolder (t : FileTree) (p : Path) : Bool :=
  match t.spot p with
  | .folder _ => true
  | _ => false

/-! ## Reading -/

def fault {α : Type} (cause : FileCause) (p : Path) : Except FileFault α := .error ⟨cause, p.text⟩

def read (t : FileTree) (p : Path) : Except FileFault String :=
  match nameCause? p.text with
  | some cause => fault cause p
  | none =>
    match t.spot p with
    | .file _ text => .ok (String.ofList (Text.unifyBreaks text.toList))
    | .folder _ => fault .folder p
    | .blocked => fault .noFolder p
    | _ => fault .absent p

/-- The text asks for a folder: it ends in a slash, perhaps with a point after it. -/
def asksForFolder (s : String) : Bool :=
  match s.toList.reverse with
  | '/' :: _ => true
  | '.' :: '/' :: _ => true
  | _ => false

/-- Reads the file at a path that was given as a text. -/
def readAt (t : FileTree) (s : String) : Except FileFault String :=
  if s = "" then .error ⟨.absent, s⟩
  else
    match t.read (Path.ofText s) with
    | .ok text => if asksForFolder s then .error ⟨.noFolder, s⟩ else .ok text
    | .error f => .error { f with path := s }

/-! ## Writing -/

def putFile (t : FileTree) (p : Place) (text : String) : FileTree :=
  { t with files := (p, text) :: t.files }

def putFolder (t : FileTree) (p : Place) : FileTree := { t with folders := p :: t.folders }

def write (t : FileTree) (p : Path) (text : String) : Except FileFault FileTree :=
  match nameCause? p.text with
  | some cause => fault cause p
  | none =>
    match t.spot p with
    | .file place _ => .ok (t.putFile place text)
    | .free place => .ok (t.putFile place text)
    | .folder _ => fault .folder p
    | .missing => fault .absent p
    | .blocked => fault .noFolder p

/-- Makes one folder, unless it is there. -/
def makeFolder (t : FileTree) (p : Path) : Except FileFault FileTree :=
  match t.spot p with
  | .folder _ => .ok t
  | .free place => .ok (t.putFolder place)
  | .file _ _ => fault .present p
  | .missing => fault .absent p
  | .blocked => fault .noFolder p

/-- Makes the folder with these names, the innermost first, and those around it. -/
def makeFoldersAt (t : FileTree) (absolute : Bool) : List String → Except FileFault FileTree
  | [] => .ok t
  | name :: outer =>
    let p : Path := ⟨absolute, (name :: outer).reverse⟩
    match t.spot p with
    | .missing => do (← t.makeFoldersAt absolute outer).makeFolder p
    | _ => t.makeFolder p

def makeFolders (t : FileTree) (p : Path) : Except FileFault FileTree :=
  match nameCause? p.text with
  | some cause => fault cause p
  | none => t.makeFoldersAt p.absolute p.names.reverse

/-- Writes a file after making the folders around it. -/
def save (t : FileTree) (p : Path) (text : String) : Except FileFault FileTree := do
  (← t.makeFolders p.parent).write p text

/-! ## What was written -/

theorem spotFrom_putFile (t : FileTree) (here place : Place) (text : String)
    (names : List String)
    (h : (∃ old, t.spotFrom here names = .file place old) ∨ t.spotFrom here names = .free place) :
    (t.putFile place text).spotFrom here names = .file place text := by
  induction names generalizing here with
  | nil => simp [spotFrom] at h
  | cons name rest ih =>
    simp only [spotFrom] at h ⊢
    split at h
    · next hn => simpa [hn] using ih _ h
    · next hn =>
      simp only [hn, if_false]
      have hf : (t.putFile place text).isFolder (here.child name) = t.isFolder (here.child name) :=
        rfl
      rw [hf]
      split at h
      · next hd => simpa [hd] using ih _ h
      · next hd =>
        simp only [hd]
        cases rest with
        | cons a as =>
          exfalso
          cases hx : t.file? (here.child name) <;> simp [hx] at h
        | nil =>
          have hp : here.child name = place := by
            cases hx : t.file? (here.child name) <;> simp [hx] at h <;> exact h
          simp [hp, file?, putFile]

theorem read_write (t u : FileTree) (p : Path) (text : String) (h : t.write p text = .ok u) :
    u.read p = .ok (String.ofList (Text.unifyBreaks text.toList)) := by
  simp only [write] at h
  split at h
  · simp [fault] at h
  next hc =>
    have key : ∀ place,
        ((∃ old, t.spot p = .file place old) ∨ t.spot p = .free place) →
        u = t.putFile place text →
        u.read p = .ok (String.ofList (Text.unifyBreaks text.toList)) := by
      intro place hs hu
      have := spotFrom_putFile t p.start place text p.names hs
      simp [hu, read, hc, spot, this]
    split at h
    · next place old hs => exact key place (.inl ⟨old, hs⟩) (by simpa using h.symm)
    · next place hs => exact key place (.inr hs) (by simpa using h.symm)
    all_goals simp [fault] at h

/-! ## From lists -/

/-- Adds the folders around a place. -/
def withAround (t : FileTree) (p : Place) : FileTree :=
  { t with folders := p.around ++ t.folders }

/-- The tree with files and folders at the given paths, and the folders around them. -/
def ofLists (working : Path) (files : List (String × String)) (folders : List String) :
    FileTree :=
  let withFiles := files.foldl
    (fun t f =>
      let place := (Path.ofText f.1).place
      (t.withAround place).putFile place f.2)
    ⟨working, [], []⟩
  folders.foldl
    (fun t s =>
      let place := (Path.ofText s).place
      (t.withAround place).putFolder place)
    withFiles

end FileTree

end AppPipeline.Files
