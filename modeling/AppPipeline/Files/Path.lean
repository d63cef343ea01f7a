import AppPipeline.Text.Pieces

/-!
# Paths and places

A `Path` is a text taken apart at slashes; empty names and single points are
left out, two points stay. A `Place` is where a path leads: below the top, or
below the working directory or one of the folders around it. `Path.place`
takes two points as one step up (`place_child`).
-/

namespace AppPipeline.Files

/-! ## Paths -/

structure Path where
  absolute : Bool
  names : List String
  deriving DecidableEq, Repr

namespace Path

def isAbsolute : List Char → Bool
  | '/' :: _ => true
  | _ => false

def ofText (s : String) : Path :=
  { absolute := isAbsolute s.toList
    names := ((Text.pieces '/' s.toList).map String.ofList).filter fun n => n != "" && n != "." }

def text (p : Path) : String :=
  let joined := String.intercalate "/" p.names
  if p.absolute then "/" ++ joined else if joined = "" then "." else joined

def parent (p : Path) : Path := { p with names := p.names.dropLast }

def child (p : Path) (name : String) : Path := { p with names := p.names ++ [name] }

end Path

/-! ## Places -/

inductive Base where
  | top
  /-- the working directory, or the folder so many levels around it -/
  | working (up : Nat)
  deriving DecidableEq, Repr

structure Place where
  base : Base
  /-- the names below the base, the innermost first -/
  names : List String
  deriving DecidableEq, Repr

namespace Place

def child (p : Place) (name : String) : Place := { p with names := name :: p.names }

/-- The folder around a place; the top has none but itself. -/
def up (p : Place) : Place :=
  match p.names, p.base with
  | _ :: names, base => ⟨base, names⟩
  | [], .top => p
  | [], .working n => ⟨.working (n + 1), []⟩

theorem up_child (p : Place) (name : String) : (p.child name).up = p := rfl

/-- One name further on. -/
def step (p : Place) (name : String) : Place := if name = ".." then p.up else p.child name

/-- The folders around the place with these names, from the inside. -/
def aroundNames (base : Base) : List String → List Place
  | [] => []
  | _ :: names => ⟨base, names⟩ :: aroundNames base names

/-- All folders around a place below its base. -/
def around (p : Place) : List Place := aroundNames p.base p.names

/-- The path of a place, when that of the working directory is known. -/
def path (working : Path) (p : Place) : Path :=
  match p.base with
  | .top => ⟨true, p.names.reverse⟩
  | .working n =>
    { working with names := working.names.take (working.names.length - n) ++ p.names.reverse }

end Place

/-! ## Where a path leads -/

/-- Where a path starts from. -/
def Path.start (p : Path) : Place := ⟨if p.absolute then .top else .working 0, []⟩

/-- Where a path leads by its names alone. -/
def Path.place (p : Path) : Place := p.names.foldl Place.step p.start

theorem Path.place_child (p : Path) (name : String) :
    (p.child name).place = p.place.step name := by
  rw [Path.place, Path.child, List.foldl_append]
  rfl

end AppPipeline.Files
