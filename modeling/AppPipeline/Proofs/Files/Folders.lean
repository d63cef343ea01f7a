import AppPipeline.Files.Tree

/-!
# Folders on the way

A path is followed through folders only. So the folder that a path ends at is there, and it
is where the names of the path lead (`isFolder_place`); and so is the folder of a file that
is there (`isFolder_place_of_child`).
-/

namespace AppPipeline.Files

namespace FileTree

/-- The place and all around it are folders of the tree. -/
def IsOpen (t : FileTree) (p : Place) : Prop := ∀ q ∈ p :: p.around, t.isFolder q = true

theorem isOpen_start (t : FileTree) (p : Path) : t.IsOpen p.start := by
  refine List.forall_mem_cons.2 ⟨?_, List.forall_mem_nil _⟩
  rw [isFolder, Path.start, List.isEmpty_nil, Bool.true_or]

theorem IsOpen.up {t : FileTree} {p : Place} (h : t.IsOpen p) : t.IsOpen p.up := by
  obtain ⟨base, names⟩ := p
  cases names with
  | nil =>
    have hnames : (Place.up ⟨base, []⟩).names = [] := by cases base <;> rfl
    refine List.forall_mem_cons.2 ⟨?_, ?_⟩
    · rw [isFolder, hnames, List.isEmpty_nil, Bool.true_or]
    · rw [Place.around, hnames]
      exact List.forall_mem_nil _
  | cons name names => exact (List.forall_mem_cons.1 h).2

theorem IsOpen.child {t : FileTree} {p : Place} (h : t.IsOpen p) {name : String}
    (hname : t.isFolder (p.child name) = true) : t.IsOpen (p.child name) :=
  List.forall_mem_cons.2 ⟨hname, h⟩

/-- From an open place a path that ends at a folder leads to an open place. -/
theorem isOpen_of_spotFrom {t : FileTree} {here place : Place} {names : List String}
    (hhere : t.IsOpen here) (h : t.spotFrom here names = .folder place) :
    place = names.foldl Place.step here ∧ t.IsOpen place := by
  induction names generalizing here with
  | nil =>
    cases h
    exact ⟨rfl, hhere⟩
  | cons name rest ih =>
    rw [spotFrom] at h
    rw [List.foldl_cons, Place.step]
    split at h
    · next hup =>
      rw [if_pos hup]
      exact ih hhere.up h
    · next hup =>
      rw [if_neg hup]
      dsimp only at h
      split at h
      · next hfolder => exact ih (hhere.child hfolder) h
      · split at h <;> split at h <;> cases h

/-- The folder that a path ends at is there. -/
theorem isFolder_place {t : FileTree} {p : Path} (h : t.holdsFolder p = true) :
    t.isFolder p.place = true := by
  rw [holdsFolder] at h
  split at h
  · next place hspot =>
    obtain ⟨rfl, hopen⟩ := isOpen_of_spotFrom (t.isOpen_start p) hspot
    exact hopen _ List.mem_cons_self
  · cases h

/-- What is found under a name is found in a folder. -/
theorem isOpen_of_found {t : FileTree} {here : Place} {names : List String} (name : String)
    (hhere : t.IsOpen here)
    (h : t.spotFrom here (names ++ [name]) ≠ .missing
      ∧ t.spotFrom here (names ++ [name]) ≠ .blocked) :
    t.IsOpen (names.foldl Place.step here) := by
  induction names generalizing here with
  | nil => exact hhere
  | cons first rest ih =>
    rw [List.cons_append, spotFrom] at h
    rw [List.foldl_cons, Place.step]
    split at h
    · next hup =>
      rw [if_pos hup]
      exact ih hhere.up h
    · next hup =>
      rw [if_neg hup]
      dsimp only at h
      split at h
      · next hfolder => exact ih (hhere.child hfolder) h
      · have hrest : (rest ++ [name]).isEmpty = false := by simp
        rw [hrest] at h
        split at h
        · exact absurd rfl h.2
        · exact absurd rfl h.1

/-- The folder of a file that is there is there, too. -/
theorem isFolder_place_of_child {t : FileTree} {p : Path} {name : String}
    (h : t.holds (p.child name) = true) : t.isFolder p.place = true := by
  refine isOpen_of_found name (t.isOpen_start p) ?_ _ List.mem_cons_self
  have hspot : t.spot (p.child name) = t.spotFrom p.start (p.names ++ [name]) := rfl
  rw [holds, hspot] at h
  constructor <;> (intro hnone; rw [hnone] at h; cases h)

end FileTree

end AppPipeline.Files
