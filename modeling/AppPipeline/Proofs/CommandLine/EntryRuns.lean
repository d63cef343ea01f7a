import AppPipeline.Proofs.CommandLine.Verdicts
import AppPipeline.Proofs.Files.Folders
import AppPipeline.Proofs.Matrix.Stored

/-!
# Runs of matrix entries

A run of a matrix entry is refused with a structured error if its files, its matrix or its index
are not what they have to be (`Refused`). It breaks off if its matrix file cannot be read as JSON
for another reason than its form (`Unread`). In all other cases it selects an entry (`Selects`)
and runs the commands that are asked for. Its exit code tells how they ended, and what it prints
is the report of the run (`entry_runs`).
-/

namespace AppPipeline

open Files
open Text (Whole)

/-! ## Items of a matrix -/

namespace Matrix.Entry

/-- One item at fault is enough. -/
theorem readAll_of_error {items : List Json} {item : Json} {faults : List Fault}
    (hmem : item ∈ items) (h : (read item).toExcept = .error faults) :
    ∃ f, readAll items = .error f := by
  induction items with
  | nil => cases hmem
  | cons first rest ih =>
    rw [readAll]
    cases hfirst : (read first).toExcept with
    | error faults => exact ⟨_, rfl⟩
    | ok e =>
      rcases List.mem_cons.1 hmem with rfl | hmem
      · cases h.symm.trans hfirst
      · obtain ⟨f, hf⟩ := ih hmem
        exact ⟨f, by rw [hf]; rfl⟩

/-- Without an item at fault every item is read as its entry. -/
theorem readAll_of_isOk {items : List Json} (h : ∀ j ∈ items, (read j).toExcept.isOk = true) :
    ∃ es, readAll items = .ok es ∧ items.map (fun j => (read j).toExcept) = es.map .ok := by
  induction items with
  | nil => exact ⟨[], rfl, rfl⟩
  | cons j rest ih =>
    obtain ⟨hj, hrest⟩ := List.forall_mem_cons.1 h
    obtain ⟨es, hes, hmap⟩ := ih hrest
    cases he : (read j).toExcept with
    | error faults =>
      rw [he] at hj
      cases hj
    | ok e =>
      refine ⟨e :: es, ?_, ?_⟩
      · rw [readAll, he, hes]
        rfl
      · rw [List.map_cons, he, hmap, List.map_cons]

theorem exists_error_or_isOk (items : List Json) :
    (∃ item ∈ items, ∃ faults, (read item).toExcept = .error faults)
      ∨ ∀ j ∈ items, (read j).toExcept.isOk = true := by
  rw [or_iff_not_imp_left]
  intro hnone j hj
  cases hread : (read j).toExcept with
  | error faults => exact absurd ⟨j, hj, faults, hread⟩ hnone
  | ok e => rfl

end Matrix.Entry

namespace CommandLine

/-! ## Three cases -/

/-- What a run of a matrix entry does not accept. -/
inductive Refused (t : FileTree) (r : EntryRun) : Prop
  | noMatrix (absent : t.holds (Path.ofText r.matrixFile) = false)
  | noFixture (absent : t.holdsFolder (Path.ofText r.fixture) = false)
  | noJson (text : String) (fault : Json.SyntaxFault)
      (read : t.read (Path.ofText r.matrixFile) = .ok text)
      (parsed : Json.parse text = .error (.malformed fault))
  | noList (text : String) (data : Json)
      (read : t.read (Path.ofText r.matrixFile) = .ok text)
      (parsed : Json.parse text = .ok data) (other : ∀ items, data ≠ .list items)
  | badItem (text : String) (items : List Json) (item : Json) (faults : List Fault)
      (read : t.read (Path.ofText r.matrixFile) = .ok text)
      (parsed : Json.parse text = .ok (.list items)) (mem : item ∈ items)
      (bad : (Matrix.Entry.read item).toExcept = .error faults)
  | noIndex (text : String) (items : List Json)
      (read : t.read (Path.ofText r.matrixFile) = .ok text)
      (parsed : Json.parse text = .ok (.list items))
      (outside : ¬ (0 ≤ r.index ∧ r.index < items.length))

/-- The files are there, but the matrix cannot be read, or not for its form. -/
structure Unread (t : FileTree) (r : EntryRun) : Prop where
  matrix : t.holds (Path.ofText r.matrixFile) = true
  fixture : t.holdsFolder (Path.ofText r.fixture) = true
  fault : (∃ f, t.read (Path.ofText r.matrixFile) = .error f)
    ∨ ∃ text f, t.read (Path.ofText r.matrixFile) = .ok text ∧ Json.parse text = .error f
      ∧ ∀ g, f ≠ .malformed g

/-- The run finds the entry at its index in a list of entries, and its fixture folder is there. -/
structure Selects (t : FileTree) (r : EntryRun) (e : Matrix.Entry) : Prop where
  fixture : t.holdsFolder (Path.ofText r.fixture) = true
  entry : ∃ text items, t.read (Path.ofText r.matrixFile) = .ok text
    ∧ Json.parse text = .ok (.list items)
    ∧ (∀ item ∈ items, (Matrix.Entry.read item).toExcept.isOk = true)
    ∧ ∃ (i : Nat) (item : Json), r.index = i ∧ items[i]? = some item
      ∧ (Matrix.Entry.read item).toExcept = .ok e

/-- An index in range selects an entry, if every item is one. -/
theorem exists_selects {t : FileTree} {r : EntryRun} {text : String} {items : List Json}
    (hfixture : t.holdsFolder (Path.ofText r.fixture) = true)
    (hread : t.read (Path.ofText r.matrixFile) = .ok text)
    (hparse : Json.parse text = .ok (.list items))
    (hitems : ∀ j ∈ items, (Matrix.Entry.read j).toExcept.isOk = true)
    (hindex : 0 ≤ r.index ∧ r.index < items.length) : ∃ e, Selects t r e := by
  obtain ⟨i, hi⟩ := Int.eq_ofNat_of_zero_le hindex.1
  have hlt : i < items.length := by omega
  have hok := hitems items[i] (List.getElem_mem hlt)
  cases he : (Matrix.Entry.read items[i]).toExcept with
  | error faults =>
    rw [he] at hok
    cases hok
  | ok e =>
    exact ⟨e, hfixture, text, items, hread, hparse, hitems, i, items[i], hi,
      List.getElem?_eq_getElem hlt, he⟩

theorem refused_or_unread_or_selects (t : FileTree) (r : EntryRun) :
    Refused t r ∨ Unread t r ∨ ∃ e, Selects t r e := by
  cases hmatrix : t.holds (Path.ofText r.matrixFile) with
  | false => exact .inl (.noMatrix hmatrix)
  | true =>
    cases hfixture : t.holdsFolder (Path.ofText r.fixture) with
    | false => exact .inl (.noFixture hfixture)
    | true =>
      cases hread : t.read (Path.ofText r.matrixFile) with
      | error f => exact .inr (.inl ⟨hmatrix, hfixture, .inl ⟨f, hread⟩⟩)
      | ok text =>
        cases hparse : Json.parse text with
        | error f =>
          cases f with
          | malformed fault => exact .inl (.noJson text fault hread hparse)
          | number fault =>
            exact .inr (.inl ⟨hmatrix, hfixture, .inr ⟨text, _, hread, hparse, nofun⟩⟩)
          | tooDeep =>
            exact .inr (.inl ⟨hmatrix, hfixture, .inr ⟨text, _, hread, hparse, nofun⟩⟩)
        | ok data =>
          by_cases hlist : ∃ items, data = .list items
          · obtain ⟨items, rfl⟩ := hlist
            rcases Matrix.Entry.exists_error_or_isOk items with ⟨item, hmem, faults, hbad⟩ | hitems
            · exact .inl (.badItem text items item faults hread hparse hmem hbad)
            · by_cases hindex : 0 ≤ r.index ∧ r.index < items.length
              · exact .inr (.inr (exists_selects hfixture hread hparse hitems hindex))
              · exact .inl (.noIndex text items hread hparse hindex)
          · exact .inl (.noList text data hread hparse fun items h => hlist ⟨items, h⟩)

/-! ## Loading -/

theorem load_of_read {t : FileTree} {p : Path} {text : String} (h : t.read p = .ok text) :
    Matrix.load t p = Matrix.parse p.text text := by
  rw [Matrix.load, if_pos (FileTree.holds_of_read h), h]

section

variable {t : FileTree} {outcomes : List Run.Outcome} {debug : Bool} {calls : String} {r : EntryRun}

theorem refuses_loadFailed (path : String) (f : Failure) :
    (Session.loadFailed t path (.refused f)).printed.Refuses := by
  cases f <;> exact Session.refuses_printed_failed ..

/-- A matrix that is no list of entries, or has none at the index, is not loaded. -/
theorem loadEntry_of_refused (h : Refused t r)
    (hmatrix : t.holds (Path.ofText r.matrixFile) = true)
    (hfixture : t.holdsFolder (Path.ofText r.fixture) = true) :
    (∃ f, Matrix.loadEntry t r.matrixFile r.index = .error (.unread (.malformed f)))
      ∨ ∃ f, Matrix.loadEntry t r.matrixFile r.index = .error (.refused f) := by
  cases h with
  | noMatrix absent => cases absent.symm.trans hmatrix
  | noFixture absent => cases absent.symm.trans hfixture
  | noJson text fault read parsed =>
    rw [Matrix.loadEntry, load_of_read read, Matrix.parse, parsed]
    exact .inl ⟨fault, rfl⟩
  | noList text data read parsed other =>
    rw [Matrix.loadEntry, load_of_read read, Matrix.parse, parsed]
    cases data with
    | list items => exact absurd rfl (other items)
    | _ => exact .inr ⟨_, rfl⟩
  | badItem text items item faults read parsed mem bad =>
    obtain ⟨f, hf⟩ := Matrix.Entry.readAll_of_error mem bad
    rw [Matrix.loadEntry, load_of_read read, Matrix.parse, parsed]
    simp only [hf]
    exact .inr ⟨f, rfl⟩
  | noIndex text items read parsed outside =>
    rw [Matrix.loadEntry, load_of_read read, Matrix.parse, parsed]
    rcases Matrix.Entry.exists_error_or_isOk items with ⟨item, hmem, faults, hbad⟩ | hitems
    · obtain ⟨f, hf⟩ := Matrix.Entry.readAll_of_error hmem hbad
      simp only [hf]
      exact .inr ⟨f, rfl⟩
    · obtain ⟨es, hes, hmap⟩ := Matrix.Entry.readAll_of_isOk hitems
      have hlength : items.length = es.length := by simpa using congrArg List.length hmap
      simp only [hes, Matrix.entryAt_of_not (hlength ▸ outside)]
      exact .inr ⟨_, rfl⟩

theorem loadEntry_of_unread (h : Unread t r) :
    (∃ f, Matrix.loadEntry t r.matrixFile r.index = .error (.file f))
      ∨ ∃ f, Matrix.loadEntry t r.matrixFile r.index = .error (.unread f)
        ∧ ∀ g, f ≠ .malformed g := by
  rcases h.fault with ⟨f, hf⟩ | ⟨text, f, hread, hparse, hf⟩
  · refine .inl ⟨f, ?_⟩
    rw [Matrix.loadEntry, Matrix.load, if_pos h.matrix, hf]
  · refine .inr ⟨f, ?_, hf⟩
    rw [Matrix.loadEntry, load_of_read hread, Matrix.parse, hparse]

theorem loadEntry_of_selects {e : Matrix.Entry} (h : Selects t r e) :
    Matrix.loadEntry t r.matrixFile r.index = .ok e := by
  obtain ⟨text, items, hread, hparse, hitems, i, item, hi, hitem, he⟩ := h.entry
  obtain ⟨es, hes, hmap⟩ := Matrix.Entry.readAll_of_isOk hitems
  have hat : es[i]? = some e := by
    have hmap' := congrArg (fun l => l[i]?) hmap
    simp only [List.getElem?_map, hitem, Option.map_some, he] at hmap'
    obtain ⟨_, hat, hok⟩ := Option.map_eq_some_iff.1 hmap'.symm
    rw [hat, Except.ok.inj hok]
  obtain ⟨hlt, rfl⟩ := List.getElem?_eq_some_iff.1 hat
  rw [Matrix.loadEntry, load_of_read hread, Matrix.parse, hparse, hi]
  simp only [hes, Matrix.entryAt_of_lt hlt]

/-! ## Sessions -/

theorem refuses_runEntry (h : Refused t r) :
    (Session.perform t outcomes debug calls (.runEntry r)).Refuses := by
  rw [Session.perform, Session.act, Session.runEntry]
  cases hmatrix : t.holds (Path.ofText r.matrixFile) with
  | false => exact Session.refuses_printed_failed ..
  | true =>
    cases hfixture : t.holdsFolder (Path.ofText r.fixture) with
    | false => exact Session.refuses_printed_failed ..
    | true =>
      rcases loadEntry_of_refused h hmatrix hfixture with ⟨f, hf⟩ | ⟨f, hf⟩
      · simp only [hf]
        exact Session.refuses_printed_failed ..
      · simp only [hf]
        exact refuses_loadFailed r.matrixFile f

theorem breaks_runEntry (h : Unread t r) :
    (Session.perform t outcomes debug calls (.runEntry r)).Breaks := by
  rw [Session.perform, Session.act, Session.runEntry, if_neg (by rw [h.matrix]; decide),
    if_neg (by rw [h.fixture]; decide)]
  rcases loadEntry_of_unread h with ⟨f, hf⟩ | ⟨f, hf, hother⟩
  · rw [hf]
    exact Session.breaks_printed_escaped t _
  · rw [hf]
    cases f with
    | malformed g => exact absurd rfl (hother g)
    | _ => exact Session.breaks_printed_escaped t _

theorem perform_runEntry {e : Matrix.Entry} (h : Selects t r e) :
    Session.perform t outcomes debug calls (.runEntry r)
      = (Session.runCommands t debug calls (Path.ofText r.fixture) r.settings
          (Session.entryCommands r e) outcomes
          (Session.entryStarted debug r e (Session.entryCommands r e))).printed := by
  have hmatrix : t.holds (Path.ofText r.matrixFile) = true := by
    obtain ⟨text, items, hread, -⟩ := h.entry
    exact FileTree.holds_of_read hread
  rw [Session.perform, Session.act, Session.runEntry, if_neg (by rw [hmatrix]; decide),
    if_neg (by rw [h.fixture]; decide), loadEntry_of_selects h]

theorem isPrintable_entryStarted (debug : Bool) (r : EntryRun) (e : Matrix.Entry)
    (commands : List Command) :
    (Session.entryStarted debug r e commands).IsPrintable ↔ Whole e.name ∧ Whole e.fixture := by
  have hmanager : Whole (Choice.name e.config.packageManager) := by
    cases e.config.packageManager <;> decide
  rw [Session.entryStarted, Transcript.isPrintable_append,
    and_iff_left (Console.isPrintable_debug _ _), Console.runStarted]
  constructor
  · intro h
    have hentry := h _ (List.mem_cons_of_mem _ List.mem_cons_self) rfl
    have hfixture :=
      h _ (List.mem_cons_of_mem _ (List.mem_cons_of_mem _ List.mem_cons_self)) rfl
    simp only [Console.out, Text.whole_append] at hentry hfixture
    exact ⟨hentry.1.1.1.1.2, hfixture.1.2⟩
  · rintro ⟨hname, hfixture⟩
    simp only [Transcript.IsPrintable, List.forall_mem_cons]
    refine ⟨Console.isPrintable_out (by decide), Console.isPrintable_out ?_,
      Console.isPrintable_out (.append (by decide) hfixture),
      Console.isPrintable_out (.append (by decide) hmanager),
      Console.isPrintable_out (.append (by decide) (Text.whole_toString_int _)),
      Console.isPrintable_out (by decide), List.forall_mem_nil _⟩
    exact .append (.append (.append (.append (by decide) hname) (by decide))
      (Text.whole_toString_int _)) (by decide)

theorem isWhole_of_mem_entryCommands {e : Matrix.Entry} {c : Command}
    (h : c ∈ Session.entryCommands r e) : c.IsWhole := by
  rw [Session.entryCommands] at h
  split at h
  · exact Config.isWhole_of_mem_commands h
  · exact Config.isWhole_of_mem_testCommands h

end

/-- A run of a matrix entry is refused, breaks off or selects an entry. If it is refused, it ends
with a structured error, and no process is started; nor is one if the run breaks off, as it does
too if the name or the fixture of the entry cannot be printed. Any other run tells by its exit code
how the commands ended that are asked for; if the texts of the processes are whole, it prints the
report of the run, and nothing escapes. -/
theorem entry_runs (t : FileTree) (outcomes : List Run.Outcome) (debug : Bool) (calls : String)
    (r : EntryRun) :
    let x := Session.perform t outcomes debug calls (.runEntry r)
    (Refused t r ∨ Unread t r ∨ ∃ e, Selects t r e) ∧
    (Refused t r → x.Refuses) ∧
    (Unread t r → x.Breaks) ∧
    ∀ e, Selects t r e →
      (¬ (Whole e.name ∧ Whole e.fixture) → x.Breaks) ∧
      (Whole e.name ∧ Whole e.fixture →
        x.Tells r.settings (Session.entryCommands r e)
          (outcomes.map (Session.shownOutcome r.settings)) ∧
        ((∀ o ∈ outcomes, o.ending.IsWhole) →
          x.Tells r.settings (Session.entryCommands r e) outcomes
            ∧ x.escape = none
            ∧ x.Reports (Session.entryStarted debug r e (Session.entryCommands r e))
                (Run.run r.settings (Session.entryCommands r e) outcomes) debug calls)) := by
  intro x
  refine ⟨refused_or_unread_or_selects t r, refuses_runEntry, breaks_runEntry, fun e he => ?_⟩
  rw [show x = _ from perform_runEntry he,
    ← isPrintable_entryStarted debug r e (Session.entryCommands r e)]
  exact Session.ends_runCommands (FileTree.isFolder_place he.fixture)
    fun c => isWhole_of_mem_entryCommands

/-- An index past the end, a folder in place of the matrix file, and an entry whose second process
cannot be run, which debug mode shows with the calls. -/
theorem entry_runs_two :
    let matrix := "[\x7b\"name\": \"a\"\x7d, \x7b\"name\": \"b\", \"fixture\": \"app\"\x7d]"
    let t : FileTree :=
      ⟨⟨true, ["home"]⟩, [(⟨.working 0, ["m.json"]⟩, matrix)], [⟨.working 0, ["app"]⟩]⟩
    let outcomes : List Run.Outcome :=
      [{ ending := .finished 1 "" "no module" }, { ending := .raised ⟨"OSError", "no shell"⟩ }]
    let request (file : String) (index : Int) : EntryRun :=
      { matrixFile := file, index := index, fixture := "app", includeBuildJob := true,
        settings := { continueOnError := true } }
    let x (file : String) (index : Int) : Session :=
      Session.perform t outcomes true "  in run\n" (.runEntry (request file index))
    (x "m.json" 2).Refuses ∧ (x "app" 0).Breaks ∧ ∃ e, e.name = "b" ∧ e.fixture = "app" ∧
      Selects t (request "m.json" 1) e ∧
      (x "m.json" 1).Tells (request "m.json" 1).settings
        (Session.entryCommands (request "m.json" 1) e) outcomes ∧
      (x "m.json" 1).escape = none ∧ (x "m.json" 1).exitCode = 1 ∧
      ∃ before, (x "m.json" 1).transcript = before
        ++ [⟨.err, "Traceback (most recent call last):\n  in run\nOSError: no shell\n"⟩] := by
  intro matrix t outcomes request x
  let first : Json := .object [("name", .str "a")]
  let second : Json := .object [("name", .str "b"), ("fixture", .str "app")]
  have hfolder : t.holdsFolder (Path.ofText "app") = true := by decide +kernel
  have hread : t.read (Path.ofText "m.json") = .ok matrix := by decide +kernel
  have hparse : Json.parse matrix = .ok (.list [first, second]) := by decide +kernel
  have hfile : t.read (Path.ofText "app") = .error ⟨.folder, "app"⟩ := by decide +kernel
  have hwhole : ∀ o ∈ outcomes, o.ending.IsWhole :=
    List.forall_mem_cons.2 ⟨⟨by decide, by decide⟩, List.forall_mem_singleton.2 trivial⟩
  obtain ⟨-, hrefused, -⟩ := entry_runs t outcomes true "  in run\n" (request "m.json" 2)
  obtain ⟨-, -, hunread, -⟩ := entry_runs t outcomes true "  in run\n" (request "app" 0)
  obtain ⟨-, -, -, hselects⟩ := entry_runs t outcomes true "  in run\n" (request "m.json" 1)
  have hoff : Refused t (request "m.json" 2) :=
    .noIndex _ _ hread hparse (by decide)
  have hentry : Selects t (request "m.json" 1) ⟨"b", {}, "app"⟩ :=
    ⟨hfolder, _, _, hread, hparse, by decide +kernel, 1, second, rfl, rfl, by decide +kernel⟩
  obtain ⟨-, hends⟩ := (hselects _ hentry).2 ⟨by decide, by decide⟩
  obtain ⟨htells, hescape, printed, hreport, htranscript⟩ := hends hwhole
  have hstop : (Run.run { continueOnError := true }
      (Session.entryCommands (request "m.json" 1) ⟨"b", {}, "app"⟩) outcomes).stop
        = some (.raised ⟨"OSError", "no shell"⟩) := by decide +kernel
  obtain ⟨hprinted, hcode⟩ := hreport.of_raised hstop rfl
  refine ⟨hrefused hoff, hunread ⟨by decide +kernel, hfolder, .inl ⟨_, hfile⟩⟩, _, rfl, rfl, hentry,
    htells, hescape, hcode, ?_⟩
  rw [htranscript, hprinted, List.map_append]
  exact ⟨_, congrArg _ (by decide +kernel)⟩

end CommandLine

end AppPipeline
