import AppPipeline.Proofs.Json.Contents
import AppPipeline.Proofs.Json.Same
import AppPipeline.Proofs.Text.References
import AppPipeline.Workflow.Document

/-!
# References in documents

`Document.IsClosed` says what it means that nothing in a document refers to what is
not there. It is about all texts of the data form, keys and values, besides the
version of Node, which the user writes (`Step.texts`, `Job.texts`, `Document.texts`).

* `Step.Holds`, `Job.Holds`: what has to be shown of the parts of a step or a job for
  all texts of their data form (`Document.forall_texts`);
* `InOrder`: what holds of each element of a list after those before it, shown from one
  part of the list to the next (`inOrder_append`).
-/

namespace AppPipeline

/-! ## Texts of steps, jobs and documents -/

/-- The key of the version of Node. -/
def nodeVersionKey : String := "node-version"

namespace Step

/-- The step without the version of Node. -/
def withoutVersion (s : Step) : Step :=
  { s with inputs := s.inputs.filter fun i => i.1 != nodeVersionKey }

def texts (s : Step) : List String := s.withoutVersion.toJson.texts

/-- The script of the step writes an output of that name. -/
def Writes (s : Step) (output : String) : Prop :=
  ∃ lines value, s.run = some (script lines) ∧ '"' ∉ value.toList ∧ '\n' ∉ value.toList ∧
    "echo \"" ++ output ++ "=" ++ value ++ "\" >> $GITHUB_OUTPUT" ∈ lines

end Step

namespace Job

def withoutVersion (j : Job) : Job := { j with steps := j.steps.map Step.withoutVersion }

def texts (j : Job) : List String := j.withoutVersion.toJson.texts

/-- The job has a leg for each platform of a matrix. -/
def DeclaresPlatform (j : Job) : Prop :=
  ∃ v, j.toJson.path? ["strategy", "matrix", "platform"] = some v

end Job

namespace Document

def withoutVersion (d : Document) : Document := { d with jobs := d.jobs.map Job.withoutVersion }

def texts (d : Document) : List String := d.withoutVersion.toJson.texts

/-- Nothing in the document refers to what is not there. -/
structure IsClosed (d : Document) : Prop where
  ids : ∀ j ∈ d.jobs, (j.steps.filterMap Step.id).Nodup
  /-- Outputs are those that an earlier step of the job writes. -/
  outputs : ∀ j ∈ d.jobs, ∀ before s behind, j.steps = before ++ s :: behind →
    ∀ t ∈ s.texts, ∀ r ∈ Text.outputsIn t, ∃ e ∈ before, e.id = some r.1 ∧ e.Writes r.2
  platform : ∀ j ∈ d.jobs,
    (∃ t ∈ j.texts, Text.Stands "matrix.platform" t) ↔ j.DeclaresPlatform
  secrets : ∀ t ∈ d.texts, ∀ n ∈ Text.secretsIn t, n ∈ d.env.map Prod.fst
  /-- The script that configures a drive reads variables of the environment. -/
  reads : ∀ j ∈ d.jobs, ∀ s ∈ j.steps, ∀ command, s.run = some command →
    Text.Stands "rclone.conf" command → ∀ v ∈ Text.variablesIn command, v ∈ d.env.map Prod.fst
  needs : ∀ before j behind, d.jobs = before ++ j :: behind →
    ∀ id ∈ j.needs, id ∈ before.map Job.id

end Document

/-! ## Parts of steps -/

namespace Step

variable {P : String → Prop} {s : Step}

/-- What has to be shown of the inputs of an action. -/
def InputsHold (P : String → Prop) (inputs : List (String × Json)) : Prop :=
  ∀ i ∈ inputs, P i.1 ∧ ∀ t ∈ i.2.texts, P t

theorem inputsHold_nil : InputsHold P [] := List.forall_mem_nil _

theorem InputsHold.cons {key : String} {value : Json} {inputs : List (String × Json)}
    (h : InputsHold P inputs) (hkey : P key) (hvalue : ∀ t ∈ value.texts, P t) :
    InputsHold P ((key, value) :: inputs) := List.forall_mem_cons.2 ⟨⟨hkey, hvalue⟩, h⟩

theorem InputsHold.text {key value : String} {inputs : List (String × Json)}
    (h : InputsHold P inputs) (hkey : P key) (hvalue : P value) :
    InputsHold P ((key, .str value) :: inputs) := h.cons hkey (Json.forall_texts_str.2 hvalue)

/-- The keys of the data form. -/
def keys : List String := ["name", "id", "if", "uses", "with", "run", "env"]

/-- The parts of the step are as they should be. -/
structure Holds (P : String → Prop) (s : Step) : Prop where
  name : ∀ t ∈ s.name, P t
  id : ∀ t ∈ s.id, P t
  condition : ∀ t ∈ s.condition, P t
  uses : ∀ t ∈ s.uses, P t
  inputs : InputsHold P s.inputs
  run : ∀ t ∈ s.run, P t
  env : ∀ e ∈ s.env, P e.1 ∧ ∀ t ∈ e.2.texts, P t

theorem forall_textField {key : String} {text : Option String} (hkey : P key)
    (h : ∀ t ∈ text, P t) : ∀ f ∈ textField key text, P f.1 ∧ ∀ t ∈ f.2.texts, P t := by
  cases text with
  | none => exact List.forall_mem_nil _
  | some t => exact List.forall_mem_singleton.2 ⟨hkey, Json.forall_texts_str.2 (h t rfl)⟩

theorem forall_objectField {key : String} {fields : List (String × Json)} (hkey : P key)
    (h : ∀ f ∈ fields, P f.1 ∧ ∀ t ∈ f.2.texts, P t) :
    ∀ f ∈ objectField key fields, P f.1 ∧ ∀ t ∈ f.2.texts, P t := by
  rw [objectField]
  split
  · exact List.forall_mem_nil _
  · exact List.forall_mem_singleton.2 ⟨hkey, Json.forall_texts_object.2 h⟩

/-- What holds of the keys and of the parts of a step holds of all texts of its data. -/
theorem Holds.forall_texts (hkeys : ∀ k ∈ keys, P k) (h : s.Holds P) :
    ∀ t ∈ s.toJson.texts, P t := by
  simp only [keys, List.forall_mem_cons, List.not_mem_nil, false_implies, implies_true,
    and_true] at hkeys
  obtain ⟨hname, hid, hif, huses, hwith, hrun, henv⟩ := hkeys
  rw [toJson, Json.forall_texts_object]
  simp only [List.forall_mem_append]
  exact ⟨⟨⟨⟨⟨⟨forall_textField hname h.name, forall_textField hid h.id⟩,
    forall_textField hif h.condition⟩, forall_textField huses h.uses⟩,
    forall_objectField hwith h.inputs⟩, forall_textField hrun h.run⟩,
    forall_objectField henv h.env⟩

theorem Holds.withoutVersion (h : s.Holds P) : s.withoutVersion.Holds P :=
  { h with inputs := fun i hi => h.inputs i (List.mem_filter.1 hi).1 }

theorem Holds.mono {Q : String → Prop} (h : s.Holds P) (hPQ : ∀ t, P t → Q t) : s.Holds Q where
  name t ht := hPQ t (h.name t ht)
  id t ht := hPQ t (h.id t ht)
  condition t ht := hPQ t (h.condition t ht)
  uses t ht := hPQ t (h.uses t ht)
  inputs i hi := (h.inputs i hi).imp (hPQ i.1) fun hi t ht => hPQ t (hi t ht)
  run t ht := hPQ t (h.run t ht)
  env e he := (h.env e he).imp (hPQ e.1) fun he t ht => hPQ t (he t ht)

/-- What the step runs is a text of its data. -/
theorem run_mem_texts {text : String} (h : s.run = some text) : text ∈ s.toJson.texts := by
  have hfields := Json.forall_texts_object (P := (· ∈ s.toJson.texts)).1 fun t ht => ht
  have hrun := (hfields ("run", .str text) (by simp [textField, h])).2
  exact Json.forall_texts_str.1 hrun

theorem holds_shell {name command : String} (hname : P name) (hcommand : P command) :
    (shell name command).Holds P := by
  constructor <;> simp [shell, hname, hcommand, inputsHold_nil]

theorem holds_action {name reference : String} {inputs : List (String × Json)} (hname : P name)
    (hreference : P reference)
    (hinputs : InputsHold P inputs) :
    (action name reference inputs).Holds P := by
  constructor <;> simp only [action, Option.mem_def, Option.some.injEq, forall_eq', reduceCtorEq,
    false_implies, implies_true, List.not_mem_nil]
  · exact hname
  · exact hreference
  · exact hinputs

theorem Holds.onlyIf (h : s.Holds P) {condition : Option String} (hc : ∀ t ∈ condition, P t) :
    (s.onlyIf condition).Holds P := { h with condition := hc }

theorem Holds.withId (h : s.Holds P) {id : String} (hid : P id) : (s.withId id).Holds P :=
  { h with id := fun _ ht => Option.some.inj ht ▸ hid }

theorem Holds.withEnv (h : s.Holds P) {env : List (String × String)}
    (henv : ∀ e ∈ env, P e.1 ∧ P e.2) : (s.withEnv env).Holds P where
  __ := h
  env := by
    intro e he
    obtain ⟨f, hf, rfl⟩ := List.mem_map.1 he
    exact ⟨(henv f hf).1, Json.forall_texts_str.2 (henv f hf).2⟩

end Step

/-! ## Parts of jobs and documents -/

namespace Job

variable {P : String → Prop} {j : Job}

def keys : List String := ["needs", "if", "strategy", "runs-on", "steps"] ++ Step.keys

/-- The parts of the job are as they should be. -/
structure Holds (P : String → Prop) (j : Job) : Prop where
  needs : ∀ n ∈ j.needs, P n
  condition : ∀ t ∈ j.condition, P t
  strategy : ∀ f ∈ j.strategy, P f.1 ∧ ∀ t ∈ f.2.texts, P t
  runsOn : P j.runsOn
  steps : ∀ s ∈ j.steps, s.Holds P

theorem forall_texts_needsJson {needs : List String} (h : ∀ n ∈ needs, P n) :
    ∀ t ∈ (needsJson needs).texts, P t := by
  match needs with
  | [] => exact List.forall_mem_nil _
  | [need] => exact Json.forall_texts_str.2 (h need List.mem_cons_self)
  | first :: second :: more =>
    have hlist : needsJson (first :: second :: more)
        = .list ((first :: second :: more).map .str) := rfl
    rw [hlist, Json.forall_texts_list, List.forall_mem_map]
    exact fun n hn => Json.forall_texts_str.2 (h n hn)

/-- What holds of the keys and of the parts of a job holds of all texts of its data. -/
theorem Holds.forall_texts (hkeys : ∀ k ∈ keys, P k) (h : j.Holds P) :
    ∀ t ∈ j.toJson.texts, P t := by
  rw [keys, List.forall_mem_append] at hkeys
  obtain ⟨hkeys, hstepKeys⟩ := hkeys
  simp only [List.forall_mem_cons, List.not_mem_nil, false_implies, implies_true,
    and_true] at hkeys
  obtain ⟨hneeds, hif, hstrategy, hrunsOn, hsteps⟩ := hkeys
  have hneedsField : ∀ f ∈ if j.needs.isEmpty then [] else [("needs", needsJson j.needs)],
      P f.1 ∧ ∀ t ∈ f.2.texts, P t := by
    split
    · exact List.forall_mem_nil _
    · exact List.forall_mem_singleton.2 ⟨hneeds, forall_texts_needsJson h.needs⟩
  rw [toJson, Json.forall_texts_object]
  simp only [List.forall_mem_append, List.forall_mem_cons, List.not_mem_nil, false_implies,
    implies_true, and_true]
  refine ⟨⟨⟨hneedsField, Step.forall_textField hif h.condition⟩,
    Step.forall_objectField hstrategy h.strategy⟩,
    ⟨hrunsOn, Json.forall_texts_str.2 h.runsOn⟩, hsteps, ?_⟩
  rw [Json.forall_texts_list, List.forall_mem_map]
  exact fun s hs => (h.steps s hs).forall_texts hstepKeys

theorem Holds.mono {Q : String → Prop} (h : j.Holds P) (hPQ : ∀ t, P t → Q t) : j.Holds Q where
  needs n hn := hPQ n (h.needs n hn)
  condition t ht := hPQ t (h.condition t ht)
  strategy f hf := (h.strategy f hf).imp (hPQ f.1) fun hf t ht => hPQ t (hf t ht)
  runsOn := hPQ j.runsOn h.runsOn
  steps s hs := (h.steps s hs).mono hPQ

/-- The same job with other steps. -/
theorem Holds.withSteps (h : j.Holds P) {steps : List Step} (hsteps : ∀ s ∈ steps, s.Holds P) :
    Holds P { j with steps := steps } := { h with steps := hsteps }

theorem runsOn_mem_texts (j : Job) : j.runsOn ∈ j.texts := by
  have hfields := Json.forall_texts_object (P := (· ∈ j.texts)).1 fun t ht => ht
  have hrunsOn := (hfields ("runs-on", .str j.runsOn) (by simp [withoutVersion])).2
  exact Json.forall_texts_str.1 hrunsOn

end Job

namespace Document

def keys : List String := ["name", "on", "env", "jobs"] ++ Job.keys

/-- What holds of the keys and of the parts of a document holds of all texts of its data. -/
theorem forall_texts {P : String → Prop} {d : Document}
    (hkeys : ∀ k ∈ keys, P k) (hname : P d.name)
    (hon : ∀ f ∈ d.on, P f.1 ∧ ∀ t ∈ f.2.texts, P t) (henv : ∀ e ∈ d.env, P e.1 ∧ P e.2)
    (hjobs : ∀ j ∈ d.jobs, P j.id ∧ j.Holds P) : ∀ t ∈ d.toJson.texts, P t := by
  rw [keys, List.forall_mem_append] at hkeys
  obtain ⟨hkeys, hjobKeys⟩ := hkeys
  simp only [List.forall_mem_cons, List.not_mem_nil, false_implies, implies_true,
    and_true] at hkeys
  obtain ⟨hnameKey, honKey, henvKey, hjobsKey⟩ := hkeys
  rw [toJson, Json.forall_texts_object]
  simp only [List.forall_mem_cons, List.not_mem_nil, false_implies, implies_true, and_true]
  refine ⟨⟨hnameKey, Json.forall_texts_str.2 hname⟩, ⟨honKey, Json.forall_texts_object.2 hon⟩,
    ⟨henvKey, ?_⟩, hjobsKey, ?_⟩
  · rw [Json.forall_texts_object, List.forall_mem_map]
    exact fun e he => (henv e he).imp_right Json.forall_texts_str.2
  · rw [Json.forall_texts_object, List.forall_mem_map]
    exact fun j hj => (hjobs j hj).imp_right (·.forall_texts hjobKeys)

theorem run_mem_texts {d : Document} {j : Job} (hj : j ∈ d.jobs) {s : Step} (hs : s ∈ j.steps)
    {text : String} (h : s.run = some text) : text ∈ d.toJson.texts := by
  have hfields := Json.forall_texts_object (P := (· ∈ d.toJson.texts)).1 fun t ht => ht
  have hjobs := (hfields ("jobs", .object (d.jobs.map fun j => (j.id, j.toJson))) (by simp)).2
  have hjob := (Json.forall_texts_object.1 hjobs _ (List.mem_map_of_mem hj)).2
  have hsteps := (Json.forall_texts_object.1 hjob
    ("steps", .list (j.steps.map Step.toJson)) (by simp)).2
  exact Json.forall_texts_list.1 hsteps _ (List.mem_map_of_mem hs) text (Step.run_mem_texts h)

end Document

/-! ## Order -/

/-- Each element of the list is as it should be after those before it. -/
def InOrder {α : Type} (P : List α → α → Prop) (earlier : List α) : List α → Prop
  | [] => True
  | x :: behind => P earlier x ∧ InOrder P (earlier ++ [x]) behind

theorem inOrder_append {α : Type} {P : List α → α → Prop} {earlier first second : List α} :
    InOrder P earlier (first ++ second) ↔
      InOrder P earlier first ∧ InOrder P (earlier ++ first) second := by
  induction first generalizing earlier with
  | nil => simp [InOrder]
  | cons x first ih => simp [InOrder, ih, and_assoc]

theorem InOrder.of_mem {α : Type} {P : List α → α → Prop} {earlier items : List α}
    (h : ∀ x ∈ items, ∀ earlier, P earlier x) : InOrder P earlier items := by
  induction items generalizing earlier with
  | nil => trivial
  | cons x items ih =>
    rw [List.forall_mem_cons] at h
    exact ⟨h.1 earlier, ih h.2⟩

/-- The element at any place of the list, after those before it. -/
theorem InOrder.at_split {α : Type} {P : List α → α → Prop} {before behind : List α} {x : α}
    (h : InOrder P [] (before ++ x :: behind)) : P before x := (inOrder_append.1 h).2.1

/-- An earlier step writes each output that the step refers to. -/
def Step.Resolves (earlier : List Step) (s : Step) : Prop :=
  ∀ t ∈ s.texts, ∀ r ∈ Text.outputsIn t, ∃ e ∈ earlier, e.id = some r.1 ∧ e.Writes r.2

end AppPipeline
