/-!
# Arguments of a command line

A command line is a list of texts. Options have a value or are switches; a
value may be joined to a long option by `=` and to a short one directly, and
short switches may share one dash. After `--` everything is a plain word. Of
an option that is given more than once the last occurrence counts.

* `parse`: the options that are given, and the words that are none.
-/

namespace AppPipeline.CommandLine

/-! ## Faults -/

inductive UsageFault where
  | noCommand
  | unknownCommand (name : String)
  | unknownOption (name : String)
  | noValue (option : String)
  | unexpectedValue (option : String)
  | missingOption (option : String)
  | badValue (option value : String)
  | missingWord (name : String)
  | extraWord (word : String)
  deriving DecidableEq, Repr

def UsageFault.message : UsageFault → String
  | .noCommand => "Missing command."
  | .unknownCommand name => "No such command: " ++ name
  | .unknownOption name => "No such option: " ++ name
  | .noValue option => "Option " ++ option ++ " requires a value."
  | .unexpectedValue option => "Option " ++ option ++ " does not take a value."
  | .missingOption option => "Missing option: " ++ option
  | .badValue option value => "Invalid value for " ++ option ++ ": " ++ value
  | .missingWord name => "Missing argument: " ++ name
  | .extraWord word => "Got an unexpected extra argument: " ++ word

/-! ## Options -/

inductive OptionForm where
  | value
  | switch (on : Bool)
  deriving DecidableEq, Repr

/-- A way to give the option that a key stands for. -/
structure OptionName where
  name : String
  key : String
  form : OptionForm
  deriving DecidableEq, Repr

inductive Given where
  | value (key text : String)
  | switch (key : String) (on : Bool)
  deriving DecidableEq, Repr

/-- What a command line gives. -/
structure Parsed where
  given : List Given
  words : List String
  deriving DecidableEq, Repr

namespace Parsed

def valueOf? (key : String) : Given → Option String
  | .value k text => if k = key then some text else none
  | .switch _ _ => none

def switchOf? (key : String) : Given → Option Bool
  | .switch k on => if k = key then some on else none
  | .value _ _ => none

/-- The last value of an option. -/
def value? (p : Parsed) (key : String) : Option String :=
  (p.given.filterMap (valueOf? key)).getLast?

/-- The last state of a switch. -/
def isOn (p : Parsed) (key : String) (default : Bool) : Bool :=
  (p.given.filterMap (switchOf? key)).getLast?.getD default

end Parsed

/-! ## Reading one argument -/

/-- The text before the first `=` and, if there is one, the text after it. -/
def splitAssignment : List Char → List Char × Option (List Char)
  | [] => ([], none)
  | '=' :: s => ([], some s)
  | c :: s => let (name, value) := splitAssignment s; (c :: name, value)

def find? (options : List OptionName) (name : List Char) : Option OptionName :=
  options.find? fun o => o.name.toList == name

/-- Several dashes come before the name of a long option. -/
def isLong : List Char → Bool
  | '-' :: '-' :: _ => true
  | _ => false

/-- What an argument gives, and whether it used the next one as its value. -/
abbrev Reading := Except UsageFault (List Given × Bool)

def readNext (o : OptionName) : Option String → Reading
  | some text => .ok ([.value o.key text], true)
  | none => .error (.noValue o.name)

/-- Reads short options that share a dash; a value ends them. -/
def readShort (options : List OptionName) (next : Option String) : List Char → Reading
  | [] => .ok ([], false)
  | c :: s =>
    match find? options ['-', c] with
    | none => .error (.unknownOption (String.ofList ['-', c]))
    | some o =>
      match o.form with
      | .value =>
        if s.isEmpty then readNext o next
        else .ok ([.value o.key (String.ofList s)], false)
      | .switch on =>
        match readShort options next s with
        | .ok (given, used) => .ok (.switch o.key on :: given, used)
        | .error f => .error f

/-- Reads an argument that starts with a dash. -/
def readOption (options : List OptionName) (arg : List Char) (next : Option String) : Reading :=
  let (name, value) := splitAssignment arg
  match (find? options name).filter fun o => isLong o.name.toList with
  | some o =>
    match o.form, value with
    | .value, some text => .ok ([.value o.key (String.ofList text)], false)
    | .value, none => readNext o next
    | .switch on, none => .ok ([.switch o.key on], false)
    | .switch _, some _ => .error (.unexpectedValue o.name)
  | none =>
    if isLong arg then .error (.unknownOption (String.ofList name))
    else readShort options next (arg.drop 1)

/-! ## Reading all arguments -/

/-- A dash with something behind it. -/
def isOption : List Char → Bool
  | '-' :: _ :: _ => true
  | _ => false

/-- Reads arguments; if words may not stand among the options, the first word
ends them. -/
def parse (options : List OptionName) (mixed : Bool) : List String → Except UsageFault Parsed
  | [] => .ok ⟨[], []⟩
  | arg :: rest =>
    if arg = "--" then .ok ⟨[], rest⟩
    else if isOption arg.toList then
      match readOption options arg.toList rest.head? with
      | .error f => .error f
      | .ok (given, used) =>
        (parse options mixed (if used then rest.tail else rest)).map fun p =>
          { p with given := given ++ p.given }
    else if mixed then
      (parse options mixed rest).map fun p => { p with words := arg :: p.words }
    else .ok ⟨[], arg :: rest⟩
  termination_by args => args.length
  decreasing_by
    · split
      · rw [List.length_tail, List.length_cons]
        exact Nat.lt_succ_of_le (Nat.sub_le _ 1)
      · exact Nat.lt_succ_self _
    · exact Nat.lt_succ_self _

end AppPipeline.CommandLine
