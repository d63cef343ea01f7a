import AppPipeline.Text.Search

/-!
# Conditions and scripts

`allOf` and `anyOf` combine conditions of the hosted runner's language, where
"and" binds tighter than "or"; `hosted` writes an expression that only the
runner resolves.
-/

namespace AppPipeline

def script (lines : List String) : String := String.intercalate "\n" lines

/-- An expression that the hosted runner resolves. -/
def hosted (expression : String) : String := "$\x7b\x7b " ++ expression ++ " \x7d\x7d"

def secret (name : String) : String := hosted ("secrets." ++ name)

namespace Guard

/-- A disjunction in a conjunction takes parentheses. -/
def conjunct (p : String) : String := if Text.mentions p "||" then "(" ++ p ++ ")" else p

/-- Every given condition holds; none and empty ones are passed over. -/
def allOf (conditions : List (Option String)) : Option String :=
  match conditions.filterMap fun c => c.filter (· != "") with
  | [] => none
  | [p] => some p
  | parts => some (String.intercalate " && " (parts.map conjunct))

/-- Some condition holds. -/
def anyOf (conditions : List String) : String := String.intercalate " || " conditions

end Guard

end AppPipeline
