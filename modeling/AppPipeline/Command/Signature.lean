import AppPipeline.Command.Basic
import AppPipeline.Text.Code

/-!
# Signatures

The signature of commands is a text that depends neither on their order nor on
step names: the sorted pairs of category and stripped text. The signature of
a configuration is that of its test commands.
-/

namespace AppPipeline

/-- A category and a stripped text. -/
def Command.key (c : Command) : String := c.category ++ ":" ++ Text.strip c.text

def signatureOf (commands : List Command) : String :=
  String.intercalate "|" ((commands.map Command.key).mergeSort Text.le)

def Config.signature (c : Config) : String := signatureOf c.testCommands

end AppPipeline
