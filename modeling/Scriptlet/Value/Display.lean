import Scriptlet.Numeral.Fixed
import Scriptlet.Text.Quoted
import Scriptlet.Tree.Render
import Scriptlet.Value

/-!
# The text of a value

A value is shown as its content alone: a string without quotes, an error as its message, a returned value as the value inside. A
function is shown with its parameters and without its body; `Closure.description` lists its parameters with their tokens and
gives the text of the body.
-/

namespace Scriptlet

namespace Closure

/-- A function as a value is shown. -/
def display (f : Closure) : String := "fn(" ++ Identifier.renderAll f.parameters ++ ") \x7b ... \x7d"

/-- A parameter with the token it stands in. -/
def describeParameter (p : Identifier) : String :=
  "Identifier \x7b token: Token \x7b token_type: Ident, literal: " ++ quoted p.token.literal ++
    ", line: " ++ toString p.token.pos.line ++ ", column: " ++ toString p.token.pos.column ++
    " \x7d, value: " ++ quoted p.name ++ " \x7d"

/-- The parameters of a function with their tokens, and the text of its body. -/
def description (f : Closure) : String :=
  "Function \x7b parameters: [" ++ ", ".intercalate (f.parameters.map describeParameter) ++
    "], body: " ++ quoted f.body.render ++ ", .. \x7d"

end Closure

/-- The text of a value. -/
def Value.display : Value → String
  | int n => toString n.toInt
  | float x => fixedText x
  | bool b => if b then "true" else "false"
  | string s => s
  | null => "null"
  | function f => f.display
  | error m => m
  | returned v => v.display

end Scriptlet
