import LivingGuide.Block.Parser
import LivingGuide.Comment

/-!
# Sources

The documentation of one source text: the blocks of its comment runs, and the run that the end of
the text cuts off.

* `Source.parse`: the documentation of a text; one malformed block spoils it all
-/

namespace LivingGuide

/-- The documentation of a source text. -/
structure Source where
  blocks : List Block
  unterminated : Option (List String)
deriving DecidableEq, Repr

/-- **The documentation of a text.** The error is that of the first run that is no block. -/
def Source.parse (text : String) : Except Error Source :=
  let lines := Text.linesOf text
  match (Comment.runs lines).mapM Block.ofLines with
  | .ok blocks => .ok ⟨blocks, Comment.unterminated? lines⟩
  | .error error => .error error

end LivingGuide
