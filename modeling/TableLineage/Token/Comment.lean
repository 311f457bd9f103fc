import TableLineage.Position
import TableLineage.Text.Blank

/-! Comments. They are collected beside the tokens and never reach the tree. -/
namespace TableLineage

inductive Comment.Style where
  | line
  | block
  deriving DecidableEq, Repr

structure Comment where
  style : Comment.Style
  text : String
  span : Span
  deriving DecidableEq, Repr

namespace Comment

/-- The text without its outer delimiters and the white space around it. -/
def body (c : Comment) : String :=
  let cs := c.text.toList
  let inner := match c.style with
    | .line => Text.withoutLead ['-', '-'] cs
    | .block => Text.withoutTail ['*', '/'] (Text.withoutLead ['/', '*'] cs)
  Text.trimmed (String.ofList inner)

end Comment
end TableLineage
