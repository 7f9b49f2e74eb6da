/-!
# YAML nodes

The content of a document: scalars, sequences and mappings, without anchors, tags and styles other than
quotes.
-/

namespace Workflow.Yaml

inductive Node
  /-- A scalar without quotes, whose text decides what it stands for; an absent one is empty. -/
  | plain (text : String)
  /-- A scalar in quotes, which is always a text. -/
  | quoted (text : String)
  | sequence (items : List Node)
  | mapping (members : List (Node × Node))
deriving Repr, Inhabited

namespace Node

def absent : Node := .plain ""

def text? : Node → Option String
  | plain s | quoted s => some s
  | _ => none

end Node

end Workflow.Yaml
