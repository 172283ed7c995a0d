import ServiceChain.Yaml.Tag

/-!
# Tokens

The words of a document.  The ends of blocks, which are written by indentation alone, and the starts
of implicit keys are tokens of their own.
-/

namespace ServiceChain.Yaml

/-- The two kinds of collections. -/
inductive Shape where
  | sequence
  | mapping
  deriving DecidableEq, Repr

/-- How a scalar is written. -/
inductive Style where
  | plain
  | quoted
  | literal
  | folded
  deriving DecidableEq, Repr

/-- A word of a document. -/
inductive Token where
  /-- The version of the language that a document asks for. -/
  | version (major minor : Nat)
  /-- A handle and what it stands for at the front of a tag. -/
  | handle (handle : List Char) (expansion : TagName)
  | documentStart
  | documentEnd
  | blockStart (shape : Shape)
  | blockEnd
  | flowStart (shape : Shape)
  | flowEnd (shape : Shape)
  /-- The dash before an item. -/
  | item
  | comma
  /-- The start of a key. -/
  | key
  /-- The colon before a value. -/
  | colon
  /-- Another name of the node that follows. -/
  | anchor (name : List Char)
  /-- The node of an anchor. -/
  | reference (name : List Char)
  /-- A handle and the rest of the tag of the node that follows. -/
  | tag (handle : List Char) (suffix : TagName)
  | scalar (style : Style) (text : List Char)
  deriving DecidableEq, Repr

end ServiceChain.Yaml
