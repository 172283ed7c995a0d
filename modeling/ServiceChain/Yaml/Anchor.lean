import ServiceChain.Yaml.Cell

/-!
# Anchors

An anchor names a node, and a reference stands for the node of an anchor.
-/

namespace ServiceChain.Yaml

/-- The name of an anchor or of a reference after its first character and what follows it. -/
def anchorName? (cells : List Cell) : Option (List Char × List Cell) :=
  let name := cells.takeWhile fun c => isNameChar c.char
  let rest := cells.dropWhile fun c => isNameChar c.char
  let isEnded := atSpace rest || rest.head?.any fun c => "?:,]\x7d%@\x60".toList.contains c.char
  if name.isEmpty || !isEnded then none else some (name.map (·.char), rest)

end ServiceChain.Yaml
