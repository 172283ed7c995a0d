import ServiceChain.Yaml.Lexer

/-!
# Documents

A text holds at most one document, a mapping.  Its entries are read; a collection inside the
mapping is checked for its form and not kept.
-/

namespace ServiceChain.Yaml

/-- A key or a value of a mapping. -/
inductive Value where
  | scalar (style : Style) (tag : Option TagName) (text : List Char)
  /-- A sequence or a mapping. -/
  | collection
  deriving DecidableEq, Repr

/-- A scalar that is not written. -/
def Value.empty : Value := .scalar .plain none []

/-- The entries of a mapping in the order in which they stand. -/
abbrev Entries := List (Value × Value)

/-- Tokens that are read up to some place. -/
structure Progress where
  tokens : List Token
  /-- The nodes that have names, the last one first. -/
  anchors : List (List Char × Value)
  /-- The handles of tags and what they stand for. -/
  handles : List (List Char × TagName)

/-- A step of reading tokens. -/
abbrev Reading := StateT Progress Option

namespace Reading

/-- The next token. -/
def peek : Reading (Option Token) := do return (← get).tokens.head?

/-- Goes on after the next token. -/
def skip : Reading Unit := modify fun p => { p with tokens := p.tokens.tail }

/-- Takes the next token. -/
def next? : Reading Token := do
  match ← peek with
  | some token => skip; return token
  | none => failure

/-- One of the given tokens is next. -/
def isAt (tokens : List Token) : Reading Bool := do
  return (← peek).any tokens.contains

/-- Takes the given token if it is next. -/
def accept (token : Token) : Reading Bool := do
  if ← isAt [token] then
    skip
    return true
  else return false

end Reading

open Reading

/-! ## Anchors and tags -/

/-- What may be said of a node before it. -/
structure Properties where
  anchor : Option (List Char)
  tag : Option TagName

/-- The anchor at the front, if there is one. -/
def nextAnchor : Reading (Option (List Char)) := do
  match ← peek with
  | some (.anchor name) => skip; return some name
  | _ => return none

/-- The tag at the front, if there is one.  Its handle must be known. -/
def nextTag : Reading (Option TagName) := do
  match ← peek with
  | some (.tag handle suffix) =>
    skip
    if handle.isEmpty then return some suffix
    else
      let expansion ← (← get).handles.lookup handle
      return some (expansion ++ suffix)
  | _ => return none

/-- An anchor and a tag in any order. -/
def properties : Reading Properties := do
  let anchor ← nextAnchor
  let tag ← nextTag
  if anchor.isNone then return { anchor := ← nextAnchor, tag } else return { anchor, tag }

namespace Properties

/-- Something is said of the node. -/
def isGiven (p : Properties) : Bool := p.anchor.isSome || p.tag.isSome

/-- Gives a node its name. -/
def name (p : Properties) (value : Value) : Reading Unit :=
  match p.anchor with
  | some name => modify fun s => { s with anchors := (name, value) :: s.anchors }
  | none => return

end Properties

/-! ## Nodes -/

/-- A node of which only its anchor or its tag is written. -/
def bareNode? (p : Properties) : Reading Value := do
  if p.isGiven then
    let value := .scalar .plain p.tag []
    p.name value
    return value
  else failure

mutual

/-- A node.  The first flag tells that a block may start, the second that the items of a sequence
may start without one. -/
def node? : Nat → Bool → Bool → Reading Value
  | 0, _, _ => failure
  | fuel + 1, inBlock, atItems => do
    if let some (.reference name) ← peek then
      skip
      (← get).anchors.lookup name
    else
      let p ← properties
      match ← peek with
      | some (.scalar style text) =>
        skip
        let value := .scalar style p.tag text
        p.name value
        return value
      | some (.flowStart shape) =>
        skip
        p.name .collection
        match shape with
        | .sequence => flowSequence? fuel true
        | .mapping => let _ ← flowMapping? fuel true
        return .collection
      | some (.blockStart shape) =>
        if inBlock then
          skip
          p.name .collection
          match shape with
          | .sequence => blockSequence? fuel
          | .mapping => let _ ← blockMapping? fuel
          return .collection
        else bareNode? p
      | some .item =>
        if atItems then
          p.name .collection
          items? fuel
          return .collection
        else bareNode? p
      | _ => bareNode? p

/-- A node, empty before one of the given tokens. -/
def nodeBefore? : Nat → List Token → Bool → Bool → Reading Value
  | 0, _, _, _ => failure
  | fuel + 1, ends, inBlock, atItems => do
    if ← isAt ends then return .empty else node? fuel inBlock atItems

/-- The items of a sequence up to the end of its block. -/
def blockSequence? : Nat → Reading Unit
  | 0 => failure
  | fuel + 1 => do
    if ← accept .blockEnd then return
    else if ← accept .item then
      let _ ← nodeBefore? fuel [.item, .blockEnd] true false
      blockSequence? fuel
    else failure

/-- The items of a sequence that has no block of its own. -/
def items? : Nat → Reading Unit
  | 0 => failure
  | fuel + 1 => do
    if ← accept .item then
      let _ ← nodeBefore? fuel [.item, .key, .colon, .blockEnd] true false
      items? fuel

/-- The entries of a mapping up to the end of its block. -/
def blockMapping? : Nat → Reading Entries
  | 0 => failure
  | fuel + 1 => do
    if ← accept .blockEnd then return []
    else if ← accept .key then
      let ends := [.key, .colon, .blockEnd]
      let key ← nodeBefore? fuel ends true true
      let value ← if ← accept .colon then nodeBefore? fuel ends true true else pure .empty
      return (key, value) :: (← blockMapping? fuel)
    else failure

/-- The items of a sequence up to its bracket; the flag tells that no comma has to stand before the
first.  An item may be a mapping of one entry; if its key is announced but missing, the next token
is lost. -/
def flowSequence? : Nat → Bool → Reading Unit
  | 0, _ => failure
  | fuel + 1, isFirst => do
    let close := .flowEnd .sequence
    if ← accept close then return
    else
      unless isFirst do
        unless ← accept .comma do failure
      if ← accept .key then
        if ← isAt [.colon, .comma, close] then skip else let _ ← node? fuel false false
        if ← accept .colon then
          let _ ← nodeBefore? fuel [.comma, close] false false
        flowSequence? fuel false
      else if ← accept close then return
      else
        let _ ← node? fuel false false
        flowSequence? fuel false

/-- The entries of a mapping up to its bracket; the flag tells that no comma has to stand before the
first.  An entry may lack its value. -/
def flowMapping? : Nat → Bool → Reading Entries
  | 0, _ => failure
  | fuel + 1, isFirst => do
    let close := .flowEnd .mapping
    if ← accept close then return []
    else
      unless isFirst do
        unless ← accept .comma do failure
      if ← accept .key then
        let key ← nodeBefore? fuel [.colon, .comma, close] false false
        let value ←
          if ← accept .colon then nodeBefore? fuel [.comma, close] false false else pure .empty
        return (key, value) :: (← flowMapping? fuel false)
      else if ← accept close then return []
      else
        let key ← node? fuel false false
        return (key, .empty) :: (← flowMapping? fuel false)

end

/-! ## Documents -/

/-- The directives before a document and its marker.  A version is 1.1 or 1.2 and is given once, as
is each handle. -/
def directives? : Nat → Bool → Reading Unit
  | 0, _ => failure
  | fuel + 1, hasVersion => do
    match ← next? with
    | .version major minor =>
      if hasVersion ∨ major ≠ 1 ∨ (minor ≠ 1 ∧ minor ≠ 2) then failure else directives? fuel true
    | .handle handle expansion =>
      if ((← get).handles.lookup handle).isSome then failure
      else
        modify fun p => { p with handles := (handle, expansion) :: p.handles }
        directives? fuel hasVersion
    | .documentStart => return
    | _ => failure

/-- The handles that need no declaration. -/
def standardHandles : List (List Char × TagName) :=
  [(['!'], .ofChars ['!']), (['!', '!'], .ofChars "tag:yaml.org,2002:".toList)]

/-- The entries of the mapping that is the document, none if nothing is written. -/
def root? (fuel : Nat) : Reading Entries := do
  let p ← properties
  match ← peek with
  | some (.blockStart .mapping) =>
    skip
    p.name .collection
    blockMapping? fuel
  | some (.flowStart .mapping) =>
    skip
    p.name .collection
    flowMapping? fuel true
  | some .documentEnd => if p.isGiven then return [] else failure
  | none => if p.isGiven then return [] else failure
  | _ => failure

/-- The entries of the only document, none if there is no document. -/
def document? (fuel : Nat) : Reading Entries := do
  match ← peek with
  | none => return []
  | some (.version ..) | some (.handle ..) | some .documentStart =>
    directives? fuel false
    modify fun p => { p with handles := p.handles ++ standardHandles }
    if ← isAt [.documentStart, .documentEnd] then return []
    else if (← peek).isNone then return []
    else root? fuel
  | _ =>
    modify fun p => { p with handles := p.handles ++ standardHandles }
    root? fuel

/-- The entries of the document that is the text; after it only ends of documents may stand. -/
def entries? (text : List Char) : Option Entries := do
  let tokens ← tokens? text
  let (entries, p) ← (document? (8 * (tokens.length + 1))).run ⟨tokens, [], []⟩
  if p.tokens.all (· == .documentEnd) then return entries else none

end ServiceChain.Yaml
