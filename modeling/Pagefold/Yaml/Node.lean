import Pagefold.Yaml.Token

/-!
# Nodes and documents

The tokens of a text make up a document: a node with all that is below it.

* `Yaml.Node`: scalars, lists, mappings, and aliases of other nodes;
* `Yaml.Document`, `Yaml.Document.follow`: a root and the nodes that aliases stand for;
* `Yaml.Reading`: reading nodes from tokens;
* `Yaml.parse?`: the document of a text that holds at most one.

Tags are read and then left out of the nodes.
-/

namespace Pagefold.Yaml

inductive Node where
  /-- A text, and whether it is written without quotes. -/
  | scalar (plain : Bool) (text : Text)
  | list (items : List Node)
  | mapping (members : List (Node × Node))
  /-- The node of an anchor. -/
  | alias (anchor : Nat)

/-- A document. It has no root if nothing is in the text. -/
structure Document where
  root : Option Node
  /-- The nodes with an anchor. -/
  anchored : List (Nat × Node)

/-- The node that is meant by a node. -/
def Document.follow (d : Document) : Node → Option Node
  | .alias a => d.anchored.lookup a
  | n => some n

/-- Nothing at all, where a node could be. -/
def Node.void : Node := .scalar true []

/-! ## Reading -/

/-- What is known between two nodes. -/
structure Progress where
  /-- The tokens that follow. -/
  rest : List Token
  /-- The handles that tags may have. -/
  handles : List Text
  /-- The number of each name of an anchor. -/
  names : List (Text × Nat) := []
  /-- For each anchored node, last one first, the number of its name. -/
  owners : List Nat := []
  /-- The nodes with an anchor: which of them in the order of anchors, and the node. -/
  nodes : List (Nat × Node) := []

abbrev Reading := StateT Progress Option

namespace Reading

def peek : Reading (Option Token) := return (← get).rest.head?

/-- Takes the next token. -/
def advance : Reading Unit := modify fun p => { p with rest := p.rest.drop 1 }

/-- Takes the next token if it is a given one. -/
def accept (x : Token) : Reading Bool := do
  if (← peek) = some x then
    advance
    return true
  else return false

def isNext (xs : List Token) : Reading Bool := return (← peek).any (· ∈ xs)

/-- Gives a name to the next node: a number for it, in the order of anchors. The name takes the
number of the names that are known so far. -/
def name (n : Text) : Reading Nat := do
  let p ← get
  let k := p.names.length
  set { p with names := (n, k) :: p.names.filter (·.1 ≠ n), owners := k :: p.owners }
  return p.owners.length

/-- The anchor at the next token, if there is one. -/
def anchor? : Reading (Option Nat) := do
  match ← peek with
  | some (.anchor n) =>
    advance
    return some (← name n)
  | _ => return none

/-- Whether the next token is a tag, which is taken. Its handle has to be known. -/
def tag : Reading Bool := do
  match ← peek with
  | some (.tag h) =>
    if h ≠ [] ∧ h ∉ (← get).handles then failure
    advance
    return true
  | _ => return false

/-- The anchor and the tag of a node, in any order. -/
def properties : Reading (Option Nat × Bool) := do
  match ← anchor? with
  | some a => return (some a, ← tag)
  | none => if ← tag then return (← anchor?, true) else return (none, false)

/-- Keeps a node under its anchor. -/
def keep (anchor : Option Nat) (n : Node) : Reading Node := do
  match anchor with
  | none => return n
  | some a =>
    modify fun p => { p with nodes := (a, n) :: p.nodes }
    return n

/-- An alias of a name. -/
def aliasOf (n : Text) : Reading Node := do
  match (← get).names.lookup n with
  | some k => return .alias k
  | none => failure

mutual

def node (block bare : Bool) : Nat → Reading Node
  | 0 => failure
  | fuel + 1 => do
    match ← peek with
    | some (.alias n) =>
      advance
      aliasOf n
    | _ =>
      let (anchor, tagged) ← properties
      if bare && (← isNext [.blockEntry]) then keep anchor (.list (← bareItems fuel))
      else
        match ← peek with
        | some (.scalar plain text) =>
          advance
          keep anchor (.scalar plain text)
        | some .flowSequence =>
          advance
          keep anchor (.list (← flowItems true fuel))
        | some .flowMapping =>
          advance
          keep anchor (.mapping (← flowMembers true fuel))
        | some .blockSequence =>
          if block then
            advance
            keep anchor (.list (← items fuel))
          else if anchor.isSome || tagged then keep anchor .void else failure
        | some .blockMapping =>
          if block then
            advance
            keep anchor (.mapping (← members fuel))
          else if anchor.isSome || tagged then keep anchor .void else failure
        | _ => if anchor.isSome || tagged then keep anchor .void else failure

/-- A node, or nothing where one of some tokens follows. -/
def nodeUnless (ends : List Token) (block bare : Bool) : Nat → Reading Node
  | 0 => failure
  | fuel + 1 => do if ← isNext ends then return .void else node block bare fuel

def items : Nat → Reading (List Node)
  | 0 => failure
  | fuel + 1 => do
    if ← accept .blockEntry then
      let n ← nodeUnless [.blockEntry, .blockEnd] true false fuel
      return n :: (← items fuel)
    else if ← accept .blockEnd then return []
    else failure

def bareItems : Nat → Reading (List Node)
  | 0 => failure
  | fuel + 1 => do
    if ← accept .blockEntry then
      let n ← nodeUnless [.blockEntry, .key, .value, .blockEnd] true false fuel
      return n :: (← bareItems fuel)
    else return []

def members : Nat → Reading (List (Node × Node))
  | 0 => failure
  | fuel + 1 => do
    if ← accept .key then
      let k ← nodeUnless [.key, .value, .blockEnd] true true fuel
      let v ← if ← accept .value then nodeUnless [.key, .value, .blockEnd] true true fuel
        else pure .void
      return (k, v) :: (← members fuel)
    else if ← accept .blockEnd then return []
    else failure

def flowItems (first : Bool) : Nat → Reading (List Node)
  | 0 => failure
  | fuel + 1 => do
    if ← accept .flowSequenceEnd then return []
    if !first then
      if !(← accept .flowEntry) then failure
    if ← accept .flowSequenceEnd then return []
    let n ← if ← accept .key then pairItem fuel else node false false fuel
    return n :: (← flowItems false fuel)

/-- A mapping of one member in a list in brackets. Where the key is missing, the token that shows so
is taken. -/
def pairItem : Nat → Reading Node
  | 0 => failure
  | fuel + 1 => do
    let ends := [.value, .flowEntry, .flowSequenceEnd]
    let k ← if ← isNext ends then do
        advance
        pure .void
      else node false false fuel
    let v ← if ← accept .value then nodeUnless [.flowEntry, .flowSequenceEnd] false false fuel
      else pure .void
    return .mapping [(k, v)]

def flowMembers (first : Bool) : Nat → Reading (List (Node × Node))
  | 0 => failure
  | fuel + 1 => do
    if ← accept .flowMappingEnd then return []
    if !first then
      if !(← accept .flowEntry) then failure
    if ← accept .flowMappingEnd then return []
    if ← accept .key then
      let k ← nodeUnless [.value, .flowEntry, .flowMappingEnd] false false fuel
      let v ← if ← accept .value then nodeUnless [.flowEntry, .flowMappingEnd] false false fuel
        else pure .void
      return (k, v) :: (← flowMembers false fuel)
    else
      let k ← node false false fuel
      return (k, .void) :: (← flowMembers false fuel)

end

/-! ## Documents -/

def knownVersion (major minor : Nat) : Bool := major == 1 && (minor == 1 || minor == 2)

/-- Takes the directives of a document: at most one version, and handles that differ. -/
def directives (versioned : Bool) (handles : List Text) : List Token → Option (List Text × List Token)
  | .version major minor :: rest =>
    if versioned || !knownVersion major minor then none else directives true handles rest
  | .tagHandle h :: rest => if h ∈ handles then none else directives versioned (h :: handles) rest
  | rest => some (handles, rest)

def commonHandles : List Text := [['!'], ['!', '!']]

/-- Whether no node is written between the front of a document and a token. -/
def isBare (xs : List Token) : Bool :=
  match xs with
  | [] => true
  | .version _ _ :: _ => true
  | .tagHandle _ :: _ => true
  | .documentStart :: _ => true
  | .documentEnd :: _ => true
  | _ => false

/-- The number of steps that are enough to read some tokens. -/
def stepsFor (xs : List Token) : Nat := 3 * xs.length + 3

/-- The anchored nodes as aliases see them: of the nodes that share a number, the last one counts. -/
def anchored (p : Progress) : List (Nat × Node) :=
  (p.owners.reverse.zipIdx.reverse).filterMap fun (k, i) => (p.nodes.lookup i).map (k, ·)

/-- A document with its root at the front of some tokens, and what follows it. -/
def documentFrom? (handles : List Text) (xs : List Token) : Option (Document × List Token) :=
  if isBare xs then some (⟨some .void, []⟩, xs)
  else do
    let (root, p) ← (node true false (stepsFor xs)).run { rest := xs, handles }
    return (⟨some root, anchored p⟩, p.rest)

/-- The only document of some tokens. -/
def document? (xs : List Token) : Option Document := do
  let (d, rest) ← match xs with
    | [] => some (⟨none, []⟩, [])
    | .documentEnd :: _ => none
    | _ =>
      if isBare xs then do
        let (handles, xs) ← directives false [] xs
        match xs with
        | .documentStart :: xs => documentFrom? (handles ++ commonHandles) xs
        | _ => none
      else documentFrom? commonHandles xs
  if rest.all (· = .documentEnd) then some d else none

end Reading

def parse? (t : Text) : Option Document := (tokens? t).bind Reading.document?

end Pagefold.Yaml
