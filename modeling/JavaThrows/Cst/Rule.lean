import JavaThrows.Cst.Node
import JavaThrows.Cst.Token

set_option autoImplicit false

/-!
# Grammar rules and how they read tokens

A grammar is data: a rule for each phrase. `Rule.read` reads a rule with ordered choice, the first
alternative that matches wins and is not taken back, so reading is a function and each question
about it can be answered once per kind of rule instead of once per phrase of a grammar.

A rule yields the nodes it has read, the comments between them included. A comment belongs to the
node inside which it stands: comments before the first token of a node are left outside of it, and
those after its last token are not read with it.

References to phrases are counted, so that a grammar that refers to itself without reading a token
ends as `exhausted`, which is an outcome of its own and never taken for a mismatch.
-/

namespace JavaThrows.Cst

/-- What a rule asks of a single token. -/
inductive Terminal where
  /-- The word or symbol with this text. -/
  | exact (text : String)
  /-- The symbol with this text, with nothing between it and the token before. -/
  | glued (text : String)
  /-- A word that is not one of the given ones. -/
  | wordExcept (reserved : List String)
  /-- A word that is one of the given ones. -/
  | wordAmong (words : List String)
  /-- A token of this kind. -/
  | ofKind (kind : TokenKind)
deriving DecidableEq, Repr

/-- Whether a token is what the terminal asks for. -/
def Terminal.accepts (t : Terminal) (token : Token) : Bool :=
  match t with
  | .exact text => (token.kind == .word || token.kind == .symbol) && token.text == text
  | .glued text => token.kind == .symbol && token.glued && token.text == text
  | .wordExcept reserved => token.kind == .word && !reserved.contains token.text
  | .wordAmong words => token.kind == .word && words.contains token.text
  | .ofKind kind => token.kind == kind

/-- A rule over phrases named by `σ`. -/
inductive Rule (σ : Type) where
  /-- One token, as a node of its own: of the given kind, or unnamed under its own text. -/
  | leaf (t : Terminal) (kind : Option String)
  /-- What the grammar says for a phrase. -/
  | phrase (s : σ)
  | empty
  | both (a b : Rule σ)
  /-- The first rule, or where it does not match, the second. -/
  | either (a b : Rule σ)
  /-- As many matches in a row as there are. -/
  | many (a : Rule σ)
  /-- One node around all that the rule reads. -/
  | node (kind : String) (a : Rule σ)
  /-- What the rule reads fills a field of the node around it. -/
  | field (name : String) (a : Rule σ)
  /-- A node of the first rule, and for each match of the second one a larger node that starts with
      the one before: the second rule reads the remainder of the larger node. -/
  | chain (first rest : Rule σ)
  /-- Matches where the rule does, and reads nothing. -/
  | ahead (a : Rule σ)
  /-- Matches where the rule does not, and reads nothing. -/
  | notAhead (a : Rule σ)
deriving Inhabited

/-- What reading a rule comes to. -/
inductive Outcome where
  /-- The nodes that were read, and the tokens that are left. -/
  | matched (nodes : List Node) (rest : List Token)
  | mismatch
  /-- The bound on references between phrases was reached. -/
  | exhausted
deriving Inhabited

/-! ## Nodes from what was read -/

def Comment.kind (c : Comment) : String :=
  if c.block then "block_comment" else "line_comment"

def Comment.node (c : Comment) : Node :=
  ⟨c.kind, none, true, c.span, []⟩

def Node.isComment (n : Node) : Bool :=
  n.kind == "block_comment" || n.kind == "line_comment"

/-- The comments before a token, and the token as a node. -/
def Token.nodes (token : Token) (kind : Option String) : List Node :=
  token.comments.map Comment.node ++
    [⟨kind.getD token.text, none, kind.isSome, token.span, []⟩]

/-- A node around nodes; comments in front stay outside. -/
def enclose (kind : String) (nodes : List Node) : List Node :=
  match nodes.span Node.isComment with
  | (_, []) => nodes
  | (comments, first :: others) =>
    let last := (first :: others).getLastD first
    comments ++ [⟨kind, none, true, ⟨first.span.start, last.span.stop⟩, first :: others⟩]

/-- Every node but the comments fills the given field. -/
def fill (name : String) (nodes : List Node) : List Node :=
  nodes.map fun n => if n.isComment then n else { n with field := some name }

/-- Put the nodes read so far in front of the children of the node read last: `before` ends with
    the node to extend, and `more` is the larger node, with the comments in front of it. -/
def extend (before more : List Node) : List Node :=
  match before.reverse, more.reverse with
  | inner :: front, outer :: comments =>
    front.reverse ++
      [{ outer with
          span := ⟨inner.span.start, outer.span.stop⟩
          children := inner :: comments.reverse ++ outer.children }]
  | _, _ => before ++ more

/-! ## Reading -/

namespace Outcome

/-- Go on with what is left, and put the nodes of both together. -/
def andThen (o : Outcome) (next : List Token → Outcome) : Outcome :=
  match o with
  | .matched xs rest =>
    match next rest with
    | .matched ys rest' => .matched (xs ++ ys) rest'
    | .mismatch => .mismatch
    | .exhausted => .exhausted
  | .mismatch => .mismatch
  | .exhausted => .exhausted

def orElse (o : Outcome) (other : Unit → Outcome) : Outcome :=
  match o with
  | .mismatch => other ()
  | o => o

def mapNodes (f : List Node → List Node) : Outcome → Outcome
  | .matched xs rest => .matched (f xs) rest
  | .mismatch => .mismatch
  | .exhausted => .exhausted

end Outcome

/-- Match again and again. Each match reads a token, so there are at most as many rounds as tokens:
    the first list has an element for each round that is left. -/
def readMany (one : List Token → Outcome) : List Token → List Token → Outcome
  | [], ts => .matched [] ts
  | _ :: rounds, ts =>
    match one ts with
    | .matched xs rest => (readMany one rounds rest).mapNodes (xs ++ ·)
    | .mismatch => .matched [] ts
    | .exhausted => .exhausted

/-- Extend the nodes read so far as often as there is a match. -/
def readChain (one : List Token → Outcome) : List Token → List Node → List Token → Outcome
  | [], before, ts => .matched before ts
  | _ :: rounds, before, ts =>
    match one ts with
    | .matched xs rest => readChain one rounds (extend before xs) rest
    | .mismatch => .matched before ts
    | .exhausted => .exhausted

variable {σ : Type}

/-- Read a rule, where `phrase` says how to read the phrases that it refers to. -/
def Rule.readWith (phrase : σ → List Token → Outcome) : Rule σ → List Token → Outcome
  | .leaf _ _, [] => .mismatch
  | .leaf t kind, token :: rest =>
    if t.accepts token then .matched (token.nodes kind) rest else .mismatch
  | .phrase s, ts => phrase s ts
  | .empty, ts => .matched [] ts
  | .both a b, ts => (a.readWith phrase ts).andThen (b.readWith phrase)
  | .either a b, ts => (a.readWith phrase ts).orElse fun _ => b.readWith phrase ts
  | .many a, ts => readMany (a.readWith phrase) ts ts
  | .node kind a, ts => (a.readWith phrase ts).mapNodes (enclose kind)
  | .field name a, ts => (a.readWith phrase ts).mapNodes (fill name)
  | .chain a b, ts =>
    match a.readWith phrase ts with
    | .matched xs rest => readChain (b.readWith phrase) rest xs rest
    | .mismatch => .mismatch
    | .exhausted => .exhausted
  | .ahead a, ts =>
    match a.readWith phrase ts with
    | .matched _ _ => .matched [] ts
    | .mismatch => .mismatch
    | .exhausted => .exhausted
  | .notAhead a, ts =>
    match a.readWith phrase ts with
    | .matched _ _ => .mismatch
    | .mismatch => .matched [] ts
    | .exhausted => .exhausted
termination_by structural r => r

/-- A rule for each phrase. -/
abbrev Grammar (σ : Type) := σ → Rule σ

/-- Read a phrase of a grammar through at most `bound` nested references. -/
def Grammar.read (g : Grammar σ) : Nat → σ → List Token → Outcome
  | 0, _, _ => .exhausted
  | bound + 1, s, ts => (g s).readWith (g.read bound) ts

/-! ## Writing rules down -/

namespace Rule

/-- The word or symbol with this text. -/
instance : Coe String (Rule σ) := ⟨fun text => .leaf (.exact text) none⟩

/-- All of the rules in a row. -/
def row : List (Rule σ) → Rule σ
  | [] => .empty
  | [r] => r
  | r :: rs => .both r (row rs)

/-- The first of the rules that matches. -/
def oneOf : List (Rule σ) → Rule σ
  | [] => .notAhead .empty
  | [r] => r
  | r :: rs => .either r (oneOf rs)

def optional (r : Rule σ) : Rule σ :=
  .either r .empty

def several (r : Rule σ) : Rule σ :=
  .both r (.many r)

/-- At least one match, with the separator between each two. -/
def separated (separator r : Rule σ) : Rule σ :=
  .both r (.many (.both separator r))

/-- At least one match, with commas between. -/
def list (r : Rule σ) : Rule σ :=
  separated "," r

end Rule
end JavaThrows.Cst
