import JavaThrows.Cst.Grammar

set_option autoImplicit false

/-!
# Where a source stops being well formed

Ordered choice takes back what an alternative has read before it fails, so where a mismatch ends
says little. What tells the place of a fault is how far reading has come at any time: the first
token that no alternative has got past.
-/

namespace JavaThrows.Cst

variable {σ : Type}

/-! ## How far reading comes -/

/-- `Rule.reach` for as many matches in a row as there are. -/
def reachMany (one : List Token → Outcome) (reach : List Token → Nat) :
    List Token → List Token → Nat
  | [], ts => ts.length
  | _ :: rounds, ts =>
    match one ts with
    | .matched _ rest => min (reach ts) (reachMany one reach rounds rest)
    | _ => reach ts

/-- The fewest tokens that are left unread at any time while a rule is read. `read` and `reach` say
    the same of the phrases that it refers to. A look ahead reads nothing, however far it looks. -/
def Rule.reachWith (read : σ → List Token → Outcome) (reach : σ → List Token → Nat) :
    Rule σ → List Token → Nat
  | .leaf _ _, [] => 0
  | .leaf t _, token :: rest => if t.accepts token then rest.length else rest.length + 1
  | .phrase s, ts => reach s ts
  | .empty, ts => ts.length
  | .both a b, ts =>
    match a.readWith read ts with
    | .matched _ rest => min (a.reachWith read reach ts) (b.reachWith read reach rest)
    | _ => a.reachWith read reach ts
  | .either a b, ts =>
    match a.readWith read ts with
    | .mismatch => min (a.reachWith read reach ts) (b.reachWith read reach ts)
    | _ => a.reachWith read reach ts
  | .many a, ts => reachMany (a.readWith read) (a.reachWith read reach) ts ts
  | .node _ a, ts => a.reachWith read reach ts
  | .field _ a, ts => a.reachWith read reach ts
  | .chain a b, ts =>
    match a.readWith read ts with
    | .matched _ rest =>
      min (a.reachWith read reach ts)
        (reachMany (b.readWith read) (b.reachWith read reach) rest rest)
    | _ => a.reachWith read reach ts
  | .ahead _, ts => ts.length
  | .notAhead _, ts => ts.length
termination_by structural r => r

/-- `Rule.reachWith` for a phrase of a grammar, through at most `bound` nested references. -/
def Grammar.reach (g : Grammar σ) : Nat → σ → List Token → Nat
  | 0, _, ts => ts.length
  | bound + 1, s, ts => (g s).reachWith (g.read bound) (g.reach bound) ts

/-! ## Faults of a Java source -/

/-- The fewest tokens that are left unread at any time while a Java source is read. -/
def fewestLeft (tokens : List Token) : Nat :=
  let bound := referenceBound tokens
  Rule.reachWith (javaGrammar.read bound) (javaGrammar.reach bound) (.many Java.topLevel) tokens

/-- The symbols that end something. -/
def closingSymbols : List String := [";", ")", "]", "\x7d"]

/-- Whether reading gets past the last `left` tokens with this symbol put in front of them. -/
def goesOnWith (before after : List Token) (offset : Nat) (symbol : String) : Bool :=
  let tokens := before ++ ⟨.symbol, symbol, ⟨offset, offset⟩, [], false⟩ :: after
  (Rule.readAll (.many Java.topLevel) tokens).isSome || fewestLeft tokens < after.length

/-- The byte offset of the fault in a row of tokens that is not well formed. A closing symbol that
    is missing is missed right after the token before. Otherwise the token that reading does not get
    past is at fault, and where there is none, since more is open at the end than one symbol closes,
    the source as a whole, from its first token on. -/
def tokensFault (tokens : List Token) : Nat :=
  let left := fewestLeft tokens
  let (before, after) := tokens.splitAt (tokens.length - left)
  let stop := (before.getLast?.map (·.span.stop)).getD 0
  if closingSymbols.any (goesOnWith before after stop) then stop
  else ((after ++ tokens).head?.map (·.span.start)).getD 0

/-- The byte offset of the fault in a source that is not well formed. -/
def faultOffset (source : List Char) : Nat :=
  match scan source with
  | .error offset => offset
  | .ok s => tokensFault s.tokens

end JavaThrows.Cst
