import Ecma51.Fault
import Ecma51.Pattern.Program
import Ecma51.Pattern.Token

/-!
# Reading patterns

From tokens to pattern trees: alternatives, groups, look-ahead and quantifiers.

* `Builder.run?`: the tokens in turn, with the open groups on a stack.
* `Node.withSpan`, `Matcher.ofNode?`: what is looked for, and what looks for it.
* `Pattern.read?`: the pattern of a source text.
* `RegExpFlags.read`, `RegExp.read`: flags and whole regular expressions, with the reason if they
  are refused.
-/

namespace Ecma51

-- powers mean the same whether or not there are other instances in scope
attribute [local instance (high)] instPowNat

namespace Pattern

/-! ## 1. Building trees -/

/-- What an open parenthesis begins. -/
inductive Opener where
  | plain
  | numbered (index : Nat)
  | look (negative : Bool)

/-- An open group: its finished alternatives and the pieces of the present one, latest first. -/
structure Frame where
  opener : Opener
  branches : List Node := []
  pieces : List Node := []

/-- The state of reading: the group being read, those around it, the atom just read to which a
quantifier would apply, and the number of groups so far. -/
structure Builder where
  current : Frame := { opener := .plain }
  outer : List Frame := []
  pending : Option Node := none
  groups : Nat := 0

/-- At most so many groups can be open at once. -/
def maxNesting : Nat := 63

/-- The tree of a list of pieces; a single piece is itself. -/
def Node.ofPieces : List Node → Node
  | [] => .empty
  | [n] => n
  | ns => .concat ns

/-- A quantifier may follow the tree. -/
def Node.isRepeatable : Node → Bool
  | .empty | .start | .stop | .wordStart | .wordEnd | .look _ _ _ => false
  | _ => true

namespace Builder

/-- The pending atom becomes a piece; the empty tree leaves no trace. -/
def flush (b : Builder) : Builder :=
  match b.pending with
  | none => b
  | some .empty => { b with pending := none }
  | some n => { b with pending := none, current.pieces := n :: b.current.pieces }

/-- A new atom. -/
def push (b : Builder) (n : Node) : Builder := { b.flush with pending := some n }

/-- The end of an alternative. -/
def endBranch (b : Builder) : Builder :=
  let b := b.flush
  { b with
    current.branches := Node.ofPieces b.current.pieces.reverse :: b.current.branches
    current.pieces := [] }

/-- The tree of the group being read. -/
def body (b : Builder) : Node :=
  match b.endBranch.current.branches.reverse with
  | [n] => n
  | ns => .choice ns

/-- An opening parenthesis; refused when too many are open. -/
def openGroup (b : Builder) (opener : Opener) : Option Builder :=
  let b := b.flush
  if b.outer.length < maxNesting then
    some { b with outer := b.current :: b.outer, current := { opener } }
  else none

/-- An opening parenthesis that numbers its group. -/
def openNumbered (b : Builder) : Option Builder :=
  { b with groups := b.groups + 1 }.openGroup (.numbered (b.groups + 1))

/-- A closing parenthesis; refused when none is open. -/
def closeGroup (b : Builder) : Option Builder :=
  match b.outer with
  | [] => none
  | frame :: outer =>
    let node := match b.current.opener with
      | .plain => b.body
      | .numbered i => .group i b.body
      | .look negative => .look true negative b.body
    some { b with current := frame, outer, pending := some node }

/-- The pending atom repeated; refused when there is none that can be. -/
def quantify (b : Builder) (least : Nat) (most : Option Nat) (greedy atomic : Bool) :
    Option Builder :=
  match b.pending with
  | none => none
  | some n =>
    if n.isRepeatable then
      let node := .repeats n least most greedy
      some { b with
        pending := none
        current.pieces := (if atomic then .atomic node else node) :: b.current.pieces }
    else none

end Builder

/-! ## 2. Tokens in turn -/

/-- The token is the symbol. -/
def Token.isSymbol (c : Char) : Token → Bool
  | .symbol d => c == d
  | .atom _ => false

/-- The number of leading tokens that modify a quantifier, whether it is greedy and whether it is
atomic. -/
def quantifierMarks : List Token → Nat × Bool × Bool
  | .symbol '?' :: .symbol '+' :: _ => (2, false, true)
  | .symbol '?' :: _ => (1, false, false)
  | .symbol '+' :: _ => (1, true, true)
  | _ => (0, true, false)

/-- The number that a list of decimal digits spells. -/
def countOf (cs : List Char) : Nat := cs.foldl (fun n c => n * 10 + (c.toNat - 0x30)) 0

/-- The bounds that the characters between braces spell; `none` if one takes more than a word of
sixty-four bits. The greatest word is no bound at all. -/
def boundsOf? (cs : List Char) : Option (Nat × Option Nat) :=
  let least := cs.takeWhile (· != ',')
  let most : Option Nat := match cs.drop least.length with
    | [] => some (countOf least)
    | [_] => none
    | _ :: most => some (countOf most)
  if countOf least < 2 ^ (64 : Nat) ∧ most.all (· < 2 ^ (64 : Nat)) then
    some (countOf least, most.filter (· + 1 < 2 ^ (64 : Nat)))
  else none

/-- The characters of the symbols before the closing brace. -/
def symbolsToBrace : List Token → List Char
  | .symbol c :: rest => if c == '\x7d' then [] else c :: symbolsToBrace rest
  | _ => []

/-- All tokens in turn. -/
def Builder.run? (folded : Bool) : Builder → List Token → Option Builder
  | b, [] => some b
  | b, .atom n :: rest => run? folded (b.push n) rest
  | b, .symbol c :: rest =>
    let repeated (least : Nat) (most : Option Nat) (used : Nat) : Option Builder := do
      let after := rest.drop used
      let (marks, greedy, atomic) := quantifierMarks after
      let b ← b.quantify least most greedy atomic
      run? folded b (rest.drop (used + marks))
    match c with
    | '(' =>
      if rest.head?.any (Token.isSymbol '?') then do
        let opener ← match rest.drop 1 with
          | .symbol ':' :: _ => some Opener.plain
          | .symbol '=' :: _ => some (Opener.look false)
          | .symbol '!' :: _ => some (Opener.look true)
          | _ => none
        let b ← b.openGroup opener
        run? folded b (rest.drop 2)
      else do
        let b ← b.openNumbered
        run? folded b rest
    | ')' => do
      let b ← b.closeGroup
      run? folded b rest
    | '|' => run? folded b.endBranch rest
    | '^' => run? folded (b.push .start) rest
    | '$' => run? folded (b.push .stop) rest
    | '*' => repeated 0 none 0
    | '+' => repeated 1 none 0
    | '?' => repeated 0 (some 1) 0
    | _ =>
      let literal := run? folded (b.push (.ofUnit folded c.toNat)) rest
      if c == '\x7b' && b.pending.isSome then
        let digits := symbolsToBrace rest
        match boundsOf? digits with
        | some (least, most) => repeated least most (digits.length + 1)
        | none => literal
      else literal
termination_by _ tokens => tokens.length
decreasing_by all_goals simp only [List.length_cons, List.length_drop]; omega

/-! ## 3. Patterns and regular expressions -/

/-- The whole match as group zero. A look-ahead at the very end is not looked at but matched, with the
group before it. -/
def Node.withSpan : Node → Node
  | .look true false body => .concat [.group 0 .empty, body]
  | .concat parts =>
    match parts.getLast? with
    | some (.look true false body) => .concat [.group 0 (.concat parts.dropLast), body]
    | _ => .group 0 (.concat parts)
  | n => .group 0 n

/-- What looks for a tree with the given number of groups: an automaton if one decides it. -/
def Matcher.ofNode? (root : Node) (groups : Nat) : Option Matcher :=
  if root.isHard root.references then (Program.ofNode? root groups).map .program
  else (Automaton.ofNodes? [root]).map .automaton

/-- The pattern of a source text, or `none` if it is malformed. An automaton reports as many groups as
impossible repetitions leave. -/
def read? (flags : RegExpFlags) (source : Text) : Option Pattern := do
  let folded := flags.ignoreCase
  let tokens ← Token.scan? folded flags.multiline source.toList
  let b ← Builder.run? folded { pending := if folded then some .empty else none } tokens
  if !b.outer.isEmpty then none
  let root := b.body.withSpan
  if root.references.any (b.groups < ·) then none
  let matcher ← Matcher.ofNode? root b.groups
  let groups := match matcher with
    | .automaton _ => root.survivors.length - 1
    | .program _ => b.groups
  some { matcher, groups, slots := 2 * (b.groups + 1) }

end Pattern

/-- The flags with the one that a character names, or `none` if it names none. -/
def RegExpFlags.with? (f : RegExpFlags) : Char → Option RegExpFlags
  | 'g' => some { f with global := true }
  | 'i' => some { f with ignoreCase := true }
  | 'm' => some { f with multiline := true }
  | _ => none

/-- The flags that a list of characters names, each at most once. -/
def RegExpFlags.readFrom (f : RegExpFlags) : List Char → Except Fault RegExpFlags
  | [] => .ok f
  | c :: cs =>
    match f.with? c with
    | none => .error (.flagUnknown c)
    | some g => if g = f then .error (.flagRepeated c) else g.readFrom cs

/-- The flags that a text names. -/
def RegExpFlags.read (t : Text) : Except Fault RegExpFlags := RegExpFlags.readFrom {} t.chars

/-- The regular expression of a source and its flags. -/
def RegExp.read (source flags : Text) : Except Fault RegExp := do
  let flags ← RegExpFlags.read flags
  match Pattern.read? flags source with
  | some pattern => .ok { source, flags, pattern }
  | none => .error .patternInvalid

end Ecma51
