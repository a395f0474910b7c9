/-
# QueryScore.Peg -- parsing expression grammars with skipped filler

A grammar gives each rule a kind and a body, and says what filler (blanks, comments) is skipped
between the parts of a sequence and of a repetition. Choice is ordered and does not come back:
the first alternative that matches is taken. A normal or atomic rule leaves a node in the tree;
inside an atomic rule nothing is skipped and no further nodes arise. A node spans everything its
rule consumed, filler at the end included where the rule skipped it before giving up a part.

The interpreter takes fuel. Its third outcome says that the fuel ran out, and is no answer about
the text.
-/

import QueryScore.Text.Blank

namespace QueryScore

/-! ## Expressions and grammars -/

/-- A parsing expression over rules `ρ`. -/
inductive Peg (ρ : Type) where
  /-- These characters. -/
  | text (cs : List Char)
  /-- These letters, in either case. -/
  | word (cs : List Char)
  /-- An ASCII digit. -/
  | digit
  /-- An ASCII letter. -/
  | letter
  /-- Any character. -/
  | any
  /-- The start of the input. -/
  | start
  /-- The end of the input. -/
  | stop
  /-- A rule. -/
  | rule (r : ρ)
  /-- One after the other, filler between them. -/
  | seq (a b : Peg ρ)
  /-- The first that matches. -/
  | alt (a b : Peg ρ)
  /-- As often as it matches, filler between. -/
  | many (a : Peg ρ)
  /-- Once or not at all. -/
  | opt (a : Peg ρ)
  /-- It does not match here; takes nothing. -/
  | absent (a : Peg ρ)
  /-- It matches here; takes nothing. -/
  | present (a : Peg ρ)
  deriving DecidableEq, Repr

namespace Peg

variable {ρ : Type}

/-- The empty expression. -/
def nothing : Peg ρ := .text []

/-- One after the other. -/
def seqs : List (Peg ρ) → Peg ρ
  | [] => nothing
  | [a] => a
  | a :: b :: rest => .seq a (seqs (b :: rest))

/-- The first of several that matches. -/
def alts : List (Peg ρ) → Peg ρ
  | [] => .absent nothing
  | [a] => a
  | a :: b :: rest => .alt a (alts (b :: rest))

/-- Once or more. -/
def some1 (a : Peg ρ) : Peg ρ := .seq a (.many a)

end Peg

/-- What a rule does beside matching its body. -/
inductive RuleKind where
  /-- Leaves a node. -/
  | normal
  /-- Leaves a node without children and skips nothing. -/
  | atomic
  /-- Leaves no node. -/
  | silent
  deriving DecidableEq, Repr

/-- A grammar over rules `ρ`. -/
structure Grammar (ρ : Type) where
  /-- The kind of a rule. -/
  kind : ρ → RuleKind
  /-- The body of a rule. -/
  body : ρ → Peg ρ
  /-- What is skipped; matched as in an atomic rule. -/
  filler : Peg ρ

/-! ## Trees -/

/-- A parse tree: the rule, the index where its text starts, its text, and its parts. -/
inductive Tree (ρ : Type) where
  /-- A node of a rule. -/
  | node (rule : ρ) (start : Nat) (text : List Char) (children : List (Tree ρ))
  deriving Repr

namespace Tree

variable {ρ : Type}

/-- The rule of a node. -/
def rule : Tree ρ → ρ
  | .node r _ _ _ => r

/-- The index where a node starts. -/
def start : Tree ρ → Nat
  | .node _ i _ _ => i

/-- The text of a node. -/
def text : Tree ρ → List Char
  | .node _ _ cs _ => cs

/-- The parts of a node. -/
def children : Tree ρ → List (Tree ρ)
  | .node _ _ _ ts => ts

mutual

/-- The nodes of a tree in pre-order, each with its depth. -/
def preorder (depth : Nat) : Tree ρ → List (Nat × Tree ρ)
  | .node r i cs ts => (depth, .node r i cs ts) :: preorderAll (depth + 1) ts

/-- The nodes of several trees in pre-order. -/
def preorderAll (depth : Nat) : List (Tree ρ) → List (Nat × Tree ρ)
  | [] => []
  | t :: ts => preorder depth t ++ preorderAll depth ts

end

end Tree

/-! ## Matching -/

/-- A place in the input: its index and what follows. -/
structure Cursor where
  /-- The number of characters before it. -/
  index : Nat
  /-- The characters from there on. -/
  rest : List Char
  deriving DecidableEq, Repr

/-- The cursor behind `count` characters, if what follows them is `rest`. -/
def Cursor.advance (c : Cursor) (count : Nat) (rest : List Char) : Cursor :=
  ⟨c.index + count, rest⟩

/-- The text between a cursor and a later one. -/
def Cursor.textTo (c later : Cursor) : List Char := c.rest.take (later.index - c.index)

/-- The outcome of matching. -/
inductive Outcome (ρ : Type) where
  /-- It matches up to a cursor and leaves these nodes. -/
  | matched (c : Cursor) (nodes : List (Tree ρ))
  /-- It does not match. -/
  | failed
  /-- The fuel ran out. -/
  | exhausted
  deriving Repr

/-- What follows on a match. -/
def Outcome.andThen {ρ : Type} (o : Outcome ρ) (k : Cursor → List (Tree ρ) → Outcome ρ) :
    Outcome ρ :=
  match o with
  | .matched c nodes => k c nodes
  | .failed => .failed
  | .exhausted => .exhausted

/-- What follows on a mismatch. -/
def Outcome.orElse {ρ : Type} (o : Outcome ρ) (k : Unit → Outcome ρ) : Outcome ρ :=
  match o with
  | .matched c nodes => .matched c nodes
  | .failed => k ()
  | .exhausted => .exhausted

/-- A match of these characters, if the rest says so. -/
def Outcome.ofRest {ρ : Type} (c : Cursor) (size : Nat) : Option (List Char) → Outcome ρ
  | some rest => .matched (c.advance size rest) []
  | none => .failed

/-- A match of one character with a property. -/
def Outcome.ofChar {ρ : Type} (p : Char → Bool) (c : Cursor) : Outcome ρ :=
  match c.rest with
  | [] => .failed
  | d :: rest => if p d then .matched (c.advance 1 rest) [] else .failed

/-- The nodes that a rule leaves. -/
def leaveNode {ρ : Type} (kind : RuleKind) (atomic : Bool) (r : ρ) (c later : Cursor)
    (nodes : List (Tree ρ)) : List (Tree ρ) :=
  if kind = .silent || atomic then nodes else [.node r c.index (c.textTo later) nodes]

mutual

/-- Matches an expression at a cursor, inside an atomic rule or not. -/
def Grammar.run {ρ : Type} (g : Grammar ρ) : Nat → Bool → Peg ρ → Cursor → Outcome ρ
  | 0, _, _, _ => .exhausted
  | fuel + 1, atomic, e, c =>
    match e with
    | .text cs => .ofRest c cs.length (Text.stripStart cs c.rest)
    | .word cs => .ofRest c cs.length (Text.stripWord cs c.rest)
    | .digit => .ofChar Char.isDigit c
    | .letter => .ofChar Char.isAlpha c
    | .any => .ofChar (fun _ => true) c
    | .start => if c.index = 0 then .matched c [] else .failed
    | .stop => if c.rest.isEmpty then .matched c [] else .failed
    | .rule r =>
      -- Inside an atomic rule every rule is atomic.
      (g.run fuel (atomic || g.kind r = .atomic) (g.body r) c).andThen fun later nodes =>
        .matched later (leaveNode (g.kind r) atomic r c later nodes)
    | .seq a b =>
      (g.run fuel atomic a c).andThen fun c₁ nodes₁ =>
        (g.skip fuel atomic c₁).andThen fun c₂ _ =>
          (g.run fuel atomic b c₂).andThen fun c₃ nodes₂ => .matched c₃ (nodes₁ ++ nodes₂)
    | .alt a b => (g.run fuel atomic a c).orElse fun _ => g.run fuel atomic b c
    | .many a =>
      -- Further rounds never fail, so what fails here is the first one.
      ((g.run fuel atomic a c).andThen fun later nodes =>
        g.repeatFrom fuel atomic a later nodes).orElse fun _ => .matched c []
    | .opt a => (g.run fuel atomic a c).orElse fun _ => .matched c []
    | .absent a =>
      match g.run fuel atomic a c with
      | .matched .. => .failed
      | .failed => .matched c []
      | .exhausted => .exhausted
    | .present a => (g.run fuel atomic a c).andThen fun _ _ => .matched c []

/-- Skips filler, unless inside an atomic rule. -/
def Grammar.skip {ρ : Type} (g : Grammar ρ) : Nat → Bool → Cursor → Outcome ρ
  | 0, _, _ => .exhausted
  | fuel + 1, atomic, c => if atomic then .matched c [] else g.run fuel true g.filler c

/-- Goes on with a repetition that has left `nodes`; filler before an iteration that does not
match is given back. -/
def Grammar.repeatFrom {ρ : Type} (g : Grammar ρ) :
    Nat → Bool → Peg ρ → Cursor → List (Tree ρ) → Outcome ρ
  | 0, _, _, _, _ => .exhausted
  | fuel + 1, atomic, a, c, nodes =>
    -- Filler and round are one attempt: if the round fails, the filler is not taken either.
    match (g.skip fuel atomic c).andThen fun c₁ _ => g.run fuel atomic a c₁ with
    | .matched later more => g.repeatFrom fuel atomic a later (nodes ++ more)
    | .failed => .matched c nodes
    | .exhausted => .exhausted

end

end QueryScore
