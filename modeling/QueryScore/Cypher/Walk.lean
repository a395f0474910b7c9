/-
# QueryScore.Cypher.Walk -- what the patterns of a graph query say

The tree is walked from left to right. A node pattern yields its labels and the attributes of
its property map; a relationship waits until the node on its right closes it and then becomes a
relation. Variables remember the first label or the type they were declared with, so that later
patterns and property look-ups find their owner. Look-ups count only in conditions and
projections, and only on variables that are bound. A new path forgets what was open.
-/

import QueryScore.Cypher.Rule
import QueryScore.Name
import QueryScore.Structure

namespace QueryScore.Cypher

open Peg

/-! ## The parts of a pattern -/

/-- The first part of a rule. -/
def childOf? (rule : Rule) (t : Tree Rule) : Option (Tree Rule) :=
  t.children.find? fun child => child.rule = rule

/-- The parts of a rule. -/
def childrenOf (rule : Rule) (t : Tree Rule) : List (Tree Rule) :=
  t.children.filter fun child => child.rule = rule

/-- The normal form of a name in a tree. -/
def nameOf (t : Tree Rule) : String := String.ofList (Name.normalize t.text)

/-- A variable without its quotes; variables keep their case. -/
def variableName (t : Tree Rule) : String := String.ofList (Name.unquote t.text)

/-- The variable that a pattern declares or refers to. -/
def patternVariable? (t : Tree Rule) : Option String := (childOf? .variable t).map variableName

/-- The keys of the property map of a pattern. -/
def patternKeys (t : Tree Rule) : List String :=
  ((childrenOf .properties t).flatMap (childrenOf .mapLiteral)).flatMap fun map =>
    map.children.filterMap fun entry => entry.children.head?.map nameOf

/-- The labels of a node pattern. -/
def nodeLabels (t : Tree Rule) : List String :=
  (childrenOf .nodeLabels t).flatMap fun labels => labels.children.map nameOf

/-- The type of a relationship: the first that is written, or nothing. -/
def relationshipKind (detail : Tree Rule) : String :=
  (((childOf? .relationshipTypes detail).bind fun types => types.children.head?).map nameOf).getD ""

/-- Where a relationship points. -/
inductive Arrow where
  /-- From left to right. -/
  | outgoing
  /-- From right to left. -/
  | incoming
  /-- Both ways or neither. -/
  | either
  deriving DecidableEq, Repr

/-- Where a relationship pattern points. -/
def arrowOf (t : Tree Rule) : Arrow :=
  match (childOf? .leftArrow t).isSome, (childOf? .rightArrow t).isSome with
  | true, false => .incoming
  | false, true => .outgoing
  | _, _ => .either

/-- An attribute with its owner, or the key alone if the owner is unknown. -/
def ownedAttribute (owner key : String) : String :=
  if owner.isEmpty then key else owner ++ "," ++ key

/-! ## The state of a walk -/

/-- A relationship whose right-hand node has not come yet. -/
structure OpenEdge where
  /-- Its type. -/
  kind : String
  /-- Where it points. -/
  arrow : Arrow
  deriving DecidableEq, Repr

/-- What a walk has found and what it remembers. -/
structure Walk where
  /-- Label or type of each declared variable, the latest first. -/
  bindings : List (String × String) := []
  /-- The relationship that waits for its right-hand node. -/
  pending : Option OpenEdge := none
  /-- The label of the last node of the present path; empty when unknown or none. -/
  left : String := ""
  /-- Labels of nodes. -/
  entities : SortedSet String := .empty
  /-- Attributes. -/
  attributes : SortedSet String := .empty
  /-- Relations, in the order of the text. -/
  relations : List Relation := []
  /-- The conditions of `WHERE` clauses. -/
  filters : SortedSet String := .empty
  /-- The texts of the projections, in the order of the text. -/
  projections : List (List Char) := []
  deriving DecidableEq, Repr

namespace Walk

/-- A new path begins. -/
def startPath (w : Walk) : Walk := { w with pending := none, left := "" }

/-- The label that a variable is bound to. -/
def labelOf? (w : Walk) (variableName : String) : Option String := w.bindings.lookup variableName

/-- A variable is bound from here on. -/
def bind (w : Walk) (variableName : Option String) (label : String) : Walk :=
  match variableName with
  | some v => { w with bindings := (v, label) :: w.bindings }
  | none => w

/-- Attributes of one owner. -/
def addKeys (w : Walk) (owner : String) (keys : List String) : Walk :=
  let owned := keys.map (ownedAttribute owner)
  { w with attributes := owned.foldl (fun found key => found.insert key) w.attributes }

/-- The relation of an open edge between two labels. -/
def relationOf (edge : OpenEdge) (left right : String) : Relation :=
  match edge.arrow with
  -- An arrow to the left runs from the node on the right.
  | .incoming => ⟨⟨edge.kind, right, left⟩, none⟩
  | _ => ⟨⟨edge.kind, left, right⟩, none⟩

/-- The next node of the path has this label; an open edge is closed by it. -/
def reachNode (w : Walk) (label : String) : Walk :=
  match w.pending with
  | some edge =>
    { w with
      pending := none, left := label, relations := w.relations ++ [relationOf edge w.left label] }
  | none => { w with left := label }

/-- The label of a node pattern: its first written one, else the one its variable has. -/
def nodeLabel (w : Walk) (t : Tree Rule) : String :=
  match nodeLabels t with
  | label :: _ => label
  | [] => ((patternVariable? t).bind w.labelOf?).getD ""

/-- The variable of a node pattern is bound if the node has a label. -/
def bindNode (w : Walk) (t : Tree Rule) : Walk :=
  match nodeLabels t with
  | label :: _ => w.bind (patternVariable? t) label
  | [] => w

/-- A node pattern. -/
def visitNode (w : Walk) (t : Tree Rule) : Walk :=
  let label := w.nodeLabel t
  let labelled := { w.bindNode t with
    entities := (nodeLabels t).foldl (fun found l => found.insert l) w.entities }
  (labelled.addKeys label (patternKeys t)).reachNode label

/-- A relationship pattern. -/
def visitRelationship (w : Walk) (t : Tree Rule) : Walk :=
  let edge (kind : String) : OpenEdge := ⟨kind, arrowOf t⟩
  match childOf? .relationshipDetail t with
  | none => { w with pending := some (edge "") }
  | some detail =>
    let kind := relationshipKind detail
    let bound := if kind.isEmpty then w else w.bind (patternVariable? detail) kind
    { bound.addKeys kind (patternKeys detail) with pending := some (edge kind) }

/-- A look-up of a property on a bound variable, if the tree is one. -/
def visitLookup (w : Walk) (t : Tree Rule) : Walk :=
  match t.children with
  | atom :: lookup :: _ =>
    match lookup.rule, atom.children.head?, lookup.children.head? with
    | .propertyLookup, some owner, some key =>
      if owner.rule = .variable then
        match w.labelOf? (variableName owner) with
        | some label =>
          { w with attributes := w.attributes.insert (label ++ "," ++ nameOf key) }
        | none => w
      else w
    | _, _, _ => w
  | _ => w

/-- The condition of a `WHERE` clause. -/
def visitCondition (w : Walk) (t : Tree Rule) : Walk :=
  match childOf? .expression t with
  | some e => { w with filters := w.filters.insert (String.ofList (Name.normalizeFragment e.text)) }
  | none => w

/-- The items of a projection. -/
def visitProjection (w : Walk) (t : Tree Rule) : Walk :=
  { w with projections := w.projections ++ [t.text] }

end Walk

/-! ## The walk -/

mutual

/-- The walk through a tree, inside an expression or not. -/
def walk (inExpression : Bool) : Tree Rule → Walk → Walk
  | .node r i cs ts, w =>
    match r with
    -- A path in an expression starts anew as one in a pattern does.
    | .patternElement | .patternPredicate => walkAll inExpression ts w.startPath
    -- The parts of a pattern are looked at from the pattern, not walked into.
    | .nodePattern => w.visitNode (.node r i cs ts)
    | .relationshipPattern => w.visitRelationship (.node r i cs ts)
    -- The condition is taken as a whole before its parts are walked through.
    | .whereClause => walkAll true ts (w.visitCondition (.node r i cs ts))
    | .withClause | .returnClause => walkAll true ts w
    | .projectionItems => walkAll inExpression ts (w.visitProjection (.node r i cs ts))
    | .postfixExpression =>
      walkAll inExpression ts (if inExpression then w.visitLookup (.node r i cs ts) else w)
    | _ => walkAll inExpression ts w

/-- The walk through several trees. -/
def walkAll (inExpression : Bool) : List (Tree Rule) → Walk → Walk
  | [], w => w
  | t :: ts, w => walkAll inExpression ts (walk inExpression t w)

end

/-- What the walk through a whole tree finds. -/
def walkTree (t : Tree Rule) : Walk := walk false t {}

end QueryScore.Cypher
