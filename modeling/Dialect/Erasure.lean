import Dialect.Cut
import Dialect.Tree

/-!
# Erasing types

Declarations that only exist for the type checker are cut out whole; annotations, type arguments,
modifiers and the type of a cast are cut out of what surrounds them.
-/

namespace Dialect.Erasure

def isTypeDeclaration : Kind → Bool
  | .interfaceDeclaration | .typeAliasDeclaration | .ambientDeclaration | .functionSignature => true
  | _ => false

/-- Parts of a declaration or expression that only carry types. -/
def isTypePart : Kind → Bool
  | .typeAscription | .assertsAscription | .predicateAscription | .typeArguments | .typeParameters
  | .implementsClause | .accessibilityModifier | .overrideModifier | .methodSignature
  | .abstractMethodSignature | .indexSignature => true
  | _ => false

/-- The words and marks that only carry types, by the node they stand in. -/
def typeTokens : Kind → List String
  | .optionalParameter => ["?"]
  | .requiredParameter => ["readonly"]
  | .publicFieldDefinition => ["?", "!", "readonly", "declare", "abstract"]
  | .methodDefinition => ["?", "abstract"]
  | .abstractClassDeclaration => ["abstract"]
  | .variableDeclarator => ["!"]
  | _ => []

/-- The whole node goes: it declares nothing that exists at run time. -/
def isTypeOnly (kind : Kind) (children : List Tree) : Bool :=
  isTypeDeclaration kind || isTypePart kind ||
    match kind with
    | .exportStatement =>
      (Tree.find? .declaration children).any fun t => isTypeDeclaration t.kind.treated
    | .importStatement => Tree.hasToken "type" children
    | _ => false

def isCast : Kind → Bool
  | .asExpression | .satisfiesExpression | .nonNullExpression => true
  | _ => false

mutual

/-- The ranges to cut out of a node. -/
def ranges : Tree → List Span
  | .node _ kind span children =>
    if isTypeOnly kind.treated children then [span]
    else if isCast kind.treated then castRanges span.stop children
    else childRanges (typeTokens kind.treated) children

/-- Of a cast only its operand, the first of its parts, is kept. -/
def castRanges (stop : Nat) : List Tree → List Span
  | [] => []
  | t :: ts => if t.isPart then ⟨t.span.stop, stop⟩ :: ranges t else castRanges stop ts

def childRanges (tokens : List String) : List Tree → List Span
  | [] => []
  | t :: ts =>
    if !t.isNamed && tokens.contains t.kind.name then t.span :: childRanges tokens ts
    else ranges t ++ childRanges tokens ts

end

end Dialect.Erasure

namespace Dialect

/-- The source of a tree without its types. -/
def Tree.erase (source : List Char) (t : Tree) : List Char :=
  Cut.within source ⟨0, Text.byteLength source⟩ (Erasure.ranges t)

end Dialect
