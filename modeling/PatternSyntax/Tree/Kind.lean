import PatternSyntax.Fault
import PatternSyntax.Token.Kind

/-!
The kinds of tree element: tokens and nodes, with their names and numbers. Main statements: the
number of a kind determines it (`ofIndex?_index`), and so does its name (`ofName?_name`).
-/

namespace PatternSyntax

/-- What a node of the tree stands for. -/
inductive NodeKind where
  | root | error
  | modifierList | annot | annotParameterList | nameValuePair
  | type | javaCodeReference | referenceParameterList
  | literalExpression | referenceExpression | thisExpression | superExpression
  | parenthesizedExpression | methodCallExpression | expressionList | arrayAccessExpression
  | newExpression | classObjectAccessExpression | prefixExpression | postfixExpression
  | typeCastExpression | binaryExpression | instanceofExpression | conditionalExpression
  | lambdaExpression | arrayInitializerExpression | parameterList | parameter | codeBlock
  | switchLabel | caseLabelElementList | defaultCaseLabelElement
  | typeTestPattern | patternVariable | recordPattern | recordStructurePattern
  | recordPatternVariable | parenthesizedPattern | guardedPattern
deriving DecidableEq, Repr, Inhabited

namespace NodeKind

/-- Every kind of node, in the order that numbers them. -/
def all : List NodeKind :=
  [root, error,
    modifierList, annot, annotParameterList, nameValuePair,
    type, javaCodeReference, referenceParameterList,
    literalExpression, referenceExpression, thisExpression, superExpression,
    parenthesizedExpression, methodCallExpression, expressionList, arrayAccessExpression,
    newExpression, classObjectAccessExpression, prefixExpression, postfixExpression,
    typeCastExpression, binaryExpression, instanceofExpression, conditionalExpression,
    lambdaExpression, arrayInitializerExpression, parameterList, parameter, codeBlock,
    switchLabel, caseLabelElementList, defaultCaseLabelElement,
    typeTestPattern, patternVariable, recordPattern, recordStructurePattern,
    recordPatternVariable, parenthesizedPattern, guardedPattern]

/-- The position of a kind in `all`. -/
def index (kind : NodeKind) : Nat :=
  all.idxOf kind

theorem getElem?_index (kind : NodeKind) : all[kind.index]? = some kind := by
  cases kind <;> decide

/-- The name of a kind in listings. -/
def name : NodeKind → String
  | root => "Root"
  | error => "Error"
  | modifierList => "ModifierList"
  | annot => "Annotation"
  | annotParameterList => "AnnotationParameterList"
  | nameValuePair => "NameValuePair"
  | type => "Type"
  | javaCodeReference => "JavaCodeReference"
  | referenceParameterList => "ReferenceParameterList"
  | literalExpression => "LiteralExpression"
  | referenceExpression => "ReferenceExpression"
  | thisExpression => "ThisExpression"
  | superExpression => "SuperExpression"
  | parenthesizedExpression => "ParenthesizedExpression"
  | methodCallExpression => "MethodCallExpression"
  | expressionList => "ExpressionList"
  | arrayAccessExpression => "ArrayAccessExpression"
  | newExpression => "NewExpression"
  | classObjectAccessExpression => "ClassObjectAccessExpression"
  | prefixExpression => "PrefixExpression"
  | postfixExpression => "PostfixExpression"
  | typeCastExpression => "TypeCastExpression"
  | binaryExpression => "BinaryExpression"
  | instanceofExpression => "InstanceofExpression"
  | conditionalExpression => "ConditionalExpression"
  | lambdaExpression => "LambdaExpression"
  | arrayInitializerExpression => "ArrayInitializerExpression"
  | parameterList => "ParameterList"
  | parameter => "Parameter"
  | codeBlock => "CodeBlock"
  | switchLabel => "SwitchLabel"
  | caseLabelElementList => "CaseLabelElementList"
  | defaultCaseLabelElement => "DefaultCaseLabelElement"
  | typeTestPattern => "TypeTestPattern"
  | patternVariable => "PatternVariable"
  | recordPattern => "RecordPattern"
  | recordStructurePattern => "RecordStructurePattern"
  | recordPatternVariable => "RecordPatternVariable"
  | parenthesizedPattern => "ParenthesizedPattern"
  | guardedPattern => "GuardedPattern"

/-- The nodes that stand for a pattern or for a part that only patterns have. -/
def isPattern : NodeKind → Bool
  | typeTestPattern | patternVariable | recordPattern | recordStructurePattern
  | recordPatternVariable | parenthesizedPattern | guardedPattern => true
  | _ => false

end NodeKind

/-- What an element of the tree is. The last number belongs to no element, but is in the range of
numbers. -/
inductive SyntaxKind where
  | token (kind : TokenKind)
  | node (kind : NodeKind)
  | last
deriving DecidableEq, Repr, Inhabited

namespace SyntaxKind

/-- Every kind: tokens, nodes, and the end of the range. -/
def all : List SyntaxKind :=
  TokenKind.all.map token ++ NodeKind.all.map node ++ [last]

/-- The number of a kind: its position in `all`. -/
def index : SyntaxKind → Nat
  | token kind => kind.index
  | node kind => TokenKind.all.length + kind.index
  | last => TokenKind.all.length + NodeKind.all.length

/-- The kind with a given number. -/
def ofIndex? (n : Nat) : Except Fault SyntaxKind :=
  match all[n]? with
  | some kind => .ok kind
  | none => .error .noSuchKind

theorem ofIndex?_index (kind : SyntaxKind) : ofIndex? kind.index = .ok kind := by
  rcases kind with k | k | _
  · cases k <;> rfl
  · cases k <;> rfl
  · rfl

/-- The name of a kind in listings. A keyword has a mark behind its word. -/
def name : SyntaxKind → String
  | token kind => if kind.word?.isSome then kind.name ++ "Kw" else kind.name
  | node kind => kind.name
  | last => "__LAST"

/-- The kind listed under `text`. -/
def ofName? (text : String) : Option SyntaxKind :=
  all.find? fun kind => kind.name == text

theorem mem_all (kind : SyntaxKind) : kind ∈ all := by
  have hindex := ofIndex?_index kind
  unfold ofIndex? at hindex
  split at hindex
  · cases hindex
    exact List.mem_of_getElem? ‹_›
  · cases hindex

theorem ofName?_name (kind : SyntaxKind) : ofName? kind.name = some kind := by
  have hall : all.all (fun kind => ofName? kind.name == some kind) = true := by decide +kernel
  exact beq_iff_eq.1 (List.all_eq_true.1 hall kind (mem_all kind))

/-- Whether the element is a token. -/
def isToken : SyntaxKind → Bool
  | token _ => true
  | _ => false

/-- Whether the element is a blank or a closed comment. -/
def isTrivia : SyntaxKind → Bool
  | token kind => kind.isTrivia
  | _ => false

/-- Whether the element belongs to the patterns. -/
def isPattern : SyntaxKind → Bool
  | node kind => kind.isPattern
  | _ => false

end SyntaxKind

end PatternSyntax
