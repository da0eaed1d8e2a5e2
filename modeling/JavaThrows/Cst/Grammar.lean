import JavaThrows.Cst.Rule

set_option autoImplicit false

/-!
# The grammar of Java

The phrases of a Java source, as far as they matter to declarations: every name, type, declaration,
annotation, class body and `new` expression has a node of its own, while the operators of
expressions are told apart only so that the operands of each are found.

The grammar is generous in the way of a tool that has to read all sources: statements, fields and
methods may stand at the top level, any type may be thrown, and a keyword is a keyword only where
one can stand, so it is a plain name elsewhere.
-/

namespace JavaThrows.Cst

/-- The phrases that the rules refer to by name. -/
inductive Phrase where
  | type | unannotatedType | simpleType | typeArguments | typeParameters | dimensions
  | annotationUse | elementValue | modifiers
  | expression | conditional | unary | primary | arguments | lambda | creation | switch
  | block | statement | switchLabel | recordPattern | arrayInitializer
  | formalParameters | variableDeclarator
  | typeDeclaration | classBody | classMember
deriving DecidableEq, Repr

namespace Java

open Rule

abbrev JavaRule := Rule Phrase

instance : Coe Phrase JavaRule := ⟨.phrase⟩

/-! ## Words -/

def primitiveTypes : List String :=
  ["boolean", "byte", "char", "short", "int", "long", "float", "double", "void"]

/-- The words that can start a statement or a declaration, and so no expression. -/
def statementWords : List String :=
  ["abstract", "assert", "break", "case", "catch", "class", "continue", "default", "do", "else",
    "enum", "final", "finally", "for", "if", "import", "interface", "native", "package", "private",
    "protected", "public", "return", "static", "strictfp", "synchronized", "throw", "transient",
    "try", "volatile", "while"]

/-- The words that an operand of an expression can start with, and that are therefore no names
    there. -/
def operandWords : List String :=
  ["false", "instanceof", "new", "null", "super", "switch", "this", "true"] ++ primitiveTypes

/-- The words that are no names of types. -/
def typeReserved : List String :=
  ["extends", "implements", "throws"] ++ statementWords ++ operandWords

/-- The words that can start a member of a class, and that are therefore no names of
    constructors. -/
def memberWords : List String :=
  ["abstract", "class", "default", "enum", "final", "interface", "native", "private", "protected",
    "public", "sealed", "static", "strictfp", "synchronized", "transient", "volatile"] ++
    primitiveTypes

/-- A name where nothing but a name can stand. -/
def name : JavaRule := .leaf (.wordExcept []) "identifier"

/-- The name of a constructor. -/
def constructorName : JavaRule := .leaf (.wordExcept memberWords) "identifier"

/-- A name at the start of an operand. -/
def operandName : JavaRule := .leaf (.wordExcept operandWords) "identifier"

/-- A name after a point, where a few words have a meaning of their own. -/
def memberName : JavaRule :=
  .leaf (.wordExcept ["class", "new", "super", "this"]) "identifier"

def typeName : JavaRule := .leaf (.wordExcept typeReserved) "type_identifier"

/-- A name, or several joined by points. -/
def qualifiedName : JavaRule :=
  .chain name (.node "scoped_identifier" (row [".", .field "name" name]))

/-! ## Types -/

def annotations : JavaRule := .many Phrase.annotationUse

def simpleType : JavaRule :=
  oneOf [
    .leaf (.wordAmong primitiveTypes) "primitive_type",
    .chain typeName (oneOf [
      .node "generic_type" Phrase.typeArguments,
      .node "scoped_type_identifier" (row [".", annotations, typeName])])]

def unannotatedType : JavaRule :=
  .chain Phrase.simpleType
    (.node "array_type" (.field "dimensions" Phrase.dimensions))

def type : JavaRule :=
  oneOf [
    .node "annotated_type" (row [several Phrase.annotationUse, Phrase.unannotatedType]),
    Phrase.unannotatedType]

def wildcard : JavaRule :=
  .node "wildcard"
    (row [annotations, "?",
      optional (row [oneOf ["extends", "super"], Phrase.type])])

def typeArguments : JavaRule :=
  .node "type_arguments"
    (row ["<", optional (list (oneOf [wildcard, Phrase.type])), ">"])

def dimensions : JavaRule :=
  .node "dimensions" (several (row [annotations, "[", "]"]))

def typeParameter : JavaRule :=
  .node "type_parameter"
    (row [annotations, .leaf (.wordExcept []) "type_identifier",
      optional (.node "type_bound" (row ["extends", separated "&" Phrase.type]))])

def typeParameters : JavaRule :=
  .node "type_parameters" (row ["<", list typeParameter, ">"])

/-- The parameters of a generic declaration, if there are any. -/
def optionalTypeParameters : JavaRule :=
  optional (.field "type_parameters" Phrase.typeParameters)

/-! ## Annotations and modifiers -/

def elementPair : JavaRule :=
  .node "element_value_pair"
    (row [.field "key" name, "=", .field "value" Phrase.elementValue])

def elementValue : JavaRule :=
  oneOf [
    Phrase.annotationUse,
    .node "element_value_array_initializer"
      (row ["\x7b", optional (list Phrase.elementValue), optional ",", "\x7d"]),
    Phrase.expression]

def annotationArguments : JavaRule :=
  .node "annotation_argument_list"
    (oneOf [
      row ["(", list elementPair, ")"],
      row ["(", Phrase.elementValue, ")"],
      row ["(", ")"]])

def annotationUse : JavaRule :=
  oneOf [
    .node "annotation"
      (row ["@", .field "name" qualifiedName, .field "arguments" annotationArguments]),
    .node "marker_annotation" (row ["@", .field "name" qualifiedName])]

def modifier : JavaRule :=
  oneOf [
    Phrase.annotationUse,
    .leaf (.wordAmong ["public", "protected", "private", "abstract", "static", "final", "strictfp",
      "default", "synchronized", "native", "transient", "volatile", "sealed"]) none,
    row ["non", .leaf (.glued "-") none, "sealed"]]

def modifiers : JavaRule := .node "modifiers" (several modifier)

def optionalModifiers : JavaRule := optional Phrase.modifiers

/-! ## Expressions -/

def arguments : JavaRule :=
  .node "argument_list" (row ["(", optional (list Phrase.expression), ")"])

def parenthesized : JavaRule :=
  .node "parenthesized_expression" (row ["(", Phrase.expression, ")"])

/-- A string literal, whole or in pieces around embedded expressions. -/
def stringLiteral : JavaRule :=
  oneOf [
    .leaf (.ofKind .text) "string_literal",
    .node "string_literal"
      (row [.leaf (.ofKind .textOpen) none,
        separated (.leaf (.ofKind .textMiddle) none) Phrase.expression,
        .leaf (.ofKind .textClose) none])]

def literal : JavaRule :=
  oneOf [
    .leaf (.ofKind .number) "number_literal",
    .leaf (.ofKind .character) "character_literal",
    stringLiteral,
    .leaf (.wordAmong ["true", "false", "null"]) none]

/-- The parameters of a lambda expression with or without types. -/
def lambdaParameters : JavaRule :=
  oneOf [
    operandName,
    .node "inferred_parameters" (row ["(", list name, ")"]),
    Phrase.formalParameters]

def lambda : JavaRule :=
  .node "lambda_expression"
    (row [.field "parameters" lambdaParameters, "->",
      .field "body" (oneOf [Phrase.block, Phrase.expression])])

/-- `new` with the arguments of a constructor, and with the body of an anonymous class if there is
    one. -/
def creation : JavaRule :=
  row ["new", annotations,
    optional (row [.field "type_arguments" Phrase.typeArguments, annotations]),
    .field "type" Phrase.simpleType, .field "arguments" Phrase.arguments,
    optional Phrase.classBody]

def arrayCreation : JavaRule :=
  .node "array_creation_expression"
    (row ["new", annotations, .field "type" Phrase.simpleType,
      oneOf [
        row [several (.field "dimensions"
            (.node "dimensions_expr" (row [annotations, "[", Phrase.expression, "]"]))),
          optional (.field "dimensions" Phrase.dimensions)],
        row [.field "dimensions" Phrase.dimensions,
          .field "value" Phrase.arrayInitializer]]])

/-- What follows the double colon of a method reference. -/
def referenceEnd : JavaRule :=
  row ["::", optional Phrase.typeArguments, oneOf ["new", name]]

/-- A type where an operand starts: before `.class` or before a double colon. -/
def typeOperand : JavaRule :=
  oneOf [
    .node "method_reference" (row [Phrase.type, referenceEnd]),
    .node "class_literal" (row [Phrase.unannotatedType, ".", "class"])]

def superOperand : JavaRule :=
  row ["super", .ahead (oneOf [".", "::"])]

def primaryStart : JavaRule :=
  oneOf [
    literal,
    typeOperand,
    "this",
    superOperand,
    parenthesized,
    .node "object_creation_expression" Phrase.creation,
    arrayCreation,
    .node "method_invocation"
      (row [.field "name" operandName, .field "arguments" Phrase.arguments]),
    operandName]

def primaryRest : JavaRule :=
  oneOf [
    .node "object_creation_expression" (row [".", Phrase.creation]),
    .node "field_access" (row [".", "this"]),
    .node "class_literal" (row [".", "class"]),
    .node "method_invocation"
      (row [".", optional (row ["super", "."]), optional Phrase.typeArguments,
        .field "name" memberName, .field "arguments" Phrase.arguments]),
    .node "field_access" (row [".", optional (row ["super", "."]), .field "field" memberName]),
    .node "template_expression" (row [".", stringLiteral]),
    .node "array_access" (row ["[", Phrase.expression, "]"]),
    .node "method_reference" referenceEnd]

def primary : JavaRule := .chain primaryStart primaryRest

/-- A cast. With several types only a primary or a lambda expression can be cast. -/
def cast : JavaRule :=
  oneOf [
    .node "cast_expression"
      (row ["(", Phrase.type, ")", oneOf [Phrase.lambda, Phrase.unary]]),
    .node "cast_expression"
      (row ["(", separated "&" Phrase.type, ")", oneOf [Phrase.lambda, Phrase.primary]])]

def unary : JavaRule :=
  oneOf [
    .node "unary_expression" (row [oneOf ["+", "-", "!", "~"], Phrase.unary]),
    .node "update_expression" (row [oneOf ["++", "--"], Phrase.unary]),
    cast,
    Phrase.switch,
    .chain Phrase.primary (.node "update_expression" (oneOf ["++", "--"]))]

/-- A closing angle bracket right after the token before. -/
def gluedAngle : JavaRule := .leaf (.glued ">") none

def gluedEquals : JavaRule := .leaf (.glued "=") none

/-- The binary operators. Those that start with a closing angle bracket are rows of tokens without
    a gap, and none of them is an assignment. -/
def binaryOperator : JavaRule :=
  oneOf [
    row [">", gluedAngle, gluedAngle, .notAhead gluedEquals],
    row [">", gluedAngle, .notAhead (oneOf [gluedAngle, gluedEquals])],
    row [">", gluedEquals],
    row [">", .notAhead gluedAngle],
    "<", "==", "<=", "!=", "&&", "||", "+", "-", "*", "/", "&", "|", "^", "%", "<<"]

def instanceofRest : JavaRule :=
  .node "instanceof_expression"
    (row ["instanceof", optional "final",
      oneOf [Phrase.recordPattern, row [Phrase.type, optional (.field "name" name)]]])

/-- Operands and operators, read from left to right. -/
def binary : JavaRule :=
  .chain Phrase.unary
    (oneOf [.node "binary_expression" (row [binaryOperator, Phrase.unary]), instanceofRest])

def conditional : JavaRule :=
  .chain binary
    (.node "ternary_expression"
      (row ["?", Phrase.expression, ":", oneOf [Phrase.lambda, Phrase.conditional]]))

def assignmentOperator : JavaRule :=
  oneOf ["=", "+=", "-=", "*=", "/=", "&=", "|=", "^=", "%=", "<<=",
    row [">", gluedAngle, gluedAngle, gluedEquals],
    row [">", gluedAngle, gluedEquals]]

def expression : JavaRule :=
  oneOf [
    Phrase.lambda,
    .chain Phrase.conditional
      (.node "assignment_expression" (row [assignmentOperator, Phrase.expression]))]

/-! ## Variables and parameters -/

/-- The name of a variable, with dimensions in the style of C. A lone low line is no name. -/
def variableName : JavaRule :=
  row [.field "name" (oneOf [.leaf (.exact "_") "underscore_pattern", name]),
    optional (.field "dimensions" Phrase.dimensions)]

def arrayInitializer : JavaRule :=
  .node "array_initializer"
    (row ["\x7b", optional (list (oneOf [Phrase.arrayInitializer, Phrase.expression])),
      optional ",", "\x7d"])

def variableDeclarator : JavaRule :=
  .node "variable_declarator"
    (row [variableName,
      optional (row ["=", .field "value" (oneOf [Phrase.arrayInitializer, Phrase.expression])])])

/-- A type and the variables of it that are declared. -/
def variableDeclaration : JavaRule :=
  row [optionalModifiers, .field "type" Phrase.unannotatedType,
    list (.field "declarator" Phrase.variableDeclarator), ";"]

def receiver : JavaRule :=
  .node "receiver_parameter"
    (row [annotations, Phrase.unannotatedType, .many (row [memberName, "."]), "this"])

def parameter : JavaRule :=
  oneOf [
    .node "formal_parameter"
      (row [optionalModifiers, .field "type" Phrase.unannotatedType, variableName]),
    .node "spread_parameter"
      (row [optionalModifiers, Phrase.unannotatedType, "...", annotations,
        Phrase.variableDeclarator])]

def formalParameters : JavaRule :=
  .node "formal_parameters"
    (row ["(",
      oneOf [
        row [receiver, ",", optional (list parameter)],
        receiver,
        optional (list parameter)],
      ")"])

/-! ## Statements -/

def block : JavaRule :=
  .node "block" (row ["\x7b", .many Phrase.statement, "\x7d"])

def condition : JavaRule := .field "condition" parenthesized

/-- An expression that does not start with a word that belongs to statements. -/
def expressionStatement : JavaRule :=
  .node "expression_statement"
    (row [.notAhead (.leaf (.wordAmong statementWords) none), Phrase.expression, ";"])

def throwStatement : JavaRule :=
  .node "throw_statement" (row ["throw", Phrase.expression, ";"])

def forStatement : JavaRule :=
  oneOf [
    .node "enhanced_for_statement"
      (row ["for", "(", optionalModifiers, .field "type" Phrase.unannotatedType,
        variableName, ":", .field "value" Phrase.expression, ")",
        .field "body" Phrase.statement]),
    .node "for_statement"
      (row ["for", "(",
        oneOf [
          .field "init" (.node "local_variable_declaration" variableDeclaration),
          row [optional (list (.field "init" Phrase.expression)), ";"]],
        optional (.field "condition" Phrase.expression), ";",
        optional (list (.field "update" Phrase.expression)), ")",
        .field "body" Phrase.statement])]

def catchClause : JavaRule :=
  .node "catch_clause"
    (row ["catch", "(",
      .node "catch_formal_parameter"
        (row [optionalModifiers,
          .node "catch_type" (separated "|" Phrase.unannotatedType), variableName]),
      ")", .field "body" Phrase.block])

def finallyClause : JavaRule := .node "finally_clause" (row ["finally", Phrase.block])

def resource : JavaRule :=
  .node "resource"
    (oneOf [
      row [optionalModifiers, .field "type" Phrase.unannotatedType, variableName, "=",
        .field "value" Phrase.expression],
      Phrase.primary])

def tryStatement : JavaRule :=
  oneOf [
    .node "try_statement"
      (row ["try", .field "body" Phrase.block,
        oneOf [
          row [several catchClause, optional finallyClause],
          finallyClause]]),
    .node "try_with_resources_statement"
      (row ["try",
        .field "resources"
          (.node "resource_specification"
            (row ["(", separated ";" resource, optional ";", ")"])),
        .field "body" Phrase.block, .many catchClause, optional finallyClause])]

/-- A statement that starts with a word of its own. -/
def markedStatement : JavaRule :=
  oneOf [
    Phrase.block,
    ";",
    .node "if_statement"
      (row ["if", condition, .field "consequence" Phrase.statement,
        optional (row ["else", .field "alternative" Phrase.statement])]),
    .node "while_statement" (row ["while", condition, .field "body" Phrase.statement]),
    forStatement,
    .node "do_statement" (row ["do", .field "body" Phrase.statement, "while", condition, ";"]),
    tryStatement,
    Phrase.switch,
    .node "synchronized_statement"
      (row ["synchronized", parenthesized, .field "body" Phrase.block]),
    .node "return_statement" (row ["return", optional Phrase.expression, ";"]),
    .node "break_statement" (row ["break", optional name, ";"]),
    .node "continue_statement" (row ["continue", optional name, ";"]),
    throwStatement,
    .node "assert_statement"
      (row ["assert", Phrase.expression, optional (row [":", Phrase.expression]), ";"]),
    .node "yield_statement" (row ["yield", Phrase.expression, ";"])]

def labeledStatement : JavaRule :=
  .node "labeled_statement"
    (row [.leaf (.wordExcept (statementWords ++ operandWords)) "identifier", ":",
      Phrase.statement])

/-! ### Switches -/

def recordPatternComponent : JavaRule :=
  oneOf [
    Phrase.recordPattern,
    .node "record_pattern_component"
      (oneOf [
        row [Phrase.unannotatedType, name],
        .leaf (.exact "_") "underscore_pattern"])]

def recordPattern : JavaRule :=
  .node "record_pattern"
    (row [
      oneOf [
        row [.leaf (.wordExcept typeReserved) "identifier", .ahead "("],
        Phrase.simpleType],
      .node "record_pattern_body"
        (row ["(", optional (list recordPatternComponent), ")"])])

def typePattern : JavaRule :=
  .node "type_pattern"
    (row [Phrase.unannotatedType, .leaf (.wordExcept ["when"]) "identifier"])

/-- What is tested in a switch. An expression here is no lambda expression, since the arrow after it
    belongs to the switch. -/
def switchLabel : JavaRule :=
  .node "switch_label"
    (oneOf [
      row ["case",
        oneOf [
          row [oneOf [Phrase.recordPattern, typePattern],
            .ahead (oneOf [":", "->", "when"])],
          list Phrase.conditional],
        optional (.node "guard" (row ["when", Phrase.conditional]))],
      "default"])

def switchRule : JavaRule :=
  .node "switch_rule"
    (row [Phrase.switchLabel, "->", oneOf [throwStatement, Phrase.block, expressionStatement]])

def switchGroup : JavaRule :=
  .node "switch_block_statement_group"
    (row [several (row [Phrase.switchLabel, ":"]), .many Phrase.statement])

def switch : JavaRule :=
  .node "switch_expression"
    (row ["switch", condition,
      .field "body"
        (.node "switch_block"
          (oneOf [
            row ["\x7b", .many switchRule, "\x7d"],
            row ["\x7b", .many switchGroup, "\x7d"]]))])

/-! ## Declarations of types -/

def typeList : JavaRule := .node "type_list" (list Phrase.type)

def superclass : JavaRule := .node "superclass" (row ["extends", Phrase.type])

def superInterfaces : JavaRule := .node "super_interfaces" (row ["implements", typeList])

def extendsInterfaces : JavaRule := .node "extends_interfaces" (row ["extends", typeList])

def permits : JavaRule := .node "permits" (row ["permits", typeList])

def optionalInterfaces : JavaRule := optional (.field "interfaces" superInterfaces)

def optionalPermits : JavaRule := optional (.field "permits" permits)

def throwsClause : JavaRule := .node "throws" (row ["throws", list Phrase.type])

def method : JavaRule :=
  .node "method_declaration"
    (row [optionalModifiers, optional (row [.field "type_parameters" Phrase.typeParameters,
        annotations]),
      .field "type" Phrase.unannotatedType, .field "name" name,
      .field "parameters" Phrase.formalParameters,
      optional (.field "dimensions" Phrase.dimensions), optional throwsClause,
      oneOf [.field "body" Phrase.block, ";"]])

/-- A call of another constructor, which can only be the first statement of a constructor. -/
def constructorCall : JavaRule :=
  .node "explicit_constructor_invocation"
    (row [
      oneOf [
        row [optional (.field "type_arguments" Phrase.typeArguments),
          .field "constructor" (oneOf ["this", "super"])],
        row [.field "object" Phrase.primary, ".",
          optional (.field "type_arguments" Phrase.typeArguments),
          .field "constructor" "super"]],
      .field "arguments" Phrase.arguments, ";"])

def constructorBody : JavaRule :=
  .node "constructor_body"
    (row ["\x7b", optional constructorCall, .many Phrase.statement, "\x7d"])

def constructor : JavaRule :=
  .node "constructor_declaration"
    (row [optionalModifiers, optionalTypeParameters, .field "name" constructorName,
      .field "parameters" Phrase.formalParameters, optional throwsClause,
      .field "body" constructorBody])

def compactConstructor : JavaRule :=
  .node "compact_constructor_declaration"
    (row [optionalModifiers, .field "name" constructorName, .field "body" Phrase.block])

def classMember : JavaRule :=
  oneOf [
    ";",
    Phrase.block,
    .node "static_initializer" (row ["static", Phrase.block]),
    Phrase.typeDeclaration,
    constructor,
    compactConstructor,
    method,
    .node "field_declaration" variableDeclaration]

def classBody : JavaRule :=
  .node "class_body" (row ["\x7b", .many Phrase.classMember, "\x7d"])

def classDeclaration : JavaRule :=
  .node "class_declaration"
    (row [optionalModifiers, "class", .field "name" name, optionalTypeParameters,
      optional (.field "superclass" superclass), optionalInterfaces, optionalPermits,
      .field "body" Phrase.classBody])

def recordDeclaration : JavaRule :=
  .node "record_declaration"
    (row [optionalModifiers, "record", .field "name" name, optionalTypeParameters,
      .field "parameters" Phrase.formalParameters, optionalInterfaces,
      .field "body" Phrase.classBody])

def enumConstant : JavaRule :=
  .node "enum_constant"
    (row [optionalModifiers, .field "name" name, optional (.field "arguments" Phrase.arguments),
      optional (.field "body" Phrase.classBody)])

def enumDeclaration : JavaRule :=
  .node "enum_declaration"
    (row [optionalModifiers, "enum", .field "name" name, optionalInterfaces,
      .field "body"
        (.node "enum_body"
          (row ["\x7b", optional (list enumConstant), optional ",",
            optional (.node "enum_body_declarations" (row [";", .many Phrase.classMember])),
            "\x7d"]))])

def constant : JavaRule := .node "constant_declaration" variableDeclaration

def interfaceDeclaration : JavaRule :=
  .node "interface_declaration"
    (row [optionalModifiers, "interface", .field "name" name, optionalTypeParameters,
      optional extendsInterfaces, optionalPermits,
      .field "body"
        (.node "interface_body"
          (row ["\x7b", .many (oneOf [";", Phrase.typeDeclaration, method, constant]), "\x7d"]))])

/-- An element of an annotation type: like a method without parameters, but not one. -/
def annotationElement : JavaRule :=
  .node "annotation_type_element_declaration"
    (row [optionalModifiers, .field "type" Phrase.unannotatedType, .field "name" name, "(", ")",
      optional (.field "dimensions" Phrase.dimensions),
      optional (row ["default", .field "value" Phrase.elementValue]), ";"])

def annotationTypeDeclaration : JavaRule :=
  .node "annotation_type_declaration"
    (row [optionalModifiers, "@interface", .field "name" name,
      .field "body"
        (.node "annotation_type_body"
          (row ["\x7b", .many (oneOf [";", Phrase.typeDeclaration, annotationElement, constant]),
            "\x7d"]))])

def typeDeclaration : JavaRule :=
  oneOf [classDeclaration, interfaceDeclaration, enumDeclaration, recordDeclaration,
    annotationTypeDeclaration]

/-! ## The file -/

def packageDeclaration : JavaRule :=
  .node "package_declaration" (row [annotations, "package", qualifiedName, ";"])

def importDeclaration : JavaRule :=
  .node "import_declaration"
    (row ["import", optional "static", qualifiedName,
      optional (row [".", .leaf (.exact "*") "asterisk"]), ";"])

def moduleDirective : JavaRule :=
  .node "module_directive"
    (oneOf [
      row ["requires", .many (oneOf ["transitive", "static"]), qualifiedName, ";"],
      row [oneOf ["exports", "opens"], qualifiedName,
        optional (row ["to", list qualifiedName]), ";"],
      row ["uses", qualifiedName, ";"],
      row ["provides", qualifiedName, "with", list qualifiedName, ";"]])

def moduleDeclaration : JavaRule :=
  .node "module_declaration"
    (row [annotations, optional "open", "module", qualifiedName,
      .node "module_body" (row ["\x7b", .many moduleDirective, "\x7d"])])

def statement : JavaRule :=
  oneOf [
    markedStatement,
    labeledStatement,
    Phrase.typeDeclaration,
    moduleDeclaration,
    packageDeclaration,
    importDeclaration,
    .node "local_variable_declaration" variableDeclaration,
    expressionStatement]

/-- What may stand at the top level of a file. -/
def topLevel : JavaRule := oneOf [Phrase.statement, method]

end Java

open Java in
/-- The grammar of Java. -/
def javaGrammar : Grammar Phrase
  | .type => type
  | .unannotatedType => unannotatedType
  | .simpleType => simpleType
  | .typeArguments => typeArguments
  | .typeParameters => typeParameters
  | .dimensions => dimensions
  | .annotationUse => annotationUse
  | .elementValue => elementValue
  | .modifiers => modifiers
  | .expression => expression
  | .conditional => conditional
  | .unary => unary
  | .primary => primary
  | .arguments => arguments
  | .lambda => lambda
  | .creation => creation
  | .switch => switch
  | .block => block
  | .statement => statement
  | .switchLabel => switchLabel
  | .recordPattern => recordPattern
  | .arrayInitializer => arrayInitializer
  | .formalParameters => formalParameters
  | .variableDeclarator => variableDeclarator
  | .typeDeclaration => typeDeclaration
  | .classBody => classBody
  | .classMember => classMember

/-! ## Reading a source -/

/-- A bound on nested references for a row of tokens: between two tokens at most as many phrases
    are entered as the grammar has, and each level of nesting takes a token. -/
def referenceBound (tokens : List Token) : Nat :=
  64 * (tokens.length + 1)

/-- Read the tokens with a rule that has to take all of them. -/
def Rule.readAll (r : Rule Phrase) (tokens : List Token) : Option (List Node) :=
  match r.readWith (javaGrammar.read (referenceBound tokens)) tokens with
  | .matched nodes [] => some nodes
  | _ => none

/-- The concrete tree of a Java source, if the source is well formed. -/
def javaTree (source : List Char) : Option Node :=
  (scan source).toOption.bind fun s =>
    (Rule.readAll (.many Java.topLevel) s.tokens).map fun nodes =>
      ⟨"program", none, true, ⟨0, Text.byteLength source⟩,
        nodes ++ s.trailing.map Comment.node⟩

end JavaThrows.Cst
