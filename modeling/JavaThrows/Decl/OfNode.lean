import JavaThrows.Cst.Fault
import JavaThrows.Decl.Scope

set_option autoImplicit false

/-!
# Declarations from a concrete tree

A well-formed source becomes a compilation unit: its types with everything the program looks at,
every type reference attributed as far as the file alone can tell. The walk carries two things
along: the types declared so far, to which local classes are added as they are met, and the number
of anonymous classes met in the innermost type that is open.
-/

namespace JavaThrows

open JavaThrows.Cst

/-! ## Kinds of nodes -/

def isTypeNode (kind : String) : Bool :=
  ["class_declaration", "interface_declaration", "enum_declaration", "record_declaration",
    "annotation_type_declaration"].contains kind

def isMethodNode (kind : String) : Bool :=
  ["method_declaration", "constructor_declaration", "compact_constructor_declaration"].contains kind

/-- Whether a node is the body of an anonymous class or of an enum constant. -/
def isAnonymousBody (parent kind : String) : Bool :=
  kind == "class_body" && (parent == "object_creation_expression" || parent == "enum_constant")

def typeKind (kind : String) : TypeKind :=
  match kind with
  | "interface_declaration" => .interface
  | "enum_declaration" => .enum
  | "record_declaration" => .record
  | "annotation_type_declaration" => .annotationType
  | _ => .classType

def isName (n : Node) : Bool :=
  n.kind == "identifier" || n.kind == "type_identifier"

def isQualifiedName (n : Node) : Bool :=
  n.kind == "scoped_identifier" || n.kind == "identifier"

/-! ## Names that occur -/

mutual
/-- The names of a node that is a child of a node of kind `parent`: a name by itself, and else the
    names below it; none of a node where `stop` holds. -/
def namesOf (source : List Char) (stop : String → String → Bool) (parent : String) :
    Node → List NameRef
  | ⟨kind, field, named, span, children⟩ =>
    if stop parent kind then []
    else if isName ⟨kind, field, named, span, children⟩ then [⟨Text.slice source span, span⟩]
    else namesIn source stop kind children

def namesIn (source : List Char) (stop : String → String → Bool) (parent : String) :
    List Node → List NameRef
  | [] => []
  | n :: ns => namesOf source stop parent n ++ namesIn source stop parent ns
end

/-- The names of a type that belong to none of its methods and inner types. -/
def typeReferences (source : List Char) (n : Node) : List NameRef :=
  namesIn source
    (fun parent kind => isMethodNode kind || isTypeNode kind || isAnonymousBody parent kind)
    n.kind n.children

/-- The names of a method that belong neither to its throws clause nor to inner types. -/
def methodReferences (source : List Char) (n : Node) : List NameRef :=
  namesIn source
    (fun parent kind => kind == "throws" || isTypeNode kind || isAnonymousBody parent kind)
    n.kind n.children

/-! ## Headers -/

namespace Scope

variable (s : Scope) (ds : DeclaredTypes)

def nameOf (n : Node) : String :=
  ((n.childByField "name").map s.text).getD ""

def typeParam (n : Node) : TypeParam :=
  { name := ((n.namedChildren.find? isName).map s.text).getD ""
    bound := ((n.childOfKind "type_bound").bind fun b => b.namedChildren.head?).map
      (s.typeRef ds) }

def typeParams (n : Node) : List TypeParam :=
  match n.childByField "type_parameters" with
  | some list =>
    (list.namedChildren.filter fun c => c.kind == "type_parameter").map (s.typeParam ds)
  | none => []

/-- The types behind `extends` and `implements`. A comment inside a list of types counts as one of
    them, and a comment right after `extends` stands for the type. -/
def supertypes (n : Node) : List TypeRef :=
  let superclass := ((n.childOfKind "superclass").bind fun c => c.namedChildren.head?).toList
  let listed (clause : String) : List Node :=
    match (n.childOfKind clause).bind fun c => c.childOfKind "type_list" with
    | some list => list.namedChildren
    | none => []
  (superclass ++ listed "super_interfaces" ++ listed "extends_interfaces").map (s.typeRef ds)

/-- A parameter; none for a node that is no parameter of the usual kind. -/
def param? (n : Node) : Option Param :=
  match n.kind with
  | "formal_parameter" =>
    (n.childByField "type").map fun type =>
      let dims := match n.childByField "dimensions" with
        | some d => (s.text d).toList.count '['
        | none => 0
      { type := withDimensions (s.typeRef ds type) dims, name := s.nameOf n }
  | "spread_parameter" =>
    let isType (c : Node) : Bool :=
      !(["modifiers", "variable_declarator", "annotation", "marker_annotation"].contains c.kind)
    (n.namedChildren.find? isType).map fun type =>
      { type := withDimensions (s.typeRef ds type) 1
        name := ((n.childOfKind "variable_declarator").map s.nameOf).getD "" }
  | _ => none

def params (n : Node) : List Param :=
  match n.childByField "parameters" with
  | some list => list.namedChildren.filterMap (s.param? ds)
  | none => []

/-- The last child before the throws clause, and the clause. -/
def clauseIn : Option Node → List Node → Option (Option Node × Node)
  | _, [] => none
  | previous, n :: ns =>
    if n.kind == "throws" then some (previous, n) else clauseIn (some n) ns

def annotations (n : Node) : List String :=
  match n.childOfKind "modifiers" with
  | some mods =>
    (mods.namedChildren.filter fun c =>
        c.kind == "marker_annotation" || c.kind == "annotation").filterMap fun a =>
      (a.childByField "name").map fun name => Text.lastSegment (s.text name)
  | none => []

/-- A method from its node, as a member of a type with the given simple name. `recordParams` are
    the parameters of the record that the type is, which a compact constructor takes over. -/
def method (ownerName : String) (recordParams : List Param) (n : Node) : Method :=
  let isConstructor := n.kind != "method_declaration"
  let typeParams := s.typeParams ds n
  let s := s.withTypeVars typeParams
  let clause := clauseIn none n.children
  let headerEnd := match clause with
    | some (some previous, _) => previous.span.stop
    | _ => ((n.childByField "parameters").map fun p => p.span.stop).getD n.span.start
  { name := if isConstructor then ownerName else s.nameOf n
    isConstructor, span := n.span, typeParams
    params := if n.kind == "compact_constructor_declaration" then recordParams else s.params ds n
    throws := clause.map fun c =>
      (c.2.namedChildren.filter fun e => !e.isComment).map (s.typeRef ds)
    throwsSpan := clause.map fun c => c.2.span
    headerEnd
    annotations := s.annotations n
    references := methodReferences s.source n }

end Scope

/-! ## The walk -/

/-- What the walk through a file carries along. -/
structure Walk where
  declared : DeclaredTypes
  /-- The anonymous classes met so far in the innermost open type. -/
  anonymous : Nat

abbrev WalkM := StateM Walk

/-- Open a type: its anonymous classes are counted from zero. What is returned closes it again. -/
def openType : WalkM Nat :=
  modifyGet fun w => (w.anonymous, { w with anonymous := 0 })

def closeType (outer : Nat) : WalkM Unit :=
  modify fun w => { w with anonymous := outer }

/-- The number of the next anonymous class of the innermost open type. -/
def nextAnonymous : WalkM Nat :=
  modifyGet fun w => (w.anonymous + 1, { w with anonymous := w.anonymous + 1 })

/-- The head of an anonymous class. -/
def anonymousHead (number : Nat) (fqn : String) (span : Span) (supertype : TypeRef)
    (references : List NameRef) : TypeHead :=
  { kind := .anonymous, name := toString number, fqn, span, typeParams := [],
    supertypes := [supertype], references }

mutual
/-- A type from its node, declared in the type `parent` or at the top level. -/
def lowerType (s : Scope) (parent : Option String) : Node → WalkM TypeDecl
  | ⟨kind, field, named, span, children⟩ => do
    let n : Node := ⟨kind, field, named, span, children⟩
    let name := s.nameOf n
    let fqn := s.qualify parent name
    modify fun w => { w with declared := w.declared.declare (parent.getD "") name fqn }
    let ds := (← get).declared
    let typeParams := s.typeParams ds n
    let s := s.withTypeVars typeParams
    let supertypes := s.supertypes ds n
    let s := s.enter fqn
    let outer ← openType
    let recordParams := if kind == "record_declaration" then s.params ds n else []
    let members ← lowerBody s fqn name recordParams (fun c => c.field == some "body") children
    closeType outer
    let references := typeReferences s.source n
    return .mk { kind := typeKind kind, name, fqn, span, typeParams, supertypes, references }
      members

/-- The members in the first of the nodes that is the wanted body. -/
def lowerBody (s : Scope) (owner ownerName : String) (recordParams : List Param)
    (isBody : Node → Bool) : List Node → WalkM (List Member)
  | [] => return []
  | ⟨kind, field, named, span, children⟩ :: ns =>
    if isBody ⟨kind, field, named, span, children⟩ then
      lowerMembers s owner ownerName recordParams children
    else lowerBody s owner ownerName recordParams isBody ns

/-- The members that the children of a body are. -/
def lowerMembers (s : Scope) (owner ownerName : String) (recordParams : List Param) :
    List Node → WalkM (List Member)
  | [] => return []
  | ⟨kind, field, named, span, children⟩ :: ns => do
    let n : Node := ⟨kind, field, named, span, children⟩
    let here ←
      if !named then pure []
      else if isMethodNode kind then do
        let method := s.method (← get).declared ownerName recordParams n
        let locals ← lowerLocals (s.withTypeVars method.typeParams) owner
          (fun c => c.field == some "body") children
        pure [Member.method method locals]
      else if isTypeNode kind then do
        let decl ← lowerType s (some owner) ⟨kind, field, named, span, children⟩
        pure [Member.type decl]
      else if kind == "enum_body_declarations" then
        lowerMembers s owner ownerName recordParams children
      else if kind == "enum_constant" then do
        let created ← lowerLocals s owner (fun c => c.field == some "arguments") children
        match n.childOfKind "class_body" with
        | none => pure (created.map Member.type)
        | some body =>
          let supertype : TypeRef := ⟨ownerName, ownerName, span, some owner, true, false⟩
          let number ← nextAnonymous
          let fqn := s!"{owner}${number}"
          let outer ← openType
          let members ← lowerBody (s.enter fqn) fqn (toString number) []
            (fun c => c.kind == "class_body") children
          closeType outer
          let head := anonymousHead number fqn span supertype (typeReferences s.source body)
          pure (created.map Member.type ++ [Member.type (.mk head members)])
      else do
        let found ← lowerInside s owner children
        pure (found.map Member.type)
    let others ← lowerMembers s owner ownerName recordParams ns
    return here ++ others

/-- The types inside the first of the nodes that is wanted. -/
def lowerLocals (s : Scope) (owner : String) (isWanted : Node → Bool) :
    List Node → WalkM (List TypeDecl)
  | [] => return []
  | ⟨kind, field, named, span, children⟩ :: ns =>
    if isWanted ⟨kind, field, named, span, children⟩ then lowerInside s owner children
    else lowerLocals s owner isWanted ns

/-- The local and anonymous classes below the nodes that no other type is around. In a `new`
    expression only the arguments and the body are looked at. -/
def lowerInside (s : Scope) (owner : String) : List Node → WalkM (List TypeDecl)
  | [] => return []
  | ⟨kind, field, named, span, children⟩ :: ns => do
    let n : Node := ⟨kind, field, named, span, children⟩
    let here ←
      if isTypeNode kind then do
        let decl ← lowerType s (some owner) ⟨kind, field, named, span, children⟩
        pure [decl]
      else if kind == "object_creation_expression" then do
        let created ← lowerLocals s owner (fun c => c.field == some "arguments") children
        match n.childOfKind "class_body", n.childByField "type" with
        | some body, some type => do
          let supertype := s.typeRef (← get).declared type
          let number ← nextAnonymous
          let fqn := s!"{owner}${number}"
          let outer ← openType
          let members ← lowerBody (s.enter fqn) fqn (toString number) []
            (fun c => c.kind == "class_body") children
          closeType outer
          let head := anonymousHead number fqn span supertype (typeReferences s.source body)
          pure (created ++ [.mk head members])
        | _, _ => pure created
      else lowerInside s owner children
    let others ← lowerInside s owner ns
    return here ++ others
end

/-! ## The file -/

mutual
/-- Declare a type and its member types, before anything else of the file is looked at. -/
def declareType (s : Scope) (parent : Option String) (ds : DeclaredTypes) : Node → DeclaredTypes
  | ⟨kind, field, named, span, children⟩ =>
    let n : Node := ⟨kind, field, named, span, children⟩
    match named && isTypeNode kind, n.childByField "name" with
    | true, some name =>
      let fqn := s.qualify parent (s.text name)
      declareBody s fqn (ds.declare (parent.getD "") (s.text name) fqn) children
    | _, _ => ds

/-- Declare the member types in the first of the nodes that is a body. -/
def declareBody (s : Scope) (fqn : String) (ds : DeclaredTypes) : List Node → DeclaredTypes
  | [] => ds
  | ⟨_, field, _, _, children⟩ :: ns =>
    if field == some "body" then declareMembers s (some fqn) ds children
    else declareBody s fqn ds ns

/-- Declare the types among the nodes; those after the constants of an enum are members like
    others. -/
def declareMembers (s : Scope) (parent : Option String) (ds : DeclaredTypes) :
    List Node → DeclaredTypes
  | [] => ds
  | ⟨kind, field, named, span, children⟩ :: ns =>
    let ds :=
      if kind == "enum_body_declarations" then declareMembers s parent ds children
      else declareType s parent ds ⟨kind, field, named, span, children⟩
    declareMembers s parent ds ns
end

def lowerImport (source : List Char) (n : Node) : Import :=
  { path := ((n.namedChildren.find? isQualifiedName).map fun c => Text.slice source c.span).getD ""
    isStatic := n.children.any fun c => c.kind == "static"
    isWildcard := n.children.any fun c => c.kind == "asterisk"
    span := n.span
    lineSpan := Text.lineSpan source n.span }

/-- The types among the nodes at the top level. -/
def lowerTypes (s : Scope) : List Node → WalkM (List TypeDecl)
  | [] => return []
  | n :: ns =>
    if n.named && isTypeNode n.kind then do
      let decl ← lowerType s none n
      let others ← lowerTypes s ns
      return decl :: others
    else lowerTypes s ns

/-- The compilation unit that a concrete tree of the source stands for. -/
def CompilationUnit.ofTree (source : List Char) (root : Node) : CompilationUnit :=
  let package := ((root.childOfKind "package_declaration").bind fun p =>
    p.namedChildren.find? isQualifiedName).map fun c => Text.slice source c.span
  let imports := (root.children.filter fun c => c.kind == "import_declaration").map
    (lowerImport source)
  let s : Scope := {
    source
    packagePrefix := match package with
      | some p => p ++ "."
      | none => ""
    imports := ((imports.filter fun i => !i.isStatic && !i.isWildcard).map fun i =>
      (i.simpleName, i.path)).reverse
    typeVars := []
    enclosing := [] }
  let declared := declareMembers s none [] root.children
  let types := ((lowerTypes s root.children).run ⟨declared, 0⟩).1
  { package, imports, types }

/-- Why a source is no compilation unit. -/
inductive ParseError where
  /-- The source is not well-formed Java from this place on. -/
  | malformed (place : Text.Position)
deriving DecidableEq, Repr

/-- Read a Java source. -/
def CompilationUnit.parse (source : List Char) : Except ParseError CompilationUnit :=
  match javaTree source with
  | some root => .ok (.ofTree source root)
  | none => .error (.malformed ((Text.LineIndex.ofText source).position (faultOffset source)))

end JavaThrows
