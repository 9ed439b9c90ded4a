/-
# Kinds of syntax

The harvester looks at a few constructs of a test source and at nothing else.
`Kind` names those constructs; every other construct keeps the grammar's own
word for it in `other`, so that ancestry (an enclosing `try`, say) is never
lost on the way.

Two kinds may be shown by one name: a word of the grammar that is spelled as the name
of a kind is shown like that kind, and is not of it.  Kinds are compared as they are
and never by name.

A test for ancestry needs the kind of a node and nothing else, so there is a kind for
every construct, and no node is left out because nobody looks at it.
-/

namespace PropertyHarvest

/-- The constructs that the harvester tells apart. -/
inductive Kind where
  /-- One whole source file. -/
  | compilationUnit
  /-- A package declaration. -/
  | packageDecl
  /-- A class, interface, enum, record or annotation type. -/
  | classDecl
  /-- The braces of a type; its fields are direct children. -/
  | classBody
  | methodDecl
  /-- One declared variable, local or field. -/
  | variableDecl
  /-- A statement block. -/
  | block
  /-- A call: callee, then `argumentList`. -/
  | methodCall
  /-- Dotted access: object, then member. -/
  | memberAccess
  | argumentList
  /-- The wrapper of an argument, an initializer or an expression statement. -/
  | expression
  /-- A string literal; its text keeps the quotes. -/
  | stringLiteral
  /-- The binary `+`. -/
  | concatenation
  | nullLiteral
  | identifier
  /-- The pseudo-member `class`. -/
  | classLiteral
  /-- A `try` statement with all its clauses. -/
  | tryBlock
  | typeRef
  | modifiers
  /-- The modifier `final`. -/
  | finalModifier
  | annotationUse
  /-- A construct that is never inspected, under the grammar's name for it. -/
  | other (name : String)
  deriving DecidableEq, Repr, Inhabited

namespace Kind

/-- The short name that messages show. -/
def name : Kind → String
  | compilationUnit => "COMPILATION_UNIT"
  | packageDecl => "PACKAGE_DEF"
  | classDecl => "CLASS_DEF"
  | classBody => "OBJBLOCK"
  | methodDecl => "METHOD_DEF"
  | variableDecl => "VARIABLE_DEF"
  | block => "SLIST"
  | methodCall => "METHOD_CALL"
  | memberAccess => "DOT"
  | argumentList => "ELIST"
  | expression => "EXPR"
  | stringLiteral => "STRING_LITERAL"
  | concatenation => "PLUS"
  | nullLiteral => "LITERAL_NULL"
  | identifier => "IDENT"
  | classLiteral => "LITERAL_CLASS"
  | tryBlock => "LITERAL_TRY"
  | typeRef => "TYPE"
  | modifiers => "MODIFIERS"
  | finalModifier => "FINAL"
  | annotationUse => "ANNOTATION"
  | other name => name

instance : ToString Kind := ⟨name⟩

end Kind

end PropertyHarvest
