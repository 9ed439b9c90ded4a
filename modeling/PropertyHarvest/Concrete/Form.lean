/-
# What the grammar's words mean

The Java grammar has a word for every construct; only a few of them have a
meaning of their own here.  `Form` lists those meanings, and `Form.ofKind`
reads a word as one of them.

Several words may have one form: a class, an interface and a record are all type
declarations, and eight words are types.  A word that is not in the list keeps its
name and is lowered by what lies below it.  Whether a form is used where the grammar
would allow it is not asked.

The list is a function on words, so it can be evaluated, and a statement about a form is
one about each of its words.
-/
import PropertyHarvest.Kind

namespace PropertyHarvest

/-- How a construct of the grammar is read. -/
inductive Form where
  /-- Leaves no trace. -/
  | comment
  /-- Stands for what it encloses. -/
  | parentheses
  /-- Declares one variable for each declarator. -/
  | declaration
  /-- A node of kind `k` over the constructs below it. -/
  | branch (k : Kind)
  /-- A leaf of kind `k` with its text. -/
  | leaf (k : Kind)
  | package
  | modifiers
  | annotationUse
  | call
  | arguments
  | access
  | qualifiedName
  | classLiteral
  /-- A binary operation; the operator decides its kind. -/
  | operation
  /-- A string literal or a text block. -/
  | string
  | type
  /-- Anything else: kept under the grammar's word. -/
  | other
  deriving DecidableEq, Repr

def Form.ofKind : String → Form
  | "line_comment" | "block_comment" => .comment
  | "parenthesized_expression" => .parentheses
  | "local_variable_declaration" | "field_declaration" | "constant_declaration" => .declaration
  | "package_declaration" => .package
  | "class_declaration" | "interface_declaration" | "enum_declaration" | "record_declaration"
  | "annotation_type_declaration" => .branch .classDecl
  | "class_body" | "interface_body" | "enum_body" | "enum_body_declarations"
  | "annotation_type_body" => .branch .classBody
  | "method_declaration" => .branch .methodDecl
  | "block" => .branch .block
  | "expression_statement" => .branch .expression
  | "try_statement" | "try_with_resources_statement" => .branch .tryBlock
  | "modifiers" => .modifiers
  | "marker_annotation" | "annotation" => .annotationUse
  | "method_invocation" => .call
  | "argument_list" => .arguments
  | "field_access" => .access
  | "scoped_identifier" => .qualifiedName
  | "class_literal" => .classLiteral
  | "binary_expression" => .operation
  | "string_literal" => .string
  | "null_literal" => .leaf .nullLiteral
  | "identifier" => .leaf .identifier
  | "type_identifier" | "scoped_type_identifier" | "generic_type" | "array_type"
  | "integral_type" | "floating_point_type" | "boolean_type" | "void_type" => .type
  | _ => .other

end PropertyHarvest
