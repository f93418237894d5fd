/-!
# Grammar rules

The rules that give the named nodes of a syntax tree their kinds. `Rule.error` is the kind of a
region that fits no rule.

Main results:

* `Rule.mem_all` — `Rule.all` lists every one.
* `Rule.ofText?_toText` — each is found under its own name, hence `Rule.toText_injective`.
-/

namespace VisualBasic

/-- A named kind of node. -/
inductive Rule where
  | sourceFile | optionStatements | importsStatement | namespaceName | namespaceBlock
  | attributeBlock | «attribute» | blankLine | typeDeclaration | classBlock | moduleBlock
  | structureBlock | interfaceBlock | enumBlock | enumMember | delegateDeclaration
  | inheritsClause | implementsClause | handlesClause | typeParameters | typeParameter
  | typeConstraint | modifiers | modifier | constDeclaration | fieldDeclaration
  | variableDeclarator | methodDeclaration | constructorDeclaration | propertyDeclaration
  | getAccessor | setAccessor | eventDeclaration | addHandlerBlock | removeHandlerBlock
  | raiseEventBlock | parameterList | parameter | type | primitiveType | typeArgumentList
  | arrayRankSpecifier | asClause | statement | emptyStatement | labelStatement | dimStatement
  | assignmentStatement | leftHandSide | callStatement | ifStatement | elseIfClause | elseClause
  | selectCaseStatement | caseBlock | caseElseBlock | caseClause | relationalOperator
  | whileStatement | doStatement | forStatement | forEachStatement | «variable» | tryStatement
  | catchBlock | finallyBlock | withStatement | usingStatement | syncLockStatement
  | returnStatement | exitStatement | continueStatement | throwStatement | goToStatement
  | reDimStatement | reDimClause | addHandlerStatement | removeHandlerStatement
  | raiseEventStatement | preprocessorDirective | expression | parenthesizedExpression
  | invocation | argumentList | argument | memberAccess | elementAccess | newExpression
  | objectInitializers | objectInitializer | unaryExpression | binaryExpression
  | ternaryExpression | typeOfExpression | literal | booleanLiteral | integerLiteral
  | floatingPointLiteral | stringLiteral | characterLiteral | dateLiteral | identifier | error
  deriving DecidableEq, Repr, Inhabited

namespace Rule

/-- The name under which trees and queries show it. -/
def toText : Rule → String
  | .sourceFile => "source_file"
  | .optionStatements => "option_statements"
  | .importsStatement => "imports_statement"
  | .namespaceName => "namespace_name"
  | .namespaceBlock => "namespace_block"
  | .attributeBlock => "attribute_block"
  | .«attribute» => "attribute"
  | .blankLine => "blank_line"
  | .typeDeclaration => "type_declaration"
  | .classBlock => "class_block"
  | .moduleBlock => "module_block"
  | .structureBlock => "structure_block"
  | .interfaceBlock => "interface_block"
  | .enumBlock => "enum_block"
  | .enumMember => "enum_member"
  | .delegateDeclaration => "delegate_declaration"
  | .inheritsClause => "inherits_clause"
  | .implementsClause => "implements_clause"
  | .handlesClause => "handles_clause"
  | .typeParameters => "type_parameters"
  | .typeParameter => "type_parameter"
  | .typeConstraint => "type_constraint"
  | .modifiers => "modifiers"
  | .modifier => "modifier"
  | .constDeclaration => "const_declaration"
  | .fieldDeclaration => "field_declaration"
  | .variableDeclarator => "variable_declarator"
  | .methodDeclaration => "method_declaration"
  | .constructorDeclaration => "constructor_declaration"
  | .propertyDeclaration => "property_declaration"
  | .getAccessor => "get_accessor"
  | .setAccessor => "set_accessor"
  | .eventDeclaration => "event_declaration"
  | .addHandlerBlock => "add_handler_block"
  | .removeHandlerBlock => "remove_handler_block"
  | .raiseEventBlock => "raise_event_block"
  | .parameterList => "parameter_list"
  | .parameter => "parameter"
  | .type => "type"
  | .primitiveType => "primitive_type"
  | .typeArgumentList => "type_argument_list"
  | .arrayRankSpecifier => "array_rank_specifier"
  | .asClause => "as_clause"
  | .statement => "statement"
  | .emptyStatement => "empty_statement"
  | .labelStatement => "label_statement"
  | .dimStatement => "dim_statement"
  | .assignmentStatement => "assignment_statement"
  | .leftHandSide => "left_hand_side"
  | .callStatement => "call_statement"
  | .ifStatement => "if_statement"
  | .elseIfClause => "elseif_clause"
  | .elseClause => "else_clause"
  | .selectCaseStatement => "select_case_statement"
  | .caseBlock => "case_block"
  | .caseElseBlock => "case_else_block"
  | .caseClause => "case_clause"
  | .relationalOperator => "relational_operator"
  | .whileStatement => "while_statement"
  | .doStatement => "do_statement"
  | .forStatement => "for_statement"
  | .forEachStatement => "for_each_statement"
  | .«variable» => "variable"
  | .tryStatement => "try_statement"
  | .catchBlock => "catch_block"
  | .finallyBlock => "finally_block"
  | .withStatement => "with_statement"
  | .usingStatement => "using_statement"
  | .syncLockStatement => "sync_lock_statement"
  | .returnStatement => "return_statement"
  | .exitStatement => "exit_statement"
  | .continueStatement => "continue_statement"
  | .throwStatement => "throw_statement"
  | .goToStatement => "goto_statement"
  | .reDimStatement => "redim_statement"
  | .reDimClause => "re_dim_clause"
  | .addHandlerStatement => "add_handler_statement"
  | .removeHandlerStatement => "remove_handler_statement"
  | .raiseEventStatement => "raise_event_statement"
  | .preprocessorDirective => "preprocessor_directive"
  | .expression => "expression"
  | .parenthesizedExpression => "parenthesized_expression"
  | .invocation => "invocation"
  | .argumentList => "argument_list"
  | .argument => "argument"
  | .memberAccess => "member_access"
  | .elementAccess => "element_access"
  | .newExpression => "new_expression"
  | .objectInitializers => "object_initializers"
  | .objectInitializer => "object_initializer"
  | .unaryExpression => "unary_expression"
  | .binaryExpression => "binary_expression"
  | .ternaryExpression => "ternary_expression"
  | .typeOfExpression => "type_of_expression"
  | .literal => "literal"
  | .booleanLiteral => "boolean_literal"
  | .integerLiteral => "integer_literal"
  | .floatingPointLiteral => "floating_point_literal"
  | .stringLiteral => "string_literal"
  | .characterLiteral => "character_literal"
  | .dateLiteral => "date_literal"
  | .identifier => "identifier"
  | .error => "ERROR"

/-- Every rule, from the whole file down to names. -/
def all : List Rule :=
  [.sourceFile, .optionStatements, .importsStatement, .namespaceName, .namespaceBlock,
   .attributeBlock, .«attribute», .blankLine, .typeDeclaration, .classBlock, .moduleBlock,
   .structureBlock, .interfaceBlock, .enumBlock, .enumMember, .delegateDeclaration,
   .inheritsClause, .implementsClause, .handlesClause, .typeParameters, .typeParameter,
   .typeConstraint, .modifiers, .modifier, .constDeclaration, .fieldDeclaration,
   .variableDeclarator, .methodDeclaration, .constructorDeclaration, .propertyDeclaration,
   .getAccessor, .setAccessor, .eventDeclaration, .addHandlerBlock, .removeHandlerBlock,
   .raiseEventBlock, .parameterList, .parameter, .type, .primitiveType, .typeArgumentList,
   .arrayRankSpecifier, .asClause, .statement, .emptyStatement, .labelStatement, .dimStatement,
   .assignmentStatement, .leftHandSide, .callStatement, .ifStatement, .elseIfClause,
   .elseClause, .selectCaseStatement, .caseBlock, .caseElseBlock, .caseClause,
   .relationalOperator, .whileStatement, .doStatement, .forStatement, .forEachStatement,
   .«variable», .tryStatement, .catchBlock, .finallyBlock, .withStatement, .usingStatement,
   .syncLockStatement, .returnStatement, .exitStatement, .continueStatement, .throwStatement,
   .goToStatement, .reDimStatement, .reDimClause, .addHandlerStatement, .removeHandlerStatement,
   .raiseEventStatement, .preprocessorDirective, .expression, .parenthesizedExpression,
   .invocation, .argumentList, .argument, .memberAccess, .elementAccess, .newExpression,
   .objectInitializers, .objectInitializer, .unaryExpression, .binaryExpression,
   .ternaryExpression, .typeOfExpression, .literal, .booleanLiteral, .integerLiteral,
   .floatingPointLiteral, .stringLiteral, .characterLiteral, .dateLiteral, .identifier, .error]

/-- The one with the given name, in exactly that spelling. -/
def ofText? (text : String) : Option Rule := all.find? fun x => x.toText == text

theorem mem_all (x : Rule) : x ∈ all :=
  List.mem_of_getElem? (show all[x.ctorIdx]? = some x by cases x <;> rfl)

theorem ofText?_toText (x : Rule) : ofText? x.toText = some x :=
  (by decide +kernel : ∀ x ∈ all, ofText? x.toText = some x) x (mem_all x)

theorem toText_injective {x y : Rule} (h : x.toText = y.toText) : x = y :=
  Option.some.inj (by rw [← ofText?_toText x, h, ofText?_toText y])

end Rule

end VisualBasic
