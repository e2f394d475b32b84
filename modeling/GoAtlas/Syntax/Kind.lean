namespace GoAtlas.Syntax

/-- What a node of the tree stands for; `token` is a piece of punctuation or a keyword. -/
inductive Kind where
  | sourceFile
  | packageClause
  | importDeclaration
  | importSpecList
  | importSpec
  | dot
  | blankIdentifier
  | constDeclaration
  | constSpec
  | varDeclaration
  | varSpecList
  | varSpec
  | functionDeclaration
  | methodDeclaration
  | typeParameterList
  | typeParameterDeclaration
  | typeConstraint
  | parameterList
  | parameterDeclaration
  | variadicParameterDeclaration
  | typeDeclaration
  | typeSpec
  | typeAlias
  | parenthesizedType
  | genericType
  | typeArguments
  | typeElem
  | pointerType
  | arrayType
  | implicitLengthArrayType
  | sliceType
  | structType
  | negatedType
  | fieldDeclarationList
  | fieldDeclaration
  | interfaceType
  | methodElem
  | mapType
  | channelType
  | functionType
  | qualifiedType
  | block
  | statementList
  | expressionStatement
  | sendStatement
  | receiveStatement
  | incStatement
  | decStatement
  | assignmentStatement
  | shortVarDeclaration
  | labeledStatement
  | emptyStatement
  | fallthroughStatement
  | breakStatement
  | continueStatement
  | gotoStatement
  | returnStatement
  | goStatement
  | deferStatement
  | ifStatement
  | forStatement
  | forClause
  | rangeClause
  | expressionSwitchStatement
  | expressionCase
  | defaultCase
  | typeSwitchStatement
  | typeCase
  | selectStatement
  | communicationCase
  | expressionList
  | parenthesizedExpression
  | callExpression
  | variadicArgument
  | argumentList
  | selectorExpression
  | indexExpression
  | sliceExpression
  | typeAssertionExpression
  | typeConversionExpression
  | typeInstantiationExpression
  | compositeLiteral
  | literalValue
  | literalElement
  | keyedElement
  | funcLiteral
  | unaryExpression
  | binaryExpression
  | identifier
  | typeIdentifier
  | fieldIdentifier
  | packageIdentifier
  | labelName
  | interpretedStringLiteral
  | interpretedStringLiteralContent
  | rawStringLiteral
  | rawStringLiteralContent
  | escapeSequence
  | intLiteral
  | floatLiteral
  | imaginaryLiteral
  | runeLiteral
  | nilLiteral
  | trueLiteral
  | falseLiteral
  | iotaLiteral
  | comment
  | token (text : String)
  deriving DecidableEq, Repr, Inhabited

namespace Kind

/-- The name a kind is printed under. -/
def text : Kind → String
  | .sourceFile => "source_file"
  | .packageClause => "package_clause"
  | .importDeclaration => "import_declaration"
  | .importSpecList => "import_spec_list"
  | .importSpec => "import_spec"
  | .dot => "dot"
  | .blankIdentifier => "blank_identifier"
  | .constDeclaration => "const_declaration"
  | .constSpec => "const_spec"
  | .varDeclaration => "var_declaration"
  | .varSpecList => "var_spec_list"
  | .varSpec => "var_spec"
  | .functionDeclaration => "function_declaration"
  | .methodDeclaration => "method_declaration"
  | .typeParameterList => "type_parameter_list"
  | .typeParameterDeclaration => "type_parameter_declaration"
  | .typeConstraint => "type_constraint"
  | .parameterList => "parameter_list"
  | .parameterDeclaration => "parameter_declaration"
  | .variadicParameterDeclaration => "variadic_parameter_declaration"
  | .typeDeclaration => "type_declaration"
  | .typeSpec => "type_spec"
  | .typeAlias => "type_alias"
  | .parenthesizedType => "parenthesized_type"
  | .genericType => "generic_type"
  | .typeArguments => "type_arguments"
  | .typeElem => "type_elem"
  | .pointerType => "pointer_type"
  | .arrayType => "array_type"
  | .implicitLengthArrayType => "implicit_length_array_type"
  | .sliceType => "slice_type"
  | .structType => "struct_type"
  | .negatedType => "negated_type"
  | .fieldDeclarationList => "field_declaration_list"
  | .fieldDeclaration => "field_declaration"
  | .interfaceType => "interface_type"
  | .methodElem => "method_elem"
  | .mapType => "map_type"
  | .channelType => "channel_type"
  | .functionType => "function_type"
  | .qualifiedType => "qualified_type"
  | .block => "block"
  | .statementList => "statement_list"
  | .expressionStatement => "expression_statement"
  | .sendStatement => "send_statement"
  | .receiveStatement => "receive_statement"
  | .incStatement => "inc_statement"
  | .decStatement => "dec_statement"
  | .assignmentStatement => "assignment_statement"
  | .shortVarDeclaration => "short_var_declaration"
  | .labeledStatement => "labeled_statement"
  | .emptyStatement => "empty_statement"
  | .fallthroughStatement => "fallthrough_statement"
  | .breakStatement => "break_statement"
  | .continueStatement => "continue_statement"
  | .gotoStatement => "goto_statement"
  | .returnStatement => "return_statement"
  | .goStatement => "go_statement"
  | .deferStatement => "defer_statement"
  | .ifStatement => "if_statement"
  | .forStatement => "for_statement"
  | .forClause => "for_clause"
  | .rangeClause => "range_clause"
  | .expressionSwitchStatement => "expression_switch_statement"
  | .expressionCase => "expression_case"
  | .defaultCase => "default_case"
  | .typeSwitchStatement => "type_switch_statement"
  | .typeCase => "type_case"
  | .selectStatement => "select_statement"
  | .communicationCase => "communication_case"
  | .expressionList => "expression_list"
  | .parenthesizedExpression => "parenthesized_expression"
  | .callExpression => "call_expression"
  | .variadicArgument => "variadic_argument"
  | .argumentList => "argument_list"
  | .selectorExpression => "selector_expression"
  | .indexExpression => "index_expression"
  | .sliceExpression => "slice_expression"
  | .typeAssertionExpression => "type_assertion_expression"
  | .typeConversionExpression => "type_conversion_expression"
  | .typeInstantiationExpression => "type_instantiation_expression"
  | .compositeLiteral => "composite_literal"
  | .literalValue => "literal_value"
  | .literalElement => "literal_element"
  | .keyedElement => "keyed_element"
  | .funcLiteral => "func_literal"
  | .unaryExpression => "unary_expression"
  | .binaryExpression => "binary_expression"
  | .identifier => "identifier"
  | .typeIdentifier => "type_identifier"
  | .fieldIdentifier => "field_identifier"
  | .packageIdentifier => "package_identifier"
  | .labelName => "label_name"
  | .interpretedStringLiteral => "interpreted_string_literal"
  | .interpretedStringLiteralContent => "interpreted_string_literal_content"
  | .rawStringLiteral => "raw_string_literal"
  | .rawStringLiteralContent => "raw_string_literal_content"
  | .escapeSequence => "escape_sequence"
  | .intLiteral => "int_literal"
  | .floatLiteral => "float_literal"
  | .imaginaryLiteral => "imaginary_literal"
  | .runeLiteral => "rune_literal"
  | .nilLiteral => "nil"
  | .trueLiteral => "true"
  | .falseLiteral => "false"
  | .iotaLiteral => "iota"
  | .comment => "comment"
  | .token t => t

/-- Everything but punctuation and keywords. -/
def isNamed : Kind → Bool
  | .token _ => false
  | _ => true

/-- The kinds an identifier can have. -/
def isIdentifier : Kind → Bool
  | .identifier | .typeIdentifier | .fieldIdentifier | .packageIdentifier => true
  | _ => false

/-- Declarations of functions and of methods. -/
def isFunction : Kind → Bool
  | .functionDeclaration | .methodDeclaration => true
  | _ => false

end Kind

/-- The part a child plays in its parent. -/
inductive Field where
  | name
  | path
  | type
  | value
  | typeParameters
  | parameters
  | receiver
  | result
  | body
  | package
  | operator
  | operand
  | left
  | right
  | function
  | arguments
  | field
  | index
  | start
  | stop
  | capacity
  | element
  | length
  | key
  | typeArguments
  | initializer
  | condition
  | consequence
  | alternative
  | update
  | channel
  | label
  | communication
  | switchAlias
  | tag
  deriving DecidableEq, Repr

namespace Field

def text : Field → String
  | .name => "name"
  | .path => "path"
  | .type => "type"
  | .value => "value"
  | .typeParameters => "type_parameters"
  | .parameters => "parameters"
  | .receiver => "receiver"
  | .result => "result"
  | .body => "body"
  | .package => "package"
  | .operator => "operator"
  | .operand => "operand"
  | .left => "left"
  | .right => "right"
  | .function => "function"
  | .arguments => "arguments"
  | .field => "field"
  | .index => "index"
  | .start => "start"
  | .stop => "end"
  | .capacity => "capacity"
  | .element => "element"
  | .length => "length"
  | .key => "key"
  | .typeArguments => "type_arguments"
  | .initializer => "initializer"
  | .condition => "condition"
  | .consequence => "consequence"
  | .alternative => "alternative"
  | .update => "update"
  | .channel => "channel"
  | .label => "label"
  | .communication => "communication"
  | .switchAlias => "alias"
  | .tag => "tag"

end Field

end GoAtlas.Syntax
