/-! The kinds of named syntax nodes.

A source is read into a concrete syntax tree: every token of the text is in it, and every node that
the grammar names has one of the kinds below. `Kind.name` is the spelling that error messages and
reports use for a kind. Tokens the grammar does not name (operators, brackets, keywords) have no
kind; their own text stands for it. -/
namespace SettingsHarvest.Syntax

inductive Kind where
  | program
  | hashBangLine
  | comment
  | error
  | identifier
  | propertyIdentifier
  | privatePropertyIdentifier
  | shorthandPropertyIdentifier
  | shorthandPropertyIdentifierPattern
  | statementIdentifier
  | typeIdentifier
  | nestedIdentifier
  | nestedTypeIdentifier
  | number
  | string
  | stringFragment
  | templateString
  | templateSubstitution
  | regex
  | regexPattern
  | regexFlags
  | trueLiteral
  | falseLiteral
  | nullLiteral
  | undefinedLiteral
  | thisExpression
  | superExpression
  | importKeyword
  | metaProperty
  | array
  | object
  | pair
  | computedPropertyName
  | methodDefinition
  | spreadElement
  | objectAssignmentPattern
  | objectPattern
  | arrayPattern
  | pairPattern
  | restPattern
  | assignmentPattern
  | parenthesizedExpression
  | sequenceExpression
  | asExpression
  | satisfiesExpression
  | typeAssertion
  | nonNullExpression
  | instantiationExpression
  | callExpression
  | arguments
  | newExpression
  | memberExpression
  | subscriptExpression
  | optionalChain
  | unaryExpression
  | updateExpression
  | binaryExpression
  | ternaryExpression
  | assignmentExpression
  | augmentedAssignmentExpression
  | awaitExpression
  | yieldExpression
  | arrowFunction
  | functionExpression
  | generatorFunction
  | functionDeclaration
  | generatorFunctionDeclaration
  | functionSignature
  | formalParameters
  | requiredParameter
  | optionalParameter
  | accessibilityModifier
  | overrideModifier
  | decorator
  | classExpression
  | classDeclaration
  | abstractClassDeclaration
  | classHeritage
  | extendsClause
  | implementsClause
  | classBody
  | publicFieldDefinition
  | classStaticBlock
  | abstractMethodSignature
  | methodSignature
  | propertySignature
  | callSignature
  | constructSignature
  | indexSignature
  | mappedTypeClause
  | statementBlock
  | expressionStatement
  | emptyStatement
  | lexicalDeclaration
  | variableDeclaration
  | variableDeclarator
  | enumDeclaration
  | enumBody
  | enumAssignment
  | interfaceDeclaration
  | interfaceBody
  | extendsTypeClause
  | typeAliasDeclaration
  | ambientDeclaration
  | internalModule
  | moduleDeclaration
  | importStatement
  | importClause
  | importSpecifier
  | importAlias
  | importRequireClause
  | importAttribute
  | namedImports
  | namespaceImport
  | exportStatement
  | exportClause
  | exportSpecifier
  | namespaceExport
  | ifStatement
  | elseClause
  | forStatement
  | forInStatement
  | whileStatement
  | doStatement
  | switchStatement
  | switchBody
  | switchCase
  | switchDefault
  | tryStatement
  | catchClause
  | finallyClause
  | returnStatement
  | throwStatement
  | breakStatement
  | continueStatement
  | labeledStatement
  | debuggerStatement
  | withStatement
  | typeAscription
  | predicateAscription
  | typePredicate
  | assertsAscription
  | asserts
  | typeParameters
  | typeParameter
  | constraint
  | defaultType
  | typeArguments
  | predefinedType
  | literalType
  | templateLiteralType
  | templateType
  | parenthesizedType
  | genericType
  | arrayType
  | readonlyType
  | tupleType
  | optionalType
  | restType
  | unionType
  | intersectionType
  | conditionalType
  | inferType
  | functionType
  | constructorType
  | objectType
  | typeQuery
  | indexTypeQuery
  | lookupType
  | thisType
  | jsxElement
  | jsxSelfClosingElement
  | jsxOpeningElement
  | jsxClosingElement
  | jsxAttribute
  | jsxExpression
  | jsxText
  | jsxNamespaceName
  deriving DecidableEq, Inhabited

/-- The spelling of a kind in reports. -/
def Kind.name : Kind → String
  | .program => "program"
  | .hashBangLine => "hash_bang_line"
  | .comment => "comment"
  | .error => "ERROR"
  | .identifier => "identifier"
  | .propertyIdentifier => "property_identifier"
  | .privatePropertyIdentifier => "private_property_identifier"
  | .shorthandPropertyIdentifier => "shorthand_property_identifier"
  | .shorthandPropertyIdentifierPattern => "shorthand_property_identifier_pattern"
  | .statementIdentifier => "statement_identifier"
  | .typeIdentifier => "type_identifier"
  | .nestedIdentifier => "nested_identifier"
  | .nestedTypeIdentifier => "nested_type_identifier"
  | .number => "number"
  | .string => "string"
  | .stringFragment => "string_fragment"
  | .templateString => "template_string"
  | .templateSubstitution => "template_substitution"
  | .regex => "regex"
  | .regexPattern => "regex_pattern"
  | .regexFlags => "regex_flags"
  | .trueLiteral => "true"
  | .falseLiteral => "false"
  | .nullLiteral => "null"
  | .undefinedLiteral => "undefined"
  | .thisExpression => "this"
  | .superExpression => "super"
  | .importKeyword => "import"
  | .metaProperty => "meta_property"
  | .array => "array"
  | .object => "object"
  | .pair => "pair"
  | .computedPropertyName => "computed_property_name"
  | .methodDefinition => "method_definition"
  | .spreadElement => "spread_element"
  | .objectAssignmentPattern => "object_assignment_pattern"
  | .objectPattern => "object_pattern"
  | .arrayPattern => "array_pattern"
  | .pairPattern => "pair_pattern"
  | .restPattern => "rest_pattern"
  | .assignmentPattern => "assignment_pattern"
  | .parenthesizedExpression => "parenthesized_expression"
  | .sequenceExpression => "sequence_expression"
  | .asExpression => "as_expression"
  | .satisfiesExpression => "satisfies_expression"
  | .typeAssertion => "type_assertion"
  | .nonNullExpression => "non_null_expression"
  | .instantiationExpression => "instantiation_expression"
  | .callExpression => "call_expression"
  | .arguments => "arguments"
  | .newExpression => "new_expression"
  | .memberExpression => "member_expression"
  | .subscriptExpression => "subscript_expression"
  | .optionalChain => "optional_chain"
  | .unaryExpression => "unary_expression"
  | .updateExpression => "update_expression"
  | .binaryExpression => "binary_expression"
  | .ternaryExpression => "ternary_expression"
  | .assignmentExpression => "assignment_expression"
  | .augmentedAssignmentExpression => "augmented_assignment_expression"
  | .awaitExpression => "await_expression"
  | .yieldExpression => "yield_expression"
  | .arrowFunction => "arrow_function"
  | .functionExpression => "function_expression"
  | .generatorFunction => "generator_function"
  | .functionDeclaration => "function_declaration"
  | .generatorFunctionDeclaration => "generator_function_declaration"
  | .functionSignature => "function_signature"
  | .formalParameters => "formal_parameters"
  | .requiredParameter => "required_parameter"
  | .optionalParameter => "optional_parameter"
  | .accessibilityModifier => "accessibility_modifier"
  | .overrideModifier => "override_modifier"
  | .decorator => "decorator"
  | .classExpression => "class"
  | .classDeclaration => "class_declaration"
  | .abstractClassDeclaration => "abstract_class_declaration"
  | .classHeritage => "class_heritage"
  | .extendsClause => "extends_clause"
  | .implementsClause => "implements_clause"
  | .classBody => "class_body"
  | .publicFieldDefinition => "public_field_definition"
  | .classStaticBlock => "class_static_block"
  | .abstractMethodSignature => "abstract_method_signature"
  | .methodSignature => "method_signature"
  | .propertySignature => "property_signature"
  | .callSignature => "call_signature"
  | .constructSignature => "construct_signature"
  | .indexSignature => "index_signature"
  | .mappedTypeClause => "mapped_type_clause"
  | .statementBlock => "statement_block"
  | .expressionStatement => "expression_statement"
  | .emptyStatement => "empty_statement"
  | .lexicalDeclaration => "lexical_declaration"
  | .variableDeclaration => "variable_declaration"
  | .variableDeclarator => "variable_declarator"
  | .enumDeclaration => "enum_declaration"
  | .enumBody => "enum_body"
  | .enumAssignment => "enum_assignment"
  | .interfaceDeclaration => "interface_declaration"
  | .interfaceBody => "interface_body"
  | .extendsTypeClause => "extends_type_clause"
  | .typeAliasDeclaration => "type_alias_declaration"
  | .ambientDeclaration => "ambient_declaration"
  | .internalModule => "internal_module"
  | .moduleDeclaration => "module"
  | .importStatement => "import_statement"
  | .importClause => "import_clause"
  | .importSpecifier => "import_specifier"
  | .importAlias => "import_alias"
  | .importRequireClause => "import_require_clause"
  | .importAttribute => "import_attribute"
  | .namedImports => "named_imports"
  | .namespaceImport => "namespace_import"
  | .exportStatement => "export_statement"
  | .exportClause => "export_clause"
  | .exportSpecifier => "export_specifier"
  | .namespaceExport => "namespace_export"
  | .ifStatement => "if_statement"
  | .elseClause => "else_clause"
  | .forStatement => "for_statement"
  | .forInStatement => "for_in_statement"
  | .whileStatement => "while_statement"
  | .doStatement => "do_statement"
  | .switchStatement => "switch_statement"
  | .switchBody => "switch_body"
  | .switchCase => "switch_case"
  | .switchDefault => "switch_default"
  | .tryStatement => "try_statement"
  | .catchClause => "catch_clause"
  | .finallyClause => "finally_clause"
  | .returnStatement => "return_statement"
  | .throwStatement => "throw_statement"
  | .breakStatement => "break_statement"
  | .continueStatement => "continue_statement"
  | .labeledStatement => "labeled_statement"
  | .debuggerStatement => "debugger_statement"
  | .withStatement => "with_statement"
  | .typeAscription => "type_annotation"
  | .predicateAscription => "type_predicate_annotation"
  | .typePredicate => "type_predicate"
  | .assertsAscription => "asserts_annotation"
  | .asserts => "asserts"
  | .typeParameters => "type_parameters"
  | .typeParameter => "type_parameter"
  | .constraint => "constraint"
  | .defaultType => "default_type"
  | .typeArguments => "type_arguments"
  | .predefinedType => "predefined_type"
  | .literalType => "literal_type"
  | .templateLiteralType => "template_literal_type"
  | .templateType => "template_type"
  | .parenthesizedType => "parenthesized_type"
  | .genericType => "generic_type"
  | .arrayType => "array_type"
  | .readonlyType => "readonly_type"
  | .tupleType => "tuple_type"
  | .optionalType => "optional_type"
  | .restType => "rest_type"
  | .unionType => "union_type"
  | .intersectionType => "intersection_type"
  | .conditionalType => "conditional_type"
  | .inferType => "infer_type"
  | .functionType => "function_type"
  | .constructorType => "constructor_type"
  | .objectType => "object_type"
  | .typeQuery => "type_query"
  | .indexTypeQuery => "index_type_query"
  | .lookupType => "lookup_type"
  | .thisType => "this_type"
  | .jsxElement => "jsx_element"
  | .jsxSelfClosingElement => "jsx_self_closing_element"
  | .jsxOpeningElement => "jsx_opening_element"
  | .jsxClosingElement => "jsx_closing_element"
  | .jsxAttribute => "jsx_attribute"
  | .jsxExpression => "jsx_expression"
  | .jsxText => "jsx_text"
  | .jsxNamespaceName => "jsx_namespace_name"

/-- Functions in every form: what a name can be a parameter of. -/
def Kind.isFunction : Kind → Bool
  | .arrowFunction | .functionExpression | .functionDeclaration | .generatorFunction
  | .generatorFunctionDeclaration | .methodDefinition => true
  | _ => false

/-- Statements that declare: the kinds whose name ends in that word. -/
def Kind.isDeclaration (k : Kind) : Bool := k.name.endsWith "declaration"

/-- Forms that stand for the expression inside them: parentheses, `as`, `satisfies`, `<T>x`, `x!`. -/
def Kind.isWrapper : Kind → Bool
  | .parenthesizedExpression | .asExpression | .satisfiesExpression | .typeAssertion
  | .nonNullExpression => true
  | _ => false

/-- The part a node plays in its parent, where the grammar gives it one. -/
inductive Role where
  | name | value | type | function | arguments | object | property | index | operator | left | right
  | argument | key | body | parameter | parameters | pattern | source | rename | declaration
  | typeArguments | typeParameters | returnType | condition | consequence | alternative
  | optionalChain | constructor | kind | decorator | label | module | openTag | closeTag | attribute
  deriving DecidableEq

end SettingsHarvest.Syntax
