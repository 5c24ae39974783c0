/-! The kinds of nodes a syntax tree of a script is made of, and the names plugins know them by. -/

namespace Phrasebook.Syntax

inductive Kind where
  | program | hashBangLine | comment | htmlComment
  | exportStatement | namespaceExport | exportClause | exportSpecifier | importStatement
  | importClause | namespaceImport | namedImports | importSpecifier | importAttribute
  | importRequireClause | importAlias | importWord
  | debuggerStatement | expressionStatement | variableDeclaration | lexicalDeclaration | variableDeclarator
  | statementBlock | elseClause | ifStatement | switchStatement | switchBody
  | switchCase | switchDefault | forStatement | forInStatement | whileStatement
  | doStatement | tryStatement | catchClause | finallyClause | withStatement
  | breakStatement | continueStatement | returnStatement | throwStatement | emptyStatement
  | labeledStatement | statementIdentifier
  | functionDeclaration | generatorFunctionDeclaration | functionSignature | functionExpression | generatorFunction
  | arrowFunction | methodDefinition | methodSignature | abstractMethodSignature
  | classDeclaration | abstractClassDeclaration | classExpression | classBody | classHeritage
  | extendsClause | implementsClause | classStaticBlock | fieldDefinition | decorator
  | accessibilityModifier | overrideModifier
  | parenthesizedExpression | sequenceExpression | assignmentExpression | augmentedAssignmentExpression
  | awaitExpression | unaryExpression | binaryExpression | ternaryExpression | updateExpression | newExpression
  | yieldExpression | callExpression | memberExpression | subscriptExpression | nonNullExpression
  | asExpression | satisfiesExpression | instantiationExpression | typeAssertion | internalModule
  | moduleDeclaration
  | identifier | propertyIdentifier | privatePropertyIdentifier | shorthandPropertyIdentifier
  | shorthandPropertyIdentifierPattern | typeIdentifier | thisExpression | superExpression | trueLiteral | falseLiteral
  | nullLiteral | undefinedLiteral | numberLiteral | stringLiteral | stringFragment
  | escapeSequence | templateString | templateSubstitution | regex | regexPattern
  | regexFlags | object | pair | spreadElement | computedPropertyName
  | array | metaProperty | optionalChain | arguments
  | objectPattern | arrayPattern | pairPattern | restPattern | assignmentPattern
  | objectAssignmentPattern | formalParameters | requiredParameter | optionalParameter
  | jsxElement | jsxOpeningElement | jsxClosingElement | jsxSelfClosingElement | jsxAttribute
  | jsxExpression | jsxText | htmlCharacterReference | jsxNamespaceName
  | typeAscription | typeArguments | typeParameters | typeParameter | constraint
  | defaultType | unionType | intersectionType | conditionalType | functionType
  | constructorType | parenthesizedType | predefinedType | literalType | templateLiteralType
  | templateType | arrayType | tupleType | optionalType | restType
  | readonlyType | genericType | nestedTypeIdentifier | nestedIdentifier | objectType
  | interfaceBody | propertySignature | callSignature | constructSignature | indexSignature
  | mappedTypeClause | typeQuery | indexTypeQuery | lookupType | inferType
  | existentialType | flowMaybeType | thisType | typePredicate | typePredicateAscription
  | asserts | assertsAscription | omittingTypeAscription | addingTypeAscription | optingTypeAscription
  | interfaceDeclaration | extendsTypeClause | enumDeclaration | enumBody | enumAssignment
  | typeAliasDeclaration | ambientDeclaration
  /-- A sign between two operands; the only kind that does not count as a named node. -/
  | operator
deriving DecidableEq, Repr, Inhabited

def Kind.name : Kind → String
  | .program => "program"
  | .hashBangLine => "hash_bang_line"
  | .comment => "comment"
  | .htmlComment => "html_comment"
  | .exportStatement => "export_statement"
  | .namespaceExport => "namespace_export"
  | .exportClause => "export_clause"
  | .exportSpecifier => "export_specifier"
  | .importStatement => "import_statement"
  | .importClause => "import_clause"
  | .namespaceImport => "namespace_import"
  | .namedImports => "named_imports"
  | .importSpecifier => "import_specifier"
  | .importAttribute => "import_attribute"
  | .importRequireClause => "import_require_clause"
  | .importAlias => "import_alias"
  | .importWord => "import"
  | .debuggerStatement => "debugger_statement"
  | .expressionStatement => "expression_statement"
  | .variableDeclaration => "variable_declaration"
  | .lexicalDeclaration => "lexical_declaration"
  | .variableDeclarator => "variable_declarator"
  | .statementBlock => "statement_block"
  | .elseClause => "else_clause"
  | .ifStatement => "if_statement"
  | .switchStatement => "switch_statement"
  | .switchBody => "switch_body"
  | .switchCase => "switch_case"
  | .switchDefault => "switch_default"
  | .forStatement => "for_statement"
  | .forInStatement => "for_in_statement"
  | .whileStatement => "while_statement"
  | .doStatement => "do_statement"
  | .tryStatement => "try_statement"
  | .catchClause => "catch_clause"
  | .finallyClause => "finally_clause"
  | .withStatement => "with_statement"
  | .breakStatement => "break_statement"
  | .continueStatement => "continue_statement"
  | .returnStatement => "return_statement"
  | .throwStatement => "throw_statement"
  | .emptyStatement => "empty_statement"
  | .labeledStatement => "labeled_statement"
  | .statementIdentifier => "statement_identifier"
  | .functionDeclaration => "function_declaration"
  | .generatorFunctionDeclaration => "generator_function_declaration"
  | .functionSignature => "function_signature"
  | .functionExpression => "function_expression"
  | .generatorFunction => "generator_function"
  | .arrowFunction => "arrow_function"
  | .methodDefinition => "method_definition"
  | .methodSignature => "method_signature"
  | .abstractMethodSignature => "abstract_method_signature"
  | .classDeclaration => "class_declaration"
  | .abstractClassDeclaration => "abstract_class_declaration"
  | .classExpression => "class"
  | .classBody => "class_body"
  | .classHeritage => "class_heritage"
  | .extendsClause => "extends_clause"
  | .implementsClause => "implements_clause"
  | .classStaticBlock => "class_static_block"
  | .fieldDefinition => "public_field_definition"
  | .decorator => "decorator"
  | .accessibilityModifier => "accessibility_modifier"
  | .overrideModifier => "override_modifier"
  | .parenthesizedExpression => "parenthesized_expression"
  | .sequenceExpression => "sequence_expression"
  | .assignmentExpression => "assignment_expression"
  | .augmentedAssignmentExpression => "augmented_assignment_expression"
  | .awaitExpression => "await_expression"
  | .unaryExpression => "unary_expression"
  | .binaryExpression => "binary_expression"
  | .ternaryExpression => "ternary_expression"
  | .updateExpression => "update_expression"
  | .newExpression => "new_expression"
  | .yieldExpression => "yield_expression"
  | .callExpression => "call_expression"
  | .memberExpression => "member_expression"
  | .subscriptExpression => "subscript_expression"
  | .nonNullExpression => "non_null_expression"
  | .asExpression => "as_expression"
  | .satisfiesExpression => "satisfies_expression"
  | .instantiationExpression => "instantiation_expression"
  | .typeAssertion => "type_assertion"
  | .internalModule => "internal_module"
  | .moduleDeclaration => "module"
  | .identifier => "identifier"
  | .propertyIdentifier => "property_identifier"
  | .privatePropertyIdentifier => "private_property_identifier"
  | .shorthandPropertyIdentifier => "shorthand_property_identifier"
  | .shorthandPropertyIdentifierPattern => "shorthand_property_identifier_pattern"
  | .typeIdentifier => "type_identifier"
  | .thisExpression => "this"
  | .superExpression => "super"
  | .trueLiteral => "true"
  | .falseLiteral => "false"
  | .nullLiteral => "null"
  | .undefinedLiteral => "undefined"
  | .numberLiteral => "number"
  | .stringLiteral => "string"
  | .stringFragment => "string_fragment"
  | .escapeSequence => "escape_sequence"
  | .templateString => "template_string"
  | .templateSubstitution => "template_substitution"
  | .regex => "regex"
  | .regexPattern => "regex_pattern"
  | .regexFlags => "regex_flags"
  | .object => "object"
  | .pair => "pair"
  | .spreadElement => "spread_element"
  | .computedPropertyName => "computed_property_name"
  | .array => "array"
  | .metaProperty => "meta_property"
  | .optionalChain => "optional_chain"
  | .arguments => "arguments"
  | .objectPattern => "object_pattern"
  | .arrayPattern => "array_pattern"
  | .pairPattern => "pair_pattern"
  | .restPattern => "rest_pattern"
  | .assignmentPattern => "assignment_pattern"
  | .objectAssignmentPattern => "object_assignment_pattern"
  | .formalParameters => "formal_parameters"
  | .requiredParameter => "required_parameter"
  | .optionalParameter => "optional_parameter"
  | .jsxElement => "jsx_element"
  | .jsxOpeningElement => "jsx_opening_element"
  | .jsxClosingElement => "jsx_closing_element"
  | .jsxSelfClosingElement => "jsx_self_closing_element"
  | .jsxAttribute => "jsx_attribute"
  | .jsxExpression => "jsx_expression"
  | .jsxText => "jsx_text"
  | .htmlCharacterReference => "html_character_reference"
  | .jsxNamespaceName => "jsx_namespace_name"
  | .typeAscription => "type_annotation"
  | .typeArguments => "type_arguments"
  | .typeParameters => "type_parameters"
  | .typeParameter => "type_parameter"
  | .constraint => "constraint"
  | .defaultType => "default_type"
  | .unionType => "union_type"
  | .intersectionType => "intersection_type"
  | .conditionalType => "conditional_type"
  | .functionType => "function_type"
  | .constructorType => "constructor_type"
  | .parenthesizedType => "parenthesized_type"
  | .predefinedType => "predefined_type"
  | .literalType => "literal_type"
  | .templateLiteralType => "template_literal_type"
  | .templateType => "template_type"
  | .arrayType => "array_type"
  | .tupleType => "tuple_type"
  | .optionalType => "optional_type"
  | .restType => "rest_type"
  | .readonlyType => "readonly_type"
  | .genericType => "generic_type"
  | .nestedTypeIdentifier => "nested_type_identifier"
  | .nestedIdentifier => "nested_identifier"
  | .objectType => "object_type"
  | .interfaceBody => "interface_body"
  | .propertySignature => "property_signature"
  | .callSignature => "call_signature"
  | .constructSignature => "construct_signature"
  | .indexSignature => "index_signature"
  | .mappedTypeClause => "mapped_type_clause"
  | .typeQuery => "type_query"
  | .indexTypeQuery => "index_type_query"
  | .lookupType => "lookup_type"
  | .inferType => "infer_type"
  | .existentialType => "existential_type"
  | .flowMaybeType => "flow_maybe_type"
  | .thisType => "this_type"
  | .typePredicate => "type_predicate"
  | .typePredicateAscription => "type_predicate_annotation"
  | .asserts => "asserts"
  | .assertsAscription => "asserts_annotation"
  | .omittingTypeAscription => "omitting_type_annotation"
  | .addingTypeAscription => "adding_type_annotation"
  | .optingTypeAscription => "opting_type_annotation"
  | .interfaceDeclaration => "interface_declaration"
  | .extendsTypeClause => "extends_type_clause"
  | .enumDeclaration => "enum_declaration"
  | .enumBody => "enum_body"
  | .enumAssignment => "enum_assignment"
  | .typeAliasDeclaration => "type_alias_declaration"
  | .ambientDeclaration => "ambient_declaration"
  | .operator => "operator"

inductive Role where
  | name | value | function | arguments | object | property | index | condition | consequence
  | alternative | operator | left | right | body | key | declaration | openTag | closeTag
  | parameter | parameters
deriving DecidableEq, Repr, Inhabited

end Phrasebook.Syntax
