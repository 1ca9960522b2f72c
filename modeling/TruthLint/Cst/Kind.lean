/-! Kinds of syntax nodes of the C++ grammar. A kind that decides nothing is kept by name. -/

namespace TruthLint.Cst

inductive Kind where
  | alignofExpression | assignmentExpression | binaryExpression | callExpression | castExpression
  | charLiteral | coAwaitExpression | commaExpression | compoundLiteralExpression
  | concatenatedString | conditionalExpression | deleteExpression | falseLiteral
  | fieldExpression | foldExpression | identifier | lambdaExpression | newExpression | null
  | nullptr | numberLiteral | offsetofExpression | parenthesizedExpression | pointerExpression
  | qualifiedIdentifier | rawStringLiteral | sizeofExpression | stringLiteral
  | subscriptExpression | templateFunction | this | trueLiteral | unaryExpression
  | updateExpression | userDefinedLiteral
  | error | comment | accessSpecifier | aliasDeclaration | enumSpecifier | friendDeclaration
  | namespaceAliasDefinition | parameterList | preprocCall | preprocDef | preprocFunctionDef
  | preprocInclude | staticAssertDeclaration | templateParameterList | typeDefinition
  | usingDeclaration
  | functionDefinition | declaration | fieldDeclaration | classSpecifier | structSpecifier
  | unionSpecifier | namespaceDefinition | preprocIf | preprocIfdef | preprocElif
  | preprocElifdef | preprocElse | initDeclarator | pointerDeclarator | referenceDeclarator
  | arrayDeclarator | parenthesizedDeclarator | attributedDeclarator | functionDeclarator
  | parameterDeclaration | optionalParameterDeclaration | fieldIdentifier | destructorName
  | operatorName | primitiveType | sizedTypeSpecifier | typeIdentifier | initializerList | equals
  | compoundStatement | ifStatement | whileStatement | switchStatement | doStatement
  | forStatement | forRangeLoop | returnStatement | conditionClause | conditionDeclaration
  | other (name : String)
deriving DecidableEq, Repr

namespace Kind

/-- The name of a kind in the grammar. -/
def name : Kind → String
  | alignofExpression => "alignof_expression"
  | assignmentExpression => "assignment_expression"
  | binaryExpression => "binary_expression"
  | callExpression => "call_expression"
  | castExpression => "cast_expression"
  | charLiteral => "char_literal"
  | coAwaitExpression => "co_await_expression"
  | commaExpression => "comma_expression"
  | compoundLiteralExpression => "compound_literal_expression"
  | concatenatedString => "concatenated_string"
  | conditionalExpression => "conditional_expression"
  | deleteExpression => "delete_expression"
  | falseLiteral => "false"
  | fieldExpression => "field_expression"
  | foldExpression => "fold_expression"
  | identifier => "identifier"
  | lambdaExpression => "lambda_expression"
  | newExpression => "new_expression"
  | null => "null"
  | nullptr => "nullptr"
  | numberLiteral => "number_literal"
  | offsetofExpression => "offsetof_expression"
  | parenthesizedExpression => "parenthesized_expression"
  | pointerExpression => "pointer_expression"
  | qualifiedIdentifier => "qualified_identifier"
  | rawStringLiteral => "raw_string_literal"
  | sizeofExpression => "sizeof_expression"
  | stringLiteral => "string_literal"
  | subscriptExpression => "subscript_expression"
  | templateFunction => "template_function"
  | this => "this"
  | trueLiteral => "true"
  | unaryExpression => "unary_expression"
  | updateExpression => "update_expression"
  | userDefinedLiteral => "user_defined_literal"
  | error => "ERROR"
  | comment => "comment"
  | accessSpecifier => "access_specifier"
  | aliasDeclaration => "alias_declaration"
  | enumSpecifier => "enum_specifier"
  | friendDeclaration => "friend_declaration"
  | namespaceAliasDefinition => "namespace_alias_definition"
  | parameterList => "parameter_list"
  | preprocCall => "preproc_call"
  | preprocDef => "preproc_def"
  | preprocFunctionDef => "preproc_function_def"
  | preprocInclude => "preproc_include"
  | staticAssertDeclaration => "static_assert_declaration"
  | templateParameterList => "template_parameter_list"
  | typeDefinition => "type_definition"
  | usingDeclaration => "using_declaration"
  | functionDefinition => "function_definition"
  | declaration => "declaration"
  | fieldDeclaration => "field_declaration"
  | classSpecifier => "class_specifier"
  | structSpecifier => "struct_specifier"
  | unionSpecifier => "union_specifier"
  | namespaceDefinition => "namespace_definition"
  | preprocIf => "preproc_if"
  | preprocIfdef => "preproc_ifdef"
  | preprocElif => "preproc_elif"
  | preprocElifdef => "preproc_elifdef"
  | preprocElse => "preproc_else"
  | initDeclarator => "init_declarator"
  | pointerDeclarator => "pointer_declarator"
  | referenceDeclarator => "reference_declarator"
  | arrayDeclarator => "array_declarator"
  | parenthesizedDeclarator => "parenthesized_declarator"
  | attributedDeclarator => "attributed_declarator"
  | functionDeclarator => "function_declarator"
  | parameterDeclaration => "parameter_declaration"
  | optionalParameterDeclaration => "optional_parameter_declaration"
  | fieldIdentifier => "field_identifier"
  | destructorName => "destructor_name"
  | operatorName => "operator_name"
  | primitiveType => "primitive_type"
  | sizedTypeSpecifier => "sized_type_specifier"
  | typeIdentifier => "type_identifier"
  | initializerList => "initializer_list"
  | equals => "="
  | compoundStatement => "compound_statement"
  | ifStatement => "if_statement"
  | whileStatement => "while_statement"
  | switchStatement => "switch_statement"
  | doStatement => "do_statement"
  | forStatement => "for_statement"
  | forRangeLoop => "for_range_loop"
  | returnStatement => "return_statement"
  | conditionClause => "condition_clause"
  | conditionDeclaration => "condition_declaration"
  | other name => name

/-- The kinds that are told apart, other than by name. -/
def known : List Kind :=
  [alignofExpression, assignmentExpression, binaryExpression, callExpression, castExpression,
    charLiteral, coAwaitExpression, commaExpression, compoundLiteralExpression,
    concatenatedString, conditionalExpression, deleteExpression, falseLiteral, fieldExpression,
    foldExpression, identifier, lambdaExpression, newExpression, null, nullptr, numberLiteral,
    offsetofExpression, parenthesizedExpression, pointerExpression, qualifiedIdentifier,
    rawStringLiteral, sizeofExpression, stringLiteral, subscriptExpression, templateFunction,
    this, trueLiteral, unaryExpression, updateExpression, userDefinedLiteral, error, comment,
    accessSpecifier, aliasDeclaration, enumSpecifier, friendDeclaration,
    namespaceAliasDefinition, parameterList, preprocCall, preprocDef, preprocFunctionDef,
    preprocInclude, staticAssertDeclaration, templateParameterList, typeDefinition,
    usingDeclaration, functionDefinition, declaration, fieldDeclaration, classSpecifier,
    structSpecifier, unionSpecifier, namespaceDefinition, preprocIf, preprocIfdef, preprocElif,
    preprocElifdef, preprocElse, initDeclarator, pointerDeclarator, referenceDeclarator,
    arrayDeclarator, parenthesizedDeclarator, attributedDeclarator, functionDeclarator,
    parameterDeclaration, optionalParameterDeclaration, fieldIdentifier, destructorName,
    operatorName, primitiveType, sizedTypeSpecifier, typeIdentifier, initializerList, equals,
    compoundStatement, ifStatement, whileStatement, switchStatement, doStatement, forStatement,
    forRangeLoop, returnStatement, conditionClause, conditionDeclaration]

def ofName (s : String) : Kind := (known.find? (·.name == s)).getD (.other s)

theorem name_ofName (s : String) : (ofName s).name = s := by
  cases h : known.find? (·.name == s) with
  | none => rw [ofName, h]; rfl
  | some kind =>
    have he := List.find?_some h
    simpa [ofName, h] using he

def isExpression : Kind → Bool
  | alignofExpression | assignmentExpression | binaryExpression | callExpression | castExpression
  | charLiteral | coAwaitExpression | commaExpression | compoundLiteralExpression
  | concatenatedString | conditionalExpression | deleteExpression | falseLiteral
  | fieldExpression | foldExpression | identifier | lambdaExpression | newExpression | null
  | nullptr | numberLiteral | offsetofExpression | parenthesizedExpression | pointerExpression
  | qualifiedIdentifier | rawStringLiteral | sizeofExpression | stringLiteral
  | subscriptExpression | templateFunction | this | trueLiteral | unaryExpression
  | updateExpression | userDefinedLiteral => true
  | _ => false

/-- Whether a node of this kind never contains declarations or expressions of interest. -/
def isSkipped : Kind → Bool
  | error | comment | accessSpecifier | aliasDeclaration | enumSpecifier | friendDeclaration
  | namespaceAliasDefinition | parameterList | preprocCall | preprocDef | preprocFunctionDef
  | preprocInclude | staticAssertDeclaration | templateParameterList | typeDefinition
  | usingDeclaration => true
  | _ => false

def isClass : Kind → Bool
  | classSpecifier | structSpecifier | unionSpecifier => true
  | _ => false

end Kind

end TruthLint.Cst
