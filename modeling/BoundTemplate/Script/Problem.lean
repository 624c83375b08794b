import BoundTemplate.Text.Bytes

/-!
# Problems of a script

Each way in which a script can be wrong is a constructor of `Problem`. A
diagnostic is a problem at an offset of the script, and `Problem.message` holds
all of the wording.
-/

namespace BoundTemplate.Script

/-- A way in which a script is wrong. -/
inductive Problem where
  /-- No rule allows the token. -/
  | unexpectedToken
  /-- An element of a list is followed neither by a comma nor by the end of the list. -/
  | separatorExpected (closer found : String)
  /-- Another token is required. -/
  | tokenExpected (wanted found : String)
  /-- A statement goes on where it has to end. -/
  | semicolonExpected
  /-- A question mark and a dot are followed by nothing that can be accessed. -/
  | memberExpected
  /-- Parentheses enclose nothing. -/
  | emptyParentheses
  /-- Parentheses enclose an expression and a comma. -/
  | parenthesizedComma
  /-- A property of `new` other than its target. -/
  | newProperty
  /-- A property of `import` other than `meta`. -/
  | importProperty
  /-- An import call without a module. -/
  | importWithoutModule
  /-- An import call with too many arguments. -/
  | importArguments
  /-- An import call is constructed. -/
  | newImport
  /-- A construction goes on as an optional chain. -/
  | newOptionalChain
  /-- The expression cannot be assigned to. -/
  | assignmentTarget
  /-- A value to fall back on is given by an operator that does more than assign. -/
  | defaultOperator
  /-- What is left of an object is taken apart. -/
  | restTarget
  /-- A property of an object literal is initialised as in a pattern. -/
  | patternInitialiser
  /-- Coalescing is mixed with another logical operator. -/
  | mixedCoalescing
  /-- A private name is an operand where no operator `in` can follow. -/
  | lonePrivateName
  /-- A type is asserted of an expression, by the operator `satisfies` or by `as`. -/
  | typeOperator (satisfying : Bool)
  /-- An element of a markup language is used as an expression. -/
  | markupExpression
  /-- The base of a power is a unary expression. -/
  | powerOfUnary
  /-- The word `super` stands alone. -/
  | loneSuper
  /-- A function that is declared has no name. -/
  | functionNameExpected
  /-- A method has no body. -/
  | bodyExpected
  /-- A string or a template does not end. -/
  | unterminatedString
  /-- A comment does not end. -/
  | unterminatedComment
  /-- A pattern between slashes does not end. -/
  | unterminatedPattern
  /-- A flag behind a pattern is unknown or repeated. -/
  | patternFlag (flag : Char)
  /-- Two flags behind a pattern exclude each other. -/
  | patternFlags
  /-- An escape sequence in a string is wrong. -/
  | escapeSequence
  /-- An escape sequence in a name is wrong. -/
  | nameEscape
  /-- An escape sequence in a template without a tag is wrong. -/
  | templateEscape
  /-- No token starts with or goes on with the character. -/
  | character (c : Char)
  /-- The script ends inside a token. -/
  | endOfScript
  /-- A number runs into a name or a digit. -/
  | numberEnd
  /-- A number has an exponent without digits. -/
  | numberValue
  /-- A line marks a conflict between two versions of the script. -/
  | conflictMarker
  /-- A template with a tag belongs to an optional chain. -/
  | taggedOptionalChain
  /-- An arrow starts a line. -/
  | lineBeforeArrow
  /-- A word of the language is written with an escape sequence. -/
  | escapedWord
  /-- `await` outside of an asynchronous function. -/
  | awaitOutside
  /-- `yield` outside of a generator. -/
  | yieldOutside
  /-- `await` or `yield` names something where it is an operator. -/
  | operatorAsName (word place : String)
  /-- A word that is never a name is declared. -/
  | reservedName (word : String)
  /-- A spread element is not the last one of a pattern. -/
  | spreadNotLast
  /-- A rest element is not the last one of a pattern. -/
  | restNotLast
  /-- A rest parameter is not the last one. -/
  | restParameterNotLast
  /-- A rest element is followed by a comma. -/
  | restComma
  /-- A rest element has a value to fall back on. -/
  | restInitialiser
  /-- A rest element of an object pattern is a pattern. -/
  | restPattern
  /-- A parameter has a modifier. -/
  | parameterModifier
  /-- A decorator stands where nothing is decorated. -/
  | misplacedDecorator
  /-- A decorator is an optional chain. -/
  | decoratorChain
  /-- A getter has parameters. -/
  | getterParameters
  /-- A setter does not have exactly one parameter. -/
  | setterParameters
  /-- A setter has a rest parameter. -/
  | setterRest
  /-- A second modifier says from where a member may be accessed. -/
  | repeatedAccessibility
  /-- A modifier is repeated. -/
  | repeatedModifier (modifier : String)
  /-- A modifier stands behind another one that it has to precede. -/
  | modifierOrder (modifier later : String)
  /-- A modifier stands where it means nothing. -/
  | misplacedModifier (modifier : String)
  /-- A modifier of another kind of declaration stands in front of a member of a class. -/
  | memberModifier (modifier : String)
  /-- A method cannot be written to, so it is not marked as such. -/
  | readonlyMethod
  /-- A modifier excludes the modifier `accessor`. -/
  | accessorModifier (modifier : String)
  /-- A member of a class is marked as a constant. -/
  | constantMember
  /-- A property has a value and is marked as abstract. -/
  | abstractInitialiser (key : String)
  /-- A method or an accessor has a body and is marked as abstract. -/
  | abstractBody (accessor : Bool) (key : String)
  /-- A constructor is a generator. -/
  | generatorConstructor
  /-- A constructor is asynchronous. -/
  | asyncConstructor
  /-- A constructor is a getter or a setter. -/
  | accessorConstructor
  /-- A field has the name of the constructor. -/
  | constructorField
  /-- A field with a getter and a setter has the name of the constructor. -/
  | constructorAccessor
  /-- A private member has the name of the constructor. -/
  | privateConstructor
  /-- A static member has the name of the prototype. -/
  | staticPrototype
  /-- A class extends more than one class. -/
  | secondSuperclass
  /-- The word `extends` or `implements` stands twice in front of a class. -/
  | repeatedClause (word : String)
  /-- What a class extends is written behind what it implements. -/
  | clauseOrder
  /-- A declaration of variables of a block stands where only a statement may. -/
  | lexicalDeclaration
  /-- A class is declared where only a statement may stand. -/
  | classDeclaration
  /-- A generator is declared where only a statement may stand. -/
  | generatorDeclaration
  /-- An asynchronous function is declared where only a statement may stand. -/
  | asyncDeclaration
  /-- A declaration of a constant has no value. -/
  | uninitialisedConstant
  /-- A declaration of a pattern has no value. -/
  | uninitialisedPattern
  /-- A resource is declared by a pattern. -/
  | usingPattern
  /-- A declaration of a resource has no value. -/
  | usingInitialiser
  /-- A resource is named by an operator. -/
  | usingAwait
  /-- A resource is declared by a case of a `switch`. -/
  | usingInCase
  /-- A resource is declared by a loop over keys. -/
  | usingOverKeys (awaited : Bool)
  /-- A loop other than one over values awaits. -/
  | awaitLoop
  /-- A loop over values starts with a word that would declare its variable. -/
  | loopTarget (word : String)
  /-- A string names something that the module itself exports. -/
  | exportedString
  /-- A word that is never a name names something that the module itself exports. -/
  | exportedWord
  /-- A result is returned by something that is no function. -/
  | returnOutside
  /-- A thrown value is on another line. -/
  | lineAfterThrow
  /-- A `try` has neither a handler nor a finalizer. -/
  | handlerExpected
  /-- A `switch` goes on with something that is no case. -/
  | caseExpected
  /-- The script is nested more deeply than it is long. -/
  | tooDeep
  deriving DecidableEq, Repr

/-- The wording of a problem. -/
def Problem.message : Problem → String
  | .unexpectedToken => "Unexpected token"
  | .separatorExpected closer found =>
    "Expected `,` or `" ++ closer ++ "` but found `" ++ found ++ "`"
  | .tokenExpected wanted found => "Expected `" ++ wanted ++ "` but found `" ++ found ++ "`"
  | .semicolonExpected =>
    "Expected a semicolon or an implicit semicolon after a statement, but found none"
  | .memberExpected => "Identifier expected after '?.'"
  | .emptyParentheses => "Empty parenthesized expression"
  | .parenthesizedComma => "Parenthesized expressions may not have a trailing comma."
  | .newProperty => "The only valid meta property for new is new.target"
  | .importProperty => "The only valid meta property for import is import.meta"
  | .importWithoutModule => "import() requires a specifier."
  | .importArguments =>
    "Dynamic imports can only accept a module specifier and an optional set of attributes "
      ++ "as arguments"
  | .newImport => "Cannot use new with dynamic import"
  | .newOptionalChain => "Invalid optional chain from new expression."
  | .assignmentTarget => "Cannot assign to this expression"
  | .defaultOperator => "Only '=' operator can be used for specifying default value."
  | .restTarget => "Invalid rest operator's argument."
  | .patternInitialiser => "Invalid assignment in object literal"
  | .mixedCoalescing => "Logical expressions and coalesce expressions cannot be mixed"
  | .lonePrivateName => "Unexpected private identifier"
  | .typeOperator satisfying =>
    "Type " ++ (if satisfying then "satisfaction" else "assertion")
      ++ " expressions can only be used in TypeScript files."
  | .markupExpression => "Unexpected JSX expression"
  | .powerOfUnary => "Unexpected exponentiation expression"
  | .loneSuper => "'super' can only be used with function calls or in property accesses"
  | .functionNameExpected => "Expected function name"
  | .bodyExpected => "Expected function body"
  | .unterminatedString => "Unterminated string"
  | .unterminatedComment => "Unterminated multiline comment"
  | .unterminatedPattern => "Unterminated regular expression"
  | .patternFlag flag => "Unexpected flag " ++ flag.toString ++ " in regular expression literal"
  | .patternFlags =>
    "The 'u' and 'v' regular expression flags cannot be enabled at the same time"
  | .escapeSequence => "Invalid escape sequence"
  | .nameEscape => "Invalid Unicode escape sequence"
  | .templateEscape => "Bad escape sequence in untagged template literal"
  | .character c => "Invalid Character `" ++ c.toString ++ "`"
  | .endOfScript => "Unexpected end of file"
  | .numberEnd => "Invalid characters after number"
  | .numberValue => "Invalid Number invalid float"
  | .conflictMarker => "Encountered diff marker"
  | .taggedOptionalChain => "Tagged template expressions are not permitted in an optional chain"
  | .lineBeforeArrow => "Line terminator not permitted before arrow"
  | .escapedWord => "Keywords cannot contain escape characters"
  | .awaitOutside =>
    "`await` is only allowed within async functions and at the top levels of modules"
  | .yieldOutside => "A 'yield' expression is only allowed in a generator body."
  | .operatorAsName word place =>
    "Cannot use `" ++ word ++ "` as an identifier in " ++ place ++ " context"
  | .reservedName word =>
    "Identifier expected. '" ++ word ++ "' is a reserved word that cannot be used here."
  | .spreadNotLast => "Spread must be last element"
  | .restNotLast => "A rest element must be last in a destructuring pattern"
  | .restParameterNotLast => "A rest parameter must be last in a parameter list"
  | .restComma => "A rest parameter or binding pattern may not have a trailing comma."
  | .restInitialiser => "A rest element cannot have an initializer."
  | .restPattern => "Invalid rest element"
  | .parameterModifier => "Parameter modifiers can only be used in TypeScript files."
  | .misplacedDecorator => "Decorators are not valid here."
  | .decoratorChain => "Expression must be enclosed in parentheses to be used as a decorator."
  | .getterParameters => "A 'get' accessor must not have any formal parameters."
  | .setterParameters => "A 'set' accessor must have exactly one parameter."
  | .setterRest => "A 'set' accessor cannot have rest parameter."
  | .repeatedAccessibility => "Accessibility modifier already seen."
  | .repeatedModifier modifier => "'" ++ modifier ++ "' modifier already seen."
  | .modifierOrder modifier later =>
    "'" ++ modifier ++ "' modifier must precede '" ++ later ++ "' modifier."
  | .misplacedModifier modifier => "'" ++ modifier ++ "' modifier cannot be used here."
  | .memberModifier modifier =>
    "'" ++ modifier ++ "' modifier cannot appear on class elements of this kind."
  | .readonlyMethod =>
    "'readonly' modifier can only appear on a property declaration or index signature."
  | .accessorModifier modifier =>
    "'accessor' modifier cannot be used with '" ++ modifier ++ "' modifier."
  | .constantMember => "A class member cannot have the 'const' keyword."
  | .abstractInitialiser key =>
    "Property '" ++ key ++ "' cannot have an initializer because it is marked abstract."
  | .abstractBody accessor key =>
    (if accessor then "Accessor" else "Method") ++ " '" ++ key
      ++ "' cannot have an implementation because it is marked abstract."
  | .generatorConstructor => "Constructor can't be a generator"
  | .asyncConstructor => "Constructor can't be an async method"
  | .accessorConstructor => "Constructor can't have get/set modifier"
  | .constructorField => "Classes can't have a field named 'constructor'"
  | .constructorAccessor => "Classes may not have a field named 'constructor'"
  | .privateConstructor => "Classes can't have an element named '#constructor'"
  | .staticPrototype => "Classes may not have a static property named 'prototype'"
  | .secondSuperclass => "Classes can only extend a single class."
  | .repeatedClause word => "'" ++ word ++ "' clause already seen"
  | .clauseOrder => "'extends' clause must precede 'implements' clause"
  | .lexicalDeclaration => "Lexical declaration cannot appear in a single-statement context"
  | .classDeclaration => "Invalid class declaration"
  | .generatorDeclaration => "Generators can only be declared at the top level or inside a block"
  | .asyncDeclaration =>
    "Async functions can only be declared at the top level or inside a block"
  | .uninitialisedConstant => "Missing initializer in const declaration"
  | .uninitialisedPattern => "Missing initializer in destructuring declaration"
  | .usingPattern => "Using declarations may not have binding patterns."
  | .usingInitialiser => "Using declarations must have an initializer."
  | .usingAwait => "The identifier 'await' is not allowed in using declarations."
  | .usingInCase => "Using declaration cannot appear in the bare case statement."
  | .usingOverKeys awaited =>
    "The left-hand side of a for...in statement cannot be an "
      ++ (if awaited then "await using" else "using") ++ " declaration."
  | .awaitLoop => "await can only be used in conjunction with `for...of` statements"
  | .loopTarget "let" =>
    "The left-hand side of a `for...of` statement may not start with `let`"
  | .loopTarget word => "The left-hand side of a `for...of` statement may not be `" ++ word ++ "`"
  | .exportedString =>
    "A string literal cannot be used as an exported binding without `from`"
  | .exportedWord => "A reserved word cannot be used as an exported binding without `from`"
  | .returnOutside => "A 'return' statement can only be used within a function body."
  | .lineAfterThrow => "Illegal newline after throw"
  | .handlerExpected => "Missing catch or finally clause"
  | .caseExpected => "Expected switch clause"
  | .tooDeep => "Script is nested too deeply"

/-- A problem and the offset of the text it is about. -/
structure Diagnostic where
  /-- What is wrong. -/
  problem : Problem
  /-- Where it is wrong. -/
  offset : Nat
  deriving DecidableEq, Repr

end BoundTemplate.Script
