/-
# The shapes of declarations

Declarations are found by the shape of their text alone.  Every shape is a pattern with numbered
groups, applied to the raw text of a unit; a match inside a string or a comment counts as well.
A guard beside a shape refuses matches that only look like a declaration.
-/
import Survey.Pattern.Search
import Survey.Text.Substring

namespace Survey.Shape

open Survey.Pattern

/-! ### Packages and imports -/

/-- A package clause; group 1 is the name of the package. -/
def packageClause : Pattern :=
  wordBoundary ++ lit "package" ++ run Text.isBlank 1 ++ group 1 (allBefore ';' 1) ++ lit ";"

/-- An import; group 1 marks a static one, group 2 is what is imported. -/
def importClause : Pattern :=
  wordBoundary ++ lit "import" ++ run Text.isBlank 1 ++
    optional (group 1 (lit "static" ++ run Text.isBlank 1)) ++
    group 2 (allBefore ';' 1) ++ lit ";"

/-! ### Types -/

/-- Any number of the given keywords, blanks behind each. -/
def keywords (words : List String) : Pattern := rounds (oneOf words ++ blanks) .most

/-- Type arguments up to the first closing bracket, with no brace in between. -/
def typeArguments : Pattern :=
  anyBlanks ++ lit "<" ++ all (fun c => c != '>' && c != '{') 0 ++ lit ">"

/-- Whether a character may stand in a dotted name. -/
def isDottedChar (c : Char) : Bool := Text.isWordChar c || c == '.'

/-- A dotted name with optional type arguments. -/
def extendedType : Pattern := all isDottedChar 1 ++ optional typeArguments

/-- Whether a character may stand in a list of implemented types. -/
def isImplementsChar (c : Char) : Bool :=
  Text.isWordChar c || Text.isBlank c ||
    c == ',' || c == '.' || c == '<' || c == '>' || c == '?' || c == '[' || c == ']'

/-- The head of a type declaration: group 1 holds the modifiers, group 2 the keyword of the kind,
group 3 the name, group 4 the extended types, group 5 the implemented types. -/
def typeDeclaration : Pattern :=
  wordBoundary ++
  group 1 (keywords
    ["public", "private", "protected", "static", "final", "abstract", "strictfp"]) ++
  group 2 (oneOf ["class", "interface", "enum"]) ++ blanks ++ group 3 name ++
  optional typeArguments ++
  optional (blanks ++ lit "extends" ++ blanks ++
    group 4 (extendedType ++
      rounds (anyBlanks ++ lit "," ++ anyBlanks ++ extendedType) .most)) ++
  optional (blanks ++ lit "implements" ++ run Text.isBlank 1 ++ group 5 (all isImplementsChar 1))

/-! ### Members -/

/-- A type in front of a member: a word, with square brackets or type arguments up to the first
closing bracket. -/
def memberType : Pattern :=
  name ++ optional (either (lit "[]") (lit "<" ++ allBefore '>' 1 ++ lit ">"))

/-- Whether a character may stand in a list of thrown types. -/
def isThrowsChar (c : Char) : Bool :=
  Text.isWordChar c || Text.isBlank c || c == ',' || c == '.' || c == '<' || c == '>'

/-- The head of a method: group 1 holds the modifiers, group 2 the return type, group 3 the name,
group 4 the parameters, group 5 the thrown types. -/
def method : Pattern :=
  group 1 (keywords
    ["public", "private", "protected", "static", "final", "abstract", "synchronized", "native",
     "default", "strictfp"]) ++
  group 2 memberType ++ blanks ++ group 3 name ++ anyBlanks ++
  lit "(" ++ group 4 (allBefore ')' 0) ++ lit ")" ++
  optional (anyBlanks ++ lit "throws" ++ run Text.isBlank 1 ++ group 5 (all isThrowsChar 1))

/-- A field: group 1 holds the modifiers, group 2 the type, group 3 the name, group 4 the initial
value. -/
def field : Pattern :=
  group 1 (keywords
    ["public", "private", "protected", "static", "final", "transient", "volatile"]) ++
  group 2 memberType ++ blanks ++ group 3 name ++
  optional (anyBlanks ++ lit "=" ++ run Text.isBlank 0 ++ group 4 (allBefore ';' 1)) ++ lit ";"

/-- An annotation; group 1 is its name. -/
def annotationMark : Pattern :=
  lit "@" ++ group 1 name ++ optional (lit "(" ++ allBefore ')' 0 ++ lit ")")

/-- A name in front of an opening parenthesis: group 2 is the name, and group 1 takes part when
the name belongs to the creation of an object. -/
def call : Pattern :=
  optional (group 1 (wordBoundary ++ lit "new" ++ blanks ++ run isDottedChar 0)) ++
  wordBoundary ++
  group 2 (one (fun c => Text.isLetter c || c == '_') ++ all Text.isWordChar 0) ++
  anyBlanks ++ lit "("

/-! ### Marks of the framework -/

/-- An `extends` clause that leads to the given word on the same line. -/
def extending (word : String) : Pattern :=
  lit "extends" ++ blanks ++ run (· != '\n') 0 ++ lit word

/-- A unit with a request handler. -/
def actionHandler : Pattern := extending "Action"

/-- A unit with a form bean. -/
def formBeanClass : Pattern := extending "ActionForm"

/-- A unit with a remote servant. -/
def remoteServant : Pattern := extending "POA"

/-- Parameter types that mark a request handler. -/
def actionContextTypes : List String := ["ActionMapping", "ActionForm"]

/-- Method names that mark a request handler. -/
def actionMethodNames : List String := ["execute", "perform"]

/-- Texts that mark a part of a remote contract. -/
def remoteMarkers : List String := ["org.omg.CORBA", "CORBA"]

/-- Whether a name is longer than an ending and has it. -/
def hasProperEnding (ending : String) (name : List Char) : Bool :=
  ending.toList.length < name.length && ending.toList.isSuffixOf name

/-- Whether a type is a remote helper by its name. -/
def isHelperName (name : List Char) : Bool := hasProperEnding "Helper" name

/-- Whether a type is a remote holder by its name. -/
def isHolderName (name : List Char) : Bool := hasProperEnding "Holder" name

/-! ### Guards -/

/-- Keywords that declare a type, and so are no type of a member. -/
def declarationKeywords : List String := ["class", "interface", "enum"]

/-- Keywords of statements and clauses that stand where a type would. -/
def statementKeywords : List String :=
  ["new", "return", "throw", "else", "case", "package", "import", "goto", "assert", "break",
   "continue", "yield", "instanceof"]

/-- Whether a word cannot be the type of a member. -/
def isRejectedType (word : String) : Bool :=
  declarationKeywords.contains word || statementKeywords.contains word

/-- Keywords that stand in front of a parenthesis and call nothing. -/
def nonCallKeywords : List String :=
  ["if", "for", "while", "switch", "catch", "synchronized", "return", "throw", "super", "this",
   "assert"]

/-- Keywords of visibility; in front of a constructor one stands where a return type would. -/
def visibilityKeywords : List String := ["public", "private", "protected"]

end Survey.Shape
