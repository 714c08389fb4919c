import Onecli.Foundation.CodeUnits

/-!
# The grammar of GraphQL executable documents

The lexical and the syntactic grammar of the GraphQL specification, stated apart from the
scanner. `Lexed` relates a text to its tokens: ignored characters and comments may stand
between any two of them, and every token is followed by what its lookahead allows. A document
is a tree, and `Document.tokens` writes it down. Descriptions may stand before definitions.
-/

namespace Onecli.Graphql

/-- `Digit`. -/
def IsDigit (c : Char) : Prop := c.isDigit = true

/-- `NameStart`. -/
def IsNameStart (c : Char) : Prop := (c == '_' || c.isAlpha) = true

/-- `NameContinue`. -/
def IsNameContinue (c : Char) : Prop := (c == '_' || c.isAlphanum) = true

/-- `LineTerminator`. -/
def IsLineTerminator (c : Char) : Prop := c = '\n' ∨ c = '\r'

/-- `UnicodeBOM`, `WhiteSpace`, `LineTerminator` and `Comma`. -/
def IsIgnoredChar (c : Char) : Prop := c = '\uFEFF' ∨ c = '\t' ∨ c = ' ' ∨ IsLineTerminator c ∨ c = ','

instance : DecidablePred IsDigit := fun _ => inferInstanceAs (Decidable (_ = true))

instance : DecidablePred IsNameStart := fun _ => inferInstanceAs (Decidable (_ = true))

instance : DecidablePred IsNameContinue := fun _ => inferInstanceAs (Decidable (_ = true))

/-- The characters of a `Name`. -/
def IsName : List Char → Prop
  | [] => False
  | c :: cs => IsNameStart c ∧ ∀ d ∈ cs, IsNameContinue d

instance : DecidablePred IsName
  | [] => inferInstanceAs (Decidable False)
  | c :: cs => inferInstanceAs (Decidable (IsNameStart c ∧ ∀ d ∈ cs, IsNameContinue d))

/-- `Name`. -/
structure Name where
  text : List Char
  ok : IsName text

/-- A nonempty run of digits. -/
def IsDigits (s : List Char) : Prop := s ≠ [] ∧ ∀ c ∈ s, IsDigit c

/-- `IntegerPart`: no leading zero, and at most a minus sign. -/
def IsIntegerPart (s : List Char) : Prop :=
  ∃ sign digits, (sign = [] ∨ sign = ['-']) ∧ s = sign ++ digits ∧ IsDigits digits ∧
    (digits.head? = some '0' → digits = ['0'])

/-- `FractionalPart`. -/
def IsFractionalPart (s : List Char) : Prop := ∃ digits, s = '.' :: digits ∧ IsDigits digits

/-- `ExponentPart`. -/
def IsExponentPart (s : List Char) : Prop :=
  ∃ e sign digits, (e = 'e' ∨ e = 'E') ∧ (sign = [] ∨ sign = ['+'] ∨ sign = ['-']) ∧
    s = e :: (sign ++ digits) ∧ IsDigits digits

/-- `IntValue` and `FloatValue`. -/
inductive IsNumber : List Char → Prop where
  | int {i : List Char} (hi : IsIntegerPart i) : IsNumber i
  | fraction {i f : List Char} (hi : IsIntegerPart i) (hf : IsFractionalPart f) : IsNumber (i ++ f)
  | exponent {i x : List Char} (hi : IsIntegerPart i) (hx : IsExponentPart x) : IsNumber (i ++ x)
  | both {i f x : List Char} (hi : IsIntegerPart i) (hf : IsFractionalPart f)
      (hx : IsExponentPart x) : IsNumber (i ++ f ++ x)

/-- `HexDigit`. -/
def IsHexDigit (c : Char) : Prop := IsDigit c ∨ c ∈ ['a', 'b', 'c', 'd', 'e', 'f', 'A', 'B', 'C', 'D', 'E', 'F']

instance : DecidablePred IsHexDigit := fun _ => inferInstanceAs (Decidable (_ ∨ _))

/-- `StringCharacter`. -/
inductive StringChar where
  | plain (c : Char) (hquote : c ≠ '"') (hback : c ≠ '\\') (hline : ¬ IsLineTerminator c)
  | unicode (a b c d : { c : Char // IsHexDigit c })
  | unicodeBraced (digits : List { c : Char // IsHexDigit c }) (hne : digits ≠ [])
  | escaped (c : Char) (hc : c ∈ ['"', '\\', '/', 'b', 'f', 'n', 'r', 't'])

/-- The source text of a string character. -/
def StringChar.text : StringChar → List Char
  | .plain c _ _ _ => [c]
  | .unicode a b c d => ['\\', 'u', a.1, b.1, c.1, d.1]
  | .unicodeBraced digits _ => '\\' :: 'u' :: '{' :: (digits.map Subtype.val ++ ['}'])
  | .escaped c _ => ['\\', c]

/-- `BlockStringCharacter`. -/
inductive BlockChar where
  | plain (c : Char)
  | escapedQuotes

/-- The source text of block string characters. -/
def blockText : List BlockChar → List Char
  | [] => []
  | .plain c :: cs => c :: blockText cs
  | .escapedQuotes :: cs => '\\' :: '"' :: '"' :: '"' :: blockText cs

/-- A plain character of a block string starts neither the closing quotes nor an escape. -/
def BlockOk : List BlockChar → Prop
  | [] => True
  | .plain c :: cs =>
    ¬ ['"', '"', '"'] <+: c :: (blockText cs ++ ['"', '"', '"']) ∧
      ¬ ['\\', '"', '"', '"'] <+: c :: (blockText cs ++ ['"', '"', '"']) ∧ BlockOk cs
  | .escapedQuotes :: cs => BlockOk cs

/-- `StringValue`. -/
inductive StringValue where
  | quoted (contents : List StringChar)
  | block (contents : List BlockChar) (hok : BlockOk contents)

/-- The source text of a string. -/
def StringValue.text : StringValue → List Char
  | .quoted contents => '"' :: (contents.flatMap StringChar.text ++ ['"'])
  | .block contents _ => ['"', '"', '"'] ++ (blockText contents ++ ['"', '"', '"'])

/-- `Punctuator`. -/
inductive Punctuator where
  | bang | dollar | amp | parenL | parenR | spread | colon | equals | at
  | bracketL | bracketR | braceL | pipe | braceR
  deriving DecidableEq

/-- The source text of a punctuator. -/
def Punctuator.text : Punctuator → List Char
  | .bang => ['!'] | .dollar => ['$'] | .amp => ['&'] | .parenL => ['('] | .parenR => [')']
  | .spread => ['.', '.', '.'] | .colon => [':'] | .equals => ['='] | .at => ['@']
  | .bracketL => ['['] | .bracketR => [']'] | .braceL => ['{'] | .pipe => ['|'] | .braceR => ['}']

/-- `Token`. -/
inductive Token where
  | punct (p : Punctuator)
  | name (n : Name)
  | number (s : List Char) (hs : IsNumber s)
  | string (s : StringValue)

/-- The source text of a token. -/
def Token.text : Token → List Char
  | .punct p => p.text
  | .name n => n.text
  | .number s _ => s
  | .string s => s.text

/-- The lookahead restriction of a token: names and numbers are as long as they can be, and
an empty string is not the beginning of a block string. -/
def Token.Allows : Token → List Char → Prop
  | .punct _, _ => True
  | .name _, rest => ∀ c ∈ rest.head?, ¬ IsNameContinue c
  | .number _ _, rest => ∀ c ∈ rest.head?, ¬ (IsDigit c ∨ c = '.' ∨ IsNameStart c)
  | .string (.quoted []), rest => rest.head? ≠ some '"'
  | .string _, _ => True

/-- The text derives the tokens, with ignored characters and comments anywhere between. -/
inductive Lexed : List Token → List Char → Prop where
  | nil : Lexed [] []
  | ignored {ts : List Token} {s : List Char} (c : Char) (hc : IsIgnoredChar c) (hs : Lexed ts s) :
      Lexed ts (c :: s)
  | comment {ts : List Token} {s : List Char} (body : List Char)
      (hbody : ∀ c ∈ body, ¬ IsLineTerminator c) (hend : ∀ c ∈ s.head?, IsLineTerminator c)
      (hs : Lexed ts s) : Lexed ts ('#' :: (body ++ s))
  | token {ts : List Token} {s : List Char} (t : Token) (ht : t.Allows s) (hs : Lexed ts s) :
      Lexed (t :: ts) (t.text ++ s)

/-- A name that the grammar writes out. -/
def keyword (s : String) (h : IsName s.toList) : Token := .name ⟨s.toList, h⟩

mutual

/-- `Value`. -/
inductive Value where
  | variable (n : Name)
  | number (s : List Char) (hs : IsNumber s)
  | string (s : StringValue)
  | boolean (b : Bool)
  | null
  | enum (n : Name) (hn : n.text ∉ ["true".toList, "false".toList, "null".toList])
  | list (items : Values)
  | object (fields : ObjectFields)

/-- The items of a `ListValue`. -/
inductive Values where
  | nil
  | cons (v : Value) (rest : Values)

/-- The fields of an `ObjectValue`. -/
inductive ObjectFields where
  | nil
  | cons (n : Name) (v : Value) (rest : ObjectFields)

end

mutual

/-- A value as tokens. -/
def Value.tokens : Value → List Token
  | .variable n => [.punct .dollar, .name n]
  | .number s hs => [.number s hs]
  | .string s => [.string s]
  | .boolean true => [keyword "true" (by decide)]
  | .boolean false => [keyword "false" (by decide)]
  | .null => [keyword "null" (by decide)]
  | .enum n _ => [.name n]
  | .list items => .punct .bracketL :: (items.tokens ++ [.punct .bracketR])
  | .object fields => .punct .braceL :: (fields.tokens ++ [.punct .braceR])

/-- List items as tokens. -/
def Values.tokens : Values → List Token
  | .nil => []
  | .cons v rest => v.tokens ++ rest.tokens

/-- Object fields as tokens. -/
def ObjectFields.tokens : ObjectFields → List Token
  | .nil => []
  | .cons n v rest => .name n :: .punct .colon :: (v.tokens ++ rest.tokens)

end

/-- `Type`. -/
inductive TypeRef where
  | named (n : Name)
  | list (t : TypeRef)
  | nonNullNamed (n : Name)
  | nonNullList (t : TypeRef)

/-- A type as tokens. -/
def TypeRef.tokens : TypeRef → List Token
  | .named n => [.name n]
  | .list t => .punct .bracketL :: (t.tokens ++ [.punct .bracketR])
  | .nonNullNamed n => [.name n, .punct .bang]
  | .nonNullList t => .punct .bracketL :: (t.tokens ++ [.punct .bracketR, .punct .bang])

/-- Something between parentheses, which are left out when there is nothing. -/
def parenthesized (ts : List Token) : List Token :=
  if ts.isEmpty then [] else .punct .parenL :: (ts ++ [.punct .parenR])

/-- `Arguments`; without any there are no parentheses either. -/
def argumentsTokens (arguments : List (Name × Value)) : List Token :=
  parenthesized (arguments.flatMap fun (n, v) => .name n :: .punct .colon :: v.tokens)

/-- `Directive`. -/
structure Directive where
  name : Name
  arguments : List (Name × Value)

/-- `Directives`. -/
def directivesTokens (directives : List Directive) : List Token :=
  directives.flatMap fun d => .punct .at :: .name d.name :: argumentsTokens d.arguments

/-- `FragmentName`: a name other than `on`. -/
structure FragmentName where
  name : Name
  ne_on : name.text ≠ "on".toList

/-- `TypeCondition`. -/
def typeConditionTokens (n : Name) : List Token := [keyword "on" (by decide), .name n]

mutual

/-- `Selection`; a field with a selection set is a constructor of its own. -/
inductive Selection where
  | leaf (aliasName : Option Name) (name : Name) (arguments : List (Name × Value))
      (directives : List Directive)
  | field (aliasName : Option Name) (name : Name) (arguments : List (Name × Value))
      (directives : List Directive) (selections : SelectionSet)
  | spread (name : FragmentName) (directives : List Directive)
  | inline (on : Option Name) (directives : List Directive) (selections : SelectionSet)

/-- `SelectionSet`, which is never empty. -/
inductive SelectionSet where
  | one (s : Selection)
  | cons (s : Selection) (rest : SelectionSet)

end

/-- An alias before a field name. -/
def aliasTokens : Option Name → List Token
  | none => []
  | some n => [.name n, .punct .colon]

/-- A field without its selection set. -/
def fieldTokens (aliasName : Option Name) (name : Name) (arguments : List (Name × Value))
    (directives : List Directive) : List Token :=
  aliasTokens aliasName ++ (.name name :: (argumentsTokens arguments ++ directivesTokens directives))

mutual

/-- A selection as tokens. -/
def Selection.tokens : Selection → List Token
  | .leaf aliasName name arguments directives => fieldTokens aliasName name arguments directives
  | .field aliasName name arguments directives selections =>
    fieldTokens aliasName name arguments directives ++ (.punct .braceL :: (selections.tokens ++ [.punct .braceR]))
  | .spread name directives => .punct .spread :: .name name.name :: directivesTokens directives
  | .inline on directives selections =>
    .punct .spread :: ((on.elim [] typeConditionTokens ++ directivesTokens directives) ++
      (.punct .braceL :: (selections.tokens ++ [.punct .braceR])))

/-- The selections between the braces as tokens. -/
def SelectionSet.tokens : SelectionSet → List Token
  | .one s => s.tokens
  | .cons s rest => s.tokens ++ rest.tokens

end

/-- `SelectionSet` with its braces. -/
def braced (selections : SelectionSet) : List Token := .punct .braceL :: (selections.tokens ++ [.punct .braceR])

/-- `Description`. -/
def descriptionTokens : Option StringValue → List Token
  | none => []
  | some s => [.string s]

/-- `VariableDefinition`. -/
structure VariableDefinition where
  description : Option StringValue
  name : Name
  type : TypeRef
  defaultValue : Option Value
  directives : List Directive

/-- A variable definition as tokens. -/
def VariableDefinition.tokens (v : VariableDefinition) : List Token :=
  descriptionTokens v.description ++ (.punct .dollar :: .name v.name :: .punct .colon ::
    (v.type.tokens ++ (v.defaultValue.elim [] fun d => .punct .equals :: d.tokens) ++ directivesTokens v.directives))

/-- `OperationType`. -/
inductive OperationType where
  | query
  | mutation
  | subscription
  deriving DecidableEq

/-- An operation type as a token. -/
def OperationType.token : OperationType → Token
  | .query => keyword "query" (by decide)
  | .mutation => keyword "mutation" (by decide)
  | .subscription => keyword "subscription" (by decide)

/-- `ExecutableDefinition`. -/
inductive Definition where
  | shorthand (selections : SelectionSet)
  | operation (description : Option StringValue) (type : OperationType) (name : Option Name)
      (variableDefinitions : List VariableDefinition) (directives : List Directive)
      (selections : SelectionSet)
  | fragment (description : Option StringValue) (name : FragmentName) (on : Name)
      (directives : List Directive) (selections : SelectionSet)

/-- What stands between the keyword of a definition and its selection set. -/
def Definition.header : Definition → List Token
  | .shorthand _ => []
  | .operation _ _ name variableDefinitions directives _ =>
    name.elim [] (fun n => [.name n]) ++
      parenthesized (variableDefinitions.flatMap VariableDefinition.tokens) ++ directivesTokens directives
  | .fragment _ name on directives _ => .name name.name :: (typeConditionTokens on ++ directivesTokens directives)

/-- A definition as tokens. -/
def Definition.tokens : Definition → List Token
  | .shorthand selections => braced selections
  | d@(.operation description type _ _ _ selections) =>
    descriptionTokens description ++ (type.token :: (d.header ++ braced selections))
  | d@(.fragment description _ _ _ selections) =>
    descriptionTokens description ++ (keyword "fragment" (by decide) :: (d.header ++ braced selections))

/-- The type of an operation definition; the shorthand is a query, a fragment has none. -/
def Definition.operationType : Definition → Option OperationType
  | .shorthand _ => some .query
  | .operation _ type _ _ _ _ => some type
  | .fragment _ _ _ _ _ => none

/-- An executable document: one definition or more. -/
structure Document where
  definitions : List Definition
  nonempty : definitions ≠ []

/-- A document as tokens. -/
def Document.tokens (doc : Document) : List Token := doc.definitions.flatMap Definition.tokens

/-- The document has an operation. -/
def Document.HasOperation (doc : Document) : Prop := ∃ d ∈ doc.definitions, d.operationType ≠ none

/-- Every operation of the document is a query. -/
def Document.OnlyQueries (doc : Document) : Prop := ∀ d ∈ doc.definitions, ∀ type ∈ d.operationType, type = .query

end Onecli.Graphql
