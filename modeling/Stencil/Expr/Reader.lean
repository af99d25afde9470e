import Stencil.Expr.Literal

/-!
# Reading expressions

The grammar of expressions and simple statements, by recursive descent over the tokens that carry
meaning. The levels bind, from the loosest: a choice, `or`, `and`, `not`, chained comparisons, sums,
products, signs, powers, and then attributes, calls and subscripts.

Every reader takes the tokens that are left and gives back a tree and the tokens after it. The
readers call one another through a budget that each call lowers by one. A reader takes a token
before it comes back to the loosest level, so a budget of a constant for each token is enough; a
reader without budget refuses the next token.
-/

namespace Stencil

open Stencil.Text

/-- Why a text is no expression. -/
inductive SyntaxCause where
  /-- A quote has no partner. -/
  | openQuote (fault : OpenQuote)
  | unexpected (text : List Char)
  | unexpectedEnd
  | expected (word : String)
  | expectedIdentifier
  | expectedAttribute
  | expectedDictColon
  | expectedParameters
  | literal (fault : LiteralFault)
  | repeatedArgument (name : String)
  | positionalAfterNamed
  | duplicateParameter (name : String)
  | defaultOrder
  | augmentedTarget
  | notAssignable
  deriving DecidableEq, Repr

/-- The wording of a cause. -/
def SyntaxCause.message : SyntaxCause → String
  | .openQuote fault => fault.message
  | .unexpected text => "unexpected `" ++ String.ofList text ++ "`"
  | .unexpectedEnd => "unexpected end of expression"
  | .expected word => "expected `" ++ word ++ "`"
  | .expectedIdentifier => "expected an identifier"
  | .expectedAttribute => "expected an attribute name after `.`"
  | .expectedDictColon => "expected `:` in dict literal"
  | .expectedParameters => "expected `(` after the function name"
  | .literal fault => fault.message
  | .repeatedArgument name => "keyword argument repeated: " ++ name
  | .positionalAfterNamed => "positional argument follows keyword argument"
  | .duplicateParameter name => "duplicate parameter `" ++ name ++ "`"
  | .defaultOrder => "non-default parameter follows default parameter"
  | .augmentedTarget => "augmented assignment needs a plain name"
  | .notAssignable => "cannot assign to expression"

/-- A cause and the offset of the byte it is found at. -/
structure SyntaxFault where
  cause : SyntaxCause
  offset : Nat
  deriving DecidableEq, Repr

/-- The wording of a fault, its offset included. -/
def SyntaxFault.message (fault : SyntaxFault) : String :=
  fault.cause.message ++ " (at offset " ++ toString fault.offset ++ ")"

/-- Where a cause is found. -/
inductive Place where
  /-- At the first of the tokens that are left, or at the end of the text when none is left. -/
  | before (rest : List Token)
  /-- At the start of the text. -/
  | start
  deriving DecidableEq, Repr

/-- A reader of tokens. -/
abbrev Reader := StateT (List Token) (Except (SyntaxCause × Place))

namespace Reader

/-- Refuses at the next token. -/
def fail {α : Type} (cause : SyntaxCause) : Reader α := fun rest => .error (cause, .before rest)

/-- Refuses at the start of the text. -/
def failAtStart {α : Type} (cause : SyntaxCause) : Reader α := fun _ => .error (cause, .start)

/-- The next token. -/
def peek? : Reader (Option Token) := fun rest => .ok (rest.head?, rest)

/-- Passes over the next token. -/
def advance : Reader Unit := fun rest => .ok ((), rest.tail)

/-- Refuses the next token. -/
def unexpected {α : Type} : Reader α := fun rest =>
  match rest with
  | t :: _ => .error (.unexpected t.text, .before rest)
  | [] => .error (.unexpectedEnd, .before rest)

/-- Does the next token satisfy the test? -/
def nextIs (test : Token → Bool) : Reader Bool := fun rest => .ok (rest.head?.any test, rest)

/-- Passes over the next token if it satisfies the test. -/
def eat (test : Token → Bool) : Reader Bool := fun rest =>
  match rest with
  | t :: others => if test t then .ok (true, others) else .ok (false, rest)
  | [] => .ok (false, rest)

/-- Refuses any token that is left. -/
def finish : Reader Unit := fun rest =>
  match rest with
  | [] => .ok ((), [])
  | t :: _ => .error (.unexpected t.text, .before rest)

end Reader

namespace Token

/-- Is the token this opening bracket? -/
def opens (t : Token) (bracket : Char) : Bool := t.kind == .opening && t.text == [bracket]

/-- Is the token this closing bracket? -/
def closes (t : Token) (bracket : Char) : Bool := t.kind == .closing && t.text == [bracket]

end Token

/-! ## Words and brackets -/

/-- The words that cannot be names. -/
def keywords : List String :=
  ["and", "as", "assert", "break", "class", "continue", "def", "del", "elif", "else", "except",
    "finally", "for", "from", "global", "if", "import", "in", "is", "lambda", "nonlocal", "not",
    "or", "pass", "raise", "return", "try", "while", "with", "yield", "True", "False", "None"]

/-- Can the word not be a name? -/
def isKeyword (word : List Char) : Bool := keywords.any (·.toList == word)

namespace Reader

/-- Passes over a keyword. -/
def keyword (word : String) : Reader Unit := do
  if ← eat (·.isName word) then return
  fail (.expected word)

/-- Passes over a closing bracket. -/
def close (bracket : Char) : Reader Unit := do
  if ← eat (·.closes bracket) then return
  fail (.expected (String.singleton bracket))

/-- A name that is no keyword. -/
def identifier : Reader String := do
  match ← peek? with
  | some t =>
      if t.kind = .name ∧ !isKeyword t.text then
        advance
        return String.ofList t.text
      else fail .expectedIdentifier
  | none => fail .expectedIdentifier

end Reader

/-- Can the token be the first one of an expression? -/
def Token.startsExpression (t : Token) : Bool :=
  match t.kind with
  | .name => !isKeyword t.text || ["not", "True", "False", "None"].any (·.toList == t.text)
  | .number | .string | .opening => true
  | .operator => t.text == ['-'] || t.text == ['+']
  | _ => false

/-- Can the token be the first one of a target? -/
def Token.startsTarget (t : Token) : Bool :=
  t.kind == .opening || (t.kind == .name && !isKeyword t.text)

namespace Reader

/-- The comparison that is next, passed over. -/
def comparison? : Reader (Option CompareOp) := fun rest =>
  match rest with
  | [] => .ok (none, rest)
  | t :: others =>
      let one (op : CompareOp) : Except (SyntaxCause × Place) (Option CompareOp × List Token) :=
        .ok (some op, others)
      let two (op : CompareOp) : Except (SyntaxCause × Place) (Option CompareOp × List Token) :=
        .ok (some op, others.tail)
      if t.isOperator "==" then one .equal
      else if t.isOperator "!=" then one .notEqual
      else if t.isOperator "<" then one .less
      else if t.isOperator "<=" then one .lessEqual
      else if t.isOperator ">" then one .greater
      else if t.isOperator ">=" then one .greaterEqual
      else if t.isName "in" then one .isIn
      else if t.isName "not" && others.head?.any (·.isName "in") then two .notIn
      else if t.isName "is" && others.head?.any (·.isName "not") then two .notSame
      else if t.isName "is" then one .same
      else .ok (none, rest)

/-- The operator among these that is next, passed over. -/
def operator? (ops : List BinaryOp) : Reader (Option BinaryOp) := fun rest =>
  match rest with
  | [] => .ok (none, rest)
  | t :: others =>
      match ops.find? (t.isOperator ·.symbol) with
      | some op => .ok (some op, others)
      | none => .ok (none, rest)

/-- The strings that stand side by side, put together. -/
def strings : Reader (List Char) := fun tokens => go tokens
where
  /-- Reads on while the next token is a string. -/
  go : List Token → Except (SyntaxCause × Place) (List Char × List Token)
    | [] => .ok ([], [])
    | t :: rest =>
        if t.kind = .string then
          match decodeString t.text with
          | .error fault => .error (.literal fault, .before (t :: rest))
          | .ok text => do
              let (others, rest) ← go rest
              return (text ++ others, rest)
        else .ok ([], t :: rest)

/-- The signs of an operand, outermost first, each passed over. -/
def signs : List Token → List UnaryOp × List Token
  | [] => ([], [])
  | t :: rest =>
      if t.isOperator "-" then
        let (ops, rest) := signs rest
        (.negative :: ops, rest)
      else if t.isOperator "+" then
        let (ops, rest) := signs rest
        (.positive :: ops, rest)
      else ([], t :: rest)

/-- The name of the argument that is next, when it is passed by name. -/
def argumentName? : Reader (Option String) := fun rest =>
  match rest with
  | name :: mark :: _ =>
      if name.kind = .name ∧ mark.isOperator "=" then .ok (some (String.ofList name.text), rest)
      else .ok (none, rest)
  | _ => .ok (none, rest)

end Reader

open Reader

/-! ## The grammar

Each reader below takes a budget first.
-/

mutual

/-- Expressions with commas between them make a tuple; a comma may stand at the end. -/
def readTuple : Nat → Reader Expr
  | 0 => unexpected
  | budget + 1 => do
      let first ← readExpr budget
      if ← nextIs (·.isOperator ",") then
        let others ← readTupleTail budget
        return .tuple (first :: others)
      return first

/-- What follows the first expression of a tuple. -/
def readTupleTail : Nat → Reader (List Expr)
  | 0 => unexpected
  | budget + 1 => do
      if ← eat (·.isOperator ",") then
        if ← nextIs Token.startsExpression then
          let item ← readExpr budget
          let others ← readTupleTail budget
          return item :: others
      return []

/-- A choice, or an expression of the next level. -/
def readExpr : Nat → Reader Expr
  | 0 => unexpected
  | budget + 1 => do
      let body ← readOr budget
      if ← eat (·.isName "if") then
        let test ← readOr budget
        keyword "else"
        let otherwise ← readExpr budget
        return .conditional test body otherwise
      return body

/-- Operands of `or`. -/
def readOr : Nat → Reader Expr
  | 0 => unexpected
  | budget + 1 => do
      let first ← readAnd budget
      readOrTail budget first

/-- What follows the operands of `or` so far. -/
def readOrTail : Nat → Expr → Reader Expr
  | 0, _ => unexpected
  | budget + 1, left => do
      if ← eat (·.isName "or") then
        let right ← readAnd budget
        readOrTail budget (.or left right)
      else return left

/-- Operands of `and`. -/
def readAnd : Nat → Reader Expr
  | 0 => unexpected
  | budget + 1 => do
      let first ← readNot budget
      readAndTail budget first

/-- What follows the operands of `and` so far. -/
def readAndTail : Nat → Expr → Reader Expr
  | 0, _ => unexpected
  | budget + 1, left => do
      if ← eat (·.isName "and") then
        let right ← readNot budget
        readAndTail budget (.and left right)
      else return left

/-- A negation, or a comparison. -/
def readNot : Nat → Reader Expr
  | 0 => unexpected
  | budget + 1 => do
      if ← eat (·.isName "not") then
        let operand ← readNot budget
        return .unary .not operand
      readCompare budget

/-- A chain of comparisons, or a sum. -/
def readCompare : Nat → Reader Expr
  | 0 => unexpected
  | budget + 1 => do
      let left ← readSum budget
      let links ← readLinks budget
      return if links.isEmpty then left else .compare left links

/-- The comparisons of a chain that are left. -/
def readLinks : Nat → Reader (List (CompareOp × Expr))
  | 0 => unexpected
  | budget + 1 => do
      match ← comparison? with
      | some op =>
          let right ← readSum budget
          let others ← readLinks budget
          return (op, right) :: others
      | none => return []

/-- A sum of products. -/
def readSum : Nat → Reader Expr
  | 0 => unexpected
  | budget + 1 => do
      let first ← readProduct budget
      readSumTail budget first

/-- What follows the terms of a sum so far. -/
def readSumTail : Nat → Expr → Reader Expr
  | 0, _ => unexpected
  | budget + 1, left => do
      match ← operator? [.add, .subtract] with
      | some op =>
          let right ← readProduct budget
          readSumTail budget (.binary op left right)
      | none => return left

/-- A product of factors. -/
def readProduct : Nat → Reader Expr
  | 0 => unexpected
  | budget + 1 => do
      let first ← readFactor budget
      readProductTail budget first

/-- What follows the factors of a product so far. -/
def readProductTail : Nat → Expr → Reader Expr
  | 0, _ => unexpected
  | budget + 1, left => do
      match ← operator? [.multiply, .divide, .floorDivide, .modulo] with
      | some op =>
          let right ← readFactor budget
          readProductTail budget (.binary op left right)
      | none => return left

/-- A power with signs before it. -/
def readFactor : Nat → Reader Expr
  | 0 => unexpected
  | budget + 1 => do
      let ops ← fun tokens => .ok (signs tokens)
      let base ← readPower budget
      return ops.foldr .unary base

/-- A primary, raised to a factor or not. -/
def readPower : Nat → Reader Expr
  | 0 => unexpected
  | budget + 1 => do
      let base ← readPrimary budget
      if ← eat (·.isOperator "**") then
        let exponent ← readFactor budget
        return .binary .power base exponent
      return base

/-- An atom with attributes, calls and subscripts. -/
def readPrimary : Nat → Reader Expr
  | 0 => unexpected
  | budget + 1 => do
      let first ← readAtom budget
      readTrailers budget first

/-- The attributes, calls and subscripts of a value. -/
def readTrailers : Nat → Expr → Reader Expr
  | 0, _ => unexpected
  | budget + 1, value => do
      if ← eat (·.kind == .dot) then
        match ← peek? with
        | some t =>
            advance
            if t.kind = .name then readTrailers budget (.attribute value (String.ofList t.text))
            else fail .expectedAttribute
        | none => fail .expectedAttribute
      else if ← eat (·.opens '(') then
        let (arguments, named) ← readArguments budget [] []
        close ')'
        readTrailers budget (.call value arguments named)
      else if ← eat (·.opens '[') then
        let subscripted ← readSubscript budget value
        close ']'
        readTrailers budget subscripted
      else return value

/-- The arguments of a call after those that are read, both kinds in reverse. -/
def readArguments : Nat → List Expr → List (String × Expr) →
    Reader (List Expr × List (String × Expr))
  | 0, _, _ => unexpected
  | budget + 1, arguments, named => do
      if ← nextIs (·.closes ')') then return (arguments.reverse, named.reverse)
      let label ← argumentName?
      match label with
      | some name =>
          if named.any (·.1 == name) then fail (.repeatedArgument name)
          advance
          advance
          let value ← readExpr budget
          if ← eat (·.isOperator ",") then readArguments budget arguments ((name, value) :: named)
          else return (arguments.reverse, ((name, value) :: named).reverse)
      | none =>
          if !named.isEmpty then fail .positionalAfterNamed
          let value ← readExpr budget
          if ← eat (·.isOperator ",") then readArguments budget (value :: arguments) named
          else return ((value :: arguments).reverse, named.reverse)

/-- A subscript of a value: an item or a part. -/
def readSubscript : Nat → Expr → Reader Expr
  | 0, _ => unexpected
  | budget + 1, value => do
      let start ← if ← nextIs (·.isOperator ":") then pure none else some <$> readTuple budget
      if ← eat (·.isOperator ":") then
        let stop ←
          if ← nextIs fun t => t.isOperator ":" || t.closes ']' then pure none
          else some <$> readExpr budget
        if ← eat (·.isOperator ":") then
          if ← nextIs (·.closes ']') then return .slice value start stop none
          let step ← readExpr budget
          return .slice value start stop (some step)
        return .slice value start stop none
      match start with
      | some key => return .index value key
      | none => unexpected

/-- Expressions up to a closing bracket, with commas between them. -/
def readItems : Nat → Char → Reader (List Expr)
  | 0, _ => unexpected
  | budget + 1, bracket => do
      if ← nextIs (·.closes bracket) then return []
      let item ← readExpr budget
      if ← eat (·.isOperator ",") then
        let others ← readItems budget bracket
        return item :: others
      return [item]

/-- The entries of a dictionary, with commas between them. -/
def readEntries : Nat → Reader (List (Expr × Expr))
  | 0 => unexpected
  | budget + 1 => do
      if ← nextIs (·.closes '}') then return []
      let key ← readExpr budget
      if !(← eat (·.isOperator ":")) then fail .expectedDictColon
      let value ← readExpr budget
      if ← eat (·.isOperator ",") then
        let others ← readEntries budget
        return (key, value) :: others
      return [(key, value)]

/-- A constant, a name, or something in brackets. -/
def readAtom : Nat → Reader Expr
  | 0 => unexpected
  | budget + 1 => do
      match ← peek? with
      | none => unexpected
      | some t =>
          match t.kind with
          | .name =>
              if t.isName "True" then advance; return .literal (.bool true)
              else if t.isName "False" then advance; return .literal (.bool false)
              else if t.isName "None" then advance; return .literal .none
              else if isKeyword t.text then unexpected
              else advance; return .name (String.ofList t.text)
          | .number =>
              match readNumber t.text with
              | .ok value => advance; return .literal value
              | .error fault => fail (.literal fault)
          | .string =>
              let text ← strings
              return .literal (.string (String.ofList text))
          | .opening =>
              advance
              if t.opens '(' then readParenthesized budget
              else if t.opens '[' then
                let items ← readItems budget ']'
                close ']'
                return .list items
              else
                let entries ← readEntries budget
                close '}'
                return .dict entries
          | _ => unexpected

/-- What stands in round brackets: a tuple when there is a comma in it or nothing. -/
def readParenthesized : Nat → Reader Expr
  | 0 => unexpected
  | budget + 1 => do
      if ← eat (·.closes ')') then return .tuple []
      let first ← readExpr budget
      if ← eat (·.closes ')') then return first
      if !(← eat (·.isOperator ",")) then fail (.expected ")")
      let others ← readItems budget ')'
      close ')'
      return .tuple (first :: others)

end

/-! ## Targets and parameters -/

mutual

/-- A target: a name, or targets in brackets. -/
def readTarget : Nat → Reader Target
  | 0 => unexpected
  | budget + 1 => do
      if ← eat (·.opens '(') then
        let inner ← readTargets budget
        close ')'
        return inner
      if ← eat (·.opens '[') then
        let inner ← readTargets budget
        close ']'
        return inner
      .name <$> identifier

/-- Targets with commas between them. -/
def readTargets : Nat → Reader Target
  | 0 => unexpected
  | budget + 1 => do
      let first ← readTarget budget
      if ← nextIs (·.isOperator ",") then
        let others ← readTargetsTail budget
        return .tuple (first :: others)
      return first

/-- What follows the first of several targets. -/
def readTargetsTail : Nat → Reader (List Target)
  | 0 => unexpected
  | budget + 1 => do
      if ← eat (·.isOperator ",") then
        if ← nextIs Token.startsTarget then
          let item ← readTarget budget
          let others ← readTargetsTail budget
          return item :: others
      return []

end

/-- The parameters after those that are read, in reverse. They end at a closing bracket when they
stand in brackets, and at the end of the text otherwise. -/
def readParametersAfter (bracketed : Bool) : Nat → List Parameter → Reader (List Parameter)
  | 0, _ => unexpected
  | budget + 1, done => do
      let atEnd ← if bracketed then nextIs (·.closes ')') else Option.isNone <$> peek?
      if atEnd then return done.reverse
      let name ← identifier
      if done.any (·.name == name) then fail (.duplicateParameter name)
      let default ←
        if ← eat (·.isOperator "=") then some <$> readExpr budget
        else if done.any (·.default.isSome) then fail .defaultOrder
        else pure none
      let done := ⟨name, default⟩ :: done
      if ← eat (·.isOperator ",") then readParametersAfter bracketed budget done
      else return done.reverse

/-- A parameter list, in brackets or not. -/
def readParameterList (budget : Nat) : Reader (List Parameter) := do
  if ← eat (·.opens '(') then
    let parameters ← readParametersAfter true budget []
    close ')'
    return parameters
  readParametersAfter false budget []

/-! ## Statements -/

mutual

/-- The target that an expression on the left of an assignment stands for. -/
def Expr.toTarget? : Expr → Option Target
  | .name label => some (.name label)
  | .tuple items => .tuple <$> Expr.toTargets? items
  | .list items => .tuple <$> Expr.toTargets? items
  | _ => none

/-- The targets that expressions stand for. -/
def Expr.toTargets? : List Expr → Option (List Target)
  | [] => some []
  | item :: rest => do
      let target ← Expr.toTarget? item
      let targets ← Expr.toTargets? rest
      return target :: targets

end

/-- The target for an expression, or a refusal at the start of the text. -/
def targetOf (left : Expr) : Reader Target :=
  match left.toTarget? with
  | some target => pure target
  | none => failAtStart .notAssignable

/-- The rest of an assignment whose last expression so far is `last`. -/
def readAssignment : Nat → List Target → Expr → Reader Statement
  | 0, _, _ => unexpected
  | budget + 1, targets, last => do
      if ← nextIs (·.isOperator "=") then
        let target ← targetOf last
        advance
        let next ← readTuple budget
        readAssignment budget (target :: targets) next
      else return .assign targets.reverse last

/-- The operator of an assignment that also computes, passed over. -/
def augmentedOperator? : Reader (Option BinaryOp) := fun rest =>
  match rest with
  | [] => .ok (none, rest)
  | t :: others =>
      match if t.kind = .operator then BinaryOp.ofAugmented? t.text else none with
      | some op => .ok (some op, others)
      | none => .ok (none, rest)

/-- A simple statement. -/
def readStatement (budget : Nat) : Reader Statement := do
  let first ← readTuple budget
  match ← augmentedOperator? with
  | some op =>
      match first with
      | .name name =>
          let value ← readTuple budget
          return .augmented name op value
      | _ => failAtStart .augmentedTarget
  | none =>
      if ← nextIs (·.isOperator "=") then readAssignment budget [] first
      else return .expression first

/-! ## Whole texts -/

/-- The budget for a text of so many tokens. -/
def budgetFor (tokens : Nat) : Nat := 16 * (tokens + 1)

/-- The offset of a place in a text of so many bytes. -/
def Place.offset (length : Nat) : Place → Nat
  | .before (t :: _) => t.start
  | .before [] => length
  | .start => 0

/-- Reads a whole text. -/
def Reader.run {α : Type} (reader : Nat → Reader α) (text : List Char) : Except SyntaxFault α :=
  match strictTokens text with
  | .error fault => .error ⟨.openQuote fault, fault.offset⟩
  | .ok tokens =>
      let tokens := tokens.filter fun t => !t.isTrivia && t.kind != .newline
      let whole : Reader α := do
        let tree ← reader (budgetFor tokens.length)
        finish
        return tree
      match whole tokens with
      | .ok (tree, _) => .ok tree
      | .error (cause, place) => .error ⟨cause, place.offset (byteLength text)⟩

/-- Reads an expression; commas outside all brackets make it a tuple. -/
def Expr.read (text : List Char) : Except SyntaxFault Expr := Reader.run readTuple text

/-- Reads an expression after a keyword. -/
def Expr.readAfter (word : String) (text : List Char) : Except SyntaxFault Expr :=
  Reader.run (fun budget => do keyword word; readTuple budget) text

/-- Reads the value of a `return`, if it has one. -/
def Expr.readReturn (text : List Char) : Except SyntaxFault (Option Expr) :=
  Reader.run (fun budget => do
    keyword "return"
    match ← peek? with
    | none => return none
    | some _ => some <$> readTuple budget) text

/-- Reads the target and the values of a `for` header. -/
def readForHeader (text : List Char) : Except SyntaxFault (Target × Expr) :=
  Reader.run (fun budget => do
    keyword "for"
    let target ← readTargets budget
    keyword "in"
    let values ← readTuple budget
    return (target, values)) text

/-- Reads a parameter list. -/
def readParameters (text : List Char) : Except SyntaxFault (List Parameter) :=
  Reader.run readParameterList text

/-- Reads the name and the parameters of a `def` header. -/
def readDefinitionHeader (text : List Char) : Except SyntaxFault (String × List Parameter) :=
  Reader.run (fun budget => do
    keyword "def"
    let name ← identifier
    if ← eat (·.opens '(') then
      let parameters ← readParametersAfter true budget []
      close ')'
      return (name, parameters)
    fail .expectedParameters) text

/-- Reads a simple statement. -/
def Statement.read (text : List Char) : Except SyntaxFault Statement :=
  Reader.run readStatement text

end Stencil
