import ProtoScript.Diagnostic
import ProtoScript.Token.Scan
import ProtoScript.Tree
/-!
# Trees from tokens

The grammar is read by recursive descent with one token of lookahead.  A reader
takes the lexemes that are left and gives a tree and the lexemes after it, or a
problem and the lexemes from the one where it was found; the end of the list is
read as the end of the text.

    routine    = 'func' name params block
    params     = '(' [param {',' param} [',']] ')'        param = ['ref'] name
    block      = '{' {statement} '}'
    statement  = 'return' [expression] ';' | branch | 'while' condition block
               | target '=' expression ';' | call ';'
    branch     = 'if' condition block ['else' (branch | block)]
    condition  = '(' expression ')'
    expression = operands of the loosest level, joined to the left
    unary      = ('-' | '!') unary | access
    access     = primary {'.' name [arguments]}
    arguments  = '(' [expression {',' expression} [',']] ')'
    primary    = literal | 'nil' | 'lambda' params block | '@'
               | name [arguments] | '(' expression ')'

Each reader that calls itself takes a number that bounds the depth of calls.
One token leads to fewer than `callsPerToken` nested calls, so a bound in
proportion to the number of tokens is never reached.

These are the functions of the interpreter's `Parser` for section B2 of its
specification.  A loop there is a reader of its own here: `paramsTail`,
`argumentsTail`, `chain` and `selectors` are the loops of `parse_params`,
`parse_args`, `parse_binary_level` and `parse_postfix`.
-/

namespace ProtoScript

/-- Why lexemes are no tree. -/
inductive ParseProblem where
  /-- Another mark or word is needed here. -/
  | expected (symbol : String) (found : Lexeme)
  /-- A name is needed here. -/
  | expectedName (found : Lexeme)
  /-- A routine is needed here. -/
  | expectedRoutine (found : Lexeme)
  /-- An expression is needed here. -/
  | expectedExpression (found : Lexeme)
  /-- A parameter is neither followed by another one nor the last. -/
  | openParams (found : Lexeme)
  /-- An argument is neither followed by another one nor the last. -/
  | openArguments (found : Lexeme)
  /-- A block has no end. -/
  | openBlock
  /-- An assignment to what is neither a variable nor a field. -/
  | invalidTarget
  /-- An expression by itself that is no call. -/
  | noStatement
  /-- The bound on nested calls is reached. -/
  | tooDeep
deriving DecidableEq, Repr

namespace ParseProblem

/-- The message of the diagnostic. -/
def message : ParseProblem → String
  | .expected symbol found => s!"expected '{symbol}', found {found.describe}"
  | .expectedName found => s!"expected identifier, found {found.describe}"
  | .expectedRoutine found => s!"expected function definition, found {found.describe}"
  | .expectedExpression found => s!"expected expression, found {found.describe}"
  | .openParams found => s!"expected ',' or ')' in parameter list, found {found.describe}"
  | .openArguments found => s!"expected ',' or ')' in argument list, found {found.describe}"
  | .openBlock => "unexpected end of input, expected '\x7d'"
  | .invalidTarget => "invalid assignment target"
  | .noStatement => "expected assignment or function call statement"
  | .tooDeep => "expression nested too deeply"

end ParseProblem

/-- A reader of lexemes. -/
abbrev Parser := EStateM ParseProblem (List Lexeme)

namespace Parser

/-- The next lexeme. -/
def peek : Parser Lexeme := fun l => .ok (l.headD .finish) l

/-- Takes the next lexeme. -/
def skip : Parser Unit := fun l => .ok () l.tail

/-- Takes the given mark. -/
def expect (symbol : Char) : Parser Unit := do
  let found ← peek
  if found = .mark symbol then skip else throw (.expected symbol.toString found)

/-- Takes a name. -/
def identifier : Parser String := do
  match ← peek with
  | .identifier name => skip; return name
  | found => throw (.expectedName found)

/-- Takes the given word if it comes next, and tells whether it did. -/
def acceptWord (word : String) : Parser Bool := do
  if (← peek) = .keyword word then skip; return true else return false

/-- The operator of the given level that a lexeme is. -/
def operatorAt? (level : Precedence) : Lexeme → Option BinaryOperator
  | .operator symbol =>
      (BinaryOperator.ofSymbol? symbol).filter fun op => decide (op.precedence = level)
  | _ => none

/-- The operator before an operand that a lexeme is. -/
def unaryOperator? : Lexeme → Option UnaryOperator
  | .operator symbol => UnaryOperator.ofSymbol? symbol
  | _ => none

/-- The expression that a lexeme is by itself. -/
def literal? : Lexeme → Option Expr
  | .integer value => some (.int value)
  | .text value => some (.text value)
  | .truth value => some (.truth value)
  | .keyword word => if word = "nil" then some .nil else none
  | _ => none

/-- The target that an expression denotes before `=`. -/
def target? : Expr → Option Target
  | .variable name => some (.variable name)
  | .field object name => some (.field object name)
  | _ => none

/-- The parameters up to the closing parenthesis. -/
def paramsTail : Nat → Parser (List Param)
  | 0 => throw .tooDeep
  | n + 1 => do
      if (← peek) = .mark ')' then skip; return []
      let byRef ← acceptWord "ref"
      let name ← identifier
      match ← peek with
      | .mark ',' =>
          skip
          let rest ← paramsTail n
          return ⟨name, byRef⟩ :: rest
      | .mark ')' => skip; return [⟨name, byRef⟩]
      | found => throw (.openParams found)

/-- The parameters of a routine, in parentheses (`parse_params`). -/
def params (n : Nat) : Parser (List Param) := do
  expect '('
  paramsTail n

mutual

/-- An expression (`parse_expr`). -/
def expression : Nat → Parser Expr
  | 0 => throw .tooDeep
  | n + 1 => binary n .disjunction

/-- Operands that operators of one level join (`parse_binary_level`). -/
def binary : Nat → Precedence → Parser Expr
  | 0, _ => throw .tooDeep
  | n + 1, level => do
      let first ← operand n level
      chain n level first

/-- An operand of an operator of the given level. -/
def operand : Nat → Precedence → Parser Expr
  | 0, _ => throw .tooDeep
  | n + 1, level =>
      match level.tighter? with
      | some tighter => binary n tighter
      | none => unary n

/-- The further operands of one level, joined to what stands before them. -/
def chain : Nat → Precedence → Expr → Parser Expr
  | 0, _, _ => throw .tooDeep
  | n + 1, level, left => do
      match operatorAt? level (← peek) with
      | some op =>
          skip
          let right ← operand n level
          chain n level (.binary op left right)
      | none => return left

/-- An operand with the operators before it (`parse_unary`). -/
def unary : Nat → Parser Expr
  | 0 => throw .tooDeep
  | n + 1 => do
      match unaryOperator? (← peek) with
      | some op =>
          skip
          let operand ← unary n
          return .unary op operand
      | none => access n

/-- A primary expression with the selectors after it (`parse_postfix`). -/
def access : Nat → Parser Expr
  | 0 => throw .tooDeep
  | n + 1 => do
      let base ← primary n
      selectors n base

/-- The fields and methods that are selected, one from the other. -/
def selectors : Nat → Expr → Parser Expr
  | 0, _ => throw .tooDeep
  | n + 1, base => do
      if (← peek) = .mark '.' then
        skip
        let name ← identifier
        if (← peek) = .mark '(' then
          let args ← arguments n
          selectors n (.call (.mk (.method base name) args))
        else
          selectors n (.field base name)
      else
        return base

/-- The arguments of a call, in parentheses (`parse_args`). -/
def arguments : Nat → Parser (List Expr)
  | 0 => throw .tooDeep
  | n + 1 => do
      expect '('
      argumentsTail n

/-- The arguments up to the closing parenthesis. -/
def argumentsTail : Nat → Parser (List Expr)
  | 0 => throw .tooDeep
  | n + 1 => do
      if (← peek) = .mark ')' then skip; return []
      let first ← expression n
      match ← peek with
      | .mark ',' =>
          skip
          let rest ← argumentsTail n
          return first :: rest
      | .mark ')' => skip; return [first]
      | found => throw (.openArguments found)

/-- A literal, a lambda, a new object, a name, a call by name, or an expression in parentheses
(`parse_primary`). -/
def primary : Nat → Parser Expr
  | 0 => throw .tooDeep
  | n + 1 => do
      match ← peek with
      | .keyword "lambda" =>
          skip
          let ps ← params n
          let body ← block n
          return .lambda (.mk Routine.lambdaName ps body)
      | .operator "@" => skip; return .newObject
      | .identifier name =>
          skip
          if (← peek) = .mark '(' then
            let args ← arguments n
            return .call (.mk (.name name) args)
          else
            return .variable name
      | .mark '(' =>
          skip
          let inner ← expression n
          expect ')'
          return inner
      | found =>
          match literal? found with
          | some e => skip; return e
          | none => throw (.expectedExpression found)

/-- A condition, in parentheses (`parse_condition`). -/
def condition : Nat → Parser Expr
  | 0 => throw .tooDeep
  | n + 1 => do
      expect '('
      let inner ← expression n
      expect ')'
      return inner

/-- A block, in braces (`parse_block`). -/
def block : Nat → Parser (List Stmt)
  | 0 => throw .tooDeep
  | n + 1 => do
      expect '\x7b'
      statements n

/-- The statements up to the closing brace. -/
def statements : Nat → Parser (List Stmt)
  | 0 => throw .tooDeep
  | n + 1 => do
      match ← peek with
      | .mark '\x7d' => skip; return []
      | .finish => throw .openBlock
      | _ =>
          let first ← statement n
          let rest ← statements n
          return first :: rest

/-- A statement (`parse_stmt`). -/
def statement : Nat → Parser Stmt
  | 0 => throw .tooDeep
  | n + 1 => do
      match ← peek with
      | .keyword "return" =>
          skip
          if (← peek) = .mark ';' then
            skip
            return .return none
          else
            let value ← expression n
            expect ';'
            return .return (some value)
      | .keyword "if" => skip; branch n
      | .keyword "while" =>
          skip
          let test ← condition n
          let body ← block n
          return .loop test body
      | _ => simple n

/-- An assignment or a call (the last part of `parse_stmt`). -/
def simple : Nat → Parser Stmt
  | 0 => throw .tooDeep
  | n + 1 => do
      let first ← expression n
      if (← peek) = .operator "=" then
        skip
        match target? first with
        | some target =>
            let value ← expression n
            expect ';'
            return .assign target value
        | none => throw .invalidTarget
      else
        match first with
        | .call call => expect ';'; return .call call
        | _ => throw .noStatement

/-- A conditional statement, after its first word (`parse_if`). -/
def branch : Nat → Parser Stmt
  | 0 => throw .tooDeep
  | n + 1 => do
      let test ← condition n
      let yes ← block n
      if ← acceptWord "else" then
        if ← acceptWord "if" then
          let inner ← branch n
          return .branch test yes (some [inner])
        else
          let no ← block n
          return .branch test yes (some no)
      else
        return .branch test yes none

end

/-- A routine, after its first word (`parse_func`). -/
def routine (n : Nat) : Parser Routine := do
  let name ← identifier
  let ps ← params n
  let body ← block n
  return .mk name ps body

/-- The routines up to the end of the text, which is not taken (`parse`). -/
def routines : Nat → Parser (List Routine)
  | 0 => throw .tooDeep
  | n + 1 => do
      match ← peek with
      | .finish => return []
      | .keyword "func" =>
          skip
          let first ← routine n
          let rest ← routines n
          return first :: rest
      | found => throw (.expectedRoutine found)

/-- A program. -/
def program (n : Nat) : Parser Program := do
  return ⟨← routines n⟩

/-- More than the nested calls that one token leads to. -/
def callsPerToken : Nat := 32

/-- A bound on nested calls that no list of the given length reaches. -/
def bound (length : Nat) : Nat := callsPerToken * (length + 1)

end Parser

/-- A list of tokens of which some are read. -/
structure Reading where
  /-- All tokens. -/
  tokens : List Token
  /-- How many are read. -/
  next : Nat

namespace Reading

/-- A list of tokens of which none is read. -/
def ofTokens (tokens : List Token) : Reading := ⟨tokens, 0⟩

/-- The lexemes that are left. -/
def rest (r : Reading) : List Lexeme := (r.tokens.drop r.next).map Located.item

/-- Where the token with the given index stands; past the end, where the last token stands
(`Parser::error`). -/
def positionAt (r : Reading) (index : Nat) : Position :=
  match r.tokens[index]? with
  | some token => token.position
  | none => (r.tokens.getLast?.map Located.position).getD .unknown

/-- Applies a reader to the lexemes that are left. -/
def apply {α : Type} (r : Reading) (p : Nat → Parser α) :
    Except (Located ParseProblem) (α × Reading) :=
  match p (Parser.bound r.rest.length) r.rest with
  | .ok tree rest => .ok (tree, { r with next := r.tokens.length - rest.length })
  | .error problem rest => .error ⟨problem, r.positionAt (r.tokens.length - rest.length)⟩

/-- Reads an expression. -/
def expression (r : Reading) : Except (Located ParseProblem) (Expr × Reading) :=
  r.apply Parser.expression

/-- Reads a program. -/
def program (r : Reading) : Except (Located ParseProblem) (Program × Reading) :=
  r.apply Parser.program

end Reading

namespace Diagnostic

/-- The diagnostic of a text that has no tokens. -/
def ofScanProblem (problem : Located ScanProblem) : Diagnostic where
  kind := .parse
  message := problem.item.message
  position := problem.position

/-- The diagnostic of tokens that are no tree. -/
def ofParseProblem (problem : Located ParseProblem) : Diagnostic where
  kind := .parse
  message := problem.item.message
  position := problem.position

end Diagnostic

namespace Program

/-- The program that tokens denote. -/
def ofTokens (tokens : List Token) : Except (Located ParseProblem) Program :=
  (Reading.ofTokens tokens).program.map Prod.fst

/-- The program that a text denotes (`parse_program`). -/
def ofText (text : String) : Except Diagnostic Program :=
  match Token.scan text with
  | .error problem => .error (.ofScanProblem problem)
  | .ok tokens => (ofTokens tokens).mapError .ofParseProblem

end Program
end ProtoScript
