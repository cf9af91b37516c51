import ProtoScript.Token
import ProtoScript.Tree
/-!
# The grammar

Section B2 of the specification gives the surface syntax by example and the operators
by level; the rules below are those of `Parser`, one for every method that reads.  A
derivation says how lexemes are made by the rules.  It is a piece of data of its own,
with the lexemes that it derives (`tokens`) and the tree that the grammar assigns to it
(`tree?`), and it knows nothing of a reader: the symbols of each level, the signs before
an operand and what may be assigned to are written here once more.

    routine    = 'func' name params block
    params     = '(' [param {',' param} [',']] ')'        param = ['ref'] name
    block      = '{' {statement} '}'
    statement  = 'return' [expression] ';' | branch | 'while' '(' expression ')' block
               | expression '=' expression ';' | expression ';'
    branch     = 'if' '(' expression ')' block ['else' (branch | block)]
    expression = operand of all levels
    operand    = operand of the tighter levels
                   {operator of the level, operand of the tighter levels}
    unary      = ('-' | '!') unary | primary {'.' name [arguments]}
    arguments  = '(' [expression {',' expression} [',']] ')'
    primary    = literal | 'nil' | 'lambda' params block | '@'
               | name [arguments] | '(' expression ')'

The rules alone do not say what may be assigned to and what may stand by itself: the
tree of the first expression decides, so that a derivation may have no tree.
Parentheses leave no trace in the tree, nor does a comma after the last argument;
operands of one level are joined from the left, and what follows `else if` is a
block of one statement.
-/

namespace ProtoScript
namespace Grammar

/-- The operators between operands, with their symbols: five levels, the tightest first. -/
def operators : Nat → List (String × BinaryOperator)
  | 0 => [("*", .mul), ("/", .div), ("%", .mod)]
  | 1 => [("+", .add), ("-", .sub)]
  | 2 => [("==", .eq), ("!=", .ne), ("<", .lt), ("<=", .le), (">", .gt), (">=", .ge)]
  | 3 => [("&&", .and)]
  | 4 => [("||", .or)]
  | _ => []

/-- The operators before an operand, with their symbols. -/
def signs : List (String × UnaryOperator) := [("-", .neg), ("!", .not)]

/-- The parameters of a routine. -/
inductive Params where
  /-- No parameters. -/
  | empty
  /-- Some parameters, with a comma after the last one or without. -/
  | list (first : Param) (more : List Param) (comma : Bool)

mutual

/-- What a selector can follow. -/
inductive Primary where
  /-- An integer literal. -/
  | int (value : Int64)
  /-- A string literal. -/
  | text (value : String)
  /-- A truth value. -/
  | truth (value : Bool)
  /-- The absent value. -/
  | nil
  /-- A new object. -/
  | newObject
  /-- A routine without a name. -/
  | lambda (params : Params) (body : Block)
  /-- A name. -/
  | name (name : String)
  /-- A call by name. -/
  | call (name : String) (args : Arguments)
  /-- An expression in parentheses. -/
  | parentheses (inner : Operand 5)

/-- The members that are selected, one from the other. -/
inductive Selectors where
  /-- None. -/
  | done
  /-- A field first. -/
  | field (name : String) (rest : Selectors)
  /-- A method that is called first. -/
  | method (name : String) (args : Arguments) (rest : Selectors)

/-- What no operator between operands is part of. -/
inductive Unary where
  /-- An operator before an operand. -/
  | op (symbol : String) (op : UnaryOperator) (h : (symbol, op) ∈ signs) (operand : Unary)
  /-- A primary expression with the selectors after it. -/
  | access (base : Primary) (selectors : Selectors)

/-- What operators of the `k` tightest levels join. -/
inductive Operand : Nat → Type where
  /-- Nothing is joined. -/
  | unary (u : Unary) : Operand 0
  /-- Operators of the next level join tighter operands. -/
  | level {k : Nat} (first : Operand k) (rest : Chain k) : Operand (k + 1)

/-- Further operands of a level, each after an operator. -/
inductive Chain : Nat → Type where
  /-- None. -/
  | done {k : Nat} : Chain k
  /-- One more first. -/
  | more {k : Nat} (symbol : String) (op : BinaryOperator) (h : (symbol, op) ∈ operators k)
      (right : Operand k) (rest : Chain k) : Chain k

/-- The arguments of a call. -/
inductive Arguments where
  /-- No arguments. -/
  | empty
  /-- Some arguments, with a comma after the last one or without. -/
  | list (first : Operand 5) (more : Expressions) (comma : Bool)

/-- Expressions, each after a comma. -/
inductive Expressions where
  /-- None. -/
  | done
  /-- One more first. -/
  | more (first : Operand 5) (rest : Expressions)

/-- The statements of a block. -/
inductive Block where
  /-- None. -/
  | done
  /-- One more first. -/
  | more (first : Statement) (rest : Block)

/-- A statement. -/
inductive Statement where
  /-- The end of an activation without a value. -/
  | leave
  /-- The end of an activation with a value. -/
  | give (value : Operand 5)
  /-- A conditional statement. -/
  | branch (b : Branch)
  /-- A loop. -/
  | loop (condition : Operand 5) (body : Block)
  /-- An assignment. -/
  | assign (target value : Operand 5)
  /-- An expression by itself. -/
  | call (e : Operand 5)

/-- A conditional statement. -/
inductive Branch where
  /-- The condition, the block where it holds, and what is done otherwise. -/
  | mk (condition : Operand 5) (yes : Block) (other : Alternative)

/-- What is done where a condition does not hold. -/
inductive Alternative where
  /-- Nothing. -/
  | none
  /-- A block. -/
  | block (no : Block)
  /-- A further conditional statement. -/
  | branch (no : Branch)

end

/-- An expression: operators of all five levels join. -/
abbrev Expression := Operand 5

/-- A routine of a program. -/
structure Func where
  /-- Its name. -/
  name : String
  /-- Its parameters. -/
  params : Params
  /-- Its body. -/
  body : Block

/-! ### Lexemes -/

/-- The lexemes of a parameter. -/
def paramTokens (p : Param) : List Lexeme :=
  (if p.byRef then [.keyword "ref"] else []) ++ [.identifier p.name]

/-- The lexemes after an item of a list in parentheses: further items, each after a comma, and the
end, with a comma before it or without. -/
def itemsTail (comma : Bool) : List (List Lexeme) → List Lexeme
  | [] => if comma then [.mark ',', .mark ')'] else [.mark ')']
  | item :: items => .mark ',' :: (item ++ itemsTail comma items)

/-- The lexemes of parameters after the opening parenthesis. -/
def Params.tail : Params → List Lexeme
  | empty => [.mark ')']
  | list first more comma => paramTokens first ++ itemsTail comma (more.map paramTokens)

mutual

/-- The lexemes of a primary expression. -/
def Primary.tokens : Primary → List Lexeme
  | .int value => [.integer value]
  | .text value => [.text value]
  | .truth value => [.truth value]
  | .nil => [.keyword "nil"]
  | .newObject => [.operator "@"]
  | .lambda params body =>
      .keyword "lambda" :: .mark '(' :: (params.tail ++ .mark '\x7b' :: body.tail)
  | .name name => [.identifier name]
  | .call name args => .identifier name :: .mark '(' :: args.tail
  | .parentheses inner => .mark '(' :: (inner.tokens ++ [.mark ')'])

/-- The lexemes of selectors. -/
def Selectors.tokens : Selectors → List Lexeme
  | .done => []
  | .field name rest => .mark '.' :: .identifier name :: rest.tokens
  | .method name args rest =>
      .mark '.' :: .identifier name :: .mark '(' :: (args.tail ++ rest.tokens)

/-- The lexemes of an operand without operators between operands. -/
def Unary.tokens : Unary → List Lexeme
  | .op symbol _ _ operand => .operator symbol :: operand.tokens
  | .access base selectors => base.tokens ++ selectors.tokens

/-- The lexemes of an operand. -/
def Operand.tokens : {k : Nat} → Operand k → List Lexeme
  | _, .unary u => u.tokens
  | _, .level first rest => first.tokens ++ rest.tokens

/-- The lexemes of further operands. -/
def Chain.tokens : {k : Nat} → Chain k → List Lexeme
  | _, .done => []
  | _, .more symbol _ _ right rest => .operator symbol :: (right.tokens ++ rest.tokens)

/-- The lexemes of arguments after the opening parenthesis. -/
def Arguments.tail : Arguments → List Lexeme
  | .empty => [.mark ')']
  | .list first more comma => first.tokens ++ itemsTail comma more.items

/-- The lexemes of each expression. -/
def Expressions.items : Expressions → List (List Lexeme)
  | .done => []
  | .more first rest => first.tokens :: rest.items

/-- The lexemes of a block after the opening brace. -/
def Block.tail : Block → List Lexeme
  | .done => [.mark '\x7d']
  | .more first rest => first.tokens ++ rest.tail

/-- The lexemes of a statement. -/
def Statement.tokens : Statement → List Lexeme
  | .leave => [.keyword "return", .mark ';']
  | .give value => .keyword "return" :: (value.tokens ++ [.mark ';'])
  | .branch b => .keyword "if" :: b.tail
  | .loop condition body =>
      .keyword "while" :: .mark '(' :: (condition.tokens ++ .mark ')' :: .mark '\x7b' :: body.tail)
  | .assign target value => target.tokens ++ .operator "=" :: (value.tokens ++ [.mark ';'])
  | .call e => e.tokens ++ [.mark ';']

/-- The lexemes of a conditional statement after its first word. -/
def Branch.tail : Branch → List Lexeme
  | .mk condition yes other =>
      .mark '(' :: (condition.tokens ++ .mark ')' :: .mark '\x7b' :: (yes.tail ++ other.tokens))

/-- The lexemes of what is done otherwise. -/
def Alternative.tokens : Alternative → List Lexeme
  | .none => []
  | .block no => .keyword "else" :: .mark '\x7b' :: no.tail
  | .branch no => .keyword "else" :: .keyword "if" :: no.tail

end

/-- The lexemes of a routine. -/
def Func.tokens (f : Func) : List Lexeme :=
  .keyword "func" :: .identifier f.name :: .mark '(' ::
    (f.params.tail ++ .mark '\x7b' :: f.body.tail)

/-- The lexemes of routines in a row. -/
def programTokens (l : List Func) : List Lexeme := l.flatMap Func.tokens

@[simp] theorem programTokens_nil : programTokens [] = [] := rfl

@[simp] theorem programTokens_cons (f : Func) (l : List Func) :
    programTokens (f :: l) = f.tokens ++ programTokens l := List.flatMap_cons

/-! ### Trees -/

/-- The parameters. -/
def Params.params : Params → List Param
  | empty => []
  | list first more _ => first :: more

/-- What an expression before `=` assigns to: a variable or a field. -/
def target? : Expr → Option Target
  | .variable name => some (.variable name)
  | .field object name => some (.field object name)
  | _ => none

/-- The statement that an expression by itself is. -/
def callStatement? : Expr → Option Stmt
  | .call c => some (.call c)
  | _ => none

mutual

/-- The tree of a primary expression. -/
def Primary.tree? : Primary → Option Expr
  | .int value => some (.int value)
  | .text value => some (.text value)
  | .truth value => some (.truth value)
  | .nil => some .nil
  | .newObject => some .newObject
  | .lambda params body =>
      body.trees?.map fun l => .lambda (.mk "lambda" params.params l)
  | .name name => some (.variable name)
  | .call name args => args.trees?.map fun l => .call (.mk (.name name) l)
  | .parentheses inner => inner.tree?

/-- The tree of what is selected from an expression. -/
def Selectors.select? : Selectors → Expr → Option Expr
  | .done, base => some base
  | .field name rest, base => rest.select? (.field base name)
  | .method name args rest, base =>
      args.trees?.bind fun l => rest.select? (.call (.mk (.method base name) l))

/-- The tree of an operand without operators between operands. -/
def Unary.tree? : Unary → Option Expr
  | .op _ op _ operand => operand.tree?.map (.unary op)
  | .access base selectors => base.tree?.bind selectors.select?

/-- The tree of an operand. -/
def Operand.tree? : {k : Nat} → Operand k → Option Expr
  | _, .unary u => u.tree?
  | _, .level first rest => first.tree?.bind rest.join?

/-- The tree of further operands, joined from the left to what stands before them. -/
def Chain.join? : {k : Nat} → Chain k → Expr → Option Expr
  | _, .done, left => some left
  | _, .more _ op _ right rest, left => right.tree?.bind fun r => rest.join? (.binary op left r)

/-- The trees of arguments. -/
def Arguments.trees? : Arguments → Option (List Expr)
  | .empty => some []
  | .list first more _ => first.tree?.bind fun e => more.trees?.map (e :: ·)

/-- The trees of expressions. -/
def Expressions.trees? : Expressions → Option (List Expr)
  | .done => some []
  | .more first rest => first.tree?.bind fun e => rest.trees?.map (e :: ·)

/-- The trees of the statements of a block. -/
def Block.trees? : Block → Option (List Stmt)
  | .done => some []
  | .more first rest => first.tree?.bind fun s => rest.trees?.map (s :: ·)

/-- The tree of a statement.  The target of an assignment is a variable or a field, and an
expression by itself is a call. -/
def Statement.tree? : Statement → Option Stmt
  | .leave => some (.return none)
  | .give value => value.tree?.map fun v => .return (some v)
  | .branch b => b.tree?
  | .loop condition body => condition.tree?.bind fun c => body.trees?.map (.loop c)
  | .assign target value =>
      (target.tree?.bind target?).bind fun t => value.tree?.map (.assign t)
  | .call e => e.tree?.bind callStatement?

/-- The tree of a conditional statement. -/
def Branch.tree? : Branch → Option Stmt
  | .mk condition yes other =>
      condition.tree?.bind fun c => yes.trees?.bind fun l => other.trees?.map (.branch c l)

/-- The trees of what is done otherwise. -/
def Alternative.trees? : Alternative → Option (Option (List Stmt))
  | .none => some none
  | .block no => no.trees?.map some
  | .branch no => no.tree?.map fun s => some [s]

end

/-- The tree of a routine. -/
def Func.tree? (f : Func) : Option Routine :=
  f.body.trees?.map fun l => .mk f.name f.params.params l

/-- The trees of routines. -/
def programTrees? : List Func → Option (List Routine)
  | [] => some []
  | f :: l => f.tree?.bind fun r => (programTrees? l).map (r :: ·)

end Grammar
end ProtoScript
