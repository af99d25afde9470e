/-!
# Expressions and statements

The syntax trees of the embedded language: expressions, the targets that values are assigned to, the
parameters of functions and templates, and simple statements.
-/

namespace Stencil

/-- A constant. -/
inductive Literal where
  | none
  | bool (value : Bool)
  | int (value : Int64)
  | float (value : Float)
  | string (value : String)

/-- The operators with one operand. -/
inductive UnaryOp where
  | negative
  | positive
  | not
  deriving DecidableEq, Repr

/-- The arithmetic operators. -/
inductive BinaryOp where
  | add
  | subtract
  | multiply
  | divide
  | floorDivide
  | modulo
  | power
  deriving DecidableEq, Repr

namespace BinaryOp

/-- The operator as it is written. -/
def symbol : BinaryOp → String
  | add => "+"
  | subtract => "-"
  | multiply => "*"
  | divide => "/"
  | floorDivide => "//"
  | modulo => "%"
  | power => "**"

/-- All arithmetic operators. -/
def all : List BinaryOp := [add, subtract, multiply, divide, floorDivide, modulo, power]

/-- The operator of an assignment that also computes, such as `+=`. -/
def ofAugmented? (symbol : List Char) : Option BinaryOp :=
  all.find? fun op => op.symbol.toList ++ ['='] == symbol

end BinaryOp

/-- The operators that compare. -/
inductive CompareOp where
  | equal
  | notEqual
  | less
  | lessEqual
  | greater
  | greaterEqual
  | isIn
  | notIn
  | same
  | notSame
  deriving DecidableEq, Repr

/-- The operator as it is written. -/
def CompareOp.symbol : CompareOp → String
  | equal => "=="
  | notEqual => "!="
  | less => "<"
  | lessEqual => "<="
  | greater => ">"
  | greaterEqual => ">="
  | isIn => "in"
  | notIn => "not in"
  | same => "is"
  | notSame => "is not"

/-- An expression. -/
inductive Expr where
  | literal (value : Literal)
  | name (name : String)
  | list (items : List Expr)
  | tuple (items : List Expr)
  | dict (entries : List (Expr × Expr))
  /-- An attribute, `value.name`. -/
  | attribute (value : Expr) (name : String)
  /-- An item, `value[key]`. -/
  | index (value key : Expr)
  /-- A part, `value[start:stop:step]`. -/
  | slice (value : Expr) (start stop step : Option Expr)
  | call (function : Expr) (arguments : List Expr) (named : List (String × Expr))
  | unary (op : UnaryOp) (operand : Expr)
  | binary (op : BinaryOp) (left right : Expr)
  /-- A chain of comparisons; each operand in the middle takes part in two of them. -/
  | compare (left : Expr) (links : List (CompareOp × Expr))
  | and (left right : Expr)
  | or (left right : Expr)
  /-- A choice, `body if test else otherwise`. -/
  | conditional (test body otherwise : Expr)

/-- What a value is assigned to: a name, or targets that share the value's items. -/
inductive Target where
  | name (name : String)
  | tuple (items : List Target)

/-- A formal parameter. -/
structure Parameter where
  name : String
  default : Option Expr

/-- A simple statement. -/
inductive Statement where
  | assign (targets : List Target) (value : Expr)
  | augmented (name : String) (op : BinaryOp) (value : Expr)
  | expression (value : Expr)

end Stencil
