import Stencil.Instr

/-!
# Faults

Why a run or a look-up fails. The faults of evaluation are grouped by what goes wrong: a name, an
attribute or an item that is not there, a value that cannot do what is asked of it, arguments that
do not fit a function, values of the wrong type, and values out of range. Causes carry what their
wording needs, and one function per group writes them out.

A `Failure` is a fault of evaluation or one that arises around it: in the text of a template, in
finding its file, in reading files and documents, and in the configuration.

A run may also break off without a fault that is reported, like a program that crashes. Where it did
so is told by a `Breakage`, which has a place among the faults since it ends a run as they do.
-/

namespace Stencil

/-! ## Limits -/

/-- The most characters or items that one operation may build. -/
def sizeLimit : Nat := 10000000

/-- The most numbers that a range may hold. -/
def rangeLimit : Nat := 1000000

/-- The greatest width or precision of a formatted field. -/
def fieldLimit : Nat := 10000

/-! ## Arguments -/

/-- Why arguments do not fit a function. The first argument is the name of the function. -/
inductive ArityCause where
  /-- No parameter has this name. -/
  | unexpectedName (function name : String)
  /-- The number of positional arguments is out of bounds. -/
  | wrongCount (function : String) (least : Nat) (most : Option Nat) (given : Nat)
  /-- There are more positional arguments than parameters. -/
  | tooMany (function : String) (parameters given : Nat)
  /-- A parameter is given twice. -/
  | repeated (function name : String)
  /-- Parameters without a default are not given. -/
  | missing (function : String) (names : List String)
  deriving DecidableEq, Repr

/-- The ending of a noun that is counted. -/
def pluralEnding (count : Nat) : String := if count = 1 then "" else "s"

/-- The text between quotes. -/
def quoted (text : String) : String := "'" ++ text ++ "'"

/-- The wording of a cause. -/
def ArityCause.message : ArityCause → String
  | unexpectedName function name =>
      function ++ "() got an unexpected keyword argument " ++ quoted name
  | wrongCount function least most given =>
      let (bound, count) : String × Nat :=
        if most = some least then ("exactly", least)
        else if given < least then ("at least", least)
        else ("at most", most.getD least)
      function ++ "() takes " ++ bound ++ " " ++ toString count ++ " argument" ++
        pluralEnding count ++ " (" ++ toString given ++ " given)"
  | tooMany function parameters given =>
      function ++ "() takes " ++ toString parameters ++ " positional argument" ++
        pluralEnding parameters ++ " but " ++ toString given ++ " were given"
  | repeated function name => function ++ "() got multiple values for argument " ++ quoted name
  | missing function names =>
      function ++ "() missing " ++ toString names.length ++ " required argument" ++
        pluralEnding names.length ++ ": " ++ ", ".intercalate (names.map quoted)

/-! ## Types -/

/-- Why a value has the wrong type. Types are given by their names. -/
inductive TypeCause where
  /-- A value that must be a string or an integer is none. -/
  | mustBe (role wanted given : String)
  /-- An operator does not take these operands. -/
  | operands (symbol left right : String)
  /-- A sign does not take this operand. -/
  | operand (symbol given : String)
  /-- Only a string can be looked for in a string. -/
  | soughtInString (given : String)
  /-- Nothing can be looked for in this value. -/
  | noContainer (given : String)
  /-- Two values have no order. -/
  | noOrder (symbol left right : String)
  | noLength (given : String)
  | fillLength
  | joinedItem (given : String)
  /-- A conversion takes a number. -/
  | numberWanted (conversion : Char) (given : String)
  /-- A conversion takes a number that may have a fraction. -/
  | realWanted (conversion : Char) (given : String)
  | mappingWanted
  | tooFewValues
  | tooManyValues
  | noMagnitude (given : String)
  | notOneCharacter (length : Nat)
  | baseOfNumber
  | noInteger (given : String)
  | noRounding (given : String)
  | sumOfStrings
  deriving DecidableEq, Repr

/-- The wording of a cause. -/
def TypeCause.message : TypeCause → String
  | mustBe role wanted given => role ++ " must be " ++ wanted ++ ", not " ++ given
  | operands symbol left right =>
      "unsupported operand type(s) for " ++ symbol ++ ": " ++ quoted left ++ " and " ++ quoted right
  | operand symbol given => "bad operand type for unary " ++ symbol ++ ": " ++ quoted given
  | soughtInString given => "'in <string>' requires string as left operand, not " ++ given
  | noContainer given => "argument of type " ++ quoted given ++ " is not iterable"
  | noOrder symbol left right =>
      quoted symbol ++ " not supported between instances of " ++ quoted left ++ " and " ++
        quoted right
  | noLength given => "object of type " ++ quoted given ++ " has no len()"
  | fillLength => "The fill character must be exactly one character long"
  | joinedItem given => "sequence item: expected str instance, " ++ given ++ " found"
  | numberWanted conversion given =>
      "%" ++ String.singleton conversion ++ " format: a number is required, not " ++ given
  | realWanted conversion given =>
      "%" ++ String.singleton conversion ++ " format: a real number is required, not " ++ given
  | mappingWanted => "format requires a mapping"
  | tooFewValues => "not enough arguments for format string"
  | tooManyValues => "not all arguments converted during string formatting"
  | noMagnitude given => "bad operand type for abs(): " ++ quoted given
  | notOneCharacter length =>
      "ord() expected a character, but string of length " ++ toString length ++ " found"
  | baseOfNumber => "int() can't convert non-string with explicit base"
  | noInteger given => "int() argument must be a string or a number, not " ++ quoted given
  | noRounding given => "type " ++ given ++ " doesn't define __round__ method"
  | sumOfStrings => "sum() can't sum strings [use ''.join(seq) instead]"

/-! ## Breakages -/

/-- Where a run breaks off. -/
inductive Breakage where
  /-- The cursor of a slice leaves the integers of 64 bits. -/
  | cursor
  /-- Sorting comes upon an order that contradicts itself. -/
  | order
  /-- Templates are compiled inside one another, deeper than there is room for. -/
  | nesting
  deriving DecidableEq, Repr

/-- What can be said about a breakage. -/
def Breakage.message : Breakage → String
  | cursor => "the cursor of a slice overflows"
  | order => "the order of the values contradicts itself"
  | nesting => "too many templates are compiled inside one another"

/-! ## Values -/

/-- Why a value of the right type is out of range. -/
inductive ValueCause where
  /-- A result would be too large. -/
  | tooLarge (what : String)
  | zeroStep
  | emptySeparator
  /-- The value with this text is not in a list. -/
  | notInList (text : String)
  /-- A width or a precision is too large. -/
  | fieldTooBig (field : String)
  | unsupportedConversion
  | incompleteConversion
  | conversionCode
  | malformedSpec (spec : String)
  | loneBrace
  | openField
  | characterCode
  | pairLength (length : Nat)
  | noFloatText (text : String)
  | baseRange
  | noIntegerText (base : Nat) (text : String)
  /-- A float with this text is not finite. -/
  | notFinite (text : String)
  /-- A function of items has none. -/
  | noItems (function : String)
  | zeroRangeStep
  | rangeTooLong (count : Nat)
  | tooManyItems (wanted : Nat)
  | tooFewItems (wanted given : Nat)
  /-- Too many calls are inside one another. -/
  | callDepth
  /-- No fault is reported: the run breaks off. -/
  | breakage (cause : Breakage)
  deriving DecidableEq, Repr

/-- The wording of a cause. -/
def ValueCause.message : ValueCause → String
  | tooLarge what => what ++ " exceeds the limit of " ++ toString sizeLimit
  | zeroStep => "slice step cannot be zero"
  | emptySeparator => "empty separator"
  | notInList text => text ++ " is not in list"
  | fieldTooBig field => field ++ " too big"
  | unsupportedConversion => "unsupported format character"
  | incompleteConversion => "incomplete format"
  | conversionCode => "%c arg not in range"
  | malformedSpec spec => "invalid format specifier " ++ quoted spec
  | loneBrace => "single '\x7d' encountered in format string"
  | openField => "expected '\x7d' before end of string"
  | characterCode => "chr() arg not in range(0x110000)"
  | pairLength length =>
      "dictionary update sequence element has length " ++ toString length ++ "; 2 is required"
  | noFloatText text => "could not convert string to float: " ++ quoted text
  | baseRange => "int() base must be >= 2 and <= 36"
  | noIntegerText base text =>
      "invalid literal for int() with base " ++ toString base ++ ": " ++ text
  | notFinite text => "cannot convert float " ++ text ++ " to integer"
  | noItems function => function ++ "() arg is an empty sequence"
  | zeroRangeStep => "range() arg 3 must not be zero"
  | rangeTooLong count =>
      "range() of " ++ toString count ++ " items exceeds the limit of " ++ toString rangeLimit
  | tooManyItems wanted => "too many values to unpack (expected " ++ toString wanted ++ ")"
  | tooFewItems wanted given =>
      "not enough values to unpack (expected " ++ toString wanted ++ ", got " ++
        toString given ++ ")"
  | callDepth => "maximum call depth exceeded"
  | breakage cause => cause.message

/-! ## Faults of evaluation -/

/-- Why an evaluation fails. -/
inductive Fault where
  | undefinedName (name : String)
  | noAttribute (typeName name : String)
  | notSubscriptable (typeName : String)
  /-- A position is outside what is named here. -/
  | indexOutOfRange (what : String)
  /-- The key with this text is not there. -/
  | keyNotFound (text : String)
  | notCallable (typeName : String)
  | notIterable (typeName : String)
  | arity (cause : ArityCause)
  | type (cause : TypeCause)
  | zeroDivision
  | overflow
  | value (cause : ValueCause)
  deriving DecidableEq, Repr

/-- The run breaks off. -/
abbrev Fault.broken (cause : Breakage) : Fault := .value (.breakage cause)

/-- The wording of a fault. -/
def Fault.message : Fault → String
  | undefinedName name => "name " ++ quoted name ++ " is not defined"
  | noAttribute typeName name => quoted typeName ++ " object has no attribute " ++ quoted name
  | notSubscriptable typeName => quoted typeName ++ " object is not subscriptable"
  | indexOutOfRange what => what ++ " index out of range"
  | keyNotFound text => "key not found: " ++ text
  | notCallable typeName => quoted typeName ++ " object is not callable"
  | notIterable typeName => quoted typeName ++ " object is not iterable"
  | arity cause => cause.message
  | type cause => cause.message
  | zeroDivision => "division by zero"
  | overflow => "integer overflow"
  | value cause => cause.message

/-! ## Failures -/

/-- Why a name does not lead to a template. -/
inductive LookupCause where
  /-- No file under this directory fits the name. -/
  | notFound (name root : String)
  | emptyName
  /-- The name leads to the directory above. -/
  | parentName (name : String)
  | absoluteName (name : String)
  /-- The name is that of a directory. -/
  | directory (name : String)
  deriving DecidableEq, Repr

/-- The wording of a cause. -/
def LookupCause.message : LookupCause → String
  | notFound name root => "no template named " ++ quoted name ++ " under " ++ root
  | emptyName => "invalid template name '': empty name"
  | parentName name => "invalid template name " ++ quoted name ++ ": `..` is not allowed"
  | absoluteName name =>
      "invalid template name " ++ quoted name ++ ": absolute paths are not allowed"
  | directory name => quoted name ++ " is a directory, not a template"

/-- Why a request cannot be carried out as it is configured. -/
inductive ConfigCause where
  | noRoot
  /-- The root with this path is no directory. -/
  | rootNotDirectory (path : String)
  | emptyName
  | emptyOutput
  deriving DecidableEq, Repr

/-- The name of the environment variable that holds the root directory. -/
def rootVariable : String := "SIGIL_TEMPLATE_DIR"

/-- The wording of a cause. -/
def ConfigCause.message : ConfigCause → String
  | noRoot => "no template root given; pass one or set " ++ rootVariable
  | rootNotDirectory path => "template root " ++ path ++ " is not a directory"
  | emptyName => "template name cannot be empty"
  | emptyOutput => "output path cannot be empty"

/-- Why a template is not rendered. -/
inductive Failure where
  | evaluation (fault : Fault)
  /-- The text of the template with this name is malformed. -/
  | malformed (template : String) (fault : CompileFault)
  | lookup (cause : LookupCause)
  | config (cause : ConfigCause)
  /-- A file cannot be read or written. -/
  | file
  /-- A document is not in the format it should be in. -/
  | json
  | yaml
  | toml
  deriving DecidableEq, Repr

/-- The wording of a failure. What is wrong with a file or a document is not told. -/
def Failure.message : Failure → String
  | evaluation fault => "Evaluation error: " ++ fault.message
  | malformed template fault =>
      let kind := match fault with
        | .layout _ => "Parse error: "
        | .code _ _ => "Compilation error: "
      kind ++ template ++ ", line " ++ toString fault.line ++ ": " ++ fault.message
  | lookup cause => "Resolution error: " ++ cause.message
  | config cause => "Configuration error: " ++ cause.message
  | file => "I/O error"
  | json => "JSON parsing error"
  | yaml => "YAML parsing error"
  | toml => "TOML parsing error"

end Stencil
