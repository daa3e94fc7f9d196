import FieldRules.Emit.Names
import FieldRules.Config.Plan
import FieldRules.Failure
import FieldRules.Number.Shortest
import FieldRules.Text.Quoted

/-!
# Statements of generated code

The checks of a value are emitted as statements of a small language: guards that return a failure,
blocks that prepare a number for guards, loops over collections, patterns on optional values, and
calls of validators. `Statement.tokens` is the code of a statement; what a statement does is defined
on the statements themselves, in `FieldRules.Run`.

The code names three items of the library that it runs with, the `Symbol`s, and imports those that
it uses.
-/

namespace FieldRules

open Token (op rooted parens braces)

/-- An item of the runtime library that generated code names. -/
inductive Symbol where
  /-- The trait of values that check themselves. -/
  | validate
  /-- The type of failed checks. -/
  | validationError
  /-- The type of violated constraints. -/
  | violation
deriving DecidableEq, Repr

namespace Symbol

/-- Every symbol, in the order of imports. -/
def all : List Symbol := [.validate, .validationError, .violation]

def name : Symbol → String
  | validate => "Validate"
  | validationError => "ValidationError"
  | violation => "Violation"

/-- The item where code names it. -/
def token (s : Symbol) : Token := .ident s.name

end Symbol

inductive Side where
  | below
  | above
deriving DecidableEq, Repr

/-- The comparison that tells that a value is on the wrong side of a limit. -/
def Side.operator : Side → List Token
  | below => op "<"
  | above => op ">"

/-- The condition of a guard. -/
inductive Test where
  /-- The widened integer is on the wrong side of the limit; beyond 128 bits it is above. -/
  | wide (side : Side) (limit : Int)
  | float (side : Side) (value : Reach) (limit : Floating)
  | length (side : Side) (limit : Nat)
  | size (side : Side) (value : Reach) (limit : Nat)
  | absent (value : Reach)

/-- A call of a custom validator. -/
inductive Call where
  | method (name : Ident) (value : Reach)
  | associated (ty : Ty) (name : Ident) (value : Reach)
  | function (path : Path) (value : Reach)

/-- A statement of generated code. -/
inductive Statement where
  | guard (test : Test) (failure : Failure)
  /-- Widens an integer to 128 bits for the guards of the body. -/
  | widen (value : Reach) (body : List Statement)
  /-- Counts the characters of a text for the guards of the body. -/
  | measure (value : Reach) (body : List Statement)
  | forEach (item : String) (value : Reach) (body : List Statement)
  /-- Runs the body for each entry of a map; a part without a name is not bound. -/
  | forEntries (key val : Option String) (value : Reach) (body : List Statement)
  | ifPresent (inner : String) (value : Reach) (body : List Statement)
  /-- As `ifPresent`, and returns the failure if the value is absent. -/
  | matchPresent (inner : String) (value : Reach) (body : List Statement) (failure : Failure)
  /-- Lets the value check itself, and returns its failure below the given path. -/
  | delegate (value : Reach) (field : String)
  | call (call : Call) (field : String)

/-! ## Code -/

/-- A text as a literal. -/
def Token.quoted (s : String) : Token := .literal (Text.quote s)

/-- The code of a floating-point limit: its sign, unless it is zero, and its magnitude. -/
def Floating.tokens (x : Floating) : List Token :=
  let sign := match x with
    | .finite true m _ => if m = 0 then [] else op "-"
    | .infinite true => op "-"
    | _ => []
  sign ++ [.literal x.magnitudeText]

def wideName : Token := .ident "__tagval_wide"

/-- The name of the counted length. -/
def lengthName : Token := .ident "__tagval_len"

/-- A method without arguments, called on what comes before. -/
def methodCall (name : String) : List Token := op "." ++ [.ident name, parens []]

def Test.tokens : Test → List Token
  | wide side limit =>
    let accept := match side with
      | .below => "is_some_and"
      | .above => "is_none_or"
    [wideName] ++ op "." ++ [.ident accept,
      parens (op "|" ++ [.ident "n"] ++ op "|" ++ [.ident "n"] ++ side.operator ++
        Token.integer limit)]
  | float side value limit => [parens (op "*" ++ value.tokens)] ++ side.operator ++ limit.tokens
  | length side limit => [lengthName] ++ side.operator ++ [Token.number limit]
  | size side value limit =>
    [parens value.tokens] ++ methodCall "len" ++ side.operator ++ [Token.number limit]
  | absent value => [parens value.tokens] ++ methodCall "is_none"

/-- A variant of the violation type with one field. -/
def Violation.variant (name field : String) (value : Token) : List Token :=
  [.ident name, braces ([.ident field] ++ op ":" ++ [value])]

/-- The code of a violation: a variant of the violation type, with its limit. -/
def Violation.tokens : Violation → List Token
  | tooFewItems n => variant "TooFewItems" "min" (Token.number n)
  | tooManyItems n => variant "TooManyItems" "max" (Token.number n)
  | tooShort n => variant "TooShort" "min" (Token.number n)
  | tooLong n => variant "TooLong" "max" (Token.number n)
  | belowMinimum t => variant "BelowMinimum" "min" (Token.quoted t)
  | aboveMaximum t => variant "AboveMaximum" "max" (Token.quoted t)
  | missing => [.ident "Missing"]
  | custom m => [.ident "Custom", parens [Token.quoted m]]

/-- The code that returns an error. -/
def returnError (error : List Token) : List Token :=
  [.ident "return"] ++ rooted ["core", "result", "Result", "Err"] ++ [parens error] ++ op ";"

/-- The code that returns a failure. -/
def Failure.tokens (f : Failure) : List Token :=
  returnError ([Symbol.validationError.token] ++ op "::" ++ [.ident "new", parens
    ([Token.quoted f.field] ++ op "," ++ [Symbol.violation.token] ++ op "::" ++
      f.violation.tokens)])

def Call.tokens : Call → List Token
  | method name value => [parens value.tokens] ++ methodCall name.text
  | associated ty name value =>
    op "<" ++ ty.tokens ++ op ">" ++ op "::" ++ [.ident name.text, parens value.tokens]
  | function path value => path.tokens ++ [parens value.tokens]

/-- The code that runs `body` if `value` matches `::core::...(name)`. -/
def ifLet (pattern : List String) (name : String) (value body : List Token) : List Token :=
  [.ident "if", .ident "let"] ++ rooted pattern ++ [parens [.ident name]] ++ op "=" ++ value ++
    [braces body]

/-- The code that returns the error of a result, made of the name `err`. -/
def ifError (result error : List Token) : List Token :=
  ifLet ["core", "result", "Result", "Err"] "err" result (returnError error)

/-- The code that sets the error before it below a path. -/
def atField (field : String) : List Token :=
  op "." ++ [.ident "at", parens [Token.quoted field]]

/-- The expression that widens an integer to 128 bits. -/
def widening (value : Reach) : List Token :=
  op "<" ++ [.ident "i128", .ident "as"] ++ rooted ["core", "convert", "TryFrom"] ++ op "<" ++
    [.ident "_"] ++ op ">>" ++ op "::" ++ [.ident "try_from", parens (op "*" ++ value.tokens)] ++
    methodCall "ok"

/-- A part of a map's entry in a pattern. -/
def pattern (name : Option String) : Token := .ident (name.getD "_")

mutual

def Statement.tokens : Statement → List Token
  | .guard test failure => [.ident "if"] ++ test.tokens ++ [braces failure.tokens]
  | .widen value body =>
    [braces ([.ident "let", wideName] ++ op "=" ++ widening value ++ op ";" ++ code body)]
  | .measure value body =>
    [braces ([.ident "let", lengthName] ++ op "=" ++ [parens value.tokens] ++ methodCall "chars" ++
      methodCall "count" ++ op ";" ++ code body)]
  | .forEach item value body =>
    [.ident "for", .ident item, .ident "in", parens value.tokens] ++ methodCall "iter" ++
      [braces (code body)]
  | .forEntries key val value body =>
    [.ident "for", parens ([pattern key] ++ op "," ++ [pattern val]), .ident "in",
      parens value.tokens] ++ methodCall "iter" ++ [braces (code body)]
  | .ifPresent inner value body =>
    ifLet ["core", "option", "Option", "Some"] inner value.tokens (code body)
  | .matchPresent inner value body failure =>
    [.ident "match"] ++ value.tokens ++ [braces
      (rooted ["core", "option", "Option", "Some"] ++ [parens [.ident inner]] ++ op "=>" ++
        [braces (code body)] ++
        rooted ["core", "option", "Option", "None"] ++ op "=>" ++ [braces failure.tokens])]
  | .delegate value field =>
    ifError ([Symbol.validate.token] ++ op "::" ++ [.ident "validate", parens value.tokens])
      ([.ident "err"] ++ atField field)
  | .call call field =>
    ifError call.tokens (rooted ["core", "convert", "Into"] ++ op "::" ++ op "<" ++
      [Symbol.validationError.token] ++ op ">" ++ op "::" ++
      [.ident "into", parens [.ident "err"]] ++ atField field)

/-- The code of a list of statements. -/
def code : List Statement → List Token
  | [] => []
  | s :: ss => s.tokens ++ code ss

end

end FieldRules
