import FieldRules.Emit.Checks

/-!
# Validation routines

A routine checks a whole type: an import of the symbols that its checks use, the checks in order,
and the implementation of the validation trait around them. `runtime` is the path of the library
with the symbols.
-/

namespace FieldRules

open Token (op rooted parens braces)

/-- The usual path of the runtime library. -/
def defaultRuntime : Path := .ofNames true ["tagval"]

def commaSeparated : List Token → List Token
  | [] => []
  | [t] => [t]
  | t :: u :: ts => [t] ++ op "," ++ commaSeparated (u :: ts)

/-- The import of the symbols; nothing without symbols. -/
def Symbols.imports (runtime : Path) (s : Symbols) : List Token :=
  match s.toList with
  | [] => []
  | a :: as =>
    [.ident "use"] ++ runtime.tokens ++ op "::" ++
      [braces (commaSeparated ((a :: as).map Symbol.token))] ++ op ";"

namespace Plan

/-- The checks of a routine's receiver, after the imports that they need. -/
def body (plan : Plan) (runtime : Path) : List Token :=
  let (checks, s) := plan.emit .root .empty
  s.symbols.imports runtime ++ code checks

/-- The implementation of the validation trait for the type `name`. -/
def implementation (plan : Plan) (runtime : Path) (name : Ident) (generics : Generics) :
    List Token :=
  let item (s : Symbol) := runtime.tokens ++ op "::" ++ [s.token]
  let result := rooted ["core", "result", "Result"]
  [.ident "impl"] ++ generics.declarations ++ item .validate ++ [.ident "for", .ident name.text] ++
    generics.uses ++ generics.whereClause ++
    [braces ([.ident "fn", .ident "validate", parens (op "&" ++ [.ident "self"])] ++ op "->" ++
      result ++ op "<" ++ [parens []] ++ op "," ++ item .validationError ++ op ">" ++
      [braces (plan.body runtime ++ result ++ op "::" ++ [.ident "Ok", parens [parens []]])])]

end Plan

end FieldRules
