import ExprCompiler.Compilation
import ExprCompiler.Json

/-!
# Structured output

The forms of a program as JSON values.
-/

namespace ExprCompiler

/-- The fields of a token. -/
def Token.fields (token : Token) : List (String × Json) :=
  [("ttype", .string token.kind.name), ("value", .string token.text),
   ("offset", .number token.offset)]

/-- A token as a JSON value. -/
def Token.toJson (token : Token) : Json :=
  .record token.fields

/-- An item as a JSON value. -/
def Item.toJson : Item → Json
  | .token t => .record (("entity", .string "token") :: t.fields)
  | .arity gathering count =>
    .record
      [("entity", .string "arity"), ("kind", .string gathering.name), ("count", .number count)]

namespace Tree

/-- A tree with children as a JSON value. -/
def nodeJson (head : Json) (children : List Json) : Json :=
  .record [("node", .record [("head", head), ("children", .list children)])]

mutual

/-- A tree as a JSON value. -/
def toJson : Tree → Json
  | leaf token => .record [("leaf", token.toJson)]
  | operator op operands => nodeJson (.record [("operator", op.toJson)]) (allToJson operands)
  | unary op operands => nodeJson (.record [("unary_operator", op.toJson)]) (allToJson operands)
  | lambda body => nodeJson (.string "lambda") (allToJson body)
  | array elements => nodeJson (.string "array") (allToJson elements)
  | call callee arguments => nodeJson (.record [("call", toJson callee)]) (allToJson arguments)

/-- Trees as JSON values. -/
def allToJson : List Tree → List Json
  | [] => []
  | tree :: trees => toJson tree :: allToJson trees

end

end Tree

/-- A diagnostic as a JSON value. -/
def Diagnostic.toJson (diagnostic : Diagnostic) : Json :=
  .record
    [("stage", .string diagnostic.stage.name), ("message", .string diagnostic.message),
     ("offset", diagnostic.offset.elim .null .number)]

/-- A compiled program as a JSON value. -/
def Compiled.toJson (compiled : Compiled) : Json :=
  .record
    [("output", .string compiled.output),
     ("diagnostics", .list (compiled.diagnostics.map Diagnostic.toJson))]

end ExprCompiler
