import Provision.Json.Value

/-! Template expressions.

A string of a template that stands between brackets is an expression, which is evaluated
when the template is deployed. Expressions refer to the parameters and variables of
their template; what they refer to can be read off them. -/
namespace Provision.Azure

inductive Expression where
  | literal (text : String)
  /-- Code that is taken as it is. -/
  | code (text : String)
  | parameterValue (name : String)
  | variableValue (name : String)
  | call (function : String) (arguments : List Expression)
  deriving Inhabited

namespace Expression

/-- A text between single quotes. -/
def quote (s : String) : String := "'" ++ s ++ "'"

mutual

def render : Expression → String
  | .literal text => quote text
  | .code text => text
  | .parameterValue name => "parameters(" ++ quote name ++ ")"
  | .variableValue name => "variables(" ++ quote name ++ ")"
  | .call function arguments => function ++ "(" ++ ", ".intercalate (renderAll arguments) ++ ")"

def renderAll : List Expression → List String
  | [] => []
  | e :: rest => e.render :: renderAll rest

end

mutual

/-- The names of the parameters that an expression refers to. -/
def parameterNames : Expression → List String
  | .parameterValue name => [name]
  | .call _ arguments => parameterNamesOfAll arguments
  | _ => []

def parameterNamesOfAll : List Expression → List String
  | [] => []
  | e :: rest => e.parameterNames ++ parameterNamesOfAll rest

end

mutual

/-- The names of the variables that an expression refers to. -/
def variableNames : Expression → List String
  | .variableValue name => [name]
  | .call _ arguments => variableNamesOfAll arguments
  | _ => []

def variableNamesOfAll : List Expression → List String
  | [] => []
  | e :: rest => e.variableNames ++ variableNamesOfAll rest

end

end Expression

/-! ### Terms -/

/-- A string of a template: a plain text or an expression. -/
inductive Term where
  | text (s : String)
  | expression (e : Expression)
  deriving Inhabited

namespace Term

/-- A string as a template has it. -/
def ofString (s : String) : Term :=
  match s.toList with
  | '[' :: rest =>
    if rest.getLast? = some ']' then .expression (.code (String.ofList rest.dropLast)) else .text s
  | _ => .text s

def render : Term → String
  | .text s => s
  | .expression e => "[" ++ e.render ++ "]"

/-- The term as a part of an expression. -/
def asExpression : Term → Expression
  | .text s => .literal s
  | .expression e => e

def expressions : Term → List Expression
  | .text _ => []
  | .expression e => [e]

end Term

/-! ### Contents -/

/-- A value of a template. Objects are written with their members arranged by name. -/
inductive Content where
  | given (v : Json)
  | term (t : Term)
  | array (items : List Content)
  | object (members : List (String × Content))
  deriving Inhabited

namespace Content

def text (s : String) : Content := .term (.text s)

def expression (e : Expression) : Content := .term (.expression e)

mutual

def toJson : Content → Json
  | .given v => v
  | .term t => .string t.render
  | .array items => .array (itemsToJson items)
  | .object members => .sorted (membersToJson members)

def itemsToJson : List Content → List Json
  | [] => []
  | c :: rest => c.toJson :: itemsToJson rest

def membersToJson : List (String × Content) → List (String × Json)
  | [] => []
  | (name, c) :: rest => (name, c.toJson) :: membersToJson rest

end

mutual

/-- The expressions in a value. -/
def expressions : Content → List Expression
  | .given _ => []
  | .term t => t.expressions
  | .array items => expressionsOfItems items
  | .object members => expressionsOfMembers members

def expressionsOfItems : List Content → List Expression
  | [] => []
  | c :: rest => c.expressions ++ expressionsOfItems rest

def expressionsOfMembers : List (String × Content) → List Expression
  | [] => []
  | (_, c) :: rest => c.expressions ++ expressionsOfMembers rest

end

end Content
end Provision.Azure
