/-!
# MissionScript.DataType

The types that values in a compiled script carry, and the types that commands declare for their
parameters. `ParameterType.accepts` says which values may stand where.
-/

namespace MissionScript

/-- The type of a value stored in a parameter. -/
inductive DataType
  | null
  | var
  | constant
  | integer
  | string
  | object
  | operator
  deriving DecidableEq, Repr, Inhabited

namespace DataType

/-- Every data type. -/
def all : List DataType := [.null, .var, .constant, .integer, .string, .object, .operator]

/-- The name of a data type in JSON. -/
def name : DataType → String
  | .null => "null"
  | .var => "variable"
  | .constant => "constant"
  | .integer => "integer"
  | .string => "string"
  | .object => "object"
  | .operator => "operator"

/-- The data type that JSON calls `name`. -/
def ofName? (name : String) : Option DataType := all.find? (·.name == name)

@[simp] theorem ofName?_name (d : DataType) : ofName? d.name = some d := by cases d <;> decide

end DataType

/-- The type that a command declares for a parameter. -/
inductive ParameterType
  | value
  | number
  | string
  | boolean
  | var
  | returnValue
  /-- A return value in whose place a line may test the result. -/
  | returnValueIf
  /-- A return value in whose place a line may test the result or start a task. -/
  | returnValueIfStart
  /-- A return value of a command that can be interrupted, in whose place a line may test it. -/
  | interruptReturnValueIf
  | refObj
  | comment
  | scriptName
  | labelName
  | labelNumber
  | operand
  | argument
  | ship
  | station
  | sector
  | ware
  | race
  | objectClass
  deriving DecidableEq, Repr, Inhabited

namespace ParameterType

/-- Every parameter type. -/
def all : List ParameterType :=
  [.value, .number, .string, .boolean, .var, .returnValue, .returnValueIf, .returnValueIfStart,
    .interruptReturnValueIf, .refObj, .comment, .scriptName, .labelName, .labelNumber, .operand,
    .argument, .ship, .station, .sector, .ware, .race, .objectClass]

/-- The name of a parameter type in JSON. -/
def name : ParameterType → String
  | .value => "value"
  | .number => "number"
  | .string => "string"
  | .boolean => "boolean"
  | .var => "variable"
  | .returnValue => "return_value"
  | .returnValueIf => "return_value_if"
  | .returnValueIfStart => "return_value_if_start"
  | .interruptReturnValueIf => "interrupt_return_value_if"
  | .refObj => "ref_obj"
  | .comment => "comment"
  | .scriptName => "script_name"
  | .labelName => "label_name"
  | .labelNumber => "label_number"
  | .operand => "expression_parameter"
  | .argument => "v_arg_parameter"
  | .ship => "ship"
  | .station => "station"
  | .sector => "sector"
  | .ware => "ware"
  | .race => "race"
  | .objectClass => "object_class"

/-- What messages call a parameter type. -/
def title : ParameterType → String
  | .value => "value"
  | .number => "number"
  | .string => "string"
  | .boolean => "boolean"
  | .var => "variable"
  | .returnValue | .returnValueIf | .returnValueIfStart | .interruptReturnValueIf => "return value"
  | .refObj => "reference object"
  | .comment => "comment"
  | .scriptName => "script name"
  | .labelName => "label name"
  | .labelNumber => "label"
  | .operand => "expression operand"
  | .argument => "argument"
  | .ship => "ship"
  | .station => "station"
  | .sector => "sector"
  | .ware => "ware"
  | .race => "race"
  | .objectClass => "object class"

/-- The parameter type that JSON calls `name`. -/
def ofName? (name : String) : Option ParameterType := all.find? (·.name == name)

/-- Is this a return value in whose place a line may carry a conditional? -/
def isConditionalReturn : ParameterType → Bool
  | .returnValueIf | .returnValueIfStart | .interruptReturnValueIf => true
  | _ => false

/-- Is this a return value of any kind? -/
def isReturnValue (t : ParameterType) : Bool := t == .returnValue || t.isConditionalReturn

/-- The types of the values that may stand where this type is declared. -/
def accepted : ParameterType → List DataType
  | .var => [.var]
  | .returnValue => [.var, .null]
  | .returnValueIf | .returnValueIfStart | .interruptReturnValueIf => [.var, .null, .integer]
  | .number => [.integer, .var]
  | .boolean => [.integer, .var, .constant]
  | .string | .scriptName => [.string, .var]
  | .comment | .labelName => [.string]
  | .labelNumber => [.string, .integer]
  | .refObj | .ship | .station | .sector | .ware | .race | .objectClass =>
    [.var, .constant, .object, .null]
  | .value | .argument => [.null, .var, .constant, .integer, .string, .object]
  | .operand => DataType.all

/-- May a value of type `data` stand where this type is declared? -/
def accepts (t : ParameterType) (data : DataType) : Bool := t.accepted.contains data

@[simp] theorem ofName?_name (t : ParameterType) : ofName? t.name = some t := by
  cases t <;> decide

/-- A conditional is stored as an integer, and only in a slot that may carry one. -/
theorem accepts_integer_of_isConditionalReturn {t : ParameterType}
    (h : t.isConditionalReturn = true) : t.accepts .integer = true := by
  cases t <;> simp_all [isConditionalReturn, accepts, accepted]

end ParameterType

end MissionScript
