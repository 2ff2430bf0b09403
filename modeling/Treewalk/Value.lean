import Treewalk.Text.Quoted
import Treewalk.Tree.Text

/-!
Values of running programs.
-/

namespace Treewalk

/-- What a native function does when it is called. -/
inductive Builtin where
  /-- Reads the clock. -/
  | clock
  /-- Returns the last argument, or nil if there is none. -/
  | lastArgument
  deriving DecidableEq

/-- A function that the interpreter provides. Its name is what it is compared by. -/
structure Native where
  name : Symbol
  arity : Nat
  builtin : Builtin
  deriving DecidableEq

/-- A native function with its name and arity, for the maintainers of programs. -/
def Native.description (native : Native) : String :=
  "NativeFunction \x7b name: Symbol(" ++ Text.quote native.name.spelling ++ "), arity: " ++
    toString native.arity ++ " \x7d"

inductive Value where
  | nil
  | boolean (value : Bool)
  | number (value : Number)
  | string (value : String)
  | native (function : Native)
  deriving DecidableEq

namespace Value

def ofConstant : Constant → Value
  | .nil => .nil
  | .boolean value => .boolean value
  | .number value => .number value
  | .string value => .string value

/-- Only nil and false count as false. -/
def isTruthy : Value → Bool
  | nil => false
  | boolean value => value
  | _ => true

def typeName : Value → String
  | nil => "nil"
  | boolean _ => "boolean"
  | number _ => "number"
  | string _ => "string"
  | native _ => "native function"

/-- The text that is printed for a value. -/
def text : Value → String
  | nil => "nil"
  | boolean value => if value then "true" else "false"
  | number value => value.text
  | string value => value
  | native function => "<native fn " ++ function.name.spelling ++ ">"

/-- Equality as programs see it: values of different types differ, numbers compare as numbers
and native functions by their names. -/
def same : Value → Value → Bool
  | nil, nil => true
  | boolean left, boolean right => left == right
  | number left, number right => left.equal right
  | string left, string right => left == right
  | native left, native right => left.name.same right.name
  | _, _ => false

end Value

end Treewalk
