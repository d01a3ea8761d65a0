import MiniJava.Syntax

/-! What can be wrong with a program, and how a message says it. A hint is a name that was perhaps
meant; positions of parameters and arguments count from 1. -/
namespace MiniJava

inductive SemanticError where
  | duplicateClass (name : Name)
  | unknownSuperclass (cls parent : Name)
  | cyclicInheritance (cls : Name)
  | cannotExtendMainClass (cls parent : Name)
  | duplicateField (name cls : Name)
  | duplicateMethod (name cls : Name)
  | methodNamedLikeClass (name : Name)
  | methodNamedLikeField (name cls : Name)
  | unknownType (name : Name) (hint : Option Name)
  | nameAlreadyUsed (name method : Name)
  | mainParamUsed (name : Name)
  | thisInMain
  | overrideReturnType (method ancestor : Name) (expected actual : Ty)
  | overrideParamCount (method ancestor : Name) (expected actual : Nat)
  | overrideParamType (method ancestor : Name) (position : Nat) (expected actual : Ty)
  | invalidOperands (op : BinOp) (lhs rhs : Ty)
  | invalidNotOperand (ty : Ty)
  | incompatibleTypes (expected actual : Ty)
  | unknownIdentifier (name : Name) (hint : Option Name)
  | uninitialized (name : Name)
  | conditionMustBeBoolean (ty : Ty)
  | printRequiresInt (ty : Ty)
  | indexMustBeInt (ty : Ty)
  | arraySizeMustBeInt (ty : Ty)
  | notAnArray (ty : Ty)
  | cannotDereference (ty : Ty)
  | cannotInstantiateMainClass (name : Name)
  | unknownMethod (method : Name) (ty : Ty) (hint : Option Name)
  | argCountMismatch (method : Name) (expected actual : Nat)
  | argTypeMismatch (method : Name) (position : Nat) (expected actual : Ty)
  | returnTypeMismatch (method : Name) (expected actual : Ty)
  deriving DecidableEq, Repr

def didYouMean : Option Name → String
  | some name => s!"; did you mean {name}?"
  | none => ""

namespace SemanticError

def message : SemanticError → String
  | duplicateClass name => s!"class {name} has already been declared"
  | unknownSuperclass cls parent => s!"class {cls} cannot extend undeclared class {parent}"
  | cyclicInheritance cls => s!"cyclic inheritance involving class {cls}"
  | cannotExtendMainClass cls parent => s!"class {cls} cannot extend the main class {parent}"
  | duplicateField name cls => s!"field {name} is already declared in class {cls}"
  | duplicateMethod name cls => s!"method {name}() is already declared in class {cls}"
  | methodNamedLikeClass name => s!"method {name}() cannot have the same name as its class"
  | methodNamedLikeField name cls =>
    s!"method {name}() cannot have the same name as a field of class {cls}"
  | unknownType name hint => s!"cannot find class {name}" ++ didYouMean hint
  | nameAlreadyUsed name method => s!"the name {name} is already being used in method {method}()"
  | mainParamUsed name => s!"the parameter {name} of main cannot be used"
  | thisInMain => "this cannot be used in the static main method"
  | overrideReturnType method ancestor expected actual =>
    s!"method {method}() overrides {ancestor}.{method}() with return type " ++
      actual.text ++ " instead of " ++ expected.text
  | overrideParamCount method ancestor expected actual =>
    s!"method {method}() overrides {ancestor}.{method}() with {actual} parameter(s) instead of {expected}"
  | overrideParamType method ancestor position expected actual =>
    s!"method {method}() overrides {ancestor}.{method}() with parameter {position} of type " ++
      actual.text ++ " instead of " ++ expected.text
  | invalidOperands op lhs rhs =>
    "bad operand types for binary operator '" ++ op.sign ++ "': " ++ lhs.text ++ " and " ++ rhs.text
  | invalidNotOperand ty => "bad operand type " ++ ty.text ++ " for unary operator '!'"
  | incompatibleTypes expected actual =>
    "incompatible types: " ++ actual.text ++ " cannot be converted to " ++ expected.text
  | unknownIdentifier name hint => s!"cannot find symbol {name}" ++ didYouMean hint
  | uninitialized name => s!"variable {name} might not have been initialized"
  | conditionMustBeBoolean ty => "condition must be boolean, found " ++ ty.text
  | printRequiresInt ty => "System.out.println expects int, found " ++ ty.text
  | indexMustBeInt ty => "array index must be int, found " ++ ty.text
  | arraySizeMustBeInt ty => "array size must be int, found " ++ ty.text
  | notAnArray ty => "array required, but " ++ ty.text ++ " found"
  | cannotDereference ty => ty.text ++ " cannot be dereferenced"
  | cannotInstantiateMainClass name => s!"the main class {name} cannot be instantiated"
  | unknownMethod method ty hint =>
    s!"method {method}() does not exist on type " ++ ty.text ++ didYouMean hint
  | argCountMismatch method expected actual =>
    s!"method {method}() expects {expected} argument(s), but {actual} were given"
  | argTypeMismatch method position expected actual =>
    s!"argument {position} of {method}() must be " ++ expected.text ++ ", found " ++ actual.text
  | returnTypeMismatch method expected actual =>
    s!"method {method}() must return " ++ expected.text ++ ", found " ++ actual.text

end SemanticError

end MiniJava
