/-
# Remote interfaces

What an interface definition document declares: interfaces with their operations and attributes.
Types and parameter lists are kept as they are written.
-/

namespace Survey

/-- An operation of a remote interface. -/
structure RemoteOperation where
  /-- Its name. -/
  name : String
  /-- The last word of its return type. -/
  returnType : String
  /-- Its parameter list as written. -/
  rawParameterList : String
deriving DecidableEq, Repr

/-- An attribute of a remote interface. -/
structure RemoteAttribute where
  /-- Its name. -/
  name : String
  /-- Its type as written. -/
  type : String
  /-- Whether it can only be read. -/
  readonly : Bool
deriving DecidableEq, Repr

/-- An interface of a definition document. -/
structure RemoteInterface where
  /-- Its name. -/
  name : String
  /-- The module named last before it; empty when there is none. -/
  module : String
  /-- Its operations in textual order. -/
  operations : List RemoteOperation
  /-- Its attributes in textual order. -/
  attributes : List RemoteAttribute
  /-- The interfaces that it inherits from, in textual order. -/
  inheritedNames : List String
deriving DecidableEq, Repr

end Survey
