import Pheromone.Scheduler.Dispatch

/-!
# The arguments of a function

The part of `run` between the message of the scheduler and the call of the function.
The arguments are the fields of the message, or the objects in shared memory that the
fields name.
-/

namespace Pheromone.Executor

open Lib Common Scheduler

/-- An element of `arg_values`, as far as its size in `size_of_args_` goes. -/
structure FunctionArgument where
  value : Bytes
  size : Nat
  deriving DecidableEq, Repr

def FunctionArgument.ofString (s : Bytes) : FunctionArgument := { value := s, size := s.length }

/-- The arguments for one object: its value, after its key when the flag is 2.  `none` is
the exception of `stoi`. -/
def objectArguments (readShm : Bytes → Nat → Bytes) (argFlag : UInt8)
    (arg : Bytes × Bytes × Bytes) : Option (List FunctionArgument) :=
  (Bytes.stoi arg.2.2).map fun objSize =>
    let size := sizeOfInt objSize
    let object := { value := readShm (objectName arg) size, size }
    if argFlag = 2 then [.ofString arg.2.1, object] else [object]

/-- What `run` makes of the fields after the name of the function; `some none` when it
cannot parse them and gives the call up. -/
def parseArguments (readShm : Bytes → Nat → Bytes) (argFlag : UInt8) (fields : List Bytes) :
    Option (Option (List FunctionArgument)) :=
  if argFlag = 0 then some (some (fields.map .ofString))
  else
    match triples fields with
    | none => some none
    | some args =>
        -- other flags leave the number of arguments undefined
        if argFlag ≤ 2 then
          (args.mapM (objectArguments readShm argFlag)).map fun args => some args.flatten
        else none

/-- The arguments that the function of a call message gets, once it is loaded. -/
def functionArguments (readShm : Bytes → Nat → Bytes) :
    Bytes → Option (Option (List FunctionArgument))
  | 1 :: argFlag :: _ :: rest =>
      match Bytes.split kDelimiterChar (Bytes.cstr rest) with
      | _ :: _ :: fields => parseArguments readShm (argFlag - 1) fields
      | _ => none
  | 1 :: _ => none
  | _ => some none

end Pheromone.Executor
