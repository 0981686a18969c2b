import Pheromone.Executor.Arguments
import Pheromone.Executor.Library

/-!
# The calls of an executor

The part of `run` that handles the messages of the scheduler.  It sets up the library for
the call, loads the function, writes the arguments into `arg_values` and calls the
function.  The sizes of the arguments are kept in the library, which outlives the call and
is cleared only after the function has returned.
-/

namespace Pheromone.Executor

open Lib Common Scheduler

/-- The conversion of a `size_t` to an `int`. -/
def intOfSize (n : Nat) : Int := intOfUInt32 (UInt32.ofNat n)

/-- The user library with `size_of_args_`. -/
structure CallLibrary extends UserLibrary where
  sizeOfArgs : List Nat := []

namespace CallLibrary

def clearSession (lib : CallLibrary) : CallLibrary :=
  { lib with function := [], sessionId := [], persistFlag := 0, sizeOfArgs := [] }

/-- `get_size_of_arg`; the comparison with the size converts the `int`. -/
def getSizeOfArg (argIdx : Int) (lib : CallLibrary) : Nat :=
  if lib.sizeOfArgs.length ≤ sizeOfInt argIdx then 2 ^ 64 - 1
  else lib.sizeOfArgs.getD (sizeOfInt argIdx) 0

end CallLibrary

/-! ## Writing the arguments -/

/-- `arg_values`, by the writes to it in their order, and `size_of_args_`. -/
structure ArgSlots where
  argValues : List (Nat × Bytes) := []
  sizeOfArgs : List Nat
  deriving DecidableEq

namespace ArgSlots

def write (index : Nat) (value : Bytes) (slots : ArgSlots) : ArgSlots :=
  { slots with argValues := slots.argValues ++ [(index, value)] }

def addArgSize (size : Nat) (slots : ArgSlots) : ArgSlots :=
  { slots with sizeOfArgs := slots.sizeOfArgs ++ [size] }

end ArgSlots

def placeField (funcWithArgs : List Bytes) (slots : ArgSlots) (i : Nat) : Option ArgSlots :=
  funcWithArgs[i + 1]?.map fun field => (slots.write i field).addArgSize field.length

/-- The object that is named by the fields from `i` on.  `none` is a field that does not
exist or the exception of `stoi`. -/
def placeObject (readShm : Bytes → Nat → Bytes) (argFlag : UInt8) (funcWithArgs : List Bytes)
    (slots : ArgSlots) (i : Nat) : Option ArgSlots := do
  let bucket ← funcWithArgs[i]?
  let sessionKey ← funcWithArgs[i + 1]?
  let objSize ← funcWithArgs[i + 2]?.bind Bytes.stoi
  let size := sizeOfInt objSize
  let shmPtr := readShm (bucket ++ kDelimiter ++ sessionKey) size
  if argFlag = 1 then pure ((slots.write (i / 3) shmPtr).addArgSize size)
  else if argFlag = 2 then
    let index := 2 * (i - 1) / 3
    pure ((((slots.write index sessionKey).write (index + 1) shmPtr).addArgSize
      sessionKey.length).addArgSize size)
  else pure slots

/-- `arg_size` for objects; not set for a flag that is neither 1 nor 2. -/
def objectArgSize (argFlag : UInt8) (funcWithArgs : List Bytes) : Option Int :=
  if argFlag = 1 then some (intOfSize (funcWithArgs.length / 3))
  else if argFlag = 2 then some (intOfSize (2 * (funcWithArgs.length - 1) / 3))
  else none

/-- The loops over `func_with_args`, of which the first element is the function.
`some none` when the number of fields is wrong. -/
def placeArguments (readShm : Bytes → Nat → Bytes) (argFlag : UInt8) (funcWithArgs : List Bytes)
    (slots : ArgSlots) : Option (Option (Int × ArgSlots)) :=
  if argFlag = 0 then
    let argSize := intOfSize (funcWithArgs.length - 1)
    ((List.range argSize.toNat).foldlM (placeField funcWithArgs) slots).map fun slots =>
      some (argSize, slots)
  else if funcWithArgs.length % 3 = 1 then
    (objectArgSize argFlag funcWithArgs).bind fun argSize =>
      -- for (int i = 1; i < func_with_args.size(); i += 3)
      ((List.range' 1 ((funcWithArgs.length + 1) / 3) 3).foldlM
        (placeObject readShm argFlag funcWithArgs) slots).map fun slots => some (argSize, slots)
  else some none

/-! ## The loop -/

structure Delivery where
  message : Bytes
  /-- The channel counts the bytes of a message in an `int`. -/
  length_lt : message.length < 2 ^ 31
  /-- What `load_function` returns if it is called. -/
  loads : Bool
  /-- The shared memory at the time of the call. -/
  readShm : Bytes → Nat → Bytes
  /-- What the function does to its library. -/
  effect : UserLibrary → UserLibrary

structure CallState where
  lib : CallLibrary
  /-- The functions in `name_func_map`. -/
  loaded : List Name := []

def CallState.new (ip : Address) (threadId : Nat) : CallState where
  lib := { UserLibrary.new ip threadId with }

inductive CallOutcome
  /-- Not a function call. -/
  | ignored
  /-- "Fail to execute function due to load error" -/
  | notLoaded
  /-- "Function cannot parse the shared memory args" -/
  | notParsed
  /-- The function is called with `arg_size`, `arg_values` and the library. -/
  | invoked (argSize : Int) (argValues : List (Nat × Bytes)) (lib : CallLibrary)

/-- One message of the scheduler.  `none` is the end of the process or undefined. -/
def CallState.receive (state : CallState) (d : Delivery) : Option (CallState × CallOutcome) :=
  match d.message with
  | 1 :: flag :: persistFlag :: rest =>
      match Bytes.split kDelimiterChar (Bytes.cstr rest) with
      | sessionId :: function :: args =>
          let lib := { state.lib with function, sessionId, persistFlag }
          if function ∉ state.loaded ∧ d.loads = false then
            some ({ state with lib }, .notLoaded)
          else
            let loaded := if function ∈ state.loaded then state.loaded
              else function :: state.loaded
            (placeArguments d.readShm (flag - 1) (function :: args)
              { sizeOfArgs := lib.sizeOfArgs }).map fun placed =>
                match placed with
                | none => ({ lib, loaded }, .notParsed)
                | some (argSize, slots) =>
                    let lib := { lib with sizeOfArgs := slots.sizeOfArgs }
                    ({ lib := { d.effect lib.toUserLibrary with
                          sizeOfArgs := lib.sizeOfArgs : CallLibrary }.clearSession, loaded },
                      .invoked argSize slots.argValues lib)
      | _ => none
  | 1 :: _ => none
  | _ => some (state, .ignored)

def CallState.next (state : CallState) (d : Delivery) : Option CallState :=
  (state.receive d).map Prod.fst

end Pheromone.Executor
