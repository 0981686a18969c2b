import Pheromone.Executor.Arguments
import Pheromone.Executor.Proofs.Messages
import Pheromone.Lib.Transition

/-!
# The arguments of a call message

A call message has its arguments as fields.  Objects travel by name and size and are
read from shared memory; values travel themselves, and are read back when they are
plain and the last of them is not empty.
-/

namespace Pheromone.Executor

open Lib Common Scheduler

variable {argFlag : UInt8} {flag : Int} {o : StoredObject}

/-! ## Fields -/

def fieldText (fields : List Bytes) : Bytes := fields.flatMap fun field => kDelimiter ++ field

def readFields : Bytes → List Bytes
  | [] => []
  | _ :: rest => Bytes.split kDelimiterChar (Bytes.cstr rest)

theorem readFields_cons (field : Bytes) (fields : List Bytes) :
    readFields (fieldText (field :: fields)) =
      Bytes.split kDelimiterChar (Bytes.cstr (field ++ fieldText fields)) := rfl

theorem split_fields {name : Bytes} (fields : List Bytes) (hname : Plain name) (hne : name ≠ []) :
    Bytes.split kDelimiterChar (Bytes.cstr (name ++ fieldText fields)) =
      name :: readFields (fieldText fields) := by
  cases fields with
  | nil =>
    rw [fieldText, List.flatMap_nil, List.append_nil, cstr_of_plain hname]
    exact Bytes.split_of_not_mem _ hname.1 hne
  | cons field fields =>
    rw [readFields_cons, fieldText, List.flatMap_cons, ← List.append_assoc, ← List.append_assoc,
      List.append_assoc (name ++ kDelimiter)]
    exact split_field _ hname

theorem readFields_eq_iff (fields : List Bytes) :
    readFields (fieldText fields) = fields ↔
      (∀ field ∈ fields, Plain field) ∧ fields.getLast? ≠ some [] := by
  induction fields with
  | nil => simp [fieldText, readFields]
  | cons field fields ih =>
    rw [readFields_cons]
    by_cases hfield : Plain field
    · cases fields with
      | nil =>
        rw [fieldText, List.flatMap_nil, List.append_nil, cstr_of_plain hfield]
        by_cases hne : field = []
        · subst hne
          simp [Bytes.split, Bytes.splitFrom]
        · rw [Bytes.split_of_not_mem _ hfield.1 hne]
          simp [hfield, hne]
      | cons next rest =>
        have htext : field ++ fieldText (next :: rest) =
            field ++ kDelimiter ++ (next ++ fieldText rest) := by
          simp [fieldText]
        rw [htext, split_field _ hfield, List.cons.injEq, List.getLast?_cons_cons,
          List.forall_mem_cons]
        rw [readFields_cons] at ih
        simp only [hfield, true_and, ih]
    · refine iff_of_false (fun heq => ?_) fun hall => hfield (hall.1 field List.mem_cons_self)
      refine hfield (split_cstr_plain (field ++ fieldText fields) field ?_)
      rw [heq]
      exact List.mem_cons_self

theorem callMessage_eq (call : SchedCall) (clientAddr : Address) :
    callMessage call clientAddr =
      1 :: (uint32OfInt (call.argFlag + 1)).toUInt8 :: (if clientAddr = [] then 1 else 2) ::
        (call.sessionId ++ kDelimiter ++ (call.funcName ++ fieldText call.funcArgs)) := by
  simp [callMessage, fieldText]

structure Addressed (call : SchedCall) : Prop where
  session : Plain call.sessionId
  function : Plain call.funcName
  function_ne : call.funcName ≠ []

theorem functionArguments_callMessage (readShm : Bytes → Nat → Bytes) {call : SchedCall}
    (h : Addressed call) (clientAddr : Address) :
    functionArguments readShm (callMessage call clientAddr) =
      parseArguments readShm ((uint32OfInt (call.argFlag + 1)).toUInt8 - 1)
        (readFields (fieldText call.funcArgs)) := by
  simp only [callMessage_eq, functionArguments, split_field _ h.session,
    split_fields _ h.function h.function_ne]

/-! ## Objects -/

structure StoredObject where
  bucket : Bucket
  sessionKey : Bytes
  value : Value
  deriving DecidableEq

namespace StoredObject

def name (o : StoredObject) : Bytes := o.bucket ++ kDelimiter ++ o.sessionKey

def triple (o : StoredObject) : List Bytes :=
  [o.bucket, o.sessionKey, Bytes.toDecimal o.value.length]

def nameAndSize (o : StoredObject) : List Bytes := [o.name, Bytes.toDecimal o.value.length]

def values (argFlag : Int) (o : StoredObject) : List Bytes :=
  if argFlag = 2 then [o.sessionKey, o.value] else [o.value]

structure PlainNames (o : StoredObject) : Prop where
  bucket : Plain o.bucket
  sessionKey : Plain o.sessionKey

end StoredObject

def argumentsOf (argFlag : Int) (objects : List StoredObject) : List FunctionArgument :=
  (objects.flatMap (StoredObject.values argFlag)).map .ofString

theorem fieldText_append (fields fields' : List Bytes) :
    fieldText (fields ++ fields') = fieldText fields ++ fieldText fields' :=
  List.flatMap_append

theorem fieldText_nameAndSize (objects : List StoredObject) :
    fieldText (objects.flatMap StoredObject.nameAndSize) =
      fieldText (objects.flatMap StoredObject.triple) := by
  induction objects with
  | nil => rfl
  | cons o objects ih =>
    rw [List.flatMap_cons, List.flatMap_cons, fieldText_append, fieldText_append, ih]
    simp [fieldText, StoredObject.nameAndSize, StoredObject.triple, StoredObject.name]

theorem getLast?_flatMap {α β : Type} {f : α → List β} (hf : ∀ a, f a ≠ []) (l : List α) :
    (l.flatMap f).getLast? = l.getLast?.bind fun a => (f a).getLast? := by
  rcases List.eq_nil_or_concat l with rfl | ⟨l, a, rfl⟩
  · rfl
  · rw [List.concat_eq_append, List.flatMap_append, List.flatMap_singleton,
      List.getLast?_append_of_ne_nil _ (hf a), List.getLast?_append_of_ne_nil _ (by simp)]
    rfl

theorem readFields_triples {objects : List StoredObject}
    (hnames : ∀ o ∈ objects, o.PlainNames) :
    readFields (fieldText (objects.flatMap StoredObject.triple)) =
      objects.flatMap StoredObject.triple := by
  refine (readFields_eq_iff _).mpr ⟨fun field hfield => ?_, ?_⟩
  · obtain ⟨o, ho, hfield⟩ := List.mem_flatMap.mp hfield
    simp only [StoredObject.triple, List.mem_cons, List.not_mem_nil, or_false] at hfield
    rcases hfield with rfl | rfl | rfl
    · exact (hnames o ho).bucket
    · exact (hnames o ho).sessionKey
    · exact plain_toDecimal _
  · rw [getLast?_flatMap (fun o => by simp [StoredObject.triple])]
    intro hlast
    obtain ⟨o, -, hsize⟩ := Option.bind_eq_some_iff.mp hlast
    exact Bytes.toDecimal_ne_nil _ (Option.some.inj hsize)

def StoredObject.parts (o : StoredObject) : Bytes × Bytes × Bytes :=
  (o.bucket, o.sessionKey, Bytes.toDecimal o.value.length)

@[simp] theorem StoredObject.objectName_parts (o : StoredObject) :
    objectName o.parts = o.name := rfl

@[simp] theorem StoredObject.parts_sessionKey (o : StoredObject) :
    o.parts.2.1 = o.sessionKey := rfl

@[simp] theorem StoredObject.parts_size (o : StoredObject) :
    o.parts.2.2 = Bytes.toDecimal o.value.length := rfl

theorem triples_flatMap (objects : List StoredObject) :
    triples (objects.flatMap StoredObject.triple) = some (objects.map StoredObject.parts) := by
  induction objects with
  | nil => rfl
  | cons o objects ih =>
    rw [List.flatMap_cons]
    simp [StoredObject.triple, triples, ih, StoredObject.parts]

section Reading

variable {readShm : Bytes → Nat → Bytes} {objects : List StoredObject} {call : SchedCall}

def Readable (readShm : Bytes → Nat → Bytes) (objects : List StoredObject) : Prop :=
  ∀ o ∈ objects, o.value.length < 2 ^ 31 ∧ readShm o.name o.value.length = o.value

theorem objectArguments_parts (hflag : argFlag = 2 ↔ flag = 2) (hsize : o.value.length < 2 ^ 31)
    (hread : readShm o.name o.value.length = o.value) :
    objectArguments readShm argFlag o.parts = some (argumentsOf flag [o]) := by
  simp only [objectArguments, StoredObject.objectName_parts, StoredObject.parts_sessionKey,
    StoredObject.parts_size, Bytes.stoi_toDecimal, if_pos hsize, Option.map_some,
    sizeOfInt_natCast hsize, hread, hflag]
  unfold argumentsOf StoredObject.values
  by_cases htwo : flag = 2
  · simp [htwo, FunctionArgument.ofString]
  · simp [htwo, FunctionArgument.ofString]

theorem argumentsOf_cons (flag : Int) (o : StoredObject) (objects : List StoredObject) :
    argumentsOf flag (o :: objects) = argumentsOf flag [o] ++ argumentsOf flag objects := by
  simp [argumentsOf]

theorem mapM_objectArguments (hflag : argFlag = 2 ↔ flag = 2)
    (hobjects : Readable readShm objects) :
    ((objects.map StoredObject.parts).mapM (objectArguments readShm argFlag)).map List.flatten =
      some (argumentsOf flag objects) := by
  induction objects with
  | nil => rfl
  | cons o objects ih =>
    obtain ⟨hsize, hread⟩ := hobjects o List.mem_cons_self
    have hrest := ih fun o ho => hobjects o (List.mem_cons_of_mem _ ho)
    obtain ⟨args, hargs, hflat⟩ := Option.map_eq_some_iff.mp hrest
    rw [argumentsOf_cons, ← hflat, List.map_cons, List.mapM_cons,
      objectArguments_parts hflag hsize hread, hargs]
    rfl

theorem parseArguments_objects (hflag : (argFlag = 1 ∧ flag = 1) ∨ (argFlag = 2 ∧ flag = 2))
    (hobjects : Readable readShm objects) :
    parseArguments readShm argFlag (objects.flatMap StoredObject.triple) =
      some (some (argumentsOf flag objects)) := by
  have hargFlag : argFlag ≠ 0 ∧ argFlag ≤ 2 ∧ (argFlag = 2 ↔ flag = 2) := by
    rcases hflag with ⟨rfl, rfl⟩ | ⟨rfl, rfl⟩ <;> decide
  obtain ⟨hne, hle, htwo⟩ := hargFlag
  obtain ⟨args, hargs, hflat⟩ := Option.map_eq_some_iff.mp (mapM_objectArguments htwo hobjects)
  rw [parseArguments, if_neg hne, triples_flatMap]
  simp only [if_pos hle, hargs, Option.map_some, hflat]

theorem functionArguments_objects (hcall : Addressed call)
    (hflag : call.argFlag = 1 ∨ call.argFlag = 2)
    (hargs : fieldText call.funcArgs = fieldText (objects.flatMap StoredObject.triple))
    (hnames : ∀ o ∈ objects, o.PlainNames) (hobjects : Readable readShm objects)
    (clientAddr : Address) :
    functionArguments readShm (callMessage call clientAddr) =
      some (some (argumentsOf call.argFlag objects)) := by
  rw [functionArguments_callMessage readShm hcall, hargs, readFields_triples hnames]
  refine parseArguments_objects (hflag.imp (fun hflag => ?_) fun hflag => ?_) hobjects
  · rw [hflag]
    exact ⟨by decide, rfl⟩
  · rw [hflag]
    exact ⟨by decide, rfl⟩

theorem functionArguments_oversized (hcall : Addressed call)
    (hflag : call.argFlag = 1 ∨ call.argFlag = 2)
    (hargs : fieldText call.funcArgs = fieldText (objects.flatMap StoredObject.triple))
    (hnames : ∀ o ∈ objects, o.PlainNames) (ho : o ∈ objects) (hsize : ¬ o.value.length < 2 ^ 31)
    (clientAddr : Address) : functionArguments readShm (callMessage call clientAddr) = none := by
  have hnone : ∀ argFlag, (objects.map StoredObject.parts).mapM
      (objectArguments readShm argFlag) = none := by
    intro argFlag
    refine mapM_eq_none_of_mem (List.mem_map_of_mem ho) ?_
    simp only [objectArguments, StoredObject.parts_size, Bytes.stoi_toDecimal, if_neg hsize,
      Option.map_none]
  have hargFlag : ∃ argFlag : UInt8, (uint32OfInt (call.argFlag + 1)).toUInt8 - 1 = argFlag ∧
      argFlag ≠ 0 ∧ argFlag ≤ 2 := by
    rcases hflag with hflag | hflag
    · exact ⟨1, by rw [hflag]; decide, by decide, by decide⟩
    · exact ⟨2, by rw [hflag]; decide, by decide, by decide⟩
  obtain ⟨argFlag, heq, hne, hle⟩ := hargFlag
  rw [functionArguments_callMessage readShm hcall, hargs, readFields_triples hnames, heq,
    parseArguments, if_neg hne, triples_flatMap]
  simp only [if_pos hle, hnone, Option.map_none]

theorem ofString_injective : Function.Injective FunctionArgument.ofString := fun _ _ h =>
  congrArg FunctionArgument.value h

theorem functionArguments_values_iff (hcall : Addressed call) (hflag : call.argFlag = 0)
    (clientAddr : Address) :
    functionArguments readShm (callMessage call clientAddr) =
        some (some (call.funcArgs.map .ofString)) ↔
      (∀ value ∈ call.funcArgs, Plain value) ∧ call.funcArgs.getLast? ≠ some [] := by
  rw [functionArguments_callMessage readShm hcall, hflag, ← readFields_eq_iff]
  show some (some ((readFields (fieldText call.funcArgs)).map FunctionArgument.ofString)) = _ ↔ _
  rw [Option.some_inj, Option.some_inj, (List.map_injective_iff.mpr ofString_injective).eq_iff]

end Reading

/-! ## The whole message -/

theorem split_callMessage (sessionId : Session) (funcName : Name) (funcArgs : List Bytes) :
    Bytes.split kDelimiterChar
        (Bytes.cstr (sessionId ++ kDelimiter ++ (funcName ++ fieldText funcArgs))) =
      readFields (fieldText (sessionId :: funcName :: funcArgs)) := by
  rw [readFields_cons]
  simp [fieldText]

def readCall : List Bytes → Option (Session × Name × List Bytes)
  | sessionId :: funcName :: funcArgs => some (sessionId, funcName, funcArgs)
  | _ => none

theorem start_read (lib : UserLibrary) (call : SchedCall) (clientAddr : Address) :
    lib.start (callMessage call clientAddr) =
      (readCall (readFields (fieldText (call.sessionId :: call.funcName :: call.funcArgs)))).map
        fun read => { lib with
          sessionId := read.1, function := read.2.1
          persistFlag := if clientAddr = [] then 1 else 2 } := by
  simp only [callMessage_eq, UserLibrary.start, split_callMessage]
  rcases readFields (fieldText (call.sessionId :: call.funcName :: call.funcArgs)) with
    _ | ⟨session, _ | ⟨function, args⟩⟩ <;> rfl

theorem functionArguments_read (readShm : Bytes → Nat → Bytes) (call : SchedCall)
    (clientAddr : Address) :
    functionArguments readShm (callMessage call clientAddr) =
      (readCall (readFields (fieldText (call.sessionId :: call.funcName :: call.funcArgs)))).bind
        fun read => parseArguments readShm ((uint32OfInt (call.argFlag + 1)).toUInt8 - 1)
          read.2.2 := by
  simp only [callMessage_eq, functionArguments, split_callMessage]
  rcases readFields (fieldText (call.sessionId :: call.funcName :: call.funcArgs)) with
    _ | ⟨session, _ | ⟨function, args⟩⟩ <;> rfl

theorem readCall_eq_some_iff {fields : List Bytes} {sessionId : Session} {funcName : Name}
    {funcArgs : List Bytes} :
    readCall fields = some (sessionId, funcName, funcArgs) ↔
      fields = sessionId :: funcName :: funcArgs := by
  unfold readCall
  split
  · simp
  next hshort =>
    refine iff_of_false nofun ?_
    rintro rfl
    exact hshort _ _ _ rfl

/-- A message with plain arguments is read back as it was built exactly if no part of it has
a delimiter or a NUL in it and the last part is not empty. -/
theorem callMessage_read_iff (lib : UserLibrary) (readShm : Bytes → Nat → Bytes)
    (sessionId : Session) (appName funcName : Name) (funcArgs : List Bytes)
    (clientAddr : Address) :
    let message := callMessage { sessionId, appName, funcName, funcArgs, argFlag := 0 } clientAddr
    (∃ lib', lib.start message = some lib' ∧ lib'.sessionId = sessionId ∧
        lib'.function = funcName ∧
        functionArguments readShm message = some (some (funcArgs.map .ofString))) ↔
      (∀ part ∈ sessionId :: funcName :: funcArgs, Plain part) ∧
        (funcName :: funcArgs).getLast? ≠ some [] := by
  intro message
  have hflag : (uint32OfInt ((0 : Int) + 1)).toUInt8 - 1 = 0 := by decide
  have hfields := readFields_eq_iff (sessionId :: funcName :: funcArgs)
  rw [List.getLast?_cons_cons] at hfields
  rw [← hfields, ← readCall_eq_some_iff, start_read, functionArguments_read]
  constructor
  · rintro ⟨lib', hlib, hsession, hfunction, hvalues⟩
    obtain ⟨⟨sessionId', funcName', funcArgs'⟩, hread, rfl⟩ := Option.map_eq_some_iff.mp hlib
    rw [hread, Option.bind_some, hflag] at hvalues
    have hargs : funcArgs' = funcArgs := List.map_injective_iff.mpr ofString_injective
      (Option.some.inj (Option.some.inj hvalues))
    rw [hread, hargs, ← hsession, ← hfunction]
  · intro hread
    rw [hread, Option.bind_some, hflag]
    exact ⟨_, rfl, rfl, rfl, rfl⟩

/-! ## A batch of values -/

theorem split_cstr_last (text : Bytes) {field : Bytes} (hfield : Plain field) (hne : field ≠ []) :
    Bytes.split kDelimiterChar (Bytes.cstr (text ++ kDelimiter ++ field ++ kDelimiter)) =
      Bytes.split kDelimiterChar (Bytes.cstr (text ++ kDelimiter ++ field)) := by
  by_cases htext : (0 : UInt8) ∈ text
  · rw [List.append_assoc, List.append_assoc, List.append_assoc, cstr_append_of_mem _ htext,
      cstr_append_of_mem _ htext]
  · have hdelim : (0 : UInt8) ∉ kDelimiter := by decide
    have hzero : (0 : UInt8) ∉ text ++ kDelimiter ++ field := by
      simp only [List.mem_append, not_or]
      exact ⟨⟨htext, hdelim⟩, hfield.2⟩
    have hend : (0 : UInt8) ∉ text ++ kDelimiter ++ field ++ kDelimiter := by
      rw [List.mem_append, not_or]
      exact ⟨hzero, hdelim⟩
    rw [cstr_of_not_mem hzero, cstr_of_not_mem hend]
    have hlast := Bytes.split_append_last kDelimiterChar text hfield.1 hne
    simpa [kDelimiter] using hlast

theorem fieldText_batch (values : List Bytes) :
    fieldText [values.flatMap fun value => value ++ kDelimiter] =
      fieldText values ++ kDelimiter := by
  induction values with
  | nil => rfl
  | cons value values ih =>
    simp only [fieldText, List.flatMap_cons, List.flatMap_nil, List.append_nil,
      List.append_assoc] at ih ⊢
    rw [ih]

theorem readFields_batch (sessionId : Session) (funcName : Name) {values : List Bytes}
    (hvalues : ∀ value ∈ values, Plain value ∧ value ≠ []) (hne : values ≠ []) :
    readFields (fieldText [sessionId, funcName, values.flatMap fun value => value ++ kDelimiter]) =
      readFields (fieldText (sessionId :: funcName :: values)) := by
  obtain ⟨front, last, hconcat⟩ := (List.eq_nil_or_concat values).resolve_left hne
  rw [List.concat_eq_append] at hconcat
  obtain ⟨hplain, hlast⟩ := hvalues last (by rw [hconcat]; simp)
  have hsplit := split_cstr_last (sessionId ++ fieldText (funcName :: front)) hplain hlast
  have hbatch := fieldText_batch values
  have hleft : sessionId ++ fieldText [funcName, values.flatMap fun value => value ++ kDelimiter] =
      sessionId ++ fieldText (funcName :: front) ++ kDelimiter ++ last ++ kDelimiter := by
    rw [show fieldText [funcName, values.flatMap fun value => value ++ kDelimiter] =
      fieldText [funcName] ++ fieldText [values.flatMap fun value => value ++ kDelimiter] from
        fieldText_append [_] [_], hbatch, hconcat]
    simp [fieldText]
  have hright : sessionId ++ fieldText (funcName :: values) =
      sessionId ++ fieldText (funcName :: front) ++ kDelimiter ++ last := by
    rw [hconcat]
    simp [fieldText]
  rw [readFields_cons, readFields_cons, hleft, hright, hsplit]

/-! ## Packing -/

/-- The values of the objects can be the last fields of a call message. -/
structure Packable (objects : List StoredObject) : Prop where
  plain : ∀ o ∈ objects, Plain o.value
  last : ∀ o, objects.getLast? = some o → o.value ≠ []

theorem packable_iff {argFlag : Int} {objects : List StoredObject}
    (hnames : ∀ o ∈ objects, o.PlainNames) :
    Packable objects ↔
      (∀ value ∈ objects.flatMap (StoredObject.values argFlag), Plain value) ∧
        (objects.flatMap (StoredObject.values argFlag)).getLast? ≠ some [] := by
  have hvalue : ∀ o : StoredObject, o.value ∈ o.values argFlag := by
    intro o
    unfold StoredObject.values
    split
    · simp
    · simp
  have hlast : ∀ o : StoredObject, (o.values argFlag).getLast? = some o.value := by
    intro o
    unfold StoredObject.values
    split
    · rfl
    · rfl
  rw [getLast?_flatMap fun o h => by simpa [h] using hvalue o]
  constructor
  · rintro ⟨hplain, hne⟩
    refine ⟨fun value hmem => ?_, fun hnil => ?_⟩
    · obtain ⟨o, ho, hmem⟩ := List.mem_flatMap.mp hmem
      unfold StoredObject.values at hmem
      split at hmem
      · rcases List.mem_pair.mp hmem with rfl | rfl
        · exact (hnames o ho).sessionKey
        · exact hplain o ho
      · rw [List.mem_singleton.mp hmem]
        exact hplain o ho
    · obtain ⟨o, ho, hnil⟩ := Option.bind_eq_some_iff.mp hnil
      rw [hlast, Option.some_inj] at hnil
      exact hne o ho hnil
  · rintro ⟨hplain, hne⟩
    refine ⟨fun o ho => hplain _ (List.mem_flatMap.mpr ⟨o, ho, hvalue o⟩), fun o ho hnil => ?_⟩
    refine hne ?_
    rw [ho, Option.bind_some, hlast, hnil]

end Pheromone.Executor
