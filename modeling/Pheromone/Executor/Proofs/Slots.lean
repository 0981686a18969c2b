import Pheromone.Executor.Calls
import Pheromone.Lib.Transition

/-!
# The slots of a call

The loops of `run` compute the slot of an argument by integer divisions from the index of
its first field, and collect the sizes in a list of their own.  Slots and sizes line up
with the arguments of the message, as the list is empty whenever a call begins.
-/

namespace Pheromone.Executor

open Lib Common Scheduler

variable {args : List FunctionArgument} {part : Bytes × Bytes × Bytes}
  {parts : List (Bytes × Bytes × Bytes)} {state : CallState}

variable {argFlag : UInt8} {fields : List Bytes} {n : Nat} {readShm : Bytes → Nat → Bytes}

theorem intOfSize_of_lt (h : n < 2 ^ 31) : intOfSize n = n := by
  have htoNat : (UInt32.ofNat n).toNat = n := by
    change n % 2 ^ 32 = n
    omega
  unfold intOfSize intOfUInt32
  rw [htoNat, if_pos h]

/-! ## Triples -/

theorem triples_getElem (h : triples fields = some parts) {k : Nat} (hk : parts[k]? = some part) :
    fields[3 * k]? = some part.1 ∧ fields[3 * k + 1]? = some part.2.1 ∧
      fields[3 * k + 2]? = some part.2.2 := by
  induction fields using triples.induct generalizing parts k with
  | case1 =>
    cases h
    cases hk
  | case2 bucket sessionKey size rest ih =>
    obtain ⟨parts', hparts', rfl⟩ := Option.map_eq_some_iff.mp h
    cases k with
    | zero =>
      cases hk
      exact ⟨rfl, rfl, rfl⟩
    | succ k =>
      rw [List.getElem?_cons_succ] at hk
      exact ih hparts' hk
  | case3 fields hne hne' =>
    unfold triples at h
    split at h
    · exact absurd rfl hne
    · exact absurd rfl (hne' _ _ _ _)
    · cases h

theorem triples_length {fields : List Bytes} :
    fields.length % 3 = 0 ∧ (∃ parts, triples fields = some parts ∧
        fields.length = 3 * parts.length) ∨
      fields.length % 3 ≠ 0 ∧ triples fields = none := by
  induction fields using triples.induct with
  | case1 => exact Or.inl ⟨rfl, [], rfl, rfl⟩
  | case2 bucket sessionKey size rest ih =>
    have hlength : (bucket :: sessionKey :: size :: rest).length = rest.length + 3 := rfl
    rcases ih with ⟨hmod, parts, hparts, hlen⟩ | ⟨hmod, hnone⟩
    · refine Or.inl ⟨by omega, (bucket, sessionKey, size) :: parts, ?_, ?_⟩
      · rw [triples, hparts]
        rfl
      · rw [hlength, List.length_cons]
        omega
    · refine Or.inr ⟨by omega, ?_⟩
      rw [triples, hnone]
      rfl
  | case3 fields hne hne' =>
    match fields with
    | [] => exact absurd rfl hne
    | [_] => exact Or.inr ⟨by simp, rfl⟩
    | [_, _] => exact Or.inr ⟨by simp, rfl⟩
    | a :: b :: c :: rest => exact absurd rfl (hne' a b c rest)

/-! ## The loops -/

def ArgSlots.place (start : Nat) (args : List FunctionArgument) (slots : ArgSlots) : ArgSlots where
  argValues := slots.argValues ++
    (List.range' start args.length).zip (args.map FunctionArgument.value)
  sizeOfArgs := slots.sizeOfArgs ++ args.map FunctionArgument.size

theorem ArgSlots.place_nil (start : Nat) (slots : ArgSlots) : slots.place start [] = slots := by
  simp [place]

theorem ArgSlots.place_append (start : Nat) (args args' : List FunctionArgument)
    (slots : ArgSlots) :
    slots.place start (args ++ args') =
      (slots.place start args).place (start + args.length) args' := by
  have hzip : (List.range' start (args.length + args'.length)).zip
        (args.map FunctionArgument.value ++ args'.map FunctionArgument.value) =
      (List.range' start args.length).zip (args.map FunctionArgument.value) ++
        (List.range' (start + args.length) args'.length).zip
          (args'.map FunctionArgument.value) := by
    rw [← List.range'_append_1, List.zip_append (by simp)]
  simp only [place, List.length_append, List.map_append, hzip, List.append_assoc]

theorem placeFields (function : Name) (args : List Bytes) (slots : ArgSlots)
    (hn : n ≤ args.length) :
    (List.range n).foldlM (placeField (function :: args)) slots =
      some (slots.place 0 ((args.take n).map .ofString)) := by
  induction n with
  | zero => simp [ArgSlots.place_nil]
  | succ n ih =>
    have hfield : args[n]? = some args[n] := List.getElem?_eq_getElem hn
    rw [List.range_succ, List.foldlM_append, ih (Nat.le_of_succ_le hn)]
    have htake : (args.take n).length = n := by
      rw [List.length_take]
      omega
    rw [List.take_add_one, hfield, List.map_append, ArgSlots.place_append, List.length_map, htake]
    simp [placeField, hfield, ArgSlots.place, ArgSlots.write, ArgSlots.addArgSize,
      FunctionArgument.ofString]

def argumentsPerObject (argFlag : UInt8) : Nat := if argFlag = 2 then 2 else 1

theorem objectArguments_length (h : objectArguments readShm argFlag part = some args) :
    args.length = argumentsPerObject argFlag := by
  obtain ⟨size, -, rfl⟩ := Option.map_eq_some_iff.mp h
  unfold argumentsPerObject
  simp only
  split <;> rfl

theorem mapM_objectArguments_length {args : List (List FunctionArgument)}
    (h : parts.mapM (objectArguments readShm argFlag) = some args) :
    args.flatten.length = argumentsPerObject argFlag * parts.length := by
  induction parts generalizing args with
  | nil =>
    cases h
    rfl
  | cons part parts ih =>
    rw [List.mapM_cons] at h
    obtain ⟨first, hfirst, h⟩ := Option.bind_eq_some_iff.mp h
    obtain ⟨rest, hrest, h⟩ := Option.bind_eq_some_iff.mp h
    cases h
    rw [List.flatten_cons, List.length_append, objectArguments_length hfirst, ih hrest,
      List.length_cons, Nat.mul_succ, Nat.add_comm]

theorem placeObject_eq {readShm : Bytes → Nat → Bytes} {argFlag : UInt8}
    (hflag : argFlag = 1 ∨ argFlag = 2) {function : Name} {fields : List Bytes}
    {parts : List (Bytes × Bytes × Bytes)} (hparts : triples fields = some parts) {k : Nat}
    {part : Bytes × Bytes × Bytes} (hk : parts[k]? = some part) (slots : ArgSlots) :
    placeObject readShm argFlag (function :: fields) slots (1 + 3 * k) =
      (objectArguments readShm argFlag part).map fun args =>
        slots.place (argumentsPerObject argFlag * k) args := by
  obtain ⟨hbucket, hkey, hsize⟩ := triples_getElem hparts hk
  have hget : ∀ j, (function :: fields)[1 + 3 * k + j]? = fields[3 * k + j]? := by
    intro j
    rw [show 1 + 3 * k + j = (3 * k + j) + 1 by omega, List.getElem?_cons_succ]
  have hthird : (1 + 3 * k) / 3 = k := by omega
  have htwo : 2 * (1 + 3 * k - 1) / 3 = 2 * k := by omega
  unfold placeObject objectArguments
  rw [show (function :: fields)[1 + 3 * k]? = some part.1 from (hget 0).trans hbucket, hget 1,
    hget 2, hkey, hsize, hthird, htwo]
  cases hstoi : Bytes.stoi part.2.2 with
  | none => simp [hstoi]
  | some size =>
    rcases hflag with rfl | rfl
    · simp [hstoi, argumentsPerObject, ArgSlots.place, ArgSlots.write, ArgSlots.addArgSize,
        objectName]
    · simp [hstoi, argumentsPerObject, ArgSlots.place, ArgSlots.write, ArgSlots.addArgSize,
        objectName, FunctionArgument.ofString, List.range'_succ]

theorem placeObjects {readShm : Bytes → Nat → Bytes} {argFlag : UInt8}
    (hflag : argFlag = 1 ∨ argFlag = 2) {function : Name} {fields : List Bytes}
    {parts : List (Bytes × Bytes × Bytes)} (hparts : triples fields = some parts)
    (slots : ArgSlots) {n : Nat} (hn : n ≤ parts.length) :
    (List.range' 1 n 3).foldlM (placeObject readShm argFlag (function :: fields)) slots =
      ((parts.take n).mapM (objectArguments readShm argFlag)).map fun args =>
        slots.place 0 args.flatten := by
  induction n with
  | zero => simp [ArgSlots.place_nil]
  | succ n ih =>
    have hpart : parts[n]? = some parts[n] := List.getElem?_eq_getElem hn
    have htake : (parts.take n).length = n := by
      rw [List.length_take]
      omega
    rw [List.range'_concat, List.foldlM_append, ih (Nat.le_of_succ_le hn), List.take_add_one,
      hpart, List.mapM_append]
    cases hargs : (parts.take n).mapM (objectArguments readShm argFlag) with
    | none => rfl
    | some args =>
      have hlength := mapM_objectArguments_length hargs
      rw [htake] at hlength
      have hplace := @placeObject_eq readShm argFlag hflag function fields parts hparts n
        parts[n] hpart (slots.place 0 args.flatten)
      cases hlast : objectArguments readShm argFlag parts[n] with
      | none => simp [hplace, hlast]
      | some last =>
        simp [hplace, hlast, ArgSlots.place_append, hlength]

theorem objectArgSize_eq (hflag : argFlag = 1 ∨ argFlag = 2) (function : Name)
    (hlength : fields.length = 3 * n) (hfields : fields.length < 2 ^ 31) :
    objectArgSize argFlag (function :: fields) = some ((argumentsPerObject argFlag * n : Nat)) := by
  have hone : (function :: fields).length / 3 = n := by
    rw [List.length_cons]
    omega
  have htwo : 2 * ((function :: fields).length - 1) / 3 = 2 * n := by
    rw [List.length_cons]
    omega
  unfold objectArgSize argumentsPerObject
  rw [hone, htwo, intOfSize_of_lt (by omega), intOfSize_of_lt (by omega)]
  rcases hflag with rfl | rfl
  · simp
  · simp

theorem flag_cases (h : argFlag ≤ 2) : argFlag = 0 ∨ argFlag = 1 ∨ argFlag = 2 := by
  have hle : argFlag.toNat ≤ 2 := UInt8.le_iff_toNat_le.mp h
  have hinj : ∀ n : UInt8, argFlag.toNat = n.toNat → argFlag = n := fun n hn =>
    UInt8.toNat_inj.mp hn
  rcases Nat.le_succ_iff.mp hle with hle | heq
  · rcases Nat.le_one_iff_eq_zero_or_eq_one.mp hle with heq | heq
    · exact Or.inl (hinj 0 heq)
    · exact Or.inr (Or.inl (hinj 1 heq))
  · exact Or.inr (Or.inr (hinj 2 heq))

theorem placeArguments_eq (readShm : Bytes → Nat → Bytes) (argFlag : UInt8) (function : Name)
    (hfields : fields.length < 2 ^ 31) (slots : ArgSlots) :
    placeArguments readShm argFlag (function :: fields) slots =
      (parseArguments readShm argFlag fields).map fun parsed =>
        parsed.map fun args => ((args.length : Int), slots.place 0 args) := by
  have hlength : (function :: fields).length = fields.length + 1 := rfl
  unfold placeArguments parseArguments
  by_cases hzero : argFlag = 0
  · have hloop := placeFields function fields slots le_rfl
    rw [List.take_length] at hloop
    simp only [hzero, if_true, hlength, Nat.add_sub_cancel, intOfSize_of_lt hfields,
      Int.toNat_natCast, hloop]
    simp
  · rw [if_neg hzero, if_neg hzero, hlength]
    rcases @triples_length fields with ⟨hmod, parts, hparts, hlen⟩ | ⟨hmod, hnone⟩
    · have hcount : (fields.length + 1 + 1) / 3 = parts.length := by omega
      rw [if_pos (by omega), hparts, hcount]
      by_cases hle : argFlag ≤ 2
      · have hflag := (flag_cases hle).resolve_left hzero
        have hloop := @placeObjects readShm argFlag hflag function fields parts hparts slots
          parts.length le_rfl
        rw [List.take_length] at hloop
        rw [objectArgSize_eq hflag function hlen hfields, hloop]
        simp only [if_pos hle]
        cases hargs : parts.mapM (objectArguments readShm argFlag) with
        | none => rfl
        | some args => simp [mapM_objectArguments_length hargs]
      · have hnone : objectArgSize argFlag (function :: fields) = none := by
          unfold objectArgSize
          rw [if_neg, if_neg]
          · rintro rfl
            exact hle (by decide)
          · rintro rfl
            exact hle (by decide)
        rw [hnone]
        simp only [if_neg hle]
        rfl
    · rw [if_neg (by omega), hnone]
      rfl

/-! ## One message -/

theorem parseArguments_length (h : parseArguments readShm argFlag fields = some (some args)) :
    args.length ≤ fields.length := by
  unfold parseArguments at h
  split at h
  · cases h
    rw [List.length_map]
  · rcases @triples_length fields with ⟨-, parts, hparts, hlen⟩ | ⟨-, hnone⟩
    · rw [hparts] at h
      simp only at h
      split at h
      · obtain ⟨parsed, hparsed, heq⟩ := Option.map_eq_some_iff.mp h
        cases heq
        have hper : argumentsPerObject argFlag ≤ 2 := by
          unfold argumentsPerObject
          split <;> decide
        calc parsed.flatten.length
            = argumentsPerObject argFlag * parts.length := mapM_objectArguments_length hparsed
          _ ≤ 2 * parts.length := Nat.mul_le_mul_right _ hper
          _ ≤ fields.length := by omega
      · cases h
    · rw [hnone] at h
      cases h

theorem CallState.receive_cases {state' : CallState} {d : Delivery} {outcome : CallOutcome}
    (h : state.receive d = some (state', outcome)) :
    ((∀ argSize argValues lib, outcome ≠ .invoked argSize argValues lib) ∧
        state'.lib.sizeOfArgs = state.lib.sizeOfArgs) ∨
      ∃ args lib, functionArguments d.readShm d.message = some (some args) ∧
        state.lib.start d.message = some lib.toUserLibrary ∧ args.length < 2 ^ 31 ∧
        lib.sizeOfArgs = state.lib.sizeOfArgs ++ args.map FunctionArgument.size ∧
        outcome = .invoked args.length
          ((List.range args.length).zip (args.map FunctionArgument.value)) lib ∧
        state'.lib.sizeOfArgs = [] := by
  unfold receive at h
  split at h
  next flag persistFlag rest hmessage =>
    split at h
    next sessionId function args hsplit =>
      have hargs : args.length < 2 ^ 31 := by
        have hfields := Bytes.length_split_le kDelimiterChar (Bytes.cstr rest)
        have hcstr : (Bytes.cstr rest).length ≤ rest.length := (List.takeWhile_sublist _).length_le
        have hlength := d.length_lt
        rw [hsplit] at hfields
        rw [hmessage] at hlength
        simp only [List.length_cons] at hfields hlength
        omega
      simp only at h
      split at h
      · cases h
        exact Or.inl ⟨fun _ _ _ h => (by cases h), rfl⟩
      · rw [placeArguments_eq _ _ _ hargs, Option.map_map] at h
        obtain ⟨parsed, hparsed, heq⟩ := Option.map_eq_some_iff.mp h
        cases parsed with
        | none =>
          cases heq
          exact Or.inl ⟨fun _ _ _ h => (by cases h), rfl⟩
        | some args' =>
          cases heq
          have hlen := parseArguments_length hparsed
          refine Or.inr ⟨args', { state.lib with
            function, sessionId, persistFlag
            sizeOfArgs := state.lib.sizeOfArgs ++ args'.map FunctionArgument.size },
            ?_, ?_, by omega, rfl, ?_, rfl⟩
          · rw [hmessage]
            simp only [functionArguments, hsplit, hparsed]
          · rw [hmessage]
            simp only [UserLibrary.start, hsplit]
          · simp [ArgSlots.place, List.range_eq_range']
    · cases h
  · cases h
  · cases h
    exact Or.inl ⟨fun _ _ _ h => (by cases h), rfl⟩

theorem CallState.run_sizeOfArgs {ip : Address} {threadId : Nat} {ds : List Delivery}
    (h : run CallState.next (CallState.new ip threadId) ds = some state) :
    state.lib.sizeOfArgs = [] := by
  have hstep : ∀ (s : CallState) (d : Delivery) (s' : CallState), s.lib.sizeOfArgs = [] → True →
      s.next d = some s' → s'.lib.sizeOfArgs = [] := by
    intro s d s' hs _ hnext
    obtain ⟨⟨s'', outcome⟩, hreceive, rfl⟩ := Option.map_eq_some_iff.mp hnext
    rcases receive_cases hreceive with ⟨-, hsizes⟩ | ⟨_, _, _, _, _, _, _, hsizes⟩
    · exact hsizes.trans hs
    · exact hsizes
  exact run_invariant hstep rfl (along_true _ _) h

theorem CallLibrary.getSizeOfArg_eq {lib : CallLibrary} (hlength : lib.sizeOfArgs.length < 2 ^ 31)
    {argIdx : Int} (hlow : -(2 ^ 31) ≤ argIdx) (hhigh : argIdx < 2 ^ 31) :
    lib.getSizeOfArg argIdx =
      if 0 ≤ argIdx ∧ argIdx < lib.sizeOfArgs.length then lib.sizeOfArgs.getD argIdx.toNat 0
      else 2 ^ 64 - 1 := by
  unfold getSizeOfArg sizeOfInt
  by_cases hneg : argIdx < 0
  · have hmod : argIdx % 2 ^ 64 = argIdx + 2 ^ 64 := by omega
    rw [hmod, if_pos (by omega), if_neg (by omega)]
  · have hmod : argIdx % 2 ^ 64 = argIdx := by omega
    rw [hmod]
    by_cases hin : argIdx < lib.sizeOfArgs.length
    · rw [if_neg (by omega), if_pos (by omega)]
    · rw [if_pos (by omega), if_neg (by omega)]

/-- Whenever a function is called, the slots of `arg_values` have been written one after
another with the arguments of the message, each once, and `get_size_of_arg` has the sizes
of just these. -/
theorem slots_line_up {ip : Address} {threadId : Nat} {ds : List Delivery}
    {state state' : CallState} {d : Delivery} {argSize : Int} {argValues : List (Nat × Bytes)}
    {lib : CallLibrary}
    (hrun : run CallState.next (CallState.new ip threadId) ds = some state)
    (hcall : state.receive d = some (state', .invoked argSize argValues lib)) :
    ∃ args, functionArguments d.readShm d.message = some (some args) ∧
      argSize = args.length ∧
      argValues = (List.range args.length).zip (args.map FunctionArgument.value) ∧
      ∀ i : Int, -(2 ^ 31) ≤ i → i < 2 ^ 31 → lib.getSizeOfArg i =
        if 0 ≤ i ∧ i < argSize then (args.map FunctionArgument.size).getD i.toNat 0
        else 2 ^ 64 - 1 := by
  have hnone := CallState.run_sizeOfArgs hrun
  rcases CallState.receive_cases hcall with ⟨hne, -⟩ | ⟨args, lib', hargs, -, hlen, hsizes, heq, -⟩
  · exact absurd rfl (hne argSize argValues lib)
  · cases heq
    rw [hnone, List.nil_append] at hsizes
    refine ⟨args, hargs, rfl, rfl, fun i hlow hhigh => ?_⟩
    have hlength : lib.sizeOfArgs.length = args.length := by rw [hsizes, List.length_map]
    rw [CallLibrary.getSizeOfArg_eq (by omega) hlow hhigh, hlength, hsizes]

/-- A call with a wrong number of fields and one that cannot be loaded come before a call
with a key and its value. -/
theorem slots_line_up_after_rejections :
    let unparsed : Delivery :=
      { message := [1, 2, 1] ++ Bytes.lit "s|f|b", length_lt := by decide, loads := true
        readShm := fun _ _ => [], effect := id }
    let unloaded : Delivery :=
      { message := [1, 1, 1] ++ Bytes.lit "s|g|v", length_lt := by decide, loads := false
        readShm := fun _ _ => [], effect := id }
    let call : Delivery :=
      { message := [1, 3, 1] ++ Bytes.lit "s|f|b|k|2", length_lt := by decide, loads := true
        readShm := fun _ size => List.replicate size 120, effect := id }
    ∃ state state' lib,
      run CallState.next (CallState.new [] 0) [unparsed, unloaded] = some state ∧
      state.receive call =
        some (state', .invoked 2 [(0, Bytes.lit "k"), (1, Bytes.lit "xx")] lib) ∧
      lib.getSizeOfArg 0 = 1 ∧ lib.getSizeOfArg 1 = 2 ∧ lib.getSizeOfArg 2 = 2 ^ 64 - 1 ∧
      lib.getSizeOfArg (-1) = 2 ^ 64 - 1 := by
  intro unparsed unloaded call
  have hrun : run CallState.next (CallState.new [] 0) [unparsed, unloaded] = some
      { lib := { UserLibrary.new [] 0 with
          function := Bytes.lit "g", sessionId := Bytes.lit "s", persistFlag := 1 }
        loaded := [Bytes.lit "f"] } := rfl
  have hcall : CallState.receive
      { lib := { UserLibrary.new [] 0 with
          function := Bytes.lit "g", sessionId := Bytes.lit "s", persistFlag := 1 }
        loaded := [Bytes.lit "f"] } call = some
      ({ lib := { UserLibrary.new [] 0 with }, loaded := [Bytes.lit "f"] },
        .invoked 2 [(0, Bytes.lit "k"), (1, Bytes.lit "xx")]
          { UserLibrary.new [] 0 with
            function := Bytes.lit "f", sessionId := Bytes.lit "s", persistFlag := 1
            sizeOfArgs := [1, 2] }) := rfl
  obtain ⟨args, hargs, -, -, hget⟩ := slots_line_up hrun hcall
  have hread : functionArguments call.readShm call.message =
      some (some [⟨Bytes.lit "k", 1⟩, ⟨Bytes.lit "xx", 2⟩]) := rfl
  obtain rfl := Option.some.inj (Option.some.inj (hread.symm.trans hargs))
  exact ⟨_, _, _, hrun, hcall, hget 0 (by decide) (by decide), hget 1 (by decide) (by decide),
    hget 2 (by decide) (by decide), hget (-1) (by decide) (by decide)⟩

end Pheromone.Executor
