import Pheromone.Executor.Library

/-!
# Messages between executors and schedulers

The fields of the messages are joined with `'|'` and read as C strings, so a field
survives when it has neither `'|'` nor NUL in it.
-/

namespace Pheromone.Executor

open Lib Common Scheduler

variable {infos : SendInfos} {a b : Bytes}

/-- The bytes can be a field of a message. -/
def Plain (b : Bytes) : Prop := kDelimiterChar ∉ b ∧ (0 : UInt8) ∉ b

instance (b : Bytes) : Decidable (Plain b) := inferInstanceAs (Decidable (_ ∧ _))

theorem Plain.append (ha : Plain a) (hb : Plain b) : Plain (a ++ b) := by
  refine ⟨fun h => ?_, fun h => ?_⟩
  · rcases List.mem_append.mp h with h | h
    · exact ha.1 h
    · exact hb.1 h
  · rcases List.mem_append.mp h with h | h
    · exact ha.2 h
    · exact hb.2 h

theorem cstr_append (b : Bytes) (ha : (0 : UInt8) ∉ a) :
    Bytes.cstr (a ++ b) = a ++ Bytes.cstr b := by
  unfold Bytes.cstr
  rw [List.takeWhile_append_of_pos]
  intro c hc
  rw [decide_eq_true_eq]
  rintro rfl
  exact ha hc

theorem zero_not_mem_cstr (s : Bytes) : (0 : UInt8) ∉ Bytes.cstr s := by
  intro hzero
  have hall : (Bytes.cstr s).all (· ≠ 0) = true := List.all_takeWhile
  have hne := List.all_eq_true.mp hall 0 hzero
  simp at hne

theorem cstr_append_of_mem (b : Bytes) (ha : (0 : UInt8) ∈ a) :
    Bytes.cstr (a ++ b) = Bytes.cstr a := by
  have hshorter : (Bytes.cstr a).length ≠ a.length := by
    intro hlength
    have hsame : Bytes.cstr a = a := (List.takeWhile_prefix _).eq_of_length hlength
    exact zero_not_mem_cstr a (hsame.symm ▸ ha)
  unfold Bytes.cstr at hshorter ⊢
  rw [List.takeWhile_append, if_neg hshorter]

theorem cstr_of_not_mem (h : (0 : UInt8) ∉ b) : Bytes.cstr b = b := by
  have happend := cstr_append [] h
  rwa [List.append_nil, show Bytes.cstr [] = [] from rfl, List.append_nil] at happend

theorem cstr_of_plain (h : Plain b) : Bytes.cstr b = b := cstr_of_not_mem h.2

theorem split_field {field : Bytes} (rest : Bytes) (h : Plain field) :
    Bytes.split kDelimiterChar (Bytes.cstr (field ++ kDelimiter ++ rest)) =
      field :: Bytes.split kDelimiterChar (Bytes.cstr rest) := by
  have hdelim : (0 : UInt8) ∉ kDelimiter := by decide
  rw [List.append_assoc, cstr_append _ h.2, cstr_append _ hdelim]
  exact Bytes.split_append_delim _ _ _ h.1

theorem splitFrom_plain {item s : Bytes} (hitem : Plain item) (hs : (0 : UInt8) ∉ s) :
    ∀ field ∈ Bytes.splitFrom kDelimiterChar item s, Plain field := by
  induction s generalizing item with
  | nil =>
    intro field hfield
    unfold Bytes.splitFrom at hfield
    split at hfield
    · cases hfield
    · rw [List.mem_singleton] at hfield
      rw [hfield]
      exact hitem
  | cons c cs ih =>
    have hcs : (0 : UInt8) ∉ cs := fun h => hs (List.mem_cons_of_mem _ h)
    intro field hfield
    unfold Bytes.splitFrom at hfield
    split at hfield
    · rcases List.mem_cons.mp hfield with rfl | hfield
      · exact hitem
      · exact ih ⟨List.not_mem_nil, List.not_mem_nil⟩ hcs field hfield
    next hc =>
      refine ih (hitem.append ⟨fun h => ?_, fun h => ?_⟩) hcs field hfield
      · exact hc (List.mem_singleton.mp h).symm
      · exact hs (by rw [List.mem_singleton.mp h]; exact List.mem_cons_self)

theorem split_cstr_plain (s : Bytes) :
    ∀ field ∈ Bytes.split kDelimiterChar (Bytes.cstr s), Plain field := by
  exact splitFrom_plain ⟨List.not_mem_nil, List.not_mem_nil⟩ (zero_not_mem_cstr s)

/-! ## The call an executor reads -/

theorem start_plain {message : Bytes} {lib lib' : UserLibrary}
    (h : lib.start message = some lib') : Plain lib'.sessionId ∧ Plain lib'.function := by
  unfold UserLibrary.start at h
  split at h
  next rest =>
    split at h
    next hsplit =>
      cases h
      have hall := split_cstr_plain rest
      rw [hsplit] at hall
      exact ⟨hall _ List.mem_cons_self, hall _ (List.mem_cons_of_mem _ List.mem_cons_self)⟩
    · cases h
  · cases h

/-- A function runs: the session and the function are those of the call that started it, and
nothing but the next call changes them. -/
def RunsCall (lib : UserLibrary) : Prop :=
  ∃ (call : Bytes) (idle started : UserLibrary), idle.start call = some started ∧
    lib.sessionId = started.sessionId ∧ lib.function = started.function

theorem RunsCall.plain {lib : UserLibrary} (h : RunsCall lib) :
    Plain lib.sessionId ∧ Plain lib.function := by
  obtain ⟨call, idle, started, hstart, hsession, hfunction⟩ := h
  rw [hsession, hfunction]
  exact start_plain hstart

theorem start_callMessage {call : SchedCall} {clientAddr : Address} {lib lib' : UserLibrary}
    (hplain : Plain call.sessionId) (h : lib.start (callMessage call clientAddr) = some lib') :
    lib'.sessionId = call.sessionId := by
  have hmessage : ∃ flag persist, callMessage call clientAddr = 1 :: flag :: persist ::
      (call.sessionId ++ kDelimiter ++ (call.funcName ++
        call.funcArgs.flatMap fun arg => kDelimiter ++ arg)) := by
    refine ⟨(uint32OfInt (call.argFlag + 1)).toUInt8, if clientAddr = [] then 1 else 2, ?_⟩
    unfold callMessage
    simp
  obtain ⟨flag, persist, hmessage⟩ := hmessage
  rw [hmessage] at h
  unfold UserLibrary.start at h
  simp only [split_field _ hplain] at h
  split at h
  next hsplit =>
    cases h
    exact (List.cons.inj hsplit).1.symm
  · cases h

/-! ## The objects a scheduler reads -/

theorem sendObject_eq (data : EpheObject) (output : Bool) (lib : UserLibrary) :
    (lib.sendObject data output).2 =
      lib.chanId :: (if output then (if lib.persistFlag = 1 then 3 else 4) else 2) ::
        lib.getRequestId.rid :: (UserLibrary.packBody data.value).1 ::
        (lib.sessionId ++ kDelimiter ++ (lib.function ++ kDelimiter ++ (data.targetFunc ++
          kDelimiter ++ (data.objName ++ kDelimiter ++
            (UserLibrary.packBody data.value).2)))) := by
  unfold UserLibrary.sendObject UserLibrary.getRequestId
  simp

theorem sendObject_message (data : EpheObject) (output : Bool) (lib : UserLibrary) :
    ∃ type reqId packing body, (2 ≤ type ∧ type ≤ 4) ∧
      (lib.sendObject data output).2 = lib.chanId :: type :: reqId :: packing ::
        (lib.sessionId ++ kDelimiter ++ (lib.function ++ kDelimiter ++ (data.targetFunc ++
          kDelimiter ++ (data.objName ++ kDelimiter ++ body)))) := by
  refine ⟨_, _, _, _, ?_, sendObject_eq data output lib⟩
  split
  · split <;> decide
  · decide

theorem splitFrom_eq_nil_iff (delim : UInt8) (item s : Bytes) :
    Bytes.splitFrom delim item s = [] ↔ item = [] ∧ s = [] := by
  induction s generalizing item with
  | nil =>
    unfold Bytes.splitFrom
    split <;> simp_all
  | cons c cs ih =>
    unfold Bytes.splitFrom
    split
    · simp
    · rw [ih]
      simp

theorem parse_fields_plain {params : Bytes} (h : SendInfos.parse params = some infos) :
    Plain infos.bucket ∧ Plain infos.sessionKey ∧ Plain infos.body := by
  have hall := split_cstr_plain params
  unfold SendInfos.parse at h
  split at h
  next hsplit =>
    cases h
    rw [hsplit] at hall
    exact ⟨hall _ (by simp), hall _ (by simp), hall _ (by simp)⟩
  · cases h

theorem parse_plain {params : Bytes} (h : SendInfos.parse params = some infos) :
    Plain infos.bucket :=
  (parse_fields_plain h).1

theorem parse_sender {session : Session} {function : Name} (rest : Bytes) (hsession : Plain session)
    (hfunction : Plain function)
    (h : SendInfos.parse (session ++ kDelimiter ++ (function ++ kDelimiter ++ rest)) =
      some infos) : infos.sessionId = session ∧ infos.srcFunction = function := by
  unfold SendInfos.parse at h
  rw [split_field _ hsession, split_field _ hfunction] at h
  split at h
  next hsplit =>
    cases h
    simp only [List.cons.injEq] at hsplit
    exact ⟨hsplit.1.symm, hsplit.2.1.symm⟩
  · cases h

abbrev objectParams (session : Session) (function target : Name) (bucket : Bucket) (key : Key)
    (body : Bytes) : Bytes :=
  session ++ kDelimiter ++ (function ++ kDelimiter ++ (target ++ kDelimiter ++
    (getLocalObjectName bucket key session ++ kDelimiter ++ body)))

section Objects

variable {session : Session} {function target : Name} {bucket : Bucket} {key : Key} {body : Bytes}
  (hsession : Plain session) (hfunction : Plain function) (htarget : Plain target)
  (hbucket : Plain bucket) (hkey : Plain key)

include hsession hfunction htarget hbucket hkey

theorem split_object :
    Bytes.split kDelimiterChar (Bytes.cstr (objectParams session function target bucket key body)) =
      session :: function :: target :: bucket :: getKeySessionName key session ::
        Bytes.split kDelimiterChar (Bytes.cstr body) := by
  have hname : Plain (getKeySessionName key session) := hkey.append hsession
  have hobject : getLocalObjectName bucket key session ++ kDelimiter ++ body =
      bucket ++ kDelimiter ++ (getKeySessionName key session ++ kDelimiter ++ body) := by
    unfold getLocalObjectName
    simp only [List.append_assoc]
  rw [objectParams, hobject, split_field _ hsession, split_field _ hfunction, split_field _ htarget,
    split_field _ hbucket, split_field _ hname]

theorem parse_object_isSome_iff :
    (SendInfos.parse (objectParams session function target bucket key body)).isSome ↔
      Bytes.cstr body ≠ [] := by
  have hnil := splitFrom_eq_nil_iff kDelimiterChar [] (Bytes.cstr body)
  unfold SendInfos.parse
  rw [split_object hsession hfunction htarget hbucket hkey]
  unfold Bytes.split
  cases hsplit : Bytes.splitFrom kDelimiterChar [] (Bytes.cstr body) with
  | nil => simp [(hnil.mp hsplit).2]
  | cons field fields =>
    have hbody : Bytes.cstr body ≠ [] := fun hcstr => by
      rw [hnil.mpr ⟨rfl, hcstr⟩] at hsplit
      cases hsplit
    simp [hbody]

theorem parse_object
    (h : SendInfos.parse (objectParams session function target bucket key body) = some infos) :
    infos.sessionId = session ∧ infos.srcFunction = function ∧ infos.tgtFunction = target ∧
      infos.bucket = bucket ∧ infos.sessionKey = getKeySessionName key session ∧
      infos.body ∈ Bytes.split kDelimiterChar (Bytes.cstr body) := by
  unfold SendInfos.parse at h
  rw [split_object hsession hfunction htarget hbucket hkey] at h
  split at h
  next hsplit =>
    cases h
    simp only [List.cons.injEq] at hsplit
    obtain ⟨h₁, h₂, h₃, h₄, h₅, h₆⟩ := hsplit
    refine ⟨h₁.symm, h₂.symm, h₃.symm, h₄.symm, h₅.symm, ?_⟩
    rw [h₆]
    exact List.mem_cons_self
  · cases h

end Objects

/-! ## The bodies that survive -/

/-- A packed value is read as a C string; nothing is left of it when it is empty
or starts with a NUL. -/
def Carried (value : Value) : Prop :=
  value ≠ [] ∧ (value.length ≤ msgDataPackingThreshold → value.head? ≠ some 0)

instance (value : Value) : Decidable (Carried value) := inferInstanceAs (Decidable (_ ∧ _))

theorem cstr_ne_nil_iff (s : Bytes) : Bytes.cstr s ≠ [] ↔ s ≠ [] ∧ s.head? ≠ some 0 := by
  cases s with
  | nil => simp [Bytes.cstr]
  | cons c cs =>
    by_cases hc : c = 0
    · simp [Bytes.cstr, hc]
    · simp [Bytes.cstr, hc]

theorem plain_toDecimal (n : Nat) : Plain (Bytes.toDecimal n) :=
  ⟨fun h => absurd (Bytes.isDigit_of_mem_toDecimal h) (by decide),
    fun h => absurd (Bytes.isDigit_of_mem_toDecimal h) (by decide)⟩

theorem toDecimal_head (n : Nat) :
    Bytes.toDecimal n ≠ [] ∧ (Bytes.toDecimal n).head? ≠ some 0 :=
  ⟨Bytes.toDecimal_ne_nil n, fun h => (plain_toDecimal n).2 (List.mem_of_head? h)⟩

theorem packBody_cstr_ne_nil_iff (value : Value) :
    Bytes.cstr (UserLibrary.packBody value).2 ≠ [] ↔ Carried value := by
  rw [cstr_ne_nil_iff]
  unfold UserLibrary.packBody Carried
  by_cases hlen : value.length ≤ msgDataPackingThreshold
  · rw [if_pos hlen]
    simp [hlen]
  · rw [if_neg hlen]
    have hne : value ≠ [] := by
      rintro rfl
      exact hlen (Nat.zero_le _)
    simp [hlen, hne, toDecimal_head value.length]

theorem ofByte_packBody (value : Value) :
    Packing.ofByte (UserLibrary.packBody value).1 ≠ .other := by
  have hbytes : Packing.ofByte 1 ≠ .other ∧ Packing.ofByte 2 ≠ .other := by decide
  unfold UserLibrary.packBody
  split
  · exact hbytes.1
  · exact hbytes.2

end Pheromone.Executor
