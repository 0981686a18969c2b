import Pheromone.Scheduler.DataAccess
import Pheromone.Scheduler.Objects

/-!
# Served addresses and data messages

Which io thread ids `get_io_thread_id` can return, and which data requests and answers
are read as they were written.
-/

namespace Pheromone.Scheduler

open Lib Common

variable {env : SchedEnv} {s : SchedState}

/-! ## IO threads -/

/-- The id that a call of `get_io_thread_id` returned is the one of a running thread. -/
structure ServedId (env : SchedEnv) (exclude : Bool) (id : Nat) : Prop where
  lt : id < env.ioThreadCount
  notMain : exclude = true → 1 < env.ioThreadCount → id ≠ 0
  address : ServedAddress env (tcpAddress env.ip (dataServerPort id))
  queue : id ≠ 0 → id - 1 < secondaryQueueNum env

theorem secondaryQueueNum_eq (env : SchedEnv) :
    secondaryQueueNum env = env.ioThreadCount - 1 := List.length_range'

theorem dataServerPort_mem_bound {id : Nat} (h : id < env.ioThreadCount) :
    dataServerPort id ∈ boundDataServerPorts env := by
  apply List.mem_map_of_mem
  rw [List.mem_cons]
  by_cases hmain : id = 0
  · exact Or.inl hmain
  · apply Or.inr
    unfold startedIoThreads
    rw [List.mem_range'_1]
    omega

theorem servedId_iff {exclude : Bool} {id : Nat} :
    ServedId env exclude id ↔
      id < env.ioThreadCount ∧ (exclude = true → 1 < env.ioThreadCount → id ≠ 0) := by
  constructor
  · intro h
    exact ⟨h.lt, h.notMain⟩
  · intro h
    refine ⟨h.1, h.2, ⟨_, dataServerPort_mem_bound h.1, rfl⟩, fun hne => ?_⟩
    have hlt := h.1
    rw [secondaryQueueNum_eq]
    omega

theorem getIoThreadId_fst (env : SchedEnv) (exclude : Bool) (s : SchedState) :
    (s.getIoThreadId env exclude).1.ioThreadId = (s.getIoThreadId env exclude).2 := rfl

theorem getIoThreadId_served (hcount : 1 < env.ioThreadCount) (exclude : Bool)
    (hs : s.ioThreadId < env.ioThreadCount) :
    ServedId env exclude (s.getIoThreadId env exclude).2 := by
  rw [servedId_iff]
  unfold SchedState.getIoThreadId
  simp only
  by_cases hwrap : s.ioThreadId + 1 = env.ioThreadCount
  · rw [if_pos (by rw [hwrap, Nat.mod_self])]
    cases exclude with
    | true => exact ⟨hcount, fun _ _ => Nat.one_ne_zero⟩
    | false => exact ⟨env.ioThreadCount_pos, fun h => absurd h Bool.false_ne_true⟩
  · have hmod : (s.ioThreadId + 1) % env.ioThreadCount = s.ioThreadId + 1 :=
      Nat.mod_eq_of_lt (by omega)
    rw [if_neg (by omega)]
    exact ⟨by omega, fun _ _ => Nat.succ_ne_zero _⟩

theorem getIoThreadId_single (hcount : env.ioThreadCount = 1) (exclude : Bool) (s : SchedState) :
    ServedId env exclude (s.getIoThreadId env exclude).2 ↔ exclude = false := by
  rw [servedId_iff]
  unfold SchedState.getIoThreadId
  simp only [hcount, Nat.mod_one, if_true]
  cases exclude <;> simp

theorem ioThreadIds_served (hcount : 1 < env.ioThreadCount) (calls : List Bool)
    (hs : s.ioThreadId < env.ioThreadCount) :
    List.Forall₂ (ServedId env) calls (ioThreadIds env calls s) := by
  induction calls generalizing s with
  | nil => exact List.Forall₂.nil
  | cons exclude calls ih =>
    have hserved := getIoThreadId_served hcount exclude hs
    exact List.Forall₂.cons hserved (ih (by rw [getIoThreadId_fst]; exact hserved.lt))

theorem ioThreadIds_single (hcount : env.ioThreadCount = 1) (calls : List Bool) (s : SchedState) :
    List.Forall₂ (ServedId env) calls (ioThreadIds env calls s) ↔
      ∀ exclude ∈ calls, exclude = false := by
  induction calls generalizing s with
  | nil => simp [ioThreadIds]
  | cons exclude calls ih =>
    simp only [ioThreadIds, List.forall₂_cons, List.forall_mem_cons]
    rw [getIoThreadId_single hcount, ih]

theorem servedAddress_of_ids {calls : List Bool}
    (h : List.Forall₂ (ServedId env) calls (ioThreadIds env calls s)) :
    ∀ address ∈ dataServerAddrs env calls s, ServedAddress env address := by
  induction calls generalizing s with
  | nil => exact fun _ haddress => absurd haddress List.not_mem_nil
  | cons exclude calls ih =>
    obtain ⟨hserved, hrest⟩ := List.forall₂_cons.mp h
    intro address haddress
    rcases List.mem_cons.mp haddress with rfl | hlater
    · exact hserved.address
    · exact ih hrest address hlater

/-- Every id and every address is served unless the only thread there is gets excluded,
as `notify_put` does. -/
theorem advertised_served_iff (env : SchedEnv) (ramSeed : UInt32) (executors : Nat)
    (calls : List Bool) :
    (List.Forall₂ (ServedId env) calls (ioThreadIds env calls (.new ramSeed executors)) ∧
        ∀ address ∈ dataServerAddrs env calls (.new ramSeed executors),
          ServedAddress env address) ↔
      1 < env.ioThreadCount ∨ ∀ exclude ∈ calls, exclude = false := by
  have hpos := env.ioThreadCount_pos
  constructor
  · rintro ⟨hids, -⟩
    by_cases hcount : 1 < env.ioThreadCount
    · exact Or.inl hcount
    · exact Or.inr ((ioThreadIds_single (by omega) calls _).mp hids)
  · intro h
    have hids : List.Forall₂ (ServedId env) calls
        (ioThreadIds env calls (.new ramSeed executors)) := by
      by_cases hcount : 1 < env.ioThreadCount
      · exact ioThreadIds_served hcount calls hpos
      · exact (ioThreadIds_single (by omega) calls _).mpr (h.resolve_left hcount)
    exact ⟨hids, servedAddress_of_ids hids⟩

def oneIoThread : SchedEnv where
  ip := Bytes.lit "10.0.0.2"
  ioThreadCount := 1
  ioThreadCount_pos := Nat.one_pos
  schedDelayTime := 0
  sharedExecutor := false
  rejectExtraReq := false
  randR := fun seed => (0, seed)
  readShm := fun _ _ => []

instance (env : SchedEnv) (address : Address) : Decidable (ServedAddress env address) :=
  inferInstanceAs (Decidable (∃ port ∈ boundDataServerPorts env, address = tcpAddress env.ip port))

def notifiedAddresses (s : SchedState) : List Address :=
  s.sent.flatMap fun out =>
    match out with
    | .notify _ request => request.addresses.flatMap BucketKeyAddress.ips
    | _ => []

/-- A scheduler with one io thread notifies its coordinator of an object at a port that
nobody has bound. -/
theorem notified_address_unserved :
    let coord : HandlerThread := { ip := Bytes.lit "10.0.0.1", tid := 0 }
    let s := { SchedState.new 0 1 with
      bucketCoordMap := Map.empty.set (Bytes.lit "b") coord }
    let object : BucketKey :=
      { bucket := Bytes.lit "b", key := Bytes.lit "k", session := Bytes.lit "0123456789abcdef" }
    boundDataServerPorts oneIoThread = [4400] ∧
      ioThreadIds oneIoThread [true] s = [1] ∧
      notifiedAddresses (notifyPut oneIoThread object [] [] [] s) =
        [Bytes.lit "tcp://10.0.0.2:4401"] ∧
      ¬ ServedAddress oneIoThread (Bytes.lit "tcp://10.0.0.2:4401") := by
  decide +kernel

/-! ## Data messages -/

/-- The request that is sent for `name` is read with its name and its response address, and
the answer to it with the name, the data and the length of the data. -/
def RoundTrips (ip : Address) (tid : Nat) (keyAddressCache : Map Bytes Address)
    (getFunc : Bytes → DataBlock) (name : Bytes) : Prop :=
  ∃ target request, sendDataReqBase ip tid keyAddressCache name = some (target, request) ∧
    parseDataRequest request = some (name, dataClientAddress ip tid) ∧
    ∃ answer size,
      handleDataRequest getFunc request = some (some (dataClientAddress ip tid, answer)) ∧
      handleDataResponse answer =
        some { dataKey := name, dataSize := size, copied := (getFunc name).bytes } ∧
      size.toNat = (getFunc name).bytes.length

theorem sendDataReqBase_eq (ip : Address) (tid : Nat) {keyAddressCache : Map Bytes Address}
    {name : Bytes} (h : keyAddressCache.getD name [] ≠ []) :
    sendDataReqBase ip tid keyAddressCache name =
      some (keyAddressCache.getD name [], dataRequest ip tid name) := by
  unfold sendDataReqBase
  simp only [if_neg h]

theorem parseDataRequest_iff (ip : Address) (tid : Nat) (name : Bytes) :
    parseDataRequest (dataRequest ip tid name) = some (name, dataClientAddress ip tid) ↔
      name.length < 256 := Bytes.readField_withLength_iff name _

theorem handleDataRequest_dataRequest (ip : Address) (tid : Nat) {getFunc : Bytes → DataBlock}
    {name : Bytes} (hdata : (getFunc name).bytes ≠ []) (hname : name.length < 256) :
    handleDataRequest getFunc (dataRequest ip tid name) =
      if name.length + (getFunc name).bytes.length + 1 < 2 ^ 32 then
        some (some (dataClientAddress ip tid, Bytes.withLength name (getFunc name).bytes))
      else none := by
  unfold handleDataRequest
  rw [(parseDataRequest_iff ip tid name).mpr hname, Option.bind_some]
  simp only [if_neg hdata]

theorem handleDataResponse_withLength {name : Bytes} (hname : name.length < 256)
    (data : DataBlock) :
    ∃ size, handleDataResponse (Bytes.withLength name data.bytes) =
        some { dataKey := name, dataSize := size, copied := data.bytes } ∧
      size.toNat = data.bytes.length := by
  have hread := (Bytes.readField_withLength_iff name data.bytes).mpr hname
  have hsize : (UInt32.ofNat data.bytes.length).toNat = data.bytes.length := by
    rw [UInt32.toNat_ofNat']
    exact Nat.mod_eq_of_lt data.size_lt
  refine ⟨UInt32.ofNat data.bytes.length, ?_, hsize⟩
  unfold handleDataResponse
  rw [hread, Option.map_some]
  simp only [hsize, List.take_length]

/-- The name has to fit its length byte, and the answer the length of a message. -/
theorem data_round_trips_iff (ip : Address) (tid : Nat) (keyAddressCache : Map Bytes Address)
    (getFunc : Bytes → DataBlock) (name : Bytes) (hlocated : keyAddressCache.getD name [] ≠ [])
    (hdata : (getFunc name).bytes ≠ []) :
    RoundTrips ip tid keyAddressCache getFunc name ↔
      name.length < 256 ∧ name.length + (getFunc name).bytes.length + 1 < 2 ^ 32 := by
  have hsend := sendDataReqBase_eq ip tid hlocated
  constructor
  · rintro ⟨target, request, hsent, hparse, answer, size, hanswer, -⟩
    rw [hsend] at hsent
    cases hsent
    have hname := (parseDataRequest_iff ip tid name).mp hparse
    refine ⟨hname, ?_⟩
    by_contra hlong
    rw [handleDataRequest_dataRequest ip tid hdata hname, if_neg hlong] at hanswer
    cases hanswer
  · rintro ⟨hname, hfits⟩
    obtain ⟨size, hresponse, hsize⟩ := handleDataResponse_withLength hname (getFunc name)
    refine ⟨_, _, hsend, (parseDataRequest_iff ip tid name).mpr hname, _, size, ?_, hresponse,
      hsize⟩
    rw [handleDataRequest_dataRequest ip tid hdata hname, if_pos hfits]

def oneByteData : Bytes → DataBlock := fun _ => { bytes := [118], size_lt := by decide }

def oneDataServer : Map Bytes Address := fun _ => some (Bytes.lit "tcp://10.0.0.3:4400")

theorem data_round_trips_short :
    let name := Bytes.lit "b|k0123456789abcdef"
    oneDataServer.getD name [] ≠ [] ∧ (oneByteData name).bytes ≠ [] ∧
      RoundTrips (Bytes.lit "10.0.0.2") 1 oneDataServer oneByteData name :=
  ⟨by decide, by decide,
    (data_round_trips_iff _ 1 oneDataServer oneByteData _ (by decide) (by decide)).mpr
      ⟨by decide, by decide⟩⟩

/-- The name of an object whose key has 238 bytes does not fit its length byte: the server
reads an empty name, and takes the name for a part of the response address. -/
theorem data_request_long_name :
    let object : BucketKey :=
      { bucket := Bytes.lit "b"
        key := List.replicate 238 107
        session := Bytes.lit "0123456789abcdef" }
    let address := Bytes.lit "tcp://10.0.0.2:4450"
    let request := 0 :: (object.shmKeyName ++ address)
    object.shmKeyName.length = 256 ∧
      (oneByteData object.shmKeyName).bytes ≠ [] ∧
      sendDataReqBase (Bytes.lit "10.0.0.2") 0 oneDataServer object.shmKeyName =
        some (Bytes.lit "tcp://10.0.0.3:4400", request) ∧
      parseDataRequest request = some ([], object.shmKeyName ++ address) ∧
      handleDataRequest oneByteData request =
        some (some (object.shmKeyName ++ address, [0, 118])) ∧
      handleDataResponse [0, 118] = some { dataKey := [], dataSize := 1, copied := [118] } := by
  decide +kernel

end Pheromone.Scheduler
