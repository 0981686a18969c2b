import Pheromone.Scheduler.Store
import Pheromone.Scheduler.Proofs.ExecutorCalls
import Pheromone.Scheduler.Proofs.Records

/-!
# Acknowledgements of puts

A put to the remote store waits under its key.  One response of the store acknowledges
all puts that wait under the key, also those that it does not answer.
-/

namespace Pheromone.Scheduler

open Lib Common

variable {env : SchedEnv} {s s' : SchedState}

/-! ## Recording a request -/

theorem nodeStep_put {e : NodeEvent} {put : StorePut} (hput : storePutOf e = some put) :
    nodeStep env s e =
      sendToStore env put.request.executorId put.request.reqId put.packing put.infos s := by
  unfold storePutOf at hput
  split at hput
  next now address reqId packingByte params =>
    obtain ⟨infos, hparse, rfl⟩ := Option.map_eq_some_iff.mp hput
    simp [nodeStep, executorMessage, hparse]
  · cases hput

theorem sendToStore_puts {executor : ExecutorId} {reqId : UInt8} {packing : Packing}
    {infos : SendInfos} (h : sendToStore env executor reqId packing infos s = some s') :
    s'.keyKsvPutMap = s.keyKsvPutMap.set infos.sessionKey
      (s.keyKsvPutMap.getD infos.sessionKey [] ++ [{ executorId := executor, reqId }]) := by
  obtain ⟨value, _, rfl⟩ := Option.map_eq_some_iff.mp h
  simp only
  split
  · rfl
  · rw [← show (s.ioThread env).1.keyKsvPutMap = s.keyKsvPutMap from
      congrArg Records.keyKsvPutMap (ioThread_records env s)]
    rfl

theorem nodeStep_puts {e : NodeEvent} (hput : storePutOf e = none)
    (hresp : ∀ key, e ≠ .kvsPutResp key) (h : nodeStep env s e = some s') :
    s'.keyKsvPutMap = s.keyKsvPutMap := by
  cases e with
  | executor now message =>
    rcases executorMessage_cases h with ⟨_, _, _, _, _, rfl, h⟩ |
      ⟨_, _, _, _, infos, _, _, h⟩ | ⟨_, _, _, _, infos, rfl, hparse, h⟩ |
      ⟨packing, infos, h⟩ | ⟨_, _, _, rfl⟩ | ⟨_, _, _, rfl⟩ | rfl
    · rcases getRequest_records h with heq | heq <;>
        exact congrArg Records.keyKsvPutMap heq
    · obtain ⟨s₁, hstore, hrecords⟩ := sendEphemeral_records h
      obtain ⟨m, values, rfl, _⟩ := storeObject_spec hstore
      exact congrArg Records.keyKsvPutMap hrecords
    · unfold storePutOf at hput
      simp only [hparse, Option.map_some, reduceCtorEq] at hput
    · obtain ⟨output, _, rfl⟩ := Option.map_eq_some_iff.mp h
      rfl
    · rfl
    · rfl
    · rfl
  | call now msg => exact congrArg Records.keyKsvPutMap (handleCall_records h)
  | dataResp now key size => exact congrArg Records.keyKsvPutMap (dataResp_records h)
  | kvsGetResp key size =>
    cases h
    exact congrArg Records.keyKsvPutMap (answerGets_records ..)
  | kvsPutResp key => exact absurd rfl (hresp key)
  | update now msg =>
    exact handleUpdate_preserves (Q := fun s' => s'.keyKsvPutMap = s.keyKsvPutMap)
      (fun _ _ _ _ _ _ _ _ hs => hs) h rfl
  | delayPass clock stamp => exact congrArg Records.keyKsvPutMap (delayPass_records h)
  | rerunCheck now reportEnd fuel => exact congrArg Records.keyKsvPutMap (rerunCheck_records h)

/-! ## Acknowledgements of puts -/

/-- A scheduler with what was counted for each key: the acknowledgements that it sent,
and the responses of the store that it received. -/
structure PutLedger where
  node : SchedState
  acks : Bytes → Nat := fun _ => 0
  responses : Bytes → Nat := fun _ => 0

def isResponse : SchedOut → Bool
  | .response .. => true
  | _ => false

def PutLedger.record (l : PutLedger) (s : SchedState) : NodeEvent → PutLedger
  | .kvsPutResp key =>
      { node := s
        acks := Function.update l.acks key
          (l.acks key + (l.node.sentSince s).countP isResponse)
        responses := Function.update l.responses key (l.responses key + 1) }
  | _ => { l with node := s }

def putLedgerStep (env : SchedEnv) (l : PutLedger) (e : NodeEvent) : Option PutLedger :=
  (nodeStep env l.node e).map fun s => l.record s e

def PutLedger.Covered (l : PutLedger) : Prop := ∀ key, l.acks key ≤ l.responses key

/-- No put of a key while another put of it waits for its response. -/
def PutLedger.PutsAlone (l : PutLedger) (e : NodeEvent) : Prop :=
  ∀ put, storePutOf e = some put → l.node.keyKsvPutMap.getD put.infos.sessionKey [] = []

theorem kvsPutResp_acks (key : Bytes) (s : SchedState) :
    (s.sentSince (kvsPutResp key s)).countP isResponse =
      (s.keyKsvPutMap.getD key []).length := by
  unfold SchedState.sentSince
  rw [kvsPutResp_eq, List.drop_left, List.countP_map]
  exact List.countP_eq_length.mpr fun _ _ => rfl

/-- At most one put of each key waits, and the counts are in order. -/
structure PutLedger.OneByOne (l : PutLedger) : Prop where
  covered : l.Covered
  one : ∀ key, (l.node.keyKsvPutMap.getD key []).length ≤ 1

theorem PutLedger.OneByOne.step {l l' : PutLedger} {e : NodeEvent} (hl : l.OneByOne)
    (halone : l.PutsAlone e) (h : putLedgerStep env l e = some l') : l'.OneByOne := by
  obtain ⟨s', hs', rfl⟩ := Option.map_eq_some_iff.mp h
  by_cases hresp : ∃ key, e = .kvsPutResp key
  · obtain ⟨key, rfl⟩ := hresp
    cases hs'
    constructor
    · intro key'
      simp only [PutLedger.record, Function.update_apply]
      split
      · have hcovered := hl.covered key
        have hone := hl.one key
        rw [kvsPutResp_acks]
        omega
      · exact hl.covered key'
    · intro key'
      simp only [PutLedger.record, kvsPutResp_eq, Map.getD_erase]
      split
      · exact Nat.zero_le 1
      · exact hl.one key'
  · have hcounts : l.record s' e = { l with node := s' } := by
      cases e with
      | kvsPutResp key => exact absurd ⟨key, rfl⟩ hresp
      | _ => rfl
    rw [hcounts]
    refine ⟨hl.covered, fun key => ?_⟩
    cases hput : storePutOf e with
    | some put =>
      -- the only put of its key
      have hmap := sendToStore_puts ((nodeStep_put hput).symm.trans hs')
      simp only [hmap, Map.getD_set, halone put hput, List.nil_append]
      split
      · exact Nat.le_refl 1
      · exact hl.one key
    | none =>
      simp only [nodeStep_puts hput (fun key heq => hresp ⟨key, heq⟩) hs']
      exact hl.one key

/-- As long as no key is put again before the response to its last put, every
acknowledgement stands for a response. -/
theorem acknowledgements_covered (env : SchedEnv) (ramSeed : UInt32) (executors : Nat)
    (events : List NodeEvent)
    (halone : Along (putLedgerStep env) PutLedger.PutsAlone
      { node := SchedState.new ramSeed executors } events) :
    Throughout (putLedgerStep env) PutLedger.Covered
      { node := SchedState.new ramSeed executors } events := by
  have hstart : PutLedger.OneByOne { node := SchedState.new ramSeed executors } :=
    ⟨fun _ => Nat.le_refl 0, fun _ => Nat.zero_le 1⟩
  exact throughout_of_along (fun _ hl => hl.covered)
    (fun _ _ _ hl hok hstep => hl.step hok hstep) hstart halone

def putMessage (address reqId : UInt8) (size : Nat) : NodeEvent :=
  .executor 0 ([address, 3, reqId, 2] ++ Bytes.lit "s|f||b|k|" ++ Bytes.toDecimal size)

/-- Two puts of a key one after the other. -/
theorem acknowledgements_covered_in_turn :
    Throughout (putLedgerStep ExecSystem.plainEnv) PutLedger.Covered
      { node := SchedState.new 0 2 }
      [putMessage 1 1 5, .kvsPutResp (Bytes.lit "k"), putMessage 2 1 7] := by
  refine acknowledgements_covered ExecSystem.plainEnv 0 2 _ ⟨?_, fun l₁ hl₁ => ⟨?_, fun l₂ hl₂ =>
    ⟨?_, fun _ _ => trivial⟩⟩⟩
  · exact fun _ _ => rfl
  · intro put hput
    cases hput
  · intro put hput
    have hkey : put.infos.sessionKey = Bytes.lit "k" := by
      have hparsed : (storePutOf (putMessage 2 1 7)).map (fun put => put.infos.sessionKey) =
          some (Bytes.lit "k") := by decide
      rw [hput] at hparsed
      exact Option.some.inj hparsed
    obtain ⟨s, hs, rfl⟩ := Option.map_eq_some_iff.mp hl₂
    cases hs
    rw [hkey]
    simp only [PutLedger.record, kvsPutResp_eq, Map.getD_erase, if_true]

/-- Two executors put the same key; the response to one of the puts acknowledges
both. -/
theorem unanswered_put_acknowledged :
    ∃ l, run (putLedgerStep ExecSystem.plainEnv) { node := SchedState.new 0 2 }
        [putMessage 1 1 5, putMessage 2 1 7, .kvsPutResp (Bytes.lit "k")] = some l ∧
      l.acks (Bytes.lit "k") = 2 ∧ l.responses (Bytes.lit "k") = 1 ∧ ¬ l.Covered := by
  have hcounts : (run (putLedgerStep ExecSystem.plainEnv) { node := SchedState.new 0 2 }
        [putMessage 1 1 5, putMessage 2 1 7, .kvsPutResp (Bytes.lit "k")]).map
      (fun l => (l.acks (Bytes.lit "k"), l.responses (Bytes.lit "k"))) = some (2, 1) := by
    decide +kernel
  obtain ⟨l, hrun, hl⟩ := Option.map_eq_some_iff.mp hcounts
  obtain ⟨hacks, hresponses⟩ := Prod.mk.inj hl
  refine ⟨l, hrun, hacks, hresponses, fun hcovered => ?_⟩
  have hle := hcovered (Bytes.lit "k")
  rw [hacks, hresponses] at hle
  exact absurd hle (by decide)

end Pheromone.Scheduler
