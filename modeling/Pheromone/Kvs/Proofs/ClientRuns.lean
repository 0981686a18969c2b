import Pheromone.Kvs.Proofs.Pending

/-!
# Runs of a client

What becomes of the requests that a client is given, over any number of calls.
-/

namespace Pheromone.Kvs

open Lib Common Scheduler

/-- A client, with the slots of the requests it was given and of those that it learned to have
sent to the wrong server, and the responses it returned. -/
structure ClientRun where
  client : KvsClient
  asked : List Slot := []
  misrouted : List Slot := []
  answered : List ServerResponse := []

inductive ClientEvent
  | get (now : TimePoint) (key : Key)
  | put (now : TimePoint) (key : Key) (timestamp : UInt64) (value : Value)
  | receive (clock : KvsClient.Readings) (addresses : Option KeyAddressResponse)
      (response : Option ServerResponse)

def clientStep (env : KvsEnv) (l : ClientRun) : ClientEvent → Option ClientRun
  | .get now key => (l.client.getAsync env now key).map fun client =>
      { l with client, asked := l.asked ++ [.get key] }
  | .put now key timestamp value =>
      (l.client.putAsync env now key timestamp value).map fun client =>
        { l with client, asked := l.asked ++ [.put key (l.client.getRequestId env).2] }
  | .receive clock addresses response =>
      (l.client.receiveAsync env clock addresses response).map fun (client, responses) =>
        { l with
          client
          misrouted := l.misrouted ++ Kvs.misrouted response
          answered := l.answered ++ responses }

/-- The requests of a kind that are pending or answered are the `before` ones that were pending
and those that were asked, up to requests that were put together or sent to the wrong server. -/
def ClientRun.Accounts (p : Slot → Bool) (before : Nat) (l : ClientRun) : Prop :=
  (0 < l.asked.countP p → 0 < l.client.pending p + answers p l.answered) ∧
    l.client.pending p + answers p l.answered ≤
      before + l.asked.countP p + l.misrouted.countP p

theorem ClientRun.Accounts.step {env : KvsEnv} {p : Slot → Bool} {before : Nat}
    {l l' : ClientRun} {e : ClientEvent} (hl : l.Accounts p before)
    (h : clientStep env l e = some l') : l'.Accounts p before := by
  cases e with
  | get now key =>
    obtain ⟨client, hclient, rfl⟩ := Option.map_eq_some_iff.mp h
    have hpending := KvsClient.getAsync_pending p hclient
    simp only [Accounts, Joins, List.countP_append] at *
    omega
  | put now key timestamp value =>
    obtain ⟨client, hclient, rfl⟩ := Option.map_eq_some_iff.mp h
    have hpending := KvsClient.request_pending p hclient
    simp only [Accounts, Joins, List.countP_append, Slot.of] at *
    omega
  | receive clock addresses response =>
    obtain ⟨⟨client, responses⟩, hclient, rfl⟩ := Option.map_eq_some_iff.mp h
    have hpending := KvsClient.receiveAsync_pending p hclient
    simp only [Accounts, answers, List.map_append, List.countP_append] at *
    omega

/-- In every run, from whatever a client has pending, a slot that is asked for is pending or was
answered since, and it has at most as many responses, those it waits for included, as it had
requests and answers that a server does not have the key.  So a put whose id was used once is
pending or was answered once, unless it was sent to the wrong server; and a get that is asked
again is pending or was answered again. -/
theorem requests_pending_or_answered (env : KvsEnv) (client : KvsClient) (slot : Slot)
    (events : List ClientEvent) :
    Throughout (clientStep env)
      (fun l =>
        let responses := l.client.pending (· == slot) +
          (l.answered.map ServerResponse.slot).count slot
        (slot ∈ l.asked → 0 < responses) ∧
          responses ≤ client.pending (· == slot) + l.asked.count slot + l.misrouted.count slot)
      { client } events := by
  have hstart : ClientRun.Accounts (· == slot) (client.pending (· == slot)) { client } :=
    ⟨fun h => absurd h (Nat.lt_irrefl 0), Nat.le_refl _⟩
  refine throughout_of_along (fun _ hl => ?_) (fun _ _ _ hl _ h => hl.step h) hstart
    (along_true _ events)
  exact ⟨fun hasked => hl.1 (List.count_pos_iff.mpr hasked), hl.2⟩

def plainEnv : KvsEnv where
  routingThreads := [{ ip := Bytes.lit "r", tid := 0 }]
  ip := Bytes.lit "c"
  tid := 0
  timeout := 10000
  randR := fun seed => (0, seed)

def readings (now : TimePoint) : KvsClient.Readings where
  message := now
  request := fun _ => now
  response := fun _ => now

-- A put that was sent to the wrong server and then times out is answered twice.
example :
    (run (clientStep plainEnv) { client := { seed := 0 } }
      [.put 0 (Bytes.lit "k") 1 (Bytes.lit "v"),
        .receive (readings 0) (some { key := Bytes.lit "k", ips := [Bytes.lit "tcp://a:1"] }) none,
        .receive (readings 0) none (some
          { type := .put, key := Bytes.lit "k", responseId := Bytes.lit "c:0_1",
            tupleError := .wrongThread }),
        .receive (readings 20000000000) none none]).map
      (fun l => l.answered.map fun r => (r.slot, r.error)) =
      some (List.replicate 2 (.put (Bytes.lit "k") (Bytes.lit "c:0_1"), .timeout)) := by
  decide +kernel

end Pheromone.Kvs
