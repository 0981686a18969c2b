import Pheromone.Scheduler.Proofs.LocalFrames

/-!
# Calls that wait for their arguments

`key_call_id_map` and `call_id_inflight_args_map` index the waiting calls in
opposite directions.  Both agree with what the trace says each call still waits
for, and every call is handed to `schedule_func_call` once, as soon as it waits
for nothing.
-/

namespace Pheromone.Scheduler

open Lib Common

variable {arg : Bytes} {appName : Name} {env : SchedEnv} {m m' : Map Bytes Nat} {now : Stamp}
  {s₀ : SchedState}

variable {s s' : SchedState} {args : InflightFuncArgs} {acc : SchedState × Finset Bytes}
  {callId : UInt32} {key : Bytes}

/-! ## The invariant -/

def RequestsOnce (trace : List SchedOut) : Prop :=
  ∀ before key thread after, trace = before ++ .dataReq true key thread :: after →
    ∀ callId args, pending callId before = some args → key ∉ args.inflightArgs

structure InflightInv (s : SchedState) : Prop where
  entry : ∀ callId, s.callIdInflightArgsMap callId =
    (pending callId s.sent).filter fun args => decide (args.inflightArgs ≠ ∅)
  index : ∀ callId key, (∃ ids, s.keyCallIdMap key = some ids ∧ callId ∈ ids) ↔
    ∃ args, s.callIdInflightArgsMap callId = some args ∧ key ∈ args.inflightArgs
  nonempty : ∀ key ids, s.keyCallIdMap key = some ids → ∃ callId, callId ∈ ids
  handed : ∀ callId, (handed callId s.sent).length =
    if (pending callId s.sent).any (fun args => decide (args.inflightArgs = ∅)) then 1 else 0
  present : ∀ callId args, pending callId s.sent = some args → 0 < args.argFlag →
    ∀ key ∈ args.keyArgs, key ∈ args.inflightArgs ∨ ∃ size, s.keyLenMap key = some size
  fresh : ∃ n, s.callId = UInt32.ofNat n ∧ n ≤ callsMade s.sent ∧
    ∀ callId args, pending callId s.sent = some args → callId.toNat < n
  requests : RequestsOnce s.sent
  distinct : ((arrivals s.sent).map Prod.fst).Nodup

theorem requestsOnce_append {trace outs : List SchedOut} (h : RequestsOnce trace)
    (hnew : ∀ before key thread after, outs = before ++ .dataReq true key thread :: after →
      ∀ callId args, pending callId (trace ++ before) = some args → key ∉ args.inflightArgs) :
    RequestsOnce (trace ++ outs) := by
  intro before key thread after heq callId args hpending
  rcases List.append_eq_append_iff.mp heq with ⟨mid, hbefore, houts⟩ | ⟨mid, htrace, hafter⟩
  · rw [hbefore] at hpending
    exact hnew mid key thread after houts callId args hpending
  · cases mid with
    | nil =>
      rw [List.append_nil] at htrace
      rw [List.nil_append] at hafter
      refine hnew [] key thread after hafter.symm callId args ?_
      rw [List.append_nil, htrace]
      exact hpending
    | cons out mid =>
      rw [List.cons_append, List.cons.injEq] at hafter
      rw [← hafter.1] at htrace
      exact h before key thread mid htrace callId args hpending

theorem InflightInv.of_callFrame (hs : InflightInv s) (hframe : CallFrame s s') :
    InflightInv s' := by
  obtain ⟨outs, hsent, hneutral⟩ := hframe.sent
  have hpending : ∀ callId, pending callId s'.sent = pending callId s.sent := by
    intro callId
    rw [hsent, pending_append_quiet fun out hout => (hneutral out hout).quiet]
  constructor
  · intro callId
    rw [hframe.inflight, hpending]
    exact hs.entry callId
  · intro callId key
    rw [hframe.inflight, hframe.waiting]
    exact hs.index callId key
  · rw [hframe.waiting]
    exact hs.nonempty
  · intro callId
    rw [hpending, hsent, handed_append, handed_of_neutral hneutral, List.append_nil]
    exact hs.handed callId
  · intro callId args hargs hflag key hkey
    rw [hpending] at hargs
    rcases hs.present callId args hargs hflag key hkey with hin | ⟨size, hsize⟩
    · exact Or.inl hin
    · exact Or.inr ⟨size, hframe.keyLen key size hsize⟩
  · obtain ⟨n, hn, hle, hlt⟩ := hs.fresh
    refine ⟨n, by rw [hframe.callId, hn], ?_, fun callId args hargs => ?_⟩
    · rw [hsent, callsMade_append]
      omega
    · rw [hpending] at hargs
      exact hlt callId args hargs
  · rw [hsent]
    apply requestsOnce_append hs.requests
    intro before key thread after houts
    have hbad := hneutral (.dataReq true key thread) (by rw [houts]; simp)
    cases hbad
  · rw [hsent, arrivals_append, arrivals_of_quiet fun out hout => (hneutral out hout).quiet,
      List.append_nil]
    exact hs.distinct

/-! ## A call arrives -/

structure CheckedArgs (s : SchedState) (args : List Bytes) (acc : SchedState × Finset Bytes) :
    Prop where
  callId : acc.1.callId = s.callId
  inflight : acc.1.callIdInflightArgsMap = s.callIdInflightArgsMap
  keyLen : acc.1.keyLenMap = s.keyLenMap
  missing : ∀ key, key ∈ acc.2 ↔ key ∈ args ∧ s.keyLenMap key = none
  index : ∀ callId key, (∃ ids, acc.1.keyCallIdMap key = some ids ∧ callId ∈ ids) ↔
    (∃ ids, s.keyCallIdMap key = some ids ∧ callId ∈ ids) ∨ (callId = s.callId ∧ key ∈ acc.2)
  nonempty : ∀ key ids, acc.1.keyCallIdMap key = some ids → ∃ callId, callId ∈ ids
  sent : ∃ reqs, acc.1.sent = s.sent ++ reqs ∧ ∀ out ∈ reqs, ∃ key thread,
    out = .dataReq true key thread ∧ s.keyLenMap key = none ∧ s.keyCallIdMap key = none

theorem sendDataReq_spec (env : SchedEnv) (key : Bytes) (s : SchedState) :
    ∃ id thread, s.sendDataReq env true key =
      { s with ioThreadId := id, sent := s.sent ++ [.dataReq true key thread] } := by
  unfold SchedState.sendDataReq SchedState.ioThread
  split
  · exact ⟨_, _, rfl⟩
  · exact ⟨_, _, rfl⟩

theorem checkKeyArg_present (env : SchedEnv) {size : Nat} (h : acc.1.keyLenMap arg = some size) :
    checkKeyArg env acc arg = acc := by
  unfold checkKeyArg
  simp only [h]

theorem checkKeyArg_missing (env : SchedEnv) (h : acc.1.keyLenMap arg = none) :
    ∃ id reqs,
      (∀ out ∈ reqs, ∃ thread, out = .dataReq true arg thread ∧ acc.1.keyCallIdMap arg = none) ∧
      checkKeyArg env acc arg =
        ({ acc.1 with
            ioThreadId := id
            sent := acc.1.sent ++ reqs
            keyCallIdMap := acc.1.keyCallIdMap.set arg
              ((acc.1.keyCallIdMap.getD arg USet.empty).insert acc.1.callId) },
          insert arg acc.2) := by
  unfold checkKeyArg
  simp only [h]
  by_cases hwait : acc.1.keyCallIdMap arg = none
  · obtain ⟨id, thread, hsend⟩ := sendDataReq_spec env arg acc.1
    refine ⟨id, [.dataReq true arg thread], ?_, by rw [if_pos hwait, hsend]⟩
    intro out hout
    exact ⟨thread, List.mem_singleton.mp hout, hwait⟩
  · refine ⟨acc.1.ioThreadId, [], by simp, ?_⟩
    rw [if_neg hwait, List.append_nil]

theorem mem_getD_empty {m : Map Bytes (USet UInt32)} :
    callId ∈ m.getD key USet.empty ↔ ∃ ids, m key = some ids ∧ callId ∈ ids := by
  unfold Map.getD
  cases m key with
  | none => simp
  | some ids => simp

theorem checkKeyArg_checked_present (env : SchedEnv) {args : List Bytes} {size : Nat}
    (hacc : CheckedArgs s args acc) (hlen : acc.1.keyLenMap arg = some size) :
    CheckedArgs s (args ++ [arg]) (checkKeyArg env acc arg) := by
  rw [checkKeyArg_present env hlen]
  refine ⟨hacc.callId, hacc.inflight, hacc.keyLen, fun key => ?_, hacc.index,
    hacc.nonempty, hacc.sent⟩
  rw [hacc.keyLen] at hlen
  rw [hacc.missing, List.mem_append, List.mem_singleton]
  constructor
  · exact fun h => ⟨Or.inl h.1, h.2⟩
  · rintro ⟨hmem | rfl, hnone⟩
    · exact ⟨hmem, hnone⟩
    · rw [hlen] at hnone
      cases hnone

theorem checkKeyArg_checked_missing (env : SchedEnv) {args : List Bytes}
    (hnonempty : ∀ key ids, s.keyCallIdMap key = some ids → ∃ callId, callId ∈ ids)
    (hacc : CheckedArgs s args acc) (hlen : acc.1.keyLenMap arg = none) :
    CheckedArgs s (args ++ [arg]) (checkKeyArg env acc arg) := by
  obtain ⟨id, reqs, hreqs, heq⟩ := checkKeyArg_missing env hlen
  rw [hacc.keyLen] at hlen
  rw [heq]
  refine ⟨hacc.callId, hacc.inflight, hacc.keyLen, fun key => ?_, fun callId key => ?_,
    fun key ids hids => ?_, ?_⟩
  · rw [Finset.mem_insert, hacc.missing, List.mem_append, List.mem_singleton]
    constructor
    · rintro (rfl | h)
      · exact ⟨Or.inr rfl, hlen⟩
      · exact ⟨Or.inl h.1, h.2⟩
    · rintro ⟨hmem | rfl, hnone⟩
      · exact Or.inr ⟨hmem, hnone⟩
      · exact Or.inl rfl
  · rw [Finset.mem_insert]
    by_cases hkey : key = arg
    · subst hkey
      simp only [Map.set_self, Option.some.injEq, exists_eq_left', USet.mem_insert,
        mem_getD_empty, hacc.index, hacc.callId, true_or, and_true]
      constructor
      · rintro (hown | hold | ⟨hown, _⟩)
        · exact Or.inr hown
        · exact Or.inl hold
        · exact Or.inr hown
      · rintro (hold | hown)
        · exact Or.inr (Or.inl hold)
        · exact Or.inl hown
    · simp only [Map.set_of_ne _ _ hkey, hacc.index, hkey, false_or]
  · by_cases hkey : key = arg
    · subst hkey
      simp only [Map.set_self, Option.some.injEq] at hids
      rw [← hids]
      exact ⟨acc.1.callId, USet.mem_insert.mpr (Or.inl rfl)⟩
    · simp only [Map.set_of_ne _ _ hkey] at hids
      exact hacc.nonempty key ids hids
  · obtain ⟨old, hold, hreq⟩ := hacc.sent
    refine ⟨old ++ reqs, by rw [← List.append_assoc, ← hold], ?_⟩
    intro out hout
    rcases List.mem_append.mp hout with hout | hout
    · exact hreq out hout
    · obtain ⟨thread, hout, hwait⟩ := hreqs out hout
      refine ⟨arg, thread, hout, hlen, ?_⟩
      cases hfound : s.keyCallIdMap arg with
      | none => rfl
      | some ids =>
        obtain ⟨callId, hcallId⟩ := hnonempty arg ids hfound
        obtain ⟨ids', hids', _⟩ :=
          (hacc.index callId arg).mpr (Or.inl ⟨ids, hfound, hcallId⟩)
        rw [hwait] at hids'
        cases hids'

theorem checkKeyArg_checked (env : SchedEnv) {args : List Bytes}
    (hnonempty : ∀ key ids, s.keyCallIdMap key = some ids → ∃ callId, callId ∈ ids)
    (hacc : CheckedArgs s args acc) (arg : Bytes) :
    CheckedArgs s (args ++ [arg]) (checkKeyArg env acc arg) := by
  cases hlen : acc.1.keyLenMap arg with
  | some size => exact checkKeyArg_checked_present env hacc hlen
  | none => exact checkKeyArg_checked_missing env hnonempty hacc hlen

theorem foldl_checkKeyArg (env : SchedEnv) (args : List Bytes)
    (hnonempty : ∀ key ids, s.keyCallIdMap key = some ids → ∃ callId, callId ∈ ids) :
    CheckedArgs s args (args.foldl (checkKeyArg env) (s, ∅)) := by
  have hloop : ∀ (rest done : List Bytes) acc, CheckedArgs s done acc →
      CheckedArgs s (done ++ rest) (rest.foldl (checkKeyArg env) acc) := by
    intro rest
    induction rest with
    | nil =>
      intro done acc hacc
      rw [List.append_nil]
      exact hacc
    | cons arg rest ih =>
      intro done acc hacc
      have hnext := ih (done ++ [arg]) _ (checkKeyArg_checked env hnonempty hacc arg)
      rw [List.append_assoc, List.singleton_append] at hnext
      exact hnext
  have hstart : CheckedArgs s [] (s, ∅) := by
    refine ⟨rfl, rfl, rfl, fun key => ?_, fun callId key => ?_, hnonempty, [], by simp, by simp⟩
    · simp
    · simp
  exact hloop args [] (s, ∅) hstart

theorem inflightArgsOf_checked (env : SchedEnv) (sessionId : Session) (request : FunctionRequest)
    (hnonempty : ∀ key ids, s.keyCallIdMap key = some ids → ∃ callId, callId ∈ ids) :
    let result := inflightArgsOf env sessionId request s
    CheckedArgs s (if 0 < argFlagOf request.arguments then result.2.keyArgs else [])
      (result.1, result.2.inflightArgs) := by
  simp only [inflightArgsOf]
  by_cases hflag : 0 < argFlagOf request.arguments
  · simp only [hflag, if_true]
    exact foldl_checkKeyArg env _ hnonempty
  · simp only [hflag, if_false]
    exact foldl_checkKeyArg env [] hnonempty

theorem InflightInv.pending_callId (hs : InflightInv s) (hcalls : callsMade s.sent < 2 ^ 32) :
    pending s.callId s.sent = none := by
  obtain ⟨n, hn, hle, hlt⟩ := hs.fresh
  cases hpending : pending s.callId s.sent with
  | none => rfl
  | some args =>
    have hbound := hlt s.callId args hpending
    have hval : s.callId.toNat = n := by
      rw [hn, UInt32.toNat_ofNat', Nat.mod_eq_of_lt (by omega)]
    omega

theorem InflightInv.keyCallIdMap_none_iff (hs : InflightInv s) :
    s.keyCallIdMap key = none ↔
      ∀ callId args, pending callId s.sent = some args → key ∉ args.inflightArgs := by
  constructor
  · intro hnone callId args hargs hkey
    have hentry : s.callIdInflightArgsMap callId = some args := by
      rw [hs.entry, hargs, Option.filter_some, if_pos]
      simpa using Finset.ne_empty_of_mem hkey
    obtain ⟨ids, hids, _⟩ := (hs.index callId key).mpr ⟨args, hentry, hkey⟩
    rw [hnone] at hids
    cases hids
  · intro hall
    cases hfound : s.keyCallIdMap key with
    | none => rfl
    | some ids =>
      obtain ⟨callId, hcallId⟩ := hs.nonempty key ids hfound
      obtain ⟨args, hargs, hkey⟩ := (hs.index callId key).mp ⟨ids, hfound, hcallId⟩
      rw [hs.entry, Option.filter_eq_some_iff] at hargs
      exact absurd hkey (hall callId args hargs.1)

structure ArrivedCall (s s' : SchedState) (args : InflightFuncArgs) : Prop where
  checked : ∃ s₁, CheckedArgs s (if 0 < args.argFlag then args.keyArgs else [])
      (s₁, args.inflightArgs) ∧
    s'.keyCallIdMap = s₁.keyCallIdMap ∧
    ∃ tail, s'.sent = s₁.sent ++ .arrived s.callId args :: tail ∧
      (∀ out ∈ tail, out.Quiet ∧ ∀ key thread, out ≠ .dataReq true key thread) ∧
      (∀ id call, .submit (some id) call ∈ tail → id = s.callId ∧ args.inflightArgs = ∅ ∧
        ∃ appName, call = args.readyCall appName s.keyLenMap) ∧
      ∀ callId, (Scheduler.handed callId tail).length =
        if s.callId = callId ∧ args.inflightArgs = ∅ then 1 else 0
  inflight : s'.callIdInflightArgsMap =
    if args.inflightArgs = ∅ then s.callIdInflightArgsMap
    else s.callIdInflightArgsMap.set s.callId args
  keyLen : ∀ key size, s.keyLenMap key = some size → s'.keyLenMap key = some size
  callId : s'.callId = s.callId + 1

theorem ArrivedCall.pending (h : ArrivedCall s s' args) (callId : UInt32) :
    Scheduler.pending callId s'.sent =
      if s.callId = callId then some args else Scheduler.pending callId s.sent := by
  obtain ⟨s₁, hchecked, _, tail, hsent, htail, _⟩ := h.checked
  obtain ⟨reqs, hreqs, hreq⟩ := hchecked.sent
  have hquiet : ∀ out ∈ reqs, out.Quiet := by
    intro out hout
    obtain ⟨key, thread, rfl, _⟩ := hreq out hout
    trivial
  rw [hsent, pending_append_arrived _ _ _ _ _ fun out hout => (htail out hout).1, hreqs,
    pending_append_quiet hquiet]

theorem ArrivedCall.handed (h : ArrivedCall s s' args) (callId : UInt32) :
    (Scheduler.handed callId s'.sent).length = (Scheduler.handed callId s.sent).length +
      if s.callId = callId ∧ args.inflightArgs = ∅ then 1 else 0 := by
  obtain ⟨s₁, hchecked, _, tail, hsent, _, _, hhanded⟩ := h.checked
  obtain ⟨reqs, hreqs, hreq⟩ := hchecked.sent
  have hnone : Scheduler.handed callId reqs = [] := by
    unfold Scheduler.handed
    rw [List.flatMap_eq_nil_iff]
    intro out hout
    obtain ⟨key, thread, rfl, _⟩ := hreq out hout
    rfl
  have hsplit : s'.sent = s.sent ++ (reqs ++ ([.arrived s.callId args] ++ tail)) := by
    rw [hsent, hreqs]
    simp
  rw [hsplit, handed_append, handed_append, handed_append, hnone]
  simp only [List.length_append, List.length_nil, hhanded]
  simp [Scheduler.handed, SchedOut.handed]

theorem ArrivedCall.arrivals (h : ArrivedCall s s' args) :
    Scheduler.arrivals s'.sent = Scheduler.arrivals s.sent ++ [(s.callId, args)] := by
  obtain ⟨s₁, hchecked, _, tail, hsent, htail, _⟩ := h.checked
  obtain ⟨reqs, hreqs, hreq⟩ := hchecked.sent
  have hquiet : ∀ out ∈ reqs, out.Quiet := by
    intro out hout
    obtain ⟨key, thread, rfl, _⟩ := hreq out hout
    trivial
  have hnone := arrivals_of_quiet fun out hout => (htail out hout).1
  rw [hsent, hreqs, arrivals_append, arrivals_append, arrivals_of_quiet hquiet, List.append_nil,
    ← List.singleton_append, arrivals_append, hnone, List.append_nil]
  rfl

theorem ArrivedCall.entry (h : ArrivedCall s s' args)
    (hnew : s.callIdInflightArgsMap s.callId = none) (callId : UInt32) :
    s'.callIdInflightArgsMap callId =
      if s.callId = callId then (if args.inflightArgs = ∅ then none else some args)
      else s.callIdInflightArgsMap callId := by
  rw [h.inflight]
  by_cases hid : s.callId = callId
  · subst hid
    by_cases hempty : args.inflightArgs = ∅
    · simp [hempty, hnew]
    · simp [hempty]
  · by_cases hempty : args.inflightArgs = ∅
    · simp [hempty, hid]
    · simp [hempty, hid, Map.set_of_ne _ _ (Ne.symm hid)]

theorem ArrivedCall.present (h : ArrivedCall s s' args) (hflag : 0 < args.argFlag)
    (hkey : key ∈ args.keyArgs) :
    key ∈ args.inflightArgs ∨ ∃ size, s'.keyLenMap key = some size := by
  obtain ⟨s₁, hchecked, -⟩ := h.checked
  cases hlen : s.keyLenMap key with
  | some size => exact Or.inr ⟨size, h.keyLen key size hlen⟩
  | none =>
    refine Or.inl ((hchecked.missing key).mpr ⟨?_, hlen⟩)
    rw [if_pos hflag]
    exact hkey

theorem ArrivedCall.callsMade_lt (h : ArrivedCall s s' args) :
    callsMade s.sent < callsMade s'.sent := by
  obtain ⟨s₁, hchecked, -, tail, hsent, -⟩ := h.checked
  obtain ⟨reqs, hreqs, -⟩ := hchecked.sent
  have hcount : callsMade s'.sent =
      callsMade s.sent + callsMade reqs + (callsMade tail + 1) := by
    rw [hsent, hreqs, callsMade_append, callsMade_append]
    unfold callsMade
    rw [List.countP_cons_of_pos rfl]
  omega

theorem split_left {α : Type} {l l' before after : List α} {a : α}
    (h : l ++ l' = before ++ a :: after) (ha : a ∉ l') : ∃ rest, l = before ++ a :: rest := by
  rcases List.append_eq_append_iff.mp h with ⟨mid, -, hl'⟩ | ⟨mid, hl, hafter⟩
  · exact absurd (hl' ▸ List.mem_append_right _ List.mem_cons_self) ha
  · cases mid with
    | nil =>
      rw [List.nil_append] at hafter
      exact absurd (hafter ▸ List.mem_cons_self) ha
    | cons b mid =>
      rw [List.cons_append, List.cons.injEq] at hafter
      exact ⟨mid, by rw [hl, hafter.1]⟩

theorem ArrivedCall.requests (h : ArrivedCall s s' args) (hs : InflightInv s) :
    RequestsOnce s'.sent := by
  obtain ⟨s₁, hchecked, -, tail, hsent, htail, -⟩ := h.checked
  obtain ⟨reqs, hreqs, hreq⟩ := hchecked.sent
  rw [hsent, hreqs, List.append_assoc]
  apply requestsOnce_append hs.requests
  intro before key thread after heq callId found hfound
  -- the request is one of those of the loop over the arguments
  obtain ⟨rest, hrest⟩ : ∃ rest, reqs = before ++ .dataReq true key thread :: rest := by
    refine split_left heq fun hmem => ?_
    rcases List.mem_cons.mp hmem with hbad | hmem
    · cases hbad
    · exact (htail _ hmem).2 key thread rfl
  obtain ⟨key', thread', heq', -, hnone⟩ := hreq (.dataReq true key thread) (by rw [hrest]; simp)
  cases heq'
  have hquiet : ∀ out ∈ before, out.Quiet := by
    intro out hout
    obtain ⟨_, _, rfl, _⟩ := hreq out (by rw [hrest]; simp [hout])
    trivial
  rw [pending_append_quiet hquiet] at hfound
  exact hs.keyCallIdMap_none_iff.mp hnone callId found hfound

theorem InflightInv.entry_callId (hs : InflightInv s) (hcalls : callsMade s.sent < 2 ^ 32) :
    s.callIdInflightArgsMap s.callId = none := by
  rw [hs.entry, hs.pending_callId hcalls]
  rfl

theorem InflightInv.index_of_arrivedCall (hs : InflightInv s) (hcalls : callsMade s.sent < 2 ^ 32)
    (h : ArrivedCall s s' args) (callId : UInt32) (key : Bytes) :
    (∃ ids, s'.keyCallIdMap key = some ids ∧ callId ∈ ids) ↔
      ∃ args, s'.callIdInflightArgsMap callId = some args ∧ key ∈ args.inflightArgs := by
  have hentry := hs.entry_callId hcalls
  obtain ⟨s₁, hchecked, hwait, -⟩ := h.checked
  rw [hwait, hchecked.index, h.entry hentry]
  by_cases hid : s.callId = callId
  · subst hid
    have hnot : ¬ ∃ ids, s.keyCallIdMap key = some ids ∧ s.callId ∈ ids := by
      rw [hs.index, hentry]
      simp
    simp only [hnot, false_or, true_and, if_true]
    by_cases hempty : args.inflightArgs = ∅
    · simp [hempty]
    · simp [hempty]
  · simp only [hid, if_false, Ne.symm hid, false_and, or_false]
    exact hs.index callId key

theorem InflightInv.fresh_of_arrivedCall (hs : InflightInv s) (hcalls : callsMade s.sent < 2 ^ 32)
    (h : ArrivedCall s s' args) :
    ∃ n, s'.callId = UInt32.ofNat n ∧ n ≤ callsMade s'.sent ∧
      ∀ callId args, pending callId s'.sent = some args → callId.toNat < n := by
  obtain ⟨n, hn, hle, hlt⟩ := hs.fresh
  have hmore := h.callsMade_lt
  refine ⟨n + 1, ?_, by omega, fun callId found hfound => ?_⟩
  · rw [h.callId, hn]
    simp [UInt32.ofNat_add]
  · rw [h.pending] at hfound
    by_cases hid : s.callId = callId
    · have hval : s.callId.toNat = n := by
        rw [hn, UInt32.toNat_ofNat', Nat.mod_eq_of_lt (by omega)]
      rw [← hid]
      omega
    · rw [if_neg hid] at hfound
      have hold := hlt callId found hfound
      omega

theorem InflightInv.of_arrivedCall (hs : InflightInv s) (hcalls : callsMade s.sent < 2 ^ 32)
    (h : ArrivedCall s s' args) :
    InflightInv s' where
  entry := by
    intro callId
    rw [h.entry (hs.entry_callId hcalls), h.pending]
    by_cases hid : s.callId = callId
    · by_cases hempty : args.inflightArgs = ∅
      · simp [hid, hempty, Option.filter_some]
      · simp [hid, hempty, Option.filter_some]
    · simp only [hid, if_false]
      exact hs.entry callId
  index := hs.index_of_arrivedCall hcalls h
  nonempty := by
    obtain ⟨s₁, hchecked, hwait, -⟩ := h.checked
    rw [hwait]
    exact hchecked.nonempty
  handed := by
    intro callId
    rw [h.handed, h.pending, hs.handed]
    by_cases hid : s.callId = callId
    · subst hid
      have hnew := hs.pending_callId hcalls
      by_cases hempty : args.inflightArgs = ∅
      · simp [hempty, hnew]
      · simp [hempty, hnew]
    · simp [hid]
  present := by
    intro callId found hfound hflag key hkey
    rw [h.pending] at hfound
    by_cases hid : s.callId = callId
    · rw [if_pos hid, Option.some.injEq] at hfound
      subst hfound
      exact h.present hflag hkey
    · rw [if_neg hid] at hfound
      rcases hs.present callId found hfound hflag key hkey with hin | ⟨size, hsize⟩
      · exact Or.inl hin
      · exact Or.inr ⟨size, h.keyLen key size hsize⟩
  fresh := hs.fresh_of_arrivedCall hcalls h
  requests := h.requests hs
  distinct := by
    rw [h.arrivals, List.map_append, List.nodup_append]
    refine ⟨hs.distinct, by simp, ?_⟩
    rintro id hid _ hlast rfl
    rw [List.map_singleton, List.mem_singleton] at hlast
    obtain ⟨found, hfound⟩ := pending_of_mem_arrivals id s.sent hid
    rw [hlast, hs.pending_callId hcalls] at hfound
    cases hfound

/-! ## What is handed over -/

/-- `call` is the call number `callId` with its keys in order, each with the length
that `key_len_map` has for it. -/
def Ready (callId : UInt32) (call : SchedCall) (s : SchedState) : Prop :=
  ∃ args appName, pending callId s.sent = some args ∧ args.inflightArgs = ∅ ∧
    call = args.readyCall appName s.keyLenMap ∧
    (0 < args.argFlag → ∀ key ∈ args.keyArgs, ∃ size, s.keyLenMap key = some size)

theorem fullArgs_congr {keys : List Bytes} (h : ∀ key ∈ keys, m key = m' key) :
    fullArgs m keys = fullArgs m' keys := by
  unfold fullArgs
  apply List.flatMap_congr
  intro key hkey
  unfold Map.getD
  rw [h key hkey]

theorem readyCall_congr (appName : Name)
    (hpresent : 0 < args.argFlag → ∀ key ∈ args.keyArgs, ∃ size, m key = some size)
    (hkeyLen : ∀ key size, m key = some size → m' key = some size) :
    args.readyCall appName m = args.readyCall appName m' := by
  unfold InflightFuncArgs.readyCall
  by_cases hflag : 0 < args.argFlag
  · have hsame : fullArgs m args.keyArgs = fullArgs m' args.keyArgs := by
      apply fullArgs_congr
      intro key hkey
      obtain ⟨size, hsize⟩ := hpresent hflag key hkey
      rw [hsize, hkeyLen key size hsize]
    simp only [hflag, if_true, hsame]
  · simp only [hflag, if_false]

theorem Ready.of_keyLen {call : SchedCall} (h : Ready callId call s)
    (hpending : pending callId s'.sent = pending callId s.sent)
    (hkeyLen : ∀ key size, s.keyLenMap key = some size → s'.keyLenMap key = some size) :
    Ready callId call s' := by
  obtain ⟨args, appName, hargs, hempty, hcall, hkeys⟩ := h
  refine ⟨args, appName, by rw [hpending, hargs], hempty, ?_, fun hflag key hkey => ?_⟩
  · rw [hcall]
    exact readyCall_congr appName hkeys hkeyLen
  · obtain ⟨size, hsize⟩ := hkeys hflag key hkey
    exact ⟨size, hkeyLen key size hsize⟩

/-- What is new in the trace of `s` since `s₀`: calls that are handed over are
ready, and objects that are requested were missing. -/
structure Marks (s₀ s : SchedState) : Prop where
  keyLen : ∀ key size, s₀.keyLenMap key = some size → ∃ size', s.keyLenMap key = some size'
  sent : ∃ outs, s.sent = s₀.sent ++ outs ∧
    (∀ id call, .submit (some id) call ∈ outs → Ready id call s) ∧
    ∀ key thread, .dataReq true key thread ∈ outs → s₀.keyLenMap key = none

theorem Marks.of_callFrame (h : Marks s₀ s) (hframe : CallFrame s s') : Marks s₀ s' := by
  obtain ⟨outs, hsent, hready, hreq⟩ := h.sent
  obtain ⟨outs', hsent', hneutral⟩ := hframe.sent
  refine ⟨fun key size hkey => ?_, outs ++ outs', by rw [hsent', hsent, List.append_assoc],
    fun id call hmem => ?_, fun key thread hmem => ?_⟩
  · obtain ⟨size', hsize'⟩ := h.keyLen key size hkey
    exact ⟨size', hframe.keyLen key size' hsize'⟩
  · rcases List.mem_append.mp hmem with hmem | hmem
    · refine (hready id call hmem).of_keyLen ?_ hframe.keyLen
      rw [hsent', pending_append_quiet fun out hout => (hneutral out hout).quiet]
    · cases hneutral _ hmem
  · rcases List.mem_append.mp hmem with hmem | hmem
    · exact hreq key thread hmem
    · cases hneutral _ hmem

/-! ## Requests of a call message -/

structure HandsOver (callId : UInt32) (call : SchedCall) (outs : List SchedOut) : Prop where
  quiet : ∀ out ∈ outs, out.Quiet ∧ ∀ key thread, out ≠ .dataReq true key thread
  only : ∀ id call', .submit (some id) call' ∈ outs → id = callId ∧ call' = call
  handed : ∀ id, (handed id outs).length = if callId = id then 1 else 0

theorem submit_handsOver {call : SchedCall} (h : submit env now (some callId) call s = some s') :
    ∃ outs, s'.sent = s.sent ++ outs ∧ HandsOver callId call outs := by
  obtain ⟨outs, hsent, hneutral⟩ := (scheduleFuncCall_callFrame h).sent
  refine ⟨.submit (some callId) call :: outs, ?_, fun out hout => ?_, fun id call' hmem => ?_,
    fun id => ?_⟩
  · rw [hsent]
    simp [SchedState.emit]
  · rcases List.mem_cons.mp hout with rfl | hout
    · exact ⟨trivial, fun key thread h => by cases h⟩
    · refine ⟨(hneutral out hout).quiet, fun key thread h => ?_⟩
      rw [h] at hout
      cases hneutral _ hout
  · rcases List.mem_cons.mp hmem with heq | hmem
    · cases heq
      exact ⟨rfl, rfl⟩
    · cases hneutral _ hmem
  · have hrest := handed_of_neutral hneutral id
    unfold Scheduler.handed at hrest ⊢
    rw [List.flatMap_cons, hrest, List.append_nil]
    simp only [SchedOut.handed]
    split <;> rfl

theorem callRequest_arrived {sessionId : Session} {request : FunctionRequest}
    (hnonempty : ∀ key ids, s.keyCallIdMap key = some ids → ∃ callId, callId ∈ ids)
    (h : callRequest env now appName sessionId s request = some s') :
    ArrivedCall s s' (inflightArgsOf env sessionId request s).2 := by
  have hchecked := inflightArgsOf_checked env sessionId request hnonempty
  unfold callRequest at h
  simp only at h hchecked
  set result := inflightArgsOf env sessionId request s with hresult
  have hflag : (0 < argFlagOf request.arguments) = (0 < result.2.argFlag) := by
    rw [hresult]
    simp [inflightArgsOf]
  simp only [hflag] at hchecked
  obtain ⟨s₁, hs₁, rfl⟩ := Option.map_eq_some_iff.mp h
  by_cases hempty : result.2.inflightArgs = ∅
  · rw [if_pos hempty] at hs₁
    have hframe := scheduleFuncCall_callFrame hs₁
    obtain ⟨outs, hsent, hover⟩ := submit_handsOver hs₁
    have hid : result.1.callId = s.callId := hchecked.callId
    refine ⟨⟨result.1, hchecked, hframe.waiting, outs, ?_, hover.quiet, ?_, ?_⟩, ?_, ?_, ?_⟩
    · rw [hsent]
      simp [SchedState.emit]
    · intro id call hmem
      obtain ⟨rfl, rfl⟩ := hover.only id call hmem
      exact ⟨hid, hempty, appName, congrArg _ hchecked.keyLen⟩
    · intro callId
      rw [hover.handed]
      simp only [SchedState.emit, hid, hempty, and_true]
    · rw [if_pos hempty]
      exact hframe.inflight.trans hchecked.inflight
    · intro key size hkey
      refine hframe.keyLen key size ?_
      rw [← hkey]
      exact congrFun hchecked.keyLen key
    · exact congrArg (· + 1) (hframe.callId.trans hchecked.callId)
  · rw [if_neg hempty] at hs₁
    cases hs₁
    refine ⟨⟨result.1, hchecked, rfl, [], by simp [SchedState.emit], by simp, by simp, ?_⟩, ?_,
      ?_, ?_⟩
    · intro callId
      simp [hempty, handed]
    · rw [if_neg hempty]
      have hmap : result.1.callIdInflightArgsMap = s.callIdInflightArgsMap := hchecked.inflight
      have hid : result.1.callId = s.callId := hchecked.callId
      simp only [SchedState.emit, hmap, hid]
    · intro key size hkey
      rw [← hkey]
      exact congrFun hchecked.keyLen key
    · exact congrArg (· + 1) hchecked.callId

theorem ArrivedCall.ready (h : ArrivedCall s s' args) (hempty : args.inflightArgs = ∅) :
    Ready s.callId (args.readyCall appName s.keyLenMap) s' := by
  obtain ⟨s₁, hchecked, _⟩ := h.checked
  have hpresent : 0 < args.argFlag → ∀ key ∈ args.keyArgs, ∃ size, s.keyLenMap key = some size := by
    intro hflag key hkey
    cases hlen : s.keyLenMap key with
    | some size => exact ⟨size, rfl⟩
    | none =>
      have hmissing := (hchecked.missing key).mpr ⟨by rw [if_pos hflag]; exact hkey, hlen⟩
      simp [hempty] at hmissing
  refine ⟨args, appName, by rw [h.pending, if_pos rfl], hempty, ?_, fun hflag key hkey => ?_⟩
  · exact readyCall_congr appName hpresent h.keyLen
  · obtain ⟨size, hsize⟩ := hpresent hflag key hkey
    exact ⟨size, h.keyLen key size hsize⟩

theorem Marks.of_arrivedCall (h : Marks s₀ s) (hs : InflightInv s)
    (hcalls : callsMade s.sent < 2 ^ 32) (harrived : ArrivedCall s s' args) : Marks s₀ s' := by
  have hnew := hs.pending_callId hcalls
  obtain ⟨outs, hsent, hready, hreq⟩ := h.sent
  obtain ⟨s₁, hchecked, _, tail, hsent', htail, hsubmit, _⟩ := harrived.checked
  obtain ⟨reqs, hreqs, hmissing⟩ := hchecked.sent
  refine ⟨fun key size hkey => ?_, outs ++ (reqs ++ .arrived s.callId args :: tail), ?_,
    fun id call hmem => ?_, fun key thread hmem => ?_⟩
  · obtain ⟨size', hsize'⟩ := h.keyLen key size hkey
    exact ⟨size', harrived.keyLen key size' hsize'⟩
  · rw [hsent', hreqs, hsent]
    simp
  · rcases List.mem_append.mp hmem with hmem | hmem
    · have hold := hready id call hmem
      refine hold.of_keyLen ?_ harrived.keyLen
      rw [harrived.pending, if_neg]
      rintro rfl
      obtain ⟨_, _, hargs, _⟩ := hold
      rw [hnew] at hargs
      cases hargs
    · rcases List.mem_append.mp hmem with hmem | hmem
      · obtain ⟨key, thread, heq, _⟩ := hmissing _ hmem
        cases heq
      · rcases List.mem_cons.mp hmem with heq | hmem
        · cases heq
        · obtain ⟨rfl, hempty, appName, hcall⟩ := hsubmit id call hmem
          rw [hcall]
          exact harrived.ready hempty
  · rcases List.mem_append.mp hmem with hmem | hmem
    · exact hreq key thread hmem
    · rcases List.mem_append.mp hmem with hmem | hmem
      · obtain ⟨key', thread', heq, hlen, _⟩ := hmissing _ hmem
        cases heq
        cases hfound : s₀.keyLenMap key with
        | none => rfl
        | some size =>
          obtain ⟨size', hsize'⟩ := h.keyLen key size hfound
          rw [hlen] at hsize'
          cases hsize'
      · rcases List.mem_cons.mp hmem with heq | hmem
        · cases heq
        · exact absurd rfl ((htail _ hmem).2 key thread)

end Pheromone.Scheduler
