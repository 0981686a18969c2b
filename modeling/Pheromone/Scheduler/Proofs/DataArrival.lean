import Pheromone.Scheduler.Proofs.InflightArgs

/-!
# Objects arrive for waiting calls

A data response wakes the calls that wait for its key one after the other.
Between two of them the trace says that none waits for the key any more, while
the entries of the calls still to be visited list it.
-/

namespace Pheromone.Scheduler

open Lib Common

variable {s s' s₀ : SchedState} {key : Bytes} {rest : List UInt32} {args : InflightFuncArgs}
  {env : SchedEnv} {id : UInt32} {now : Stamp}

theorem InflightInv.pending_of_entry (hs : InflightInv s) {callId : UInt32}
    (h : s.callIdInflightArgsMap callId = some args) :
    pending callId s.sent = some args ∧ args.inflightArgs ≠ ∅ := by
  rw [hs.entry, Option.filter_eq_some_iff] at h
  exact ⟨h.1, by simpa using h.2⟩

theorem InflightInv.entry_of_pending (hs : InflightInv s) {callId : UInt32}
    (h : pending callId s.sent = some args) (hne : args.inflightArgs ≠ ∅) :
    s.callIdInflightArgsMap callId = some args := by
  rw [hs.entry, h, Option.filter_some, if_pos]
  simpa using hne

structure Resumed (s₀ : SchedState) (key : Bytes) (rest : List UInt32) (s : SchedState) :
    Prop where
  waiting : s.keyCallIdMap = s₀.keyCallIdMap
  callId : s.callId = s₀.callId
  keyLen : ∀ k, (∃ size, s₀.keyLenMap k = some size) ∨ k = key → ∃ size, s.keyLenMap k = some size
  sent : ∃ outs, s.sent = s₀.sent ++ .dataArrived key :: outs ∧
    (∀ out ∈ outs, out.Quiet ∧ ∀ key thread, out ≠ .dataReq true key thread) ∧
    ∀ id call, .submit (some id) call ∈ outs → Ready id call s
  entry : ∀ id, s.callIdInflightArgsMap id =
    if id ∈ rest then s₀.callIdInflightArgsMap id
    else (pending id s.sent).filter fun args => decide (args.inflightArgs ≠ ∅)
  handed : ∀ id, (handed id s.sent).length =
    if id ∈ rest then 0
    else if (pending id s.sent).any (fun args => decide (args.inflightArgs = ∅)) then 1 else 0

theorem Resumed.pending (h : Resumed s₀ key rest s) (id : UInt32) :
    Scheduler.pending id s.sent = (Scheduler.pending id s₀.sent).map fun args =>
      { args with inflightArgs := args.inflightArgs.erase key } := by
  obtain ⟨outs, hsent, houts, _⟩ := h.sent
  have hsplit : s.sent = (s₀.sent ++ [.dataArrived key]) ++ outs := by
    rw [hsent]
    simp
  rw [hsplit, pending_append_quiet fun out hout => (houts out hout).1, pending_append]
  rfl

theorem Resumed.arrivals (h : Resumed s₀ key rest s) :
    Scheduler.arrivals s.sent = Scheduler.arrivals s₀.sent := by
  obtain ⟨outs, hsent, houts, _⟩ := h.sent
  have hnone := arrivals_of_quiet fun out hout => (houts out hout).1
  rw [hsent, arrivals_append, ← List.singleton_append, arrivals_append, hnone]
  simp [Scheduler.arrivals, SchedOut.arrival]

theorem resumed_start (hs : InflightInv s₀) (key : Bytes) (size : Nat) (rest : List UInt32)
    (hrest : ∀ id, id ∈ rest ↔ ∃ ids, s₀.keyCallIdMap key = some ids ∧ id ∈ ids) :
    Resumed s₀ key rest
      (({ s₀ with keyLenMap := s₀.keyLenMap.set key size }).emit (.dataArrived key)) := by
  have hpending : ∀ id, pending id (s₀.sent ++ [.dataArrived key]) =
      (pending id s₀.sent).map fun args =>
        { args with inflightArgs := args.inflightArgs.erase key } := by
    intro id
    rw [pending_append]
    rfl
  have hout : ∀ id args, id ∉ rest → pending id s₀.sent = some args → key ∉ args.inflightArgs := by
    intro id args hid hargs hkey
    refine hid ((hrest id).mpr ((hs.index id key).mpr ⟨args, ?_, hkey⟩))
    exact hs.entry_of_pending hargs (Finset.ne_empty_of_mem hkey)
  refine ⟨rfl, rfl, fun k hk => ?_, ⟨[], rfl, by simp, by simp⟩, fun id => ?_, fun id => ?_⟩
  · change ∃ size', s₀.keyLenMap.set key size k = some size'
    by_cases hkey : k = key
    · exact ⟨size, by rw [hkey, Map.set_self]⟩
    · rw [Map.set_of_ne _ _ hkey]
      exact hk.resolve_right hkey
  · by_cases hid : id ∈ rest
    · rw [if_pos hid]
      rfl
    · rw [if_neg hid]
      change s₀.callIdInflightArgsMap id =
        (pending id (s₀.sent ++ [.dataArrived key])).filter _
      rw [hpending, hs.entry]
      cases hargs : pending id s₀.sent with
      | none => rfl
      | some args =>
        have hkey := hout id args hid hargs
        simp [Finset.erase_eq_of_notMem hkey]
  · change (handed id (s₀.sent ++ [.dataArrived key])).length = if id ∈ rest then 0
      else if (pending id (s₀.sent ++ [.dataArrived key])).any _ then 1 else 0
    have hsame : handed id (s₀.sent ++ [.dataArrived key]) = handed id s₀.sent := by
      rw [handed_append]
      exact List.append_nil _
    rw [hsame, hpending, hs.handed]
    by_cases hid : id ∈ rest
    · obtain ⟨args, hentry, hkey⟩ := (hs.index id key).mp ((hrest id).mp hid)
      obtain ⟨hargs, hne⟩ := hs.pending_of_entry hentry
      simp [hid, hargs, hne]
    · cases hargs : pending id s₀.sent with
      | none => simp [hid]
      | some args =>
        have hkey := hout id args hid hargs
        simp [hid, Finset.erase_eq_of_notMem hkey]

theorem Resumed.sent_append {outs : List SchedOut} (h : Resumed s₀ key rest s)
    (hsent : s'.sent = s.sent ++ outs)
    (hkeyLen : ∀ k size, s.keyLenMap k = some size → s'.keyLenMap k = some size)
    (houts : ∀ out ∈ outs, out.Quiet ∧ ∀ key thread, out ≠ .dataReq true key thread)
    (hready : ∀ id call, .submit (some id) call ∈ outs → Ready id call s') :
    ∃ outs', s'.sent = s₀.sent ++ .dataArrived key :: outs' ∧
      (∀ out ∈ outs', out.Quiet ∧ ∀ key thread, out ≠ .dataReq true key thread) ∧
      ∀ id call, .submit (some id) call ∈ outs' → Ready id call s' := by
  obtain ⟨old, hold, hquiet, holdReady⟩ := h.sent
  refine ⟨old ++ outs, by rw [hsent, hold]; simp, fun out hout => ?_, fun id call hmem => ?_⟩
  · rcases List.mem_append.mp hout with hout | hout
    · exact hquiet out hout
    · exact houts out hout
  · rcases List.mem_append.mp hmem with hmem | hmem
    · refine (holdReady id call hmem).of_keyLen ?_ hkeyLen
      rw [hsent, pending_append_quiet fun out hout => (houts out hout).1]
    · exact hready id call hmem

theorem resumed_submit {s₁ : SchedState} {appName : Name} (hs : InflightInv s₀)
    (h : Resumed s₀ key (id :: rest) s) (hid : id ∉ rest) (hargs : pending id s₀.sent = some args)
    (hempty : args.inflightArgs.erase key = ∅) (hs₁ : submit env now (some id)
      (({ args with inflightArgs := args.inflightArgs.erase key } : InflightFuncArgs).readyCall
        appName s.keyLenMap) s = some s₁) :
    Resumed s₀ key rest
      { s₁ with callIdInflightArgsMap := s₁.callIdInflightArgsMap.erase id } := by
  set args' : InflightFuncArgs := { args with inflightArgs := args.inflightArgs.erase key }
  have hframe := scheduleFuncCall_callFrame hs₁
  obtain ⟨outs, hsent, hover⟩ := submit_handsOver hs₁
  have hpending : ∀ j, pending j s₁.sent = pending j s.sent := by
    intro j
    rw [hsent, pending_append_quiet fun out hout => (hover.quiet out hout).1]
  have hown : pending id s.sent = some args' := by
    rw [h.pending, hargs]
    rfl
  have hpresent : 0 < args'.argFlag → ∀ k ∈ args'.keyArgs, ∃ size, s.keyLenMap k = some size := by
    intro hflag k hk
    apply h.keyLen
    rcases hs.present id args hargs hflag k hk with hin | hsize
    · -- nothing is left without the object, so this key is the object's
      by_contra hne
      have hleft : k ∈ args.inflightArgs.erase key := by
        rw [Finset.mem_erase]
        exact ⟨fun hkey => hne (Or.inr hkey), hin⟩
      rw [hempty] at hleft
      simp at hleft
    · exact Or.inl hsize
  refine ⟨hframe.waiting.trans h.waiting, hframe.callId.trans h.callId, fun k hk => ?_,
    h.sent_append hsent hframe.keyLen hover.quiet fun j call hmem => ?_, fun j => ?_, fun j => ?_⟩
  · obtain ⟨size, hsize⟩ := h.keyLen k hk
    exact ⟨size, hframe.keyLen k size hsize⟩
  · obtain ⟨rfl, rfl⟩ := hover.only j call hmem
    refine ⟨args', appName, (hpending j).trans hown, hempty,
      readyCall_congr appName hpresent hframe.keyLen, fun hflag k hk => ?_⟩
    obtain ⟨size, hsize⟩ := hpresent hflag k hk
    exact ⟨size, hframe.keyLen k size hsize⟩
  · change s₁.callIdInflightArgsMap.erase id j =
      if j ∈ rest then _ else (pending j s₁.sent).filter _
    rw [hpending]
    by_cases hj : j = id
    · subst hj
      rw [Map.erase_self, if_neg hid, hown, Option.filter_some]
      simp [args', hempty]
    · rw [Map.erase_of_ne _ hj, hframe.inflight]
      have hentry := h.entry j
      simp only [List.mem_cons, hj, false_or] at hentry
      exact hentry
  · change (handed j s₁.sent).length = if j ∈ rest then 0
      else if (pending j s₁.sent).any _ then 1 else 0
    rw [hpending, hsent, handed_append, List.length_append, hover.handed, h.handed]
    by_cases hj : j = id
    · subst hj
      simp [hid, hown, args', hempty]
    · simp [hj, Ne.symm hj]

theorem resumed_wait (h : Resumed s₀ key (id :: rest) s) (hid : id ∉ rest)
    (hargs : pending id s₀.sent = some args) (hne : args.inflightArgs.erase key ≠ ∅) :
    Resumed s₀ key rest
      { s with
        callIdInflightArgsMap := s.callIdInflightArgsMap.set id
          { args with inflightArgs := args.inflightArgs.erase key } } := by
  have hown := h.pending id
  rw [hargs] at hown
  refine ⟨h.waiting, h.callId, h.keyLen, h.sent, fun j => ?_, fun j => ?_⟩
  · change s.callIdInflightArgsMap.set id _ j = if j ∈ rest then _ else (pending j s.sent).filter _
    by_cases hj : j = id
    · subst hj
      rw [Map.set_self, if_neg hid, hown, Option.map_some, Option.filter_some]
      simp [hne]
    · rw [Map.set_of_ne _ _ hj]
      have hentry := h.entry j
      simp only [List.mem_cons, hj, false_or] at hentry
      exact hentry
  · change (handed j s.sent).length = if j ∈ rest then 0
      else if (pending j s.sent).any _ then 1 else 0
    rw [h.handed]
    by_cases hj : j = id
    · subst hj
      rw [if_pos List.mem_cons_self, if_neg hid, hown]
      simp [hne]
    · simp [hj]

theorem resumeCall_resumed (hs : InflightInv s₀) (h : Resumed s₀ key (id :: rest) s)
    (hid : id ∉ rest) (hwait : ∃ ids, s₀.keyCallIdMap key = some ids ∧ id ∈ ids)
    (hstep : resumeCall env now key s id = some s') : Resumed s₀ key rest s' := by
  obtain ⟨args, hentry, _⟩ := (hs.index id key).mp hwait
  obtain ⟨hargs, _⟩ := hs.pending_of_entry hentry
  have hfound : s.callIdInflightArgsMap id = some args := by
    rw [h.entry, if_pos List.mem_cons_self, hentry]
  unfold resumeCall at hstep
  simp only [Map.getD_of_some _ hfound] at hstep
  split at hstep
  next hempty =>
    obtain ⟨s₁, hs₁, rfl⟩ := Option.map_eq_some_iff.mp hstep
    exact resumed_submit hs h hid hargs hempty hs₁
  next hne =>
    cases hstep
    exact resumed_wait h hid hargs hne

theorem foldlM_resumeCall (hs : InflightInv s₀) (rest : List UInt32) :
    ∀ {s s'}, rest.Nodup → (∀ id ∈ rest, ∃ ids, s₀.keyCallIdMap key = some ids ∧ id ∈ ids) →
      Resumed s₀ key rest s → rest.foldlM (resumeCall env now key) s = some s' →
      Resumed s₀ key [] s' := by
  induction rest with
  | nil =>
    intro s s' _ _ h hfold
    cases hfold
    exact h
  | cons id rest ih =>
    intro s s' hnodup hwait h hfold
    obtain ⟨s₁, hs₁, hfold⟩ := foldlM_cons_eq_some.mp hfold
    rw [List.nodup_cons] at hnodup
    have hstep := resumeCall_resumed hs h hnodup.1 (hwait id List.mem_cons_self) hs₁
    exact ih hnodup.2 (fun j hj => hwait j (List.mem_cons_of_mem _ hj)) hstep hfold

theorem Resumed.ne_of_waits (h : Resumed s₀ key [] s) {k : Bytes}
    (hargs : s.callIdInflightArgsMap id = some args) (hk : k ∈ args.inflightArgs) : k ≠ key := by
  have hpending := h.entry id
  rw [if_neg List.not_mem_nil, hargs, h.pending] at hpending
  obtain ⟨hmap, _⟩ := Option.filter_eq_some_iff.mp hpending.symm
  obtain ⟨old, _, rfl⟩ := Option.map_eq_some_iff.mp hmap
  exact (Finset.mem_erase.mp hk).1

theorem Resumed.waits_iff (h : Resumed s₀ key [] s) (hs : InflightInv s₀) (id : UInt32) {k : Bytes}
    (hk : k ≠ key) :
    (∃ args, s.callIdInflightArgsMap id = some args ∧ k ∈ args.inflightArgs) ↔
      ∃ args, s₀.callIdInflightArgsMap id = some args ∧ k ∈ args.inflightArgs := by
  rw [h.entry, if_neg List.not_mem_nil, h.pending, hs.entry]
  cases Scheduler.pending id s₀.sent with
  | none => simp
  | some args =>
    simp only [Option.map_some, Option.filter_eq_some_iff, Option.some.injEq]
    constructor
    · rintro ⟨_, ⟨rfl, _⟩, hmem⟩
      have hmem' := (Finset.mem_erase.mp hmem).2
      exact ⟨args, ⟨rfl, by simpa using Finset.ne_empty_of_mem hmem'⟩, hmem'⟩
    · rintro ⟨_, ⟨rfl, _⟩, hmem⟩
      have hmem' := Finset.mem_erase.mpr ⟨hk, hmem⟩
      exact ⟨_, ⟨rfl, by simpa using Finset.ne_empty_of_mem hmem'⟩, hmem'⟩

theorem InflightInv.of_resumed (hs : InflightInv s₀) (h : Resumed s₀ key [] s) :
    InflightInv { s with keyCallIdMap := s.keyCallIdMap.erase key } where
  entry := by
    intro id
    have hmap := h.entry id
    rw [if_neg List.not_mem_nil] at hmap
    exact hmap
  index := by
    intro id k
    change (∃ ids, s.keyCallIdMap.erase key k = some ids ∧ id ∈ ids) ↔ _
    by_cases hk : k = key
    · subst hk
      rw [Map.erase_self]
      constructor
      · rintro ⟨_, hnone, _⟩
        cases hnone
      · rintro ⟨args, hargs, hmem⟩
        exact absurd rfl (h.ne_of_waits hargs hmem)
    · rw [Map.erase_of_ne _ hk, h.waiting, hs.index]
      exact (h.waits_iff hs id hk).symm
  nonempty := by
    intro k ids hids
    change s.keyCallIdMap.erase key k = some ids at hids
    by_cases hk : k = key
    · rw [hk, Map.erase_self] at hids
      cases hids
    · rw [Map.erase_of_ne _ hk, h.waiting] at hids
      exact hs.nonempty k ids hids
  handed := by
    intro id
    have hcount := h.handed id
    rw [if_neg List.not_mem_nil] at hcount
    exact hcount
  present := by
    intro id args hargs hflag k hk
    rw [h.pending, Option.map_eq_some_iff] at hargs
    obtain ⟨old, hold, rfl⟩ := hargs
    by_cases hkey : k = key
    · exact Or.inr (h.keyLen k (Or.inr hkey))
    · rcases hs.present id old hold hflag k hk with hin | hsize
      · exact Or.inl (Finset.mem_erase.mpr ⟨hkey, hin⟩)
      · exact Or.inr (h.keyLen k (Or.inl hsize))
  fresh := by
    obtain ⟨outs, hsent, -⟩ := h.sent
    obtain ⟨n, hn, hle, hlt⟩ := hs.fresh
    refine ⟨n, h.callId.trans hn, ?_, fun id args hargs => ?_⟩
    · change n ≤ callsMade s.sent
      rw [hsent, callsMade_append]
      omega
    · rw [h.pending, Option.map_eq_some_iff] at hargs
      obtain ⟨old, hold, _⟩ := hargs
      exact hlt id old hold
  requests := by
    obtain ⟨outs, hsent, houts, _⟩ := h.sent
    change RequestsOnce s.sent
    rw [hsent]
    apply requestsOnce_append hs.requests
    intro before k thread after heq
    have hmem : SchedOut.dataReq true k thread ∈ SchedOut.dataArrived key :: outs := by
      rw [heq]
      simp
    rcases List.mem_cons.mp hmem with hbad | hmem
    · cases hbad
    · exact absurd rfl ((houts _ hmem).2 k thread)
  distinct := by
    change ((arrivals s.sent).map Prod.fst).Nodup
    rw [h.arrivals]
    exact hs.distinct

theorem Resumed.marks (h : Resumed s₀ key rest s) : Marks s₀ s := by
  obtain ⟨outs, hsent, houts, hready⟩ := h.sent
  refine ⟨fun k size hk => h.keyLen k (Or.inl ⟨size, hk⟩), _, hsent, fun id call hmem => ?_,
    fun k thread hmem => ?_⟩
  · rcases List.mem_cons.mp hmem with hbad | hmem
    · cases hbad
    · exact hready id call hmem
  · rcases List.mem_cons.mp hmem with hbad | hmem
    · cases hbad
    · exact absurd rfl ((houts _ hmem).2 k thread)

theorem Resumed.of_callFrame (h : Resumed s₀ key rest s) (hframe : CallFrame s s') :
    Resumed s₀ key rest s' := by
  obtain ⟨outs, hsent, hneutral⟩ := hframe.sent
  have hpending : ∀ id, Scheduler.pending id s'.sent = Scheduler.pending id s.sent := by
    intro id
    rw [hsent, pending_append_quiet fun out hout => (hneutral out hout).quiet]
  refine ⟨hframe.waiting.trans h.waiting, hframe.callId.trans h.callId, fun k hk => ?_,
    h.sent_append hsent hframe.keyLen (fun out hout => ?_) fun id call hmem => ?_, fun id => ?_,
    fun id => ?_⟩
  · obtain ⟨size, hsize⟩ := h.keyLen k hk
    exact ⟨size, hframe.keyLen k size hsize⟩
  · refine ⟨(hneutral out hout).quiet, fun k thread heq => ?_⟩
    rw [heq] at hout
    cases hneutral _ hout
  · cases hneutral _ hmem
  · rw [hframe.inflight, hpending]
    exact h.entry id
  · rw [hpending, hsent, handed_append, handed_of_neutral hneutral, List.append_nil]
    exact h.handed id

theorem dataResp_inflight {size : UInt32} (hs : InflightInv s)
    (h : dataResp env now key size s = some s') :
    InflightInv s' ∧ Marks s s' ∧ arrivals s'.sent = arrivals s.sent := by
  have hstart : ∀ rest : List UInt32,
      (∀ id, id ∈ rest ↔ ∃ ids, s.keyCallIdMap key = some ids ∧ id ∈ ids) →
      Resumed s key rest (answerGets key [size.toUInt8] (s.receive key size)) :=
    fun rest hrest => (resumed_start hs key size.toNat rest hrest).of_callFrame
      (answerGets_callFrame ..)
  have hwaiting := (answerGets_callFrame key [size.toUInt8] (s.receive key size)).waiting
  change _ = s.keyCallIdMap at hwaiting
  unfold dataResp at h
  simp only [hwaiting] at h
  cases hfound : s.keyCallIdMap key with
  | none =>
    simp only [hfound, Option.pure_def, Option.some.injEq] at h
    have hresumed := hstart [] (by simp [hfound])
    rw [h] at hresumed
    have hsame : s'.keyCallIdMap.erase key = s'.keyCallIdMap := by
      funext k
      by_cases hk : k = key
      · rw [hk, Map.erase_self, hresumed.waiting, hfound]
      · rw [Map.erase_of_ne _ hk]
    have hinv := hs.of_resumed hresumed
    rw [hsame] at hinv
    exact ⟨hinv, hresumed.marks, hresumed.arrivals⟩
  | some ids =>
    simp only [hfound] at h
    obtain ⟨s₁, hs₁, rfl⟩ := Option.map_eq_some_iff.mp h
    have hrest : ∀ id, id ∈ ids.elems ↔ ∃ ids, s.keyCallIdMap key = some ids ∧ id ∈ ids := by
      intro id
      simp [hfound]
    have hresumed := foldlM_resumeCall hs ids.elems ids.nodup
      (fun id hid => (hrest id).mp hid) (hstart ids.elems hrest) hs₁
    have hmarks := hresumed.marks
    exact ⟨hs.of_resumed hresumed, ⟨hmarks.keyLen, hmarks.sent⟩, hresumed.arrivals⟩

/-! ## The other steps -/

theorem InflightInv.of_localFrame (hs : InflightInv s) (h : LocalFrame s s') : InflightInv s' := by
  obtain ⟨m, values, hm, n, s₁, hframe, hcount, rfl⟩ := h
  have hstored : InflightInv { s with keyLenMap := m, keyValMap := values } :=
    { hs with
      present := fun id args hargs hflag key hkey =>
        (hs.present id args hargs hflag key hkey).imp_right (hm key) }
  have hs₁ := hstored.of_callFrame hframe
  obtain ⟨k, hk, hle, hlt⟩ := hs.fresh
  change callsMade s.sent + n ≤ callsMade s₁.sent at hcount
  have hbound : k + n ≤ callsMade s₁.sent := by omega
  refine { hs₁ with fresh := ⟨k + n, ?_, hbound, fun id args hargs => ?_⟩ }
  · rw [hframe.callId, hk, UInt32.ofNat_add]
  · obtain ⟨outs, hsent, hneutral⟩ := hframe.sent
    rw [hsent, pending_append_quiet fun out hout => (hneutral out hout).quiet] at hargs
    have hold := hlt id args hargs
    omega

theorem Marks.refl (s : SchedState) : Marks s s :=
  ⟨fun _ size h => ⟨size, h⟩, [], by simp, by simp, by simp⟩

theorem Marks.of_localFrame (h : LocalFrame s s') : Marks s s' := by
  obtain ⟨m, values, hm, n, s₁, hframe, _, rfl⟩ := h
  have hstored : Marks s { s with keyLenMap := m, keyValMap := values } :=
    ⟨fun key size hkey => hm key ⟨size, hkey⟩, [], by simp, by simp, by simp⟩
  have hmarks := hstored.of_callFrame hframe
  exact ⟨hmarks.keyLen, hmarks.sent⟩

theorem LocalFrame.arrivals (h : LocalFrame s s') :
    Scheduler.arrivals s'.sent = Scheduler.arrivals s.sent := by
  obtain ⟨m, values, _, n, s₁, hframe, _, rfl⟩ := h
  obtain ⟨outs, hsent, hneutral⟩ := hframe.sent
  change Scheduler.arrivals s₁.sent = _
  rw [hsent, arrivals_append, arrivals_of_quiet fun out hout => (hneutral out hout).quiet,
    List.append_nil]

end Pheromone.Scheduler
