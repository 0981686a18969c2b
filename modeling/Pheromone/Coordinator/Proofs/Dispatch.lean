import Pheromone.Coordinator.Proofs.BatchSchedule
import Pheromone.Coordinator.Proofs.DataAddresses
import Pheromone.Coordinator.Proofs.Ownership

/-!
# Where data-driven calls go

`notify_handler` sends the call of an action to a node with a free executor, if
possible one that has the data, and counts the executor as taken.
-/

namespace Pheromone.Coordinator

open Lib Common

variable {Q : TriggerAction → FunctionCall → Prop} {acc acc' : CoordState × List CoordOut}
  {action : TriggerAction} {activeTriggers : List Name} {argFlag : Int} {best : BestNode}
  {bucket : Bucket} {e : CoordEvent} {nodes : UMap Address NodeStatus} {outs' : List CoordOut}

variable {c c' : CoordState} {outs : List CoordOut} {randR : RandR} {bk : BucketKey}
  {data : List Address} {ip respAddress : Address} {now : TimePoint} {avail : Address → Int}
  {io : Nat} {trigger : Trigger}

/-! ## Choosing a node -/

def CoordState.availOf (c : CoordState) (ip : Address) : Int :=
  (c.nodeStatusMap.getD ip {}).availExecutors

/-- `ip` has the most free executors of the nodes `data` if one of these has any, and
of all nodes otherwise. -/
structure BestFor (avail : Address → Int) (data : List Address) (ip : Address) : Prop where
  free : 0 < avail ip
  ofData : (∃ x ∈ data, 0 < avail x) → ip ∈ data ∧ ∀ x ∈ data, avail x ≤ avail ip
  ofAll : (∀ x ∈ data, avail x ≤ 0) → ∀ x, avail x ≤ avail ip

theorem BestFor.congr {data' : List Address} (h : BestFor avail data ip)
    (hdata : ∀ x, x ∈ data' ↔ x ∈ data) : BestFor avail data' ip := by
  refine ⟨h.free, ?_, ?_⟩
  · simpa only [hdata] using h.ofData
  · simpa only [hdata] using h.ofAll

/-- What the two searches make of `avail`.  An empty name stands for no node, so the
name of a node with free executors must not be empty. -/
structure RoutedBy (avail : Address → Int) (data : List Address) (node : Address) : Prop where
  free : node ≠ [] → 0 < avail node
  best : avail [] ≤ 0 → node ≠ [] → BestFor avail data node
  full : avail [] ≤ 0 → node = [] → ∀ x, avail x ≤ 0

/-- A search over the nodes `ips` that began with `best` ended with `best'`. -/
structure Searched (avail : Address → Int) (ips : List Address) (best best' : BestNode) :
    Prop where
  more : best.maxExecutors ≤ best'.maxExecutors
  all : ∀ ip ∈ ips, avail ip ≤ best'.maxExecutors
  found : best' = best ∨ best'.node ∈ ips ∧ avail best'.node = best'.maxExecutors ∧
    best.maxExecutors < best'.maxExecutors

theorem searched_visits (avail : Address → Int) (ips : List Address) (best : BestNode) :
    Searched avail ips best (ips.foldl (fun best ip => best.visit ip (avail ip)) best) := by
  induction ips generalizing best with
  | nil => exact ⟨le_refl _, fun _ hip => absurd hip List.not_mem_nil, .inl rfl⟩
  | cons ip ips ih =>
    obtain ⟨hmore, hall, hfound⟩ := ih (best.visit ip (avail ip))
    rw [List.foldl_cons]
    unfold BestNode.visit at hmore hall hfound ⊢
    by_cases hlt : best.maxExecutors < avail ip
    · simp only [if_pos hlt] at hmore hall hfound ⊢
      refine ⟨hlt.le.trans hmore, List.forall_mem_cons.mpr ⟨hmore, hall⟩, .inr ?_⟩
      rcases hfound with hsame | ⟨hmem, havail, hmore'⟩
      · rw [hsame]
        exact ⟨List.mem_cons_self, rfl, hlt⟩
      · exact ⟨List.mem_cons_of_mem _ hmem, havail, hlt.trans hmore'⟩
    · simp only [if_neg hlt] at hmore hall hfound ⊢
      refine ⟨hmore, List.forall_mem_cons.mpr ⟨(not_lt.mp hlt).trans hmore, hall⟩, ?_⟩
      exact hfound.imp_right fun h => ⟨List.mem_cons_of_mem _ h.1, h.2⟩

theorem Searched.routedBy_data (h : Searched avail data {} best) (hnode : best.node ≠ []) :
    RoutedBy avail data best.node := by
  obtain ⟨hmem, havail, hlt⟩ := h.found.resolve_left fun hnone => hnode (by rw [hnone])
  have hfree : 0 < avail best.node := havail ▸ hlt
  refine ⟨fun _ => hfree, fun _ _ => ⟨hfree, fun _ => ⟨hmem, fun ip hip => ?_⟩, fun hnone => ?_⟩,
    fun _ hnone => absurd hnone hnode⟩
  · rw [havail]
    exact h.all ip hip
  · exact absurd (hnone _ hmem) (not_le.mpr hfree)

theorem Searched.routedBy_all {ips : List Address} {result : BestNode}
    (hdata : Searched avail data {} best) (hnode : best.node = [])
    (hall : Searched avail ips best result) (hrest : ∀ ip ∉ ips, avail ip ≤ 0) :
    RoutedBy avail data result.node := by
  have hpos : 0 ≤ best.maxExecutors := hdata.more
  have hmost : ∀ ip, avail ip ≤ result.maxExecutors := by
    intro ip
    by_cases hip : ip ∈ ips
    · exact hall.all ip hip
    · exact (hrest ip hip).trans (hpos.trans hall.more)
  have hzero : avail [] ≤ 0 → best.maxExecutors = 0 := by
    intro hempty
    rcases hdata.found with hnone | ⟨-, havail, -⟩
    · rw [hnone]
    · rw [hnode] at havail
      omega
  rcases hall.found with hsame | ⟨-, havail, hlt⟩
  · rw [hsame] at hmost ⊢
    refine ⟨fun hne => absurd hnode hne, fun _ hne => absurd hnode hne, fun hempty _ ip => ?_⟩
    exact (hmost ip).trans_eq (hzero hempty)
  · have hfree : 0 < avail result.node := by omega
    refine ⟨fun _ => hfree, fun hempty _ => ⟨hfree, ?_, fun _ ip => ?_⟩, fun hempty hnone => ?_⟩
    · rintro ⟨ip, hip, hfreeIp⟩
      have hle := hdata.all ip hip
      have h0 := hzero hempty
      omega
    · rw [havail]
      exact hmost ip
    · rw [hnone] at hfree
      omega

theorem visitDataNode_foldl (ips : List Address) (nodes : UMap Address NodeStatus)
    (best : BestNode) :
    (∀ ip, ((ips.foldl visitDataNode (nodes, best)).1.getD ip {}) = nodes.getD ip {}) ∧
      (ips.foldl visitDataNode (nodes, best)).2 =
        ips.foldl (fun best ip => best.visit ip (nodes.getD ip {}).availExecutors) best := by
  induction ips generalizing nodes best with
  | nil => exact ⟨fun _ => rfl, rfl⟩
  | cons ip ips ih =>
    obtain ⟨hnodes, hbest⟩ := ih (nodes.touch ip {})
      (best.visit ip (nodes.getD ip {}).availExecutors)
    simp only [UMap.getD_touch] at hnodes hbest
    exact ⟨hnodes, hbest⟩

theorem routeAction_getD (nodes : UMap Address NodeStatus) (dataNode : USet Address)
    (ip : Address) : (routeAction nodes dataNode).1.getD ip {} = nodes.getD ip {} := by
  unfold routeAction
  simp only
  split
  · exact (visitDataNode_foldl dataNode.elems nodes {}).1 ip
  · exact (visitDataNode_foldl dataNode.elems nodes {}).1 ip

theorem visitAll_foldl (nodes : UMap Address NodeStatus) (best : BestNode) :
    nodes.entries.foldl (fun best entry => best.visit entry.1 entry.2.availExecutors) best =
      nodes.keys.foldl (fun best ip => best.visit ip (nodes.getD ip {}).availExecutors) best := by
  unfold UMap.keys
  rw [List.foldl_map]
  refine List.foldl_ext _ _ best fun best entry hentry => ?_
  rw [UMap.getD_of_mem {} hentry]

theorem routeAction_routedBy (nodes : UMap Address NodeStatus) (dataNode : USet Address) :
    RoutedBy (fun ip => (nodes.getD ip {}).availExecutors) dataNode.elems
      (routeAction nodes dataNode).2 := by
  obtain ⟨hnodes, hbest⟩ := visitDataNode_foldl dataNode.elems nodes {}
  have hdata := searched_visits (fun ip => (nodes.getD ip {}).availExecutors) dataNode.elems {}
  rw [← hbest] at hdata
  unfold routeAction
  simp only
  generalize dataNode.elems.foldl visitDataNode (nodes, {}) = data at hnodes hdata
  by_cases hnode : data.2.node = []
  · rw [if_pos hnode]
    have hall := searched_visits (fun ip => (data.1.getD ip {}).availExecutors) data.1.keys data.2
    rw [← visitAll_foldl] at hall
    simp only [hnodes] at hall
    refine hdata.routedBy_all hnode hall fun ip hip => ?_
    -- a node without an entry has no executors
    rw [← hnodes ip]
    unfold UMap.getD
    rw [UMap.find?_eq_none_iff.mpr hip]
    exact le_refl _
  · rw [if_neg hnode]
    exact hdata.routedBy_data hnode

/-! ## Addresses and counts -/

theorem getFuncExecAddress_inj {ip' : Address} {io' : Nat}
    (h : getFuncExecAddress ip io = getFuncExecAddress ip' io') : ip = ip' := by
  have hcolon : Bytes.lit ":" = [58] := by decide
  have hdigits : ∀ n, (58 : UInt8) ∉ (Bytes.toDecimal n).reverse := by
    intro n hmem
    exact absurd (Bytes.isDigit_of_mem_toDecimal (List.mem_reverse.mp hmem)) (by decide)
  unfold getFuncExecAddress tcpAddress at h
  rw [hcolon] at h
  -- the port has no colon, so the last colon is the one before it
  have hreverse := congrArg List.reverse h
  simp only [List.reverse_append, List.reverse_singleton, List.append_assoc] at hreverse
  have hrest := (Bytes.append_delim_inj (hdigits _) (hdigits _) hreverse).2
  exact List.reverse_injective (List.append_cancel_right hrest)

def callsTo (ioThreadNum : Nat) (ip : Address) (outs : List CoordOut) : Nat :=
  outs.countP fun out =>
    match out with
    | .call address _ => decide (∃ io < ioThreadNum, address = getFuncExecAddress ip io)
    | _ => false

def callCount (outs : List CoordOut) : Nat :=
  outs.countP fun out =>
    match out with
    | .call _ _ => true
    | _ => false

theorem callsTo_append (n : Nat) (ip : Address) (outs outs' : List CoordOut) :
    callsTo n ip (outs ++ outs') = callsTo n ip outs + callsTo n ip outs' :=
  List.countP_append

theorem callCount_append (outs outs' : List CoordOut) :
    callCount (outs ++ outs') = callCount outs + callCount outs' :=
  List.countP_append

theorem callsTo_call {n : Nat} (ip ip' : Address) (hio : io < n) (call : FunctionCall) :
    callsTo n ip [.call (getFuncExecAddress ip' io) call] = if ip = ip' then 1 else 0 := by
  unfold callsTo
  by_cases h : ip = ip'
  · subst h
    rw [if_pos rfl, List.countP_singleton, if_pos]
    exact decide_eq_true ⟨io, hio, rfl⟩
  · rw [if_neg h, List.countP_singleton, if_neg]
    intro hsent
    obtain ⟨io', -, heq⟩ := of_decide_eq_true hsent
    exact h (getFuncExecAddress_inj heq).symm

/-- The free executors of a node once `outs` were sent. -/
def CoordState.availAfter (c : CoordState) (outs : List CoordOut) (ip : Address) : Int :=
  c.availOf ip - callsTo c.ioThreadNum ip outs

def CoordState.freeExecutors (c : CoordState) : Nat :=
  c.nodeStatusMap.weight fun status => status.availExecutors.toNat

def dataNodes (call : FunctionCall) : List Address :=
  (call.requests.flatMap FunctionRequest.arguments).filterMap fun arg =>
    ipOfAddress arg.dataAddress

def Starts (action : TriggerAction) (call : FunctionCall) : Prop :=
  call.requests.map FunctionRequest.name = [action.function]

def unstarted : List CoordOut → Nat
  | [] => 0
  | .fired _ _ :: rest =>
      (match rest.head? with
        | some (.call _ _) => 0
        | _ => 1) + unstarted rest
  | _ :: rest => unstarted rest

structure Dispatched (c c' : CoordState) (outs : List CoordOut) : Prop where
  ioThreadNum : c'.ioThreadNum = c.ioThreadNum
  avail : ∀ ip, c'.availOf ip = c.availAfter outs ip
  nonneg : ∀ ip, 0 ≤ c.availOf ip → 0 ≤ c'.availOf ip
  routed : ∀ before address call after, outs = before ++ .call address call :: after →
    ∃ ip, (∃ io < c.ioThreadNum, address = getFuncExecAddress ip io) ∧
      0 < c.availAfter before ip ∧
        (c.availOf [] ≤ 0 → BestFor (c.availAfter before) (dataNodes call) ip)
  follows : CallsFollow Starts outs
  free : c'.freeExecutors + callCount outs = c.freeExecutors
  started : unstarted outs + callCount outs = (firedOf outs).length
  full : c.availOf [] ≤ 0 → callCount outs = min (firedOf outs).length c.freeExecutors

/-! ### Rules -/

theorem CallsFollow.head (h : CallsFollow Q outs) (address : Address) (call : FunctionCall) :
    outs.head? ≠ some (.call address call) := by
  intro hhead
  obtain ⟨rest, rfl⟩ : ∃ rest, outs = .call address call :: rest := by
    cases outs with
    | nil => cases hhead
    | cons out rest => exact ⟨rest, by rw [Option.some.inj hhead]⟩
  obtain ⟨name, action, hlast, -⟩ := h [] address call rest rfl
  cases hlast

theorem unstarted_append (h : CallsFollow Q outs') :
    unstarted (outs ++ outs') = unstarted outs + unstarted outs' := by
  induction outs with
  | nil => simp [unstarted]
  | cons out outs ih =>
    cases out with
    | fired name action =>
      simp only [List.cons_append, unstarted, ih]
      cases outs with
      | nil =>
        simp only [List.nil_append, List.head?_nil, unstarted]
        split
        next address call hhead => exact absurd hhead (h.head address call)
        · omega
      | cons out outs =>
        simp only [List.cons_append, List.head?_cons]
        omega
    | _ => simpa only [List.cons_append, unstarted] using ih

theorem availAfter_append (h : Dispatched c c' outs) (outs' : List CoordOut) :
    c.availAfter (outs ++ outs') = c'.availAfter outs' := by
  funext ip
  unfold CoordState.availAfter
  rw [h.avail, h.ioThreadNum, callsTo_append]
  unfold CoordState.availAfter
  push_cast
  omega

theorem Dispatched.availOf_le (h : Dispatched c c' outs) (ip : Address) :
    c'.availOf ip ≤ c.availOf ip := by
  rw [h.avail]
  unfold CoordState.availAfter
  omega

theorem Dispatched.trans {c₁ c₂ c₃ : CoordState} (h : Dispatched c₁ c₂ outs)
    (h' : Dispatched c₂ c₃ outs') :
    Dispatched c₁ c₃ (outs ++ outs') where
  ioThreadNum := h'.ioThreadNum.trans h.ioThreadNum
  avail := fun ip => (h'.avail ip).trans (congrFun (availAfter_append h outs') ip).symm
  nonneg := fun ip hip => h'.nonneg ip (h.nonneg ip hip)
  routed := by
    intro before address call after heq
    rcases List.append_eq_append_iff.mp heq with ⟨between, rfl, hrest⟩ | ⟨between, rfl, hrest⟩
    · obtain ⟨ip, hto, hfree, hbest⟩ := h'.routed between address call after hrest
      rw [← availAfter_append h between] at hfree hbest
      rw [h.ioThreadNum] at hto
      exact ⟨ip, hto, hfree, fun hempty => hbest ((h.availOf_le []).trans hempty)⟩
    · cases between with
      | nil =>
        -- a call never comes first, so it is not the first of `outs'`
        obtain ⟨name, action, hlast, -⟩ := h'.follows [] address call after hrest.symm
        cases hlast
      | cons out between =>
        obtain ⟨rfl, -⟩ := List.cons.inj hrest
        exact h.routed before address call between rfl
  follows := h.follows.append h'.follows
  free := by
    rw [callCount_append]
    have h₁ := h.free
    have h₂ := h'.free
    omega
  started := by
    rw [unstarted_append h'.follows, callCount_append, firedOf_append, List.length_append]
    have h₁ := h.started
    have h₂ := h'.started
    omega
  full := by
    intro hempty
    have h₁ := h.full hempty
    have h₂ := h'.full ((h.availOf_le []).trans hempty)
    have h₃ := h.free
    rw [callCount_append, firedOf_append, List.length_append]
    omega

theorem Dispatched.updates (hio : c'.ioThreadNum = c.ioThreadNum)
    (hstatus : c'.nodeStatusMap = c.nodeStatusMap) (houts : ∀ out ∈ outs, out.IsUpdate) :
    Dispatched c c' outs := by
  have hcalls : ∀ address call, CoordOut.call address call ∉ outs := fun _ _ hmem => houts _ hmem
  have hcallsTo : ∀ ip, callsTo c.ioThreadNum ip outs = 0 := by
    intro ip
    refine List.countP_eq_zero.mpr fun out hout hcall => ?_
    cases out with
    | call address call => exact hcalls address call hout
    | _ => cases hcall
  have hcount : callCount outs = 0 := by
    refine List.countP_eq_zero.mpr fun out hout hcall => ?_
    cases out with
    | call address call => exact hcalls address call hout
    | _ => cases hcall
  have hfired : firedOf outs = [] := by
    refine List.filterMap_eq_nil_iff.mpr fun out hout => ?_
    cases out with
    | fired name action => exact absurd (houts _ hout) id
    | _ => rfl
  have hunstarted : unstarted outs = 0 := by
    clear hcalls hcallsTo hcount hfired
    induction outs with
    | nil => rfl
    | cons out outs ih =>
      cases out with
      | fired name action => exact absurd (houts _ List.mem_cons_self) id
      | _ => exact ih fun out hout => houts out (List.mem_cons_of_mem _ hout)
  refine ⟨hio, fun ip => ?_, fun ip hip => ?_, ?_, callsFollow_of_no_call hcalls, ?_, ?_,
    fun _ => ?_⟩
  · unfold CoordState.availAfter CoordState.availOf
    rw [hcallsTo, hstatus]
    simp
  · unfold CoordState.availOf at hip ⊢
    rw [hstatus]
    exact hip
  · rintro before address call after rfl
    exact absurd (List.mem_append_right _ List.mem_cons_self) (hcalls address call)
  · unfold CoordState.freeExecutors
    rw [hstatus, hcount, Nat.add_zero]
  · rw [hunstarted, hcount, hfired]
    rfl
  · rw [hcount, hfired]
    simp

theorem Dispatched.refl (c : CoordState) : Dispatched c c [] :=
  Dispatched.updates rfl rfl fun _ hout => absurd hout List.not_mem_nil

/-! ### The loops of the handler -/

theorem keyArgument_node {sessionKey : Session × Key} {arg : Argument × Address}
    (h : keyArgument c bucket argFlag sessionKey = some arg) :
    ipOfAddress arg.1.dataAddress = some arg.2 := by
  simp only [keyArgument, Option.bind_eq_bind, Option.bind_eq_some_iff, Option.pure_def,
    Option.some.injEq] at h
  obtain ⟨keys, -, addresses, -, dataAddress, -, ip, hip, rfl⟩ := h
  exact hip

theorem actionArguments_dataNodes {sessionKeys : List (Session × Key)}
    {args : List Argument × USet Address}
    (h : actionArguments c bucket argFlag sessionKeys = some args) (ip : Address) :
    ip ∈ args.1.filterMap (fun arg => ipOfAddress arg.dataAddress) ↔ ip ∈ args.2.elems := by
  unfold actionArguments at h
  split at h
  · cases h
    exact iff_of_false List.not_mem_nil List.not_mem_nil
  · obtain ⟨keyArgs, hkeyArgs, rfl⟩ := Option.map_eq_some_iff.mp h
    have hnodes : keyArgs.filterMap ((fun arg => ipOfAddress arg.dataAddress) ∘ Prod.fst) =
        keyArgs.map Prod.snd := by
      rw [← List.filterMap_eq_map]
      refine List.filterMap_congr fun arg harg => ?_
      obtain ⟨sessionKey, hsessionKey⟩ := exists_of_mem_mapM hkeyArgs harg
      exact keyArgument_node hsessionKey
    rw [List.filterMap_map, hnodes, USet.mem_elems, USet.mem_ofList]

theorem touch_weight (nodes : UMap Address NodeStatus) (ip : Address) :
    (nodes.touch ip {}).weight (fun status => status.availExecutors.toNat) =
      nodes.weight fun status => status.availExecutors.toNat := by
  have hset := nodes.weight_set (fun status => status.availExecutors.toNat) ip (nodes.getD ip {})
  unfold UMap.touch
  unfold UMap.getD at hset ⊢
  cases hfind : nodes.find? ip with
  | none =>
    rw [hfind] at hset
    simpa using hset
  | some status =>
    rw [hfind] at hset
    simpa using hset

theorem routeAction_weight (nodes : UMap Address NodeStatus) (dataNode : USet Address) :
    (routeAction nodes dataNode).1.weight (fun status => status.availExecutors.toNat) =
      nodes.weight fun status => status.availExecutors.toNat := by
  have hfold := foldl_unchanged (f := visitDataNode)
    (fun acc => acc.1.weight fun status => status.availExecutors.toNat)
    (fun acc ip => touch_weight acc.1 ip) dataNode.elems (nodes, {})
  unfold routeAction
  simp only
  split
  · exact hfold
  · exact hfold

theorem freeExecutors_eq_zero_iff (c : CoordState) :
    c.freeExecutors = 0 ↔ ∀ ip, c.availOf ip ≤ 0 := by
  unfold CoordState.freeExecutors CoordState.availOf
  rw [UMap.weight_eq_zero_iff]
  constructor
  · intro hall ip
    unfold UMap.getD
    cases hfind : c.nodeStatusMap.find? ip with
    | none => exact le_refl _
    | some status =>
      have hzero : status.availExecutors.toNat = 0 :=
        hall _ (UMap.find?_eq_some_iff.mp hfind)
      simp only [Option.getD_some]
      omega
  · intro hall e he
    have hle := hall e.1
    rw [UMap.getD_of_mem {} he] at hle
    omega

theorem find?_of_free (h : 0 < (nodes.getD ip {}).availExecutors) :
    nodes.find? ip = some (nodes.getD ip {}) := by
  unfold UMap.getD at h ⊢
  cases hfind : nodes.find? ip with
  | none =>
    rw [hfind] at h
    exact absurd h (by simp)
  | some status => rfl

theorem weight_take {status : NodeStatus} (hfind : nodes.find? ip = some status)
    (h : 0 < status.availExecutors) :
    (nodes.set ip { status with availExecutors := status.availExecutors - 1 }).weight
        (fun status => status.availExecutors.toNat) + 1 =
      nodes.weight fun status => status.availExecutors.toNat := by
  have hset := nodes.weight_set (fun status => status.availExecutors.toNat) ip
    { status with availExecutors := status.availExecutors - 1 }
  rw [hfind, Option.map_some, Option.getD_some] at hset
  simp only at hset ⊢
  omega

theorem pair_eq_append {α : Type} {a b c : α} {before after : List α}
    (h : [a, b] = before ++ c :: after) (hne : a ≠ c) : before = [a] ∧ b = c ∧ after = [] := by
  match before, h with
  | [], h => exact absurd (List.cons.inj h).1 hne
  | [x], h =>
    simp only [List.cons_append, List.nil_append, List.cons.injEq] at h
    exact ⟨by rw [h.1], h.2.1, h.2.2.symm⟩
  | x :: y :: rest, h => simp at h

theorem Dispatched.unrouted (name : Name) (action : TriggerAction)
    (hio : c'.ioThreadNum = c.ioThreadNum) (havail : ∀ ip, c'.availOf ip = c.availOf ip)
    (hfree : c'.freeExecutors = c.freeExecutors) (hfull : c.availOf [] ≤ 0 → c.freeExecutors = 0) :
    Dispatched c c' [.fired name action] where
  ioThreadNum := hio
  avail := by
    intro ip
    rw [havail]
    exact (Int.sub_zero _).symm
  nonneg := by
    intro ip hip
    rw [havail]
    exact hip
  routed := by
    intro before address call after heq
    have hmem : CoordOut.call address call ∈ [CoordOut.fired name action] :=
      heq ▸ List.mem_append_right _ List.mem_cons_self
    cases List.mem_singleton.mp hmem
  follows := callsFollow_of_no_call (by simp)
  free := hfree
  started := rfl
  full := by
    intro hempty
    rw [hfull hempty]
    rfl

theorem Dispatched.sent (name : Name) {node : Address} {call : FunctionCall}
    (hio : c'.ioThreadNum = c.ioThreadNum) (hthread : io < c.ioThreadNum)
    (havail : ∀ ip, c'.availOf ip = c.availOf ip - if ip = node then 1 else 0)
    (hnode : 0 < c.availOf node)
    (hbest : c.availOf [] ≤ 0 → BestFor c.availOf (dataNodes call) node)
    (hstarts : Starts action call) (hfree : c'.freeExecutors + 1 = c.freeExecutors) :
    Dispatched c c' [.fired name action, .call (getFuncExecAddress node io) call] where
  ioThreadNum := hio
  avail := by
    intro ip
    have hcalls : callsTo c.ioThreadNum ip
        [.fired name action, .call (getFuncExecAddress node io) call] =
          if ip = node then 1 else 0 := callsTo_call ip node hthread call
    unfold CoordState.availAfter
    rw [havail, hcalls]
    split <;> rfl
  nonneg := by
    intro ip hip
    rw [havail]
    split
    next heq =>
      rw [heq]
      exact Int.le_sub_one_of_lt hnode
    · rw [Int.sub_zero]
      exact hip
  routed := by
    intro before address call' after heq
    obtain ⟨rfl, hcall, -⟩ := pair_eq_append heq (by simp)
    cases hcall
    have hsame : c.availAfter [.fired name action] = c.availOf :=
      funext fun ip => Int.sub_zero _
    rw [hsame]
    exact ⟨node, ⟨io, hthread, rfl⟩, hnode, hbest⟩
  follows := callsFollow_pair hstarts
  free := hfree
  started := rfl
  full := by
    intro _
    have hmin : min 1 c.freeExecutors = 1 := by omega
    exact hmin.symm

theorem dispatchAction_dispatched
    (h : dispatchAction randR bk respAddress trigger acc action = some acc') :
    ∃ new, acc'.2 = acc.2 ++ new ∧ Dispatched acc.1 acc'.1 new := by
  obtain ⟨args, hargs, rfl⟩ := Option.map_eq_some_iff.mp h
  have hroute := routeAction_routedBy acc.1.nodeStatusMap args.2
  have hnodes := routeAction_getD acc.1.nodeStatusMap args.2
  have hweight := routeAction_weight acc.1.nodeStatusMap args.2
  simp only
  generalize routeAction acc.1.nodeStatusMap args.2 = route at hroute hnodes hweight
  split
  next hnone =>
    refine ⟨_, rfl, Dispatched.unrouted _ action rfl (fun ip => ?_) hweight fun hempty => ?_⟩
    · exact congrArg NodeStatus.availExecutors (hnodes ip)
    · exact (freeExecutors_eq_zero_iff acc.1).mpr (hroute.full hempty hnone)
  next hsome =>
    have hfree := hroute.free hsome
    refine ⟨_, List.append_assoc .., Dispatched.sent _ rfl
      (Nat.mod_lt (randR acc.1.seed).1 acc.1.ioThreadNum_pos) (fun ip => ?_) hfree
      (fun hempty => ?_) rfl ?_⟩
    · unfold CoordState.availOf
      rw [UMap.getD_set, hnodes]
      split
      next heq => rw [heq]
      · rw [hnodes, Int.sub_zero]
    · refine (hroute.best hempty hsome).congr fun ip => ?_
      have hdata := actionArguments_dataNodes hargs ip
      simpa [dataNodes] using hdata
    · rw [← hnodes] at hfree
      exact (weight_take (find?_of_free hfree) hfree).trans hweight

theorem dispatchActions_dispatched {actions : List TriggerAction}
    (h : actions.foldlM (dispatchAction randR bk respAddress trigger) acc = some acc') :
    ∃ new, acc'.2 = acc.2 ++ new ∧ Dispatched acc.1 acc'.1 new := by
  refine foldlM_preserves (Q := fun acc₁ : CoordState × List CoordOut =>
    ∃ new, acc₁.2 = acc.2 ++ new ∧ Dispatched acc.1 acc₁.1 new) ?_ h
    ⟨[], (List.append_nil _).symm, Dispatched.refl _⟩
  rintro acc₁ action - acc₂ hstep ⟨new, hnew, hdispatched⟩
  obtain ⟨new', hnew', hdispatched'⟩ := dispatchAction_dispatched hstep
  exact ⟨new ++ new', by rw [hnew', hnew, List.append_assoc], hdispatched.trans hdispatched'⟩

theorem visit_dispatched {pass pass' : TriggerPass}
    (h : pass.visit randR now activeTriggers bk respAddress trigger = some pass') :
    ∃ new, pass'.out = pass.out ++ new ∧ Dispatched pass.state pass'.state new := by
  obtain ⟨actions, -, hactions⟩ := visit_actions h
  exact dispatchActions_dispatched hactions

theorem checkTriggers_dispatched
    (h : checkTriggers randR now activeTriggers bk respAddress c = some (c', outs)) :
    Dispatched c c' outs := by
  obtain ⟨pass, hpass, heq⟩ := Option.map_eq_some_iff.mp h
  have hdispatched : Dispatched c pass.state pass.out := by
    refine foldlM_preserves (Q := fun pass : TriggerPass => Dispatched c pass.state pass.out) ?_
      hpass (Dispatched.refl c)
    rintro pass₁ trigger - pass₂ hvisit hdispatched
    obtain ⟨new, hnew, hdispatched'⟩ := visit_dispatched hvisit
    rw [hnew]
    exact hdispatched.trans hdispatched'
  simp only at heq
  split at heq
  · cases heq
    rw [← List.append_nil pass.out]
    exact hdispatched.trans (Dispatched.updates rfl rfl fun _ hout => absurd hout List.not_mem_nil)
  · cases heq
    refine hdispatched.trans (Dispatched.updates rfl rfl fun out hout => ?_)
    obtain ⟨ip, -, rfl⟩ := List.mem_map.mp hout
    trivial

theorem notifyParts_dispatched {request : KeyNotifyRequest} {addresses : List BucketKeyAddress}
    {parts : List (BucketKey × List CoordOut)}
    (h : notifyParts randR now request addresses c = some (c', parts)) :
    Dispatched c c' (parts.flatMap Prod.snd) := by
  induction addresses generalizing c parts with
  | nil =>
    cases h
    exact Dispatched.refl _
  | cons address rest ih =>
    rcases notifyParts_cons_cases h with ⟨-, rfl, rfl⟩ |
      ⟨-, ip, nodeIp, c₁, outs, parts', -, hchecked, hparts, rfl⟩
    · exact Dispatched.refl _
    · -- recording an object leaves the counters alone
      have hrecord : Dispatched c
          (recordObject c address.bucketKey ip nodeIp address.payload) [] :=
        Dispatched.updates rfl rfl fun _ hout => absurd hout List.not_mem_nil
      exact (hrecord.trans (checkTriggers_dispatched hchecked)).trans (ih hparts)

theorem notifyHandler_dispatched {request : KeyNotifyRequest}
    (h : notifyHandler randR now c request = some (c', outs)) : Dispatched c c' outs := by
  obtain ⟨parts, hparts, rfl⟩ := notifyHandler_eq_parts h
  exact notifyParts_dispatched hparts

/-! ## Reported executors -/

/-- A coordinator, what each node last reported, and the calls that `notify_handler`
has sent to it since. -/
structure Ledger where
  coord : CoordState
  reported : Address → Nat
  since : Address → Nat

namespace Ledger

def new (privateIp : Address) (threadId ioThreadNum : Nat) (hio : 0 < ioThreadNum)
    (seed : UInt32) : Ledger where
  coord := CoordState.new privateIp threadId ioThreadNum hio seed
  reported := fun _ => 0
  since := fun _ => 0

def step (randR : RandR) (k : Ledger) (e : CoordEvent) : Option Ledger :=
  (handleMessage randR k.coord e).map fun result =>
    match e with
    | .status msg =>
        { coord := result.1
          reported := Function.update k.reported msg.ip msg.availExecutors.toNat
          since := Function.update k.since msg.ip 0 }
    | .notify _ _ =>
        { k with
          coord := result.1
          since := fun ip => k.since ip + callsTo k.coord.ioThreadNum ip result.2 }
    | _ => { k with coord := result.1 }

/-- The counters are what was reported without the calls since. -/
def Balanced (k : Ledger) : Prop :=
  ∀ ip, k.coord.availOf ip = k.reported ip - k.since ip ∧ 0 ≤ k.coord.availOf ip

def Fits : CoordEvent → Prop
  | .status msg => msg.availExecutors.toNat < 2 ^ 31
  | _ => True

end Ledger

theorem SameRecords.availOf (h : SameRecords c c') (ip : Address) :
    c'.availOf ip = c.availOf ip := by
  obtain ⟨_, _, _, rfl⟩ := h
  rfl

theorem handleMessage_availOf {result : CoordState × List CoordOut}
    (h : handleMessage randR c e = some result) (hnotify : ∀ now request, e ≠ .notify now request)
    (hstatus : ∀ msg, e ≠ .status msg) (ip : Address) : result.1.availOf ip = c.availOf ip := by
  cases e with
  | notify now request => exact absurd rfl (hnotify now request)
  | status msg => exact absurd rfl (hstatus msg)
  | query request =>
    cases h
    rfl
  | bucketOp request =>
    obtain rfl := Option.some.inj h
    exact (bucketOpHandler_records c request).availOf ip
  | triggerOp now request => exact (triggerOpHandler_records h).availOf ip
  | register now registration => exact (appRegisterHandler_records h).availOf ip
  | call call =>
    obtain ⟨seed, hseed⟩ := funcCallHandler_seed h
    rw [hseed]
    rfl
  | rehash m =>
    cases h
    obtain ⟨m', hm', hfind⟩ := rehash_eq m c
    simp only [hm']
    unfold CoordState.availOf UMap.getD
    rw [hfind]

theorem updateStatus_availOf (c : CoordState) (msg : UpdateStatusMessage) (ip : Address) :
    (updateStatus c msg).availOf ip =
      if ip = msg.ip then intOfUInt32 msg.availExecutors else c.availOf ip := by
  unfold updateStatus CoordState.availOf
  rw [UMap.getD_set]
  split <;> rfl

namespace Ledger

theorem step_balanced {k k' : Ledger} (hk : k.Balanced) (he : Fits e)
    (h : k.step randR e = some k') : k'.Balanced := by
  obtain ⟨result, hresult, rfl⟩ := Option.map_eq_some_iff.mp h
  intro ip
  obtain ⟨hbalance, hnonneg⟩ := hk ip
  cases e with
  | status msg =>
    obtain rfl := Option.some.inj hresult
    simp only [updateStatus_availOf, Function.update_apply]
    split
    · have hcount : intOfUInt32 msg.availExecutors = msg.availExecutors.toNat :=
        if_pos he
      rw [hcount]
      omega
    · exact ⟨hbalance, hnonneg⟩
  | notify now request =>
    have hdispatched := notifyHandler_dispatched hresult
    refine ⟨?_, hdispatched.nonneg ip hnonneg⟩
    simp only
    rw [hdispatched.avail, CoordState.availAfter, hbalance]
    push_cast
    omega
  | query | bucketOp | triggerOp | register | call | rehash =>
    have hsame := handleMessage_availOf hresult (fun _ _ h => by cases h)
      (fun _ h => by cases h) ip
    exact ⟨hsame.trans hbalance, hsame.symm ▸ hnonneg⟩

end Ledger

/-- The counter of a node is what it last reported without the calls sent to it since,
and is never negative.  Every call of `notify_handler` goes to a node with a free
executor, and if no node without a name has any, to one with the most among the nodes
of its arguments by key, or among all nodes when none of these has a free executor. -/
theorem dispatch_within_capacity (randR : RandR) (privateIp : Address)
    (threadId ioThreadNum : Nat) (hio : 0 < ioThreadNum) (seed : UInt32) {es : List CoordEvent}
    {k : Ledger} (hes : ∀ e ∈ es, Ledger.Fits e)
    (hrun : run (Ledger.step randR) (Ledger.new privateIp threadId ioThreadNum hio seed) es =
      some k) :
    (∀ ip, k.coord.availOf ip = k.reported ip - k.since ip ∧ 0 ≤ k.coord.availOf ip) ∧
      ∀ now request c' outs, notifyHandler randR now k.coord request = some (c', outs) →
        ∀ before address call after, outs = before ++ .call address call :: after →
          ∃ ip, (∃ io < k.coord.ioThreadNum, address = getFuncExecAddress ip io) ∧
            0 < k.coord.availAfter before ip ∧
              (k.coord.availOf [] ≤ 0 →
                BestFor (k.coord.availAfter before) (dataNodes call) ip) := by
  constructor
  · refine @run_invariant _ _ (Ledger.step randR) Ledger.Balanced (fun _ e => Ledger.Fits e)
      (fun _ _ _ hk he hstep => Ledger.step_balanced hk he hstep) _ _ _ ?_
      (along_of_forall hes _) hrun
    exact fun ip => ⟨rfl, le_refl _⟩
  · intro now request c' outs h
    exact (notifyHandler_dispatched h).routed

/-! ## A node without a name -/

def joinNotify (ip : Address) : KeyNotifyRequest :=
  { requestId := [], responseAddress := [], activeTriggerNames := []
    addresses := [
      { bucket := Bytes.lit "b_g", key := Bytes.lit "k_f", session := Bytes.lit "s"
        ips := [tcpAddress ip 5000] }] }

def joinEvents (ip ip' : Address) (count count' : UInt32) : List CoordEvent :=
  [registerJoin "app", .status { ip, availExecutors := count },
    .status { ip := ip', availExecutors := count' }]

def exampleLedger : Ledger := Ledger.new (Bytes.lit "10.0.0.1") 0 1 Nat.one_pos 0

def firstCall (outs : List CoordOut) : Option (Address × List Address) :=
  match outs with
  | .fired _ _ :: .call address call :: _ => some (address, dataNodes call)
  | _ => none

theorem firstCall_eq_some {address : Address} (h : firstCall outs = some (address, data)) :
    ∃ name action call after, outs = [.fired name action] ++ .call address call :: after ∧
      dataNodes call = data := by
  unfold firstCall at h
  split at h
  next name action address' call after =>
    cases h
    exact ⟨name, action, call, after, rfl, rfl⟩
  · cases h

/-- The object is on the node that has fewer free executors, and the call goes there. -/
theorem dispatch_within_capacity_two_nodes :
    ∃ k c' outs before address call after,
      run (Ledger.step fun seed => (0, seed)) exampleLedger
        (joinEvents (Bytes.lit "10.0.0.2") (Bytes.lit "10.0.0.3") 1 2) = some k ∧
      notifyHandler (fun seed => (0, seed)) 0 k.coord (joinNotify (Bytes.lit "10.0.0.2")) =
        some (c', outs) ∧
      outs = before ++ .call address call :: after ∧
      dataNodes call = [Bytes.lit "10.0.0.2"] ∧ k.coord.availOf [] ≤ 0 ∧
      ∃ ip, BestFor (k.coord.availAfter before) (dataNodes call) ip := by
  have hrun : (run (Ledger.step fun seed => (0, seed)) exampleLedger
      (joinEvents (Bytes.lit "10.0.0.2") (Bytes.lit "10.0.0.3") 1 2)).map (fun k => decide
        ((notifyHandler (fun seed => (0, seed)) 0 k.coord
            (joinNotify (Bytes.lit "10.0.0.2"))).map (fun result => firstCall result.2) =
          some (some (getFuncExecAddress (Bytes.lit "10.0.0.2") 0, [Bytes.lit "10.0.0.2"])) ∧
        k.coord.availOf [] = 0)) = some true := by
    decide +kernel
  obtain ⟨k, hk, houtcome⟩ := Option.map_eq_some_iff.mp hrun
  obtain ⟨hhandled, hempty⟩ := of_decide_eq_true houtcome
  obtain ⟨⟨c', outs⟩, hresult, hfirst⟩ := Option.map_eq_some_iff.mp hhandled
  obtain ⟨name, action, call, after, houts, hdata⟩ := firstCall_eq_some hfirst
  have hfits : ∀ e ∈ joinEvents (Bytes.lit "10.0.0.2") (Bytes.lit "10.0.0.3") 1 2,
      Ledger.Fits e := by
    simp [joinEvents, Ledger.Fits, registerJoin]
  obtain ⟨ip, -, -, hbest⟩ := (dispatch_within_capacity (fun seed => (0, seed)) _ 0 1 Nat.one_pos 0
    hfits hk).2 _ _ _ _ hresult _ _ _ _ houts
  exact ⟨k, c', outs, _, _, call, after, hk, hresult, houts, hdata, hempty.le, ip,
    hbest hempty.le⟩

/-- The object is on a node whose name is empty.  The node has a free executor, but the
call goes to the other node, which has more. -/
theorem nameless_node_passed_over :
    ∃ k c' outs before address call after,
      run (Ledger.step fun seed => (0, seed)) exampleLedger
        (joinEvents [] (Bytes.lit "10.0.0.3") 1 2) = some k ∧
      notifyHandler (fun seed => (0, seed)) 0 k.coord (joinNotify []) = some (c', outs) ∧
      outs = before ++ .call address call :: after ∧
      ∀ ip io, address = getFuncExecAddress ip io →
        ¬ BestFor (k.coord.availAfter before) (dataNodes call) ip := by
  have hrun : (run (Ledger.step fun seed => (0, seed)) exampleLedger
      (joinEvents [] (Bytes.lit "10.0.0.3") 1 2)).map (fun k => decide
        ((notifyHandler (fun seed => (0, seed)) 0 k.coord (joinNotify [])).map
            (fun result => firstCall result.2) =
          some (some (getFuncExecAddress (Bytes.lit "10.0.0.3") 0, [[]])) ∧
        k.coord.availOf [] = 1)) = some true := by
    decide +kernel
  obtain ⟨k, hk, houtcome⟩ := Option.map_eq_some_iff.mp hrun
  obtain ⟨hhandled, hempty⟩ := of_decide_eq_true houtcome
  obtain ⟨⟨c', outs⟩, hresult, hfirst⟩ := Option.map_eq_some_iff.mp hhandled
  obtain ⟨name, action, call, after, houts, hdata⟩ := firstCall_eq_some hfirst
  refine ⟨k, c', outs, _, _, call, after, hk, hresult, houts, fun ip io haddress hbest => ?_⟩
  have hip := getFuncExecAddress_inj haddress
  rw [hdata] at hbest
  have hfree : 0 < k.coord.availAfter [.fired name action] [] := by
    unfold CoordState.availAfter
    rw [hempty]
    exact Int.one_pos
  have hmem := (hbest.ofData ⟨[], List.mem_singleton_self _, hfree⟩).1
  rw [← hip] at hmem
  exact absurd hmem (by decide)

end Pheromone.Coordinator
