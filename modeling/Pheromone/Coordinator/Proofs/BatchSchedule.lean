import Pheromone.Coordinator.Proofs.LoadLoop

/-!
# Batch scheduling is a partition

A call with several requests goes to one node that can take it all, or is cut
into runs of requests that fit the available executors, or is refused as a
whole.
-/

namespace Pheromone.Coordinator

open Lib Common

variable {avail : List (Address × Int)} {loads : List Nat} {node : Address × Int}
  {routedCall : FunctionCall}

variable {entries : List (Address × NodeStatus)} {source : Address}

def otherNodes (source : Address) (entries : List (Address × NodeStatus)) :
    List (Address × Int) :=
  (entries.filter fun entry => !isSource source entry.1).map fun entry =>
    (entry.1, entry.2.availExecutors)

def positiveNodes (nodes : List (Address × Int)) : List (Address × Int) :=
  nodes.filter fun node => 0 < node.2

def totalAvail (nodes : List (Address × Int)) : Int := ((positiveNodes nodes).map Prod.snd).sum

/-! ## The scan -/

theorem otherNodes_cons (source : Address) (entry : Address × NodeStatus)
    (entries : List (Address × NodeStatus)) :
    otherNodes source (entry :: entries) =
      if isSource source entry.1 then otherNodes source entries
      else (entry.1, entry.2.availExecutors) :: otherNodes source entries := by
  unfold otherNodes
  by_cases hsource : isSource source entry.1 = true
  · simp [hsource]
  · simp [hsource]

theorem positiveNodes_cons (node : Address × Int) (nodes : List (Address × Int)) :
    positiveNodes (node :: nodes) =
      if 0 < node.2 then node :: positiveNodes nodes else positiveNodes nodes := by
  unfold positiveNodes
  rw [List.filter_cons]
  simp only [decide_eq_true_eq]

theorem otherNodes_nodup (source : Address) (nodes : UMap Address NodeStatus) :
    ((otherNodes source nodes.entries).map Prod.fst).Nodup := by
  have hsub : ((otherNodes source nodes.entries).map Prod.fst).Sublist
      (nodes.entries.map Prod.fst) := by
    unfold otherNodes
    rw [List.map_map]
    exact List.Sublist.map _ List.filter_sublist
  exact hsub.nodup nodes.nodup

theorem scanBest_from (source : Address) (entries : List (Address × NodeStatus))
    (best : BestNode) :
    entries.foldl
        (fun best entry =>
          if isSource source entry.1 then best else best.visit entry.1 entry.2.availExecutors)
        best =
      (otherNodes source entries).foldl (fun best node => best.visit node.1 node.2) best := by
  induction entries generalizing best with
  | nil => rfl
  | cons entry entries ih =>
    rw [List.foldl_cons, ih, otherNodes_cons]
    by_cases hsource : isSource source entry.1 = true
    · simp [hsource]
    · simp [hsource]

theorem scanNodes_from (source : Address) (entries : List (Address × NodeStatus))
    (scan : NodeScan) :
    entries.foldl (NodeScan.visit source) scan =
      { totalExecutors := scan.totalExecutors + totalAvail (otherNodes source entries)
        availNodes := scan.availNodes ++ positiveNodes (otherNodes source entries)
        best := (otherNodes source entries).foldl
          (fun best node => best.visit node.1 node.2) scan.best } := by
  induction entries generalizing scan with
  | nil => simp [totalAvail, positiveNodes, otherNodes]
  | cons entry entries ih =>
    rw [List.foldl_cons, ih, otherNodes_cons]
    unfold NodeScan.visit
    by_cases hsource : isSource source entry.1 = true
    · simp [hsource]
    · by_cases hpos : 0 < entry.2.availExecutors
      · simp [hsource, hpos, totalAvail, positiveNodes_cons, Int.add_assoc]
      · simp [hsource, hpos, totalAvail, positiveNodes_cons]

theorem scanNodes_eq (source : Address) (entries : List (Address × NodeStatus)) :
    scanNodes source entries =
      { totalExecutors := totalAvail (otherNodes source entries)
        availNodes := positiveNodes (otherNodes source entries)
        best := scanBest source entries } := by
  unfold scanNodes scanBest
  rw [scanNodes_from, scanBest_from]
  simp

theorem best_of_visits (nodes : List (Address × Int)) (best : BestNode) :
    let result := nodes.foldl (fun best node => best.visit node.1 node.2) best
    best.maxExecutors ≤ result.maxExecutors ∧
      (∀ node ∈ nodes, node.2 ≤ result.maxExecutors) ∧
      (result = best ∨ (result.node, result.maxExecutors) ∈ nodes) := by
  induction nodes generalizing best with
  | nil => simp
  | cons node nodes ih =>
    simp only [List.foldl_cons]
    obtain ⟨hle, hall, hmem⟩ := ih (best.visit node.1 node.2)
    have hvisit : best.maxExecutors ≤ (best.visit node.1 node.2).maxExecutors ∧
        node.2 ≤ (best.visit node.1 node.2).maxExecutors ∧
        (best.visit node.1 node.2 = best ∨
          best.visit node.1 node.2 = { maxExecutors := node.2, node := node.1 }) := by
      unfold BestNode.visit
      by_cases hlt : best.maxExecutors < node.2
      · rw [if_pos hlt]
        exact ⟨by simp only; omega, le_refl _, Or.inr rfl⟩
      · rw [if_neg hlt]
        exact ⟨le_refl _, by omega, Or.inl rfl⟩
    refine ⟨by omega, ?_, ?_⟩
    · intro other hother
      rcases List.mem_cons.mp hother with rfl | hother
      · omega
      · exact hall other hother
    · rcases hmem with hmem | hmem
      · rcases hvisit.2.2 with hkeep | htake
        · exact Or.inl (hmem.trans hkeep)
        · rw [hmem, htake]
          exact Or.inr List.mem_cons_self
      · exact Or.inr (List.mem_cons_of_mem _ hmem)

theorem le_scanBest (hnode : node ∈ otherNodes source entries) :
    node.2 ≤ (scanBest source entries).maxExecutors := by
  unfold scanBest
  rw [scanBest_from]
  exact (best_of_visits _ {}).2.1 node hnode

theorem scanBest_mem (hpos : 0 < (scanBest source entries).maxExecutors) :
    ((scanBest source entries).node, (scanBest source entries).maxExecutors) ∈
      otherNodes source entries := by
  unfold scanBest at hpos ⊢
  rw [scanBest_from] at hpos ⊢
  rcases (best_of_visits (otherNodes source entries) {}).2.2 with hinit | hmem
  · rw [hinit] at hpos
    simp at hpos
  · exact hmem

theorem scanBest_lt_iff {n : Int} (hn : 0 < n) :
    (scanBest source entries).maxExecutors < n ↔
      ∀ node ∈ otherNodes source entries, node.2 < n := by
  constructor
  · intro hlt node hnode
    exact (le_scanBest hnode).trans_lt hlt
  · intro hall
    by_contra hnot
    have hbest : 0 < (scanBest source entries).maxExecutors := by omega
    exact hnot (hall _ (scanBest_mem hbest))

/-! ## Cutting the request list -/

theorem cutRequests_run (routedCall : FunctionCall) {i load : Nat} (hload : loads[i]? = some load)
    (hnode : avail[i]? = some node) (chunk rest part : List FunctionRequest) (curLoad : Nat)
    (scheduled : UMap Address FunctionCall) (hlen : curLoad + chunk.length = load)
    (hpos : 0 < chunk.length) :
    cutRequests routedCall loads avail (chunk ++ rest) i curLoad part scheduled =
      cutRequests routedCall loads avail rest (i + 1) 0 []
        (scheduled.set node.1 { routedCall with requests := part ++ chunk }) := by
  induction chunk generalizing curLoad part with
  | nil => simp at hpos
  | cons req chunk ih =>
    rw [List.length_cons] at hlen
    rw [List.cons_append, cutRequests, hload, hnode]
    simp only
    by_cases hlast : chunk = []
    · subst hlast
      rw [List.length_nil] at hlen
      rw [if_pos (by omega), List.nil_append]
    · have hchunk : 0 < chunk.length := List.length_pos_iff.mpr hlast
      rw [if_neg (by omega), ih (part ++ [req]) (curLoad + 1) (by omega) hchunk,
        List.append_assoc, List.singleton_append]

structure IsPartition (routedCall : FunctionCall) (shares : List (Address × Nat))
    (reqs : List FunctionRequest) (parts : List (Address × FunctionCall)) : Prop where
  nodes_sublist : (parts.map Prod.fst).Sublist (shares.map Prod.fst)
  share : ∀ part ∈ parts, (part.1, part.2.requests.length) ∈ shares
  nonempty : ∀ part ∈ parts, part.2.requests ≠ []
  header : ∀ part ∈ parts, part.2 = { routedCall with requests := part.2.requests }
  joined : parts.flatMap (fun part => part.2.requests) = reqs

theorem IsPartition.nil {shares : List (Address × Nat)} : IsPartition routedCall shares [] [] := by
  constructor <;> simp

theorem IsPartition.cons {routedCall : FunctionCall} {shares : List (Address × Nat)}
    {chunk reqs : List FunctionRequest} {parts : List (Address × FunctionCall)}
    {share : Address × Nat} (hchunk : chunk.length = share.2) (hshare : share.2 ≠ 0)
    (h : IsPartition routedCall shares reqs parts) :
    IsPartition routedCall (share :: shares) (chunk ++ reqs)
      ((share.1, { routedCall with requests := chunk }) :: parts) := by
  constructor
  · exact h.nodes_sublist.cons_cons share.1
  · intro part hpart
    rcases List.mem_cons.mp hpart with rfl | hpart
    · simp only [hchunk]
      exact List.mem_cons_self
    · exact List.mem_cons_of_mem _ (h.share part hpart)
  · intro part hpart
    rcases List.mem_cons.mp hpart with rfl | hpart
    · apply List.length_pos_iff.mp
      simp only [hchunk]
      omega
    · exact h.nonempty part hpart
  · intro part hpart
    rcases List.mem_cons.mp hpart with rfl | hpart
    · rfl
    · exact h.header part hpart
  · rw [List.flatMap_cons, h.joined]

theorem cutRequests_partition (shares : List (Address × Nat)) :
    ∀ (i : Nat) (reqs : List FunctionRequest) (scheduled : UMap Address FunctionCall),
      loads.drop i = shares.map Prod.snd →
      (avail.drop i).map Prod.fst = shares.map Prod.fst →
      shares.Pairwise (fun x y => x.2 = 0 → y.2 = 0) →
      (scheduled.keys ++ shares.map Prod.fst).Nodup →
      reqs.length = (shares.map Prod.snd).sum →
      ∃ scheduled' parts,
        cutRequests routedCall loads avail reqs i 0 [] scheduled = some scheduled' ∧
        scheduled'.entries = scheduled.entries ++ parts ∧
        IsPartition routedCall shares reqs parts := by
  induction shares with
  | nil =>
    intro i reqs scheduled _ _ _ _ hlen
    have hnil : reqs = [] := List.length_eq_zero_iff.mp (by simpa using hlen)
    subst hnil
    exact ⟨scheduled, [], rfl, by simp, .nil⟩
  | cons share shares ih =>
    intro i reqs scheduled hloads havail hzero hnodup hlen
    rw [List.pairwise_cons] at hzero
    rw [List.map_cons, List.sum_cons] at hlen
    by_cases hshare : share.2 = 0
    · -- a node without load is followed by such nodes only
      have hrest : (shares.map Prod.snd).sum = 0 := by
        apply List.sum_eq_zero
        intro load hload
        obtain ⟨other, hother, rfl⟩ := List.mem_map.mp hload
        exact hzero.1 other hother hshare
      have hnil : reqs = [] := List.length_eq_zero_iff.mp (by omega)
      subst hnil
      exact ⟨scheduled, [], rfl, by simp, .nil⟩
    · have hload : loads[i]? = some share.2 := by
        have h := congrArg (fun l => l[0]?) hloads
        simpa using h
      obtain ⟨node, hnode, hname⟩ : ∃ node, avail[i]? = some node ∧ node.1 = share.1 := by
        have h := congrArg (fun l => l[0]?) havail
        simpa using h
      have htake : (reqs.take share.2).length = share.2 := by
        rw [List.length_take]
        omega
      have hfresh : share.1 ∉ scheduled.keys := by
        intro hmem
        rw [List.map_cons] at hnodup
        exact (List.nodup_append.mp hnodup).2.2 _ hmem _ List.mem_cons_self rfl
      have hrun := cutRequests_run routedCall hload hnode
        (reqs.take share.2) (reqs.drop share.2) [] 0 scheduled (by omega) (by omega)
      rw [List.take_append_drop, hname, List.nil_append] at hrun
      have hentries := UMap.set_entries_of_not_mem
        { routedCall with requests := reqs.take share.2 } hfresh
      obtain ⟨scheduled', parts, hcut, hadd, hparts⟩ := ih (i + 1) (reqs.drop share.2)
        (scheduled.set share.1 { routedCall with requests := reqs.take share.2 })
        (by rw [← List.drop_drop, hloads]; rfl)
        (by rw [← List.drop_drop, List.map_drop, havail]; rfl)
        hzero.2
        (by
          unfold UMap.keys at hnodup ⊢
          rw [hentries]
          simpa using hnodup)
        (by rw [List.length_drop]; omega)
      refine ⟨scheduled', (share.1, { routedCall with requests := reqs.take share.2 }) :: parts,
        by rw [hrun, hcut], by rw [hadd, hentries]; simp, ?_⟩
      have hcons := IsPartition.cons htake hshare hparts
      rwa [List.take_append_drop] at hcons

/-! ## The batch schedule -/

theorem roundLoad_zeros_last {nodes : List (Address × Int)} {r p : Nat}
    (hpos : ∀ node ∈ nodes, 0 < node.2) :
    (nodes.mapIdx fun j node => (node.1, roundLoad r p j node.2)).Pairwise
      (fun x y => x.2 = 0 → y.2 = 0) := by
  rw [List.pairwise_iff_getElem]
  intro i j hi hj hij
  simp only [List.length_mapIdx] at hi hj
  simp only [List.getElem_mapIdx]
  intro hzero
  exact roundLoad_eq_zero (hpos nodes[i] (List.getElem_mem hi)) (Nat.le_of_lt hij) hzero _

theorem scheduleBatch_split (nodes : UMap Address NodeStatus) (call : FunctionCall)
    (hone : (scanBest call.source nodes.entries).maxExecutors < call.requests.length)
    (htotal : (call.requests.length : Int) ≤ totalAvail (otherNodes call.source nodes.entries)) :
    ∃ scheduled shares, scheduleBatch nodes call = some scheduled ∧
      shares.map Prod.fst =
        (positiveNodes (otherNodes call.source nodes.entries)).map Prod.fst ∧
      (∀ share ∈ shares, ∃ avail,
        (share.1, avail) ∈ otherNodes call.source nodes.entries ∧ (share.2 : Int) ≤ avail) ∧
      IsPartition
        { appName := call.appName, respAddress := call.respAddress, syncDataStatus := true }
        shares call.requests scheduled.entries := by
  set avail := positiveNodes (otherNodes call.source nodes.entries) with havail
  have hpos : ∀ node ∈ avail, 0 < node.2 := by
    intro node hnode
    rw [havail, positiveNodes, List.mem_filter] at hnode
    simpa using hnode.2
  have hmem : ∀ node ∈ avail, node ∈ otherNodes call.source nodes.entries := by
    intro node hnode
    exact List.mem_of_mem_filter hnode
  have hsum := sum_toNat_of_pos hpos
  have htotal' : (call.requests.length : Int) ≤ (avail.map Prod.snd).sum := htotal
  obtain ⟨r, p, hloop, hloads⟩ := @loadLoop_start avail call.requests.length (by omega)
  rw [ofRound_start] at hloop
  set shares := avail.mapIdx fun j node => (node.1, roundLoad r p j node.2) with hshares
  have hfst : shares.map Prod.fst = avail.map Prod.fst := by
    apply List.ext_getElem
    · simp [hshares]
    · intro j _ _
      simp [hshares]
  have hsnd : shares.map Prod.snd = (LoadState.ofRound avail r p).loads := by
    apply List.ext_getElem
    · simp [hshares, LoadState.ofRound]
    · intro j _ _
      simp [hshares, LoadState.ofRound]
  have hnames : (LoadState.ofRound avail r p).avail.map Prod.fst = shares.map Prod.fst := by
    apply List.ext_getElem
    · simp [hshares]
    · intro j _ _
      simp [hshares, LoadState.ofRound]
  obtain ⟨scheduled, parts, hcut, hentries, hparts⟩ :=
    cutRequests_partition shares 0 call.requests UMap.empty hsnd.symm hnames
      (roundLoad_zeros_last hpos)
      (by
        rw [hfst]
        exact (List.Sublist.map _ List.filter_sublist).nodup (otherNodes_nodup _ _))
      (by rw [hsnd, hloads])
  refine ⟨scheduled, shares, ?_, hfst, ?_, ?_⟩
  · unfold scheduleBatch
    simp only [scanNodes_eq]
    rw [if_neg (by omega), if_pos htotal, ← havail, hloop]
    exact hcut
  · intro share hshare
    obtain ⟨j, hj, rfl⟩ := List.mem_mapIdx.mp hshare
    refine ⟨avail[j].2, hmem _ (List.getElem_mem hj), ?_⟩
    have hcap := hpos avail[j] (List.getElem_mem hj)
    simp only [roundLoad]
    omega
  · rw [hentries]
    exact hparts

/-! ## What is sent -/

def SentTo (ioThreadNum : Nat) (out : CoordOut) (part : Address × FunctionCall) : Prop :=
  ∃ io, io < ioThreadNum ∧ out = .call (getFuncExecAddress part.1 io) part.2

theorem sendScheduled_sentTo (randR : RandR) {ioThreadNum : Nat} (hio : 0 < ioThreadNum)
    (seed : UInt32) (parts : List (Address × FunctionCall)) :
    List.Forall₂ (SentTo ioThreadNum) (sendScheduled randR ioThreadNum seed parts).1 parts := by
  induction parts generalizing seed with
  | nil => exact List.Forall₂.nil
  | cons part parts ih =>
    have hsent : SentTo ioThreadNum
        (.call (getFuncExecAddress part.1 ((randR seed).1 % ioThreadNum)) part.2) part :=
      ⟨_, Nat.mod_lt _ hio, rfl⟩
    exact List.Forall₂.cons hsent (ih (randR seed).2)

def refusal (call : FunctionCall) : List CoordOut :=
  if call.respAddress = [] then []
  else [.callResponse call.respAddress
    { appName := call.appName, requestId := call.requestId, errorNo := 1 }]

@[simp] theorem withSession_requests (randR : RandR) (seed : UInt32) (call : FunctionCall) :
    (withSession randR seed call).1.requests = call.requests := by
  unfold withSession
  split <;> rfl

@[simp] theorem withSession_source (randR : RandR) (seed : UInt32) (call : FunctionCall) :
    (withSession randR seed call).1.source = call.source := by
  unfold withSession
  split <;> rfl

@[simp] theorem refusal_withSession (randR : RandR) (seed : UInt32) (call : FunctionCall) :
    refusal (withSession randR seed call).1 = refusal call := by
  unfold withSession
  split <;> rfl

theorem funcCallHandler_of_batch (randR : RandR) (c : CoordState) (msg : FunctionCall)
    (hbatch : 1 < msg.requests.length) {scheduled : UMap Address FunctionCall}
    (hscheduled :
      scheduleBatch c.nodeStatusMap (withSession randR c.seed msg).1 = some scheduled) :
    ∃ c' out, funcCallHandler randR c msg = some (c', out) ∧
      (scheduled.entries = [] → out = refusal msg) ∧
      List.Forall₂ (SentTo c.ioThreadNum) (if scheduled.entries = [] then [] else out)
        scheduled.entries := by
  unfold funcCallHandler
  simp only [withSession_requests, hscheduled, if_pos hbatch, Option.map_some]
  by_cases hnone : scheduled.entries = []
  · rw [if_pos hnone]
    refine ⟨_, _, rfl, fun _ => refusal_withSession randR c.seed msg, ?_⟩
    rw [if_pos hnone, hnone]
    exact List.Forall₂.nil
  · rw [if_neg hnone]
    refine ⟨_, _, rfl, fun h => absurd h hnone, ?_⟩
    rw [if_neg hnone]
    exact sendScheduled_sentTo randR c.ioThreadNum_pos _ _

theorem funcCallHandler_onOneNode (randR : RandR) (c : CoordState) (msg : FunctionCall)
    (hbatch : 1 < msg.requests.length)
    (hone : (msg.requests.length : Int) ≤
      (scanBest msg.source c.nodeStatusMap.entries).maxExecutors) :
    ∃ c' out, funcCallHandler randR c msg = some (c', out) ∧
      ∃ node ∈ otherNodes msg.source c.nodeStatusMap.entries,
        (∀ other ∈ otherNodes msg.source c.nodeStatusMap.entries, other.2 ≤ node.2) ∧
          ∃ sent, out = [sent] ∧
            SentTo c.ioThreadNum sent (node.1, (withSession randR c.seed msg).1) := by
  set call := (withSession randR c.seed msg).1 with hcall
  set best := scanBest msg.source c.nodeStatusMap.entries
  have hscheduled : scheduleBatch c.nodeStatusMap call =
      some (UMap.empty.set best.node call) := by
    unfold scheduleBatch
    simp only [scanNodes_eq, hcall, withSession_source, withSession_requests]
    rw [if_pos hone]
  obtain ⟨c', out, hout, _, hsent⟩ := funcCallHandler_of_batch randR c msg hbatch hscheduled
  have hentries : (UMap.empty.set best.node call).entries = [(best.node, call)] := rfl
  rw [hentries, if_neg (List.cons_ne_nil _ _)] at hsent
  obtain ⟨sent, rest, hfirst, hrest, rfl⟩ := List.forall₂_cons_right_iff.mp hsent
  rw [List.forall₂_nil_right_iff] at hrest
  have hpos : 0 < best.maxExecutors := by omega
  exact ⟨c', _, hout, (best.node, best.maxExecutors), scanBest_mem hpos,
    fun other hother => le_scanBest hother, sent, by rw [hrest], hfirst⟩

structure SentInParts (c : CoordState) (msg : FunctionCall) (out : List CoordOut)
    (parts : List (Address × FunctionCall)) : Prop where
  sent : List.Forall₂ (SentTo c.ioThreadNum) out parts
  nodup : (parts.map Prod.fst).Nodup
  nodes : (parts.map Prod.fst).Sublist
    ((otherNodes msg.source c.nodeStatusMap.entries).map Prod.fst)
  fits : ∀ part ∈ parts, ∃ avail,
    (part.1, avail) ∈ otherNodes msg.source c.nodeStatusMap.entries ∧
      (part.2.requests.length : Int) ≤ avail
  joined : parts.flatMap (fun part => part.2.requests) = msg.requests
  sessionless : ∀ part ∈ parts, part.2.sessionId = []

theorem funcCallHandler_inParts (randR : RandR) (c : CoordState) (msg : FunctionCall)
    (hbatch : 1 < msg.requests.length)
    (hone : (scanBest msg.source c.nodeStatusMap.entries).maxExecutors < msg.requests.length)
    (htotal : (msg.requests.length : Int) ≤
      totalAvail (otherNodes msg.source c.nodeStatusMap.entries)) :
    ∃ c' out parts, funcCallHandler randR c msg = some (c', out) ∧
      SentInParts c msg out parts := by
  have hsource : (withSession randR c.seed msg).1.source = msg.source := withSession_source ..
  have hlen : (withSession randR c.seed msg).1.requests.length = msg.requests.length := by
    rw [withSession_requests]
  obtain ⟨scheduled, shares, hscheduled, hfst, hcap, hparts⟩ :=
    scheduleBatch_split c.nodeStatusMap (withSession randR c.seed msg).1
      (by rw [hsource, hlen]; exact hone) (by rw [hsource, hlen]; exact htotal)
  rw [hsource] at hfst hcap
  obtain ⟨c', out, hout, _, hsent⟩ := funcCallHandler_of_batch randR c msg hbatch hscheduled
  have hjoined := hparts.joined
  rw [withSession_requests] at hjoined
  have hcover : scheduled.entries ≠ [] := by
    intro hnil
    rw [hnil] at hjoined
    rw [← hjoined] at hbatch
    simp at hbatch
  rw [if_neg hcover] at hsent
  refine ⟨c', out, scheduled.entries, hout, hsent, scheduled.nodup, ?_, ?_, hjoined, ?_⟩
  · refine hparts.nodes_sublist.trans ?_
    rw [hfst]
    exact List.Sublist.map _ List.filter_sublist
  · exact fun part hpart => hcap _ (hparts.share part hpart)
  · intro part hpart
    rw [hparts.header part hpart]

theorem funcCallHandler_refused (randR : RandR) (c : CoordState) (msg : FunctionCall)
    (hbatch : 1 < msg.requests.length)
    (hone : (scanBest msg.source c.nodeStatusMap.entries).maxExecutors < msg.requests.length)
    (htotal : totalAvail (otherNodes msg.source c.nodeStatusMap.entries) <
      msg.requests.length) :
    ∃ c', funcCallHandler randR c msg = some (c', refusal msg) := by
  have hscheduled : scheduleBatch c.nodeStatusMap (withSession randR c.seed msg).1 =
      some UMap.empty := by
    unfold scheduleBatch
    simp only [scanNodes_eq, withSession_source, withSession_requests]
    rw [if_neg (not_le.mpr hone), if_neg (not_le.mpr htotal)]
  obtain ⟨c', out, hout, hrefused, _⟩ := funcCallHandler_of_batch randR c msg hbatch hscheduled
  exact ⟨c', by rw [hout, hrefused rfl]⟩

/-- A call with several requests is placed on one node of maximal availability
if one can take it all; otherwise it is cut into parts that respect the available
executors and join to the request list, if the nodes can take it together;
otherwise nothing is sent to a node. -/
theorem funcCallHandler_batch_partition (randR : RandR) (c : CoordState) (msg : FunctionCall)
    (hbatch : 1 < msg.requests.length) :
    let nodes := otherNodes msg.source c.nodeStatusMap.entries
    let n : Int := msg.requests.length
    ∃ c' out, funcCallHandler randR c msg = some (c', out) ∧
      ((∃ node ∈ nodes, n ≤ node.2) →
        ∃ node ∈ nodes, (∀ other ∈ nodes, other.2 ≤ node.2) ∧
          ∃ sent, out = [sent] ∧
            SentTo c.ioThreadNum sent (node.1, (withSession randR c.seed msg).1)) ∧
      ((∀ node ∈ nodes, node.2 < n) → n ≤ totalAvail nodes →
        ∃ parts, List.Forall₂ (SentTo c.ioThreadNum) out parts ∧
          (parts.map Prod.fst).Nodup ∧
          (parts.map Prod.fst).Sublist (nodes.map Prod.fst) ∧
          (∀ part ∈ parts, ∃ avail, (part.1, avail) ∈ nodes ∧
            (part.2.requests.length : Int) ≤ avail) ∧
          parts.flatMap (fun part => part.2.requests) = msg.requests) ∧
      ((∀ node ∈ nodes, node.2 < n) → totalAvail nodes < n → out = refusal msg) := by
  intro nodes n
  have hn : 0 < n := by omega
  by_cases hall : ∀ node ∈ nodes, node.2 < n
  · have hless := (scanBest_lt_iff hn).mpr hall
    have hnone : ¬ ∃ node ∈ nodes, n ≤ node.2 := by
      rintro ⟨node, hnode, hle⟩
      exact absurd hle (not_le.mpr (hall node hnode))
    by_cases htotal : n ≤ totalAvail nodes
    · obtain ⟨c', out, parts, hout, hparts⟩ :=
        funcCallHandler_inParts randR c msg hbatch hless htotal
      exact ⟨c', out, hout, fun h => absurd h hnone,
        fun _ _ => ⟨parts, hparts.sent, hparts.nodup, hparts.nodes, hparts.fits, hparts.joined⟩,
        fun _ hlt => absurd htotal (not_le.mpr hlt)⟩
    · obtain ⟨c', hout⟩ := funcCallHandler_refused randR c msg hbatch hless (not_le.mp htotal)
      exact ⟨c', _, hout, fun h => absurd h hnone, fun _ h => absurd h htotal, fun _ _ => rfl⟩
  · obtain ⟨c', out, hout, hwhole⟩ := funcCallHandler_onOneNode randR c msg hbatch
      (not_lt.mp ((scanBest_lt_iff hn).not.mpr hall))
    exact ⟨c', out, hout, fun _ => hwhole, fun h => absurd h hall, fun h => absurd h hall⟩

def threeRequests : FunctionCall :=
  { appName := Bytes.lit "app"
    requests := List.replicate 3 { name := Bytes.lit "f", arguments := [] }
    sessionId := Bytes.lit "s" }

def twoNodes : UMap Address NodeStatus :=
  (UMap.empty.set (Bytes.lit "a") { availExecutors := 1 }).set (Bytes.lit "b")
    { availExecutors := 2 }

theorem funcCallHandler_batch_partition_three :
    let c := { CoordState.new [] 0 1 Nat.one_pos 0 with nodeStatusMap := twoNodes }
    1 < threeRequests.requests.length ∧
      ∃ c' out, funcCallHandler (fun seed => (0, seed)) c threeRequests = some (c', out) ∧
        ∃ parts, List.Forall₂ (SentTo 1) out parts ∧
          parts.flatMap (fun part => part.2.requests) = threeRequests.requests := by
  intro c
  refine ⟨by decide, ?_⟩
  obtain ⟨c', out, hout, _, hsplit, _⟩ :=
    funcCallHandler_batch_partition (fun seed => (0, seed)) c threeRequests (by decide)
  obtain ⟨parts, hsent, _, _, _, hjoined⟩ := hsplit (by decide) (by decide)
  exact ⟨c', out, hout, parts, hsent, hjoined⟩

end Pheromone.Coordinator
