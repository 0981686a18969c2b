import Pheromone.Cluster.Names

/-!
# When generated names are unique

A key is the digits of the address, the thread and the number; the name of an object
for direct invocations has no address in it.  An executor does not use a number twice,
so names clash only between executors.
-/

namespace Pheromone.Cluster

open Lib Common Executor

variable {x y : ExecutorAt} {m n : UInt32} {lib : UserLibrary}

/-! ## The names as functions of executor and number -/

theorem not_mem_toDecimal {c : UInt8} (hc : Bytes.isDigit c = false) (n : Nat) :
    c ∉ Bytes.toDecimal n := by
  intro hmem
  rw [Bytes.isDigit_of_mem_toDecimal hmem] at hc
  cases hc

theorem Ipv4.not_mem_digits {c : UInt8} (hc : Bytes.isDigit c = false) (ip : Ipv4) :
    c ∉ ip.digits := by
  simp [Ipv4.digits, not_mem_toDecimal hc]

theorem Ipv4.filter_dotted (ip : Ipv4) : ip.dotted.filter (· ≠ 46) = ip.digits := by
  have hdecimal : ∀ n, (Bytes.toDecimal n).filter (· ≠ 46) = Bytes.toDecimal n := by
    intro n
    refine List.filter_eq_self.mpr fun c hc => decide_eq_true ?_
    rintro rfl
    exact not_mem_toDecimal (by decide) n hc
  have hdot : (Bytes.lit ".").filter (· ≠ 46) = [] := by decide
  unfold Ipv4.dotted Ipv4.digits
  simp only [List.filter_append, hdecimal, hdot, List.append_nil]

namespace ExecutorAt

def chanId (x : ExecutorAt) : UInt8 := (x.threadId.val + 1).toUInt8

theorem chanId_inj (h : x.chanId = y.chanId) : x.threadId = y.threadId := by
  have htoNat := congrArg UInt8.toNat h
  simp only [chanId, Nat.toUInt8_eq, UInt8.toNat_ofNat'] at htoNat
  omega

def numbered (x : ExecutorAt) (n : UInt32) : Bytes :=
  Bytes.toDecimal x.chanId.toNat ++ Bytes.lit "_" ++ Bytes.toDecimal n.toNat

def uniqueKey (x : ExecutorAt) (n : UInt32) : Key := x.ip.digits ++ Bytes.lit "_" ++ x.numbered n

def directName (x : ExecutorAt) (n : UInt32) (session : Session) : Bytes :=
  getLocalObjectName bucketNameDirectInvoc (x.numbered n) session

theorem numbered_eq_iff : x.numbered n = y.numbered m ↔ x.threadId = y.threadId ∧ n = m := by
  constructor
  · intro h
    simp only [numbered, List.append_assoc] at h
    obtain ⟨hchan, hnumber⟩ := Bytes.append_delim_inj (not_mem_toDecimal (by decide) _)
      (not_mem_toDecimal (by decide) _) h
    exact ⟨chanId_inj (UInt8.toNat_inj.mp (Bytes.toDecimal_inj hchan)),
      UInt32.toNat_inj.mp (Bytes.toDecimal_inj hnumber)⟩
  · rintro ⟨hthread, rfl⟩
    unfold numbered chanId
    rw [hthread]

theorem uniqueKey_eq_iff :
    x.uniqueKey n = y.uniqueKey m ↔
      x.ip.digits = y.ip.digits ∧ x.threadId = y.threadId ∧ n = m := by
  rw [← numbered_eq_iff]
  constructor
  · intro h
    simp only [uniqueKey, List.append_assoc] at h
    exact Bytes.append_delim_inj (x.ip.not_mem_digits (by decide))
      (y.ip.not_mem_digits (by decide)) h
  · rintro ⟨hdigits, hnumbered⟩
    unfold uniqueKey
    rw [hdigits, hnumbered]

theorem directName_eq_iff {session : Session} :
    x.directName n session = y.directName m session ↔ x.threadId = y.threadId ∧ n = m := by
  rw [← numbered_eq_iff]
  unfold directName getLocalObjectName getKeySessionName
  rw [List.append_cancel_left_eq, List.append_cancel_right_eq]

end ExecutorAt

namespace NamingState

/-! ## What is generated -/

def LibraryOf (x : ExecutorAt) (lib : UserLibrary) : Prop :=
  lib.ipNumber = x.ip.digits ∧ lib.chanId = x.chanId

theorem LibraryOf.genUniqueKey (h : LibraryOf x lib) :
    lib.genUniqueKey.2 = x.uniqueKey lib.objectId := by
  simp [UserLibrary.genUniqueKey, UserLibrary.getObjectId, ExecutorAt.uniqueKey,
    ExecutorAt.numbered, h.1, h.2]

theorem LibraryOf.createDirect (h : LibraryOf x lib) (value : Value) :
    (lib.createDirect value).2.objName = x.directName lib.objectId lib.sessionId := by
  simp [UserLibrary.createDirect, UserLibrary.getObjectId, UserLibrary.createObject,
    ExecutorAt.directName, ExecutorAt.numbered, h.2]

theorem start_naming {message : Bytes} {lib' : UserLibrary} (h : lib.start message = some lib') :
    lib'.ipNumber = lib.ipNumber ∧ lib'.chanId = lib.chanId ∧ lib'.objectId = lib.objectId := by
  unfold UserLibrary.start at h
  split at h
  · split at h
    · cases h
      exact ⟨rfl, rfl, rfl⟩
    · cases h
  · cases h

structure Inv (s : NamingState) : Prop where
  lib : ∀ x, LibraryOf x (s.libs x)
  key : ∀ g ∈ s.keys, g.name = g.executor.uniqueKey g.number ∧
    g.number < (s.libs g.executor).objectId
  object : ∀ g ∈ s.objects, g.name = g.executor.directName g.number g.session ∧
    g.number < (s.libs g.executor).objectId

theorem inv_initial : initial.Inv where
  lib x := ⟨x.ip.filter_dotted, rfl⟩
  key _ hg := absurd hg List.not_mem_nil
  object _ hg := absurd hg List.not_mem_nil

def HasNumber (s : NamingState) (e : NamingEvent) : Prop :=
  ∀ x, e.generator = some x → (s.libs x).objectId.toNat + 1 < 2 ^ 32

theorem lt_add_one (h : n.toNat + 1 < 2 ^ 32) : n < n + 1 := by
  rw [UInt32.lt_iff_toNat_lt, UInt32.toNat_add, UInt32.toNat_one, Nat.mod_eq_of_lt h]
  exact Nat.lt_succ_self _

variable {s s' : NamingState} {e : NamingEvent}

theorem Inv.update (x : ExecutorAt) (lib : UserLibrary) (h : s.Inv) (hlib : LibraryOf x lib)
    (hle : (s.libs x).objectId ≤ lib.objectId) :
    ({ s with libs := Function.update s.libs x lib } : NamingState).Inv := by
  have hbelow : ∀ (y : ExecutorAt) {n : UInt32}, n < (s.libs y).objectId →
      n < (Function.update s.libs x lib y).objectId := by
    apply (Function.forall_update_iff s.libs fun y lib =>
      ∀ {n : UInt32}, n < (s.libs y).objectId → n < lib.objectId).mpr
    exact ⟨fun hn => UInt32.lt_of_lt_of_le hn hle, fun _ _ _ hn => hn⟩
  refine ⟨?_, fun g hg => ?_, fun g hg => ?_⟩
  · exact (Function.forall_update_iff s.libs LibraryOf).mpr ⟨hlib, fun y _ => h.lib y⟩
  · exact ⟨(h.key g hg).1, hbelow _ (h.key g hg).2⟩
  · exact ⟨(h.object g hg).1, hbelow _ (h.object g hg).2⟩

theorem Inv.addKey (h : s.Inv) (hnumber : (s.libs x).objectId.toNat + 1 < 2 ^ 32) :
    (s.addKey x (s.libs x).genUniqueKey.1 (s.libs x).genUniqueKey.2).Inv := by
  have hlt := lt_add_one hnumber
  have hnext := h.update x (s.libs x).genUniqueKey.1 (h.lib x) (UInt32.le_of_lt hlt)
  refine ⟨hnext.lib, fun g hg => ?_, hnext.object⟩
  rcases List.mem_append.mp hg with hg | hg
  · exact hnext.key g hg
  · rw [List.mem_singleton.mp hg]
    refine ⟨(h.lib x).genUniqueKey, ?_⟩
    change _ < (Function.update s.libs x _ x).objectId
    rw [Function.update_self]
    exact hlt

theorem Inv.addObject (h : s.Inv) (hnumber : (s.libs x).objectId.toNat + 1 < 2 ^ 32)
    (value : Value) :
    (s.addObject x ((s.libs x).createDirect value).1 ((s.libs x).createDirect value).2).Inv := by
  have hlt := lt_add_one hnumber
  have hnext := h.update x ((s.libs x).createDirect value).1 (h.lib x) (UInt32.le_of_lt hlt)
  refine ⟨hnext.lib, hnext.key, fun g hg => ?_⟩
  rcases List.mem_append.mp hg with hg | hg
  · exact hnext.object g hg
  · rw [List.mem_singleton.mp hg]
    refine ⟨(h.lib x).createDirect value, ?_⟩
    change _ < (Function.update s.libs x _ x).objectId
    rw [Function.update_self]
    exact hlt

theorem Inv.step (h : s.Inv) (hnumber : s.HasNumber e) (hs' : NamingState.step s e = some s') :
    s'.Inv := by
  cases e with
  | call x message =>
    obtain ⟨lib, hlib, rfl⟩ := Option.map_eq_some_iff.mp hs'
    obtain ⟨hip, hchan, hid⟩ := start_naming hlib
    refine h.update x lib ⟨hip.trans (h.lib x).1, hchan.trans (h.lib x).2⟩ ?_
    rw [hid]
    exact UInt32.le_refl _
  | genUniqueKey x =>
    cases hs'
    exact h.addKey (hnumber x rfl)
  | createUnique x targetFunction value =>
    cases hs'
    exact h.addKey (hnumber x rfl)
  | createDirect x value =>
    cases hs'
    exact h.addObject (hnumber x rfl) value

/-! ## Clashes -/

theorem not_mem_keys_iff (h : s.Inv) (x : ExecutorAt) :
    x.uniqueKey (s.libs x).objectId ∉ s.keys.map (·.name) ↔ s.OwnNumber (.genUniqueKey x) := by
  constructor
  · intro hnot g hg _ hnumber hthread hdigits
    refine hnot (List.mem_map.mpr ⟨g, hg, ?_⟩)
    rw [(h.key g hg).1]
    exact ExecutorAt.uniqueKey_eq_iff.mpr ⟨hdigits, hthread, hnumber⟩
  · intro hown hmem
    obtain ⟨g, hg, hname⟩ := List.mem_map.mp hmem
    obtain ⟨hkey, hlt⟩ := h.key g hg
    rw [hkey] at hname
    obtain ⟨hdigits, hthread, hnumber⟩ := ExecutorAt.uniqueKey_eq_iff.mp hname
    by_cases hx : g.executor = x
    · rw [hx, hnumber] at hlt
      exact UInt32.lt_irrefl _ hlt
    · exact hown g hg hx hnumber hthread hdigits

theorem not_mem_objects_iff (h : s.Inv) (x : ExecutorAt) (value : Value) :
    ((s.libs x).sessionId, x.directName (s.libs x).objectId (s.libs x).sessionId) ∉
      (s.objects.map fun g => (g.session, g.name)) ↔ s.OwnNumber (.createDirect x value) := by
  constructor
  · intro hnot g hg _ hsession hnumber hthread
    refine hnot (List.mem_map.mpr ⟨g, hg, ?_⟩)
    rw [(h.object g hg).1, hsession]
    exact congrArg _ (ExecutorAt.directName_eq_iff.mpr ⟨hthread, hnumber⟩)
  · intro hown hmem
    obtain ⟨g, hg, hname⟩ := List.mem_map.mp hmem
    obtain ⟨hobject, hlt⟩ := h.object g hg
    obtain ⟨hsession, hname⟩ := Prod.mk.inj hname
    rw [hobject, hsession] at hname
    obtain ⟨hthread, hnumber⟩ := ExecutorAt.directName_eq_iff.mp hname
    by_cases hx : g.executor = x
    · rw [hx, hnumber] at hlt
      exact UInt32.lt_irrefl _ hlt
    · exact hown g hg hx hsession hnumber hthread

theorem uniqueNames_addKey_iff (h : s.Inv) (x : ExecutorAt) :
    (s.addKey x (s.libs x).genUniqueKey.1 (s.libs x).genUniqueKey.2).UniqueNames ↔
      s.UniqueNames ∧ s.OwnNumber (.genUniqueKey x) := by
  unfold UniqueNames
  rw [← not_mem_keys_iff h x, ← (h.lib x).genUniqueKey]
  simp only [NamingState.addKey, List.map_append, List.map_cons, List.map_nil]
  rw [← List.concat_eq_append, List.nodup_concat]
  tauto

theorem uniqueNames_addObject_iff (h : s.Inv) (x : ExecutorAt) (value : Value) :
    (s.addObject x ((s.libs x).createDirect value).1
        ((s.libs x).createDirect value).2).UniqueNames ↔
      s.UniqueNames ∧ s.OwnNumber (.createDirect x value) := by
  unfold UniqueNames
  rw [← not_mem_objects_iff h x value, ← (h.lib x).createDirect value]
  simp only [NamingState.addObject, List.map_append, List.map_cons, List.map_nil]
  rw [← List.concat_eq_append, List.nodup_concat]
  tauto

theorem uniqueNames_step_iff (h : s.Inv) (hs' : NamingState.step s e = some s') :
    s'.UniqueNames ↔ s.UniqueNames ∧ s.OwnNumber e := by
  cases e with
  | call x message =>
    obtain ⟨lib, hlib, rfl⟩ := Option.map_eq_some_iff.mp hs'
    exact (and_iff_left trivial).symm
  | genUniqueKey x =>
    cases hs'
    exact uniqueNames_addKey_iff h x
  | createUnique x targetFunction value =>
    cases hs'
    exact uniqueNames_addKey_iff h x
  | createDirect x value =>
    cases hs'
    exact uniqueNames_addObject_iff h x value

/-! ## Numbers -/

theorem step_objectId (hnumber : s.HasNumber e) (hs' : NamingState.step s e = some s')
    (y : ExecutorAt) :
    (s'.libs y).objectId.toNat =
      (s.libs y).objectId.toNat + if e.generator = some y then 1 else 0 := by
  have hnext : ∀ {x : ExecutorAt} {lib : UserLibrary}, e.generator = some x →
      lib.objectId = (s.libs x).objectId + 1 →
      (Function.update s.libs x lib y).objectId.toNat =
        (s.libs y).objectId.toNat + if e.generator = some y then 1 else 0 := by
    intro x lib hgen hid
    rw [hgen]
    by_cases hy : y = x
    · subst hy
      rw [Function.update_self, hid, if_pos rfl, UInt32.toNat_add]
      have := hnumber y hgen
      exact Nat.mod_eq_of_lt this
    · rw [Function.update_of_ne hy, if_neg fun heq => hy (Option.some.inj heq).symm]
      rfl
  cases e with
  | call x message =>
    obtain ⟨lib, hlib, rfl⟩ := Option.map_eq_some_iff.mp hs'
    change (Function.update s.libs x lib y).objectId.toNat = _
    by_cases hy : y = x
    · subst hy
      rw [Function.update_self, (start_naming hlib).2.2]
      rfl
    · rw [Function.update_of_ne hy]
      rfl
  | genUniqueKey x =>
    cases hs'
    exact hnext rfl rfl
  | createUnique x targetFunction value =>
    cases hs'
    exact hnext rfl rfl
  | createDirect x value =>
    cases hs'
    exact hnext rfl rfl

theorem generatedBy_cons (x : ExecutorAt) (e : NamingEvent) (es : List NamingEvent) :
    generatedBy x (e :: es) = generatedBy x es + if e.generator = some x then 1 else 0 := by
  simp [generatedBy, List.countP_cons]

theorem along_hasNumber {es : List NamingEvent}
    (h : ∀ x, (s.libs x).objectId.toNat + generatedBy x es < 2 ^ 32) :
    Along NamingState.step HasNumber s es := by
  induction es generalizing s with
  | nil => trivial
  | cons e es ih =>
    have hnumber : s.HasNumber e := by
      intro x hgen
      have hx := h x
      rw [generatedBy_cons, if_pos hgen] at hx
      omega
    refine ⟨hnumber, fun s' hs' => ih fun x => ?_⟩
    have hx := h x
    rw [generatedBy_cons] at hx
    rw [step_objectId hnumber hs' x]
    omega

/-- In a run in which no executor generates `2 ^ 32` names, the names are unique if and
only if every number is taken by one only of the executors that share the digits of
their address and their thread, for objects of one session their thread. -/
theorem uniqueNames_iff_ownNumbers {es : List NamingEvent} {t : NamingState}
    (hcalls : ∀ x, generatedBy x es < 2 ^ 32) (hrun : run NamingState.step initial es = some t) :
    t.UniqueNames ↔ Along NamingState.step OwnNumber initial es := by
  have hnumbers : Along NamingState.step HasNumber initial es := by
    refine along_hasNumber fun x => ?_
    change 0 + _ < _
    rw [Nat.zero_add]
    exact hcalls x
  have hturn := @along_or_bad _ _ NamingState.step (fun s => s.Inv ∧ s.UniqueNames)
    (fun s => s.Inv ∧ ¬ s.UniqueNames) HasNumber OwnNumber
    (fun s e s' hs hnumber hown hs' =>
      ⟨hs.1.step hnumber hs', (uniqueNames_step_iff hs.1 hs').mpr ⟨hs.2, hown⟩⟩)
    (fun s e s' hs hnumber hown hs' =>
      ⟨hs.1.step hnumber hs', fun hunique =>
        hown ((uniqueNames_step_iff hs.1 hs').mp hunique).2⟩)
    (fun s e s' hs hnumber hs' =>
      ⟨hs.1.step hnumber hs', fun hunique =>
        hs.2 ((uniqueNames_step_iff hs.1 hs').mp hunique).1⟩)
    _ _ _ ⟨inv_initial, List.nodup_nil, List.nodup_nil⟩ hnumbers hrun
  rcases hturn with ⟨halong, hgood⟩ | ⟨halong, hbad⟩
  · exact iff_of_true hgood.2 halong
  · exact iff_of_false hbad.2 halong

def onNode (d : UInt8) : ExecutorAt where
  ip := { a := 10, b := 0, c := 0, d }
  threadId := 0

def callOfSession : Bytes := [1, 0, 0] ++ Bytes.lit "s|f"

def twoKeys : List NamingEvent := [.genUniqueKey (onNode 2), .createUnique (onNode 3) [] []]

theorem uniqueNames_iff_ownNumbers_two_nodes :
    ∃ t, run NamingState.step initial twoKeys = some t ∧ t.UniqueNames := by
  refine ⟨_, rfl, (@uniqueNames_iff_ownNumbers twoKeys _ (fun x => ?_) rfl).mpr ?_⟩
  · have hle : generatedBy x twoKeys ≤ 2 := List.countP_le_length
    omega
  · refine ⟨fun g hg => absurd hg List.not_mem_nil, fun s' hs' => ⟨fun g hg _ _ _ => ?_,
      fun _ _ => trivial⟩⟩
    cases hs'
    rw [List.mem_singleton.mp hg]
    decide

/-- The first keys of the nodes 1.11.1.1 and 11.1.1.1 are the same, and so are the names
of the first objects of one session on any two nodes. -/
theorem generated_names_clash :
    (∃ x y t, x ≠ y ∧
      run NamingState.step initial [.genUniqueKey x, .genUniqueKey y] = some t ∧
      t.keys.map (·.name) = [Bytes.lit "11111_1_0", Bytes.lit "11111_1_0"]) ∧
    ∃ x y t, x ≠ y ∧
      run NamingState.step initial [.call x callOfSession, .createDirect x [],
        .call y callOfSession, .createDirect y []] = some t ∧
      (t.objects.map fun g => (g.session, g.name)) =
        [(Bytes.lit "s", Bytes.lit "direct_invoc|1_0s"),
          (Bytes.lit "s", Bytes.lit "direct_invoc|1_0s")] := by
  have hkeys : (run NamingState.step initial
      [.genUniqueKey { ip := { a := 1, b := 11, c := 1, d := 1 }, threadId := 0 },
        .genUniqueKey { ip := { a := 11, b := 1, c := 1, d := 1 }, threadId := 0 }]).map
      (fun t => t.keys.map (·.name)) =
        some [Bytes.lit "11111_1_0", Bytes.lit "11111_1_0"] := by
    decide +kernel
  have hobjects : (run NamingState.step initial
      [.call (onNode 2) callOfSession, .createDirect (onNode 2) [],
        .call (onNode 3) callOfSession, .createDirect (onNode 3) []]).map
      (fun t => t.objects.map fun g => (g.session, g.name)) =
        some [(Bytes.lit "s", Bytes.lit "direct_invoc|1_0s"),
          (Bytes.lit "s", Bytes.lit "direct_invoc|1_0s")] := by
    decide +kernel
  obtain ⟨t, ht, hnames⟩ := Option.map_eq_some_iff.mp hkeys
  obtain ⟨t', ht', hnames'⟩ := Option.map_eq_some_iff.mp hobjects
  exact ⟨⟨_, _, t, by decide, ht, hnames⟩, _, _, t', by decide, ht', hnames'⟩

end NamingState

end Pheromone.Cluster
