import Pheromone.Executor.Channel
import Pheromone.Executor.Proofs.GetResponses

/-!
# Late answers

`get_object` reads one message for each request.  An answer that was too late is read by
the next call, whose own answer is then left for the call after it, and so on for ever;
and since the ids of requests repeat after a hundred of them, an answer that is left
behind long enough is taken for the answer to another request.  Only the loop between two
functions drops what is left.
-/

namespace Pheromone.Executor

open Lib Common

namespace Channel

/-! ## What is asked -/

/-- Each call of `get_object` returns its object if the answer is in time, and returns no
size but that of its own answer. -/
def Returns (c : Channel) : ChannelEvent → Prop
  | .get call =>
      ((c.answer call).arrival ≤ c.deadline call →
          c.returned call = some (some call.size.toNat)) ∧
        ∀ size, c.returned call = some (some size) → (c.received call).1 = some (c.answer call)
  | .nextFunction _ => True

end Channel

/-- The size of the object can be read from the answer. -/
def Answer.Readable (a : Answer) : Prop := a.fromNode = false ∧ a.size.toNat < 2 ^ 31

def Answer.Numeric (a : Answer) : Prop :=
  if a.fromNode then 48 ≤ a.size.toUInt8.toNat ∧ a.size.toUInt8.toNat ≤ 57
  else a.size.toNat < 2 ^ 31

namespace Channel

/-- A call finds no answer to an earlier call, and its own answer can be read if it is in
time; or its own answer is too late, and the first answer that it finds is too late as well,
has another id or no number. -/
def Clean (c : Channel) : ChannelEvent → Prop
  | .get call =>
      (c.unread = [] ∧
        ((c.answer call).arrival ≤ c.deadline call → (c.answer call).Readable)) ∨
      (c.unread ≠ [] ∧ c.deadline call < (c.answer call).arrival ∧
        ∀ first ∈ c.unread.head?, first.arrival ≤ c.deadline call → first.Numeric →
          c.unread.length % 100 ≠ 0)
  | .nextFunction _ => True

/-! ## Reading an answer -/

theorem readGetResponse_message (a : Answer) : readGetResponse a.reqId a.message =
    (Bytes.stoi (Bytes.cstr (if a.fromNode then [a.size.toUInt8]
      else Bytes.toDecimal a.size.toNat))).map fun size => some (sizeOfInt size) := by
  simp [readGetResponse, Answer.message]

theorem readGetResponse_other {a : Answer} {reqId : UInt8} (h : a.reqId ≠ reqId) :
    readGetResponse reqId a.message = some none := by
  simp [readGetResponse, Answer.message, h]

theorem readGetResponse_readable_iff (a : Answer) :
    readGetResponse a.reqId a.message = some (some a.size.toNat) ↔ a.Readable := by
  unfold Answer.message Answer.Readable
  cases a.fromNode with
  | true => exact iff_of_false (readGetResponse_char_ne a.reqId a.size) (by simp)
  | false => simpa using readGetResponse_decimal_iff a.reqId a.size.toNat

theorem readGetResponse_numeric_iff (a : Answer) :
    (∃ size, readGetResponse a.reqId a.message = some (some size)) ↔ a.Numeric := by
  rw [readGetResponse_message]
  unfold Answer.Numeric
  cases a.fromNode with
  | true =>
    simp only [if_true, stoi_char]
    split <;> simp_all
  | false =>
    simp only [Bool.false_eq_true, if_false, cstr_of_plain (plain_toDecimal _),
      Bytes.stoi_toDecimal]
    split <;> simp_all

/-! ## The answers that are left -/

structure Last (calls lastArrival : Nat) (answers : List Answer) : Prop where
  reqIds : ∀ a ∈ answers, a.reqId = UInt8.ofNat ((a.call + 1) % 100)
  inOrder : ∀ j a, answers[j]? = some a → a.call + answers.length = calls + j
  arrivals : ∀ a ∈ answers, a.arrival ≤ lastArrival

theorem Last.suffix {calls lastArrival : Nat} {answers rest : List Answer}
    (h : Last calls lastArrival answers) (hrest : rest <:+ answers) :
    Last calls lastArrival rest := by
  obtain ⟨read, rfl⟩ := hrest
  refine ⟨fun a ha => h.reqIds a (List.mem_append_right _ ha), fun j a ha => ?_,
    fun a ha => h.arrivals a (List.mem_append_right _ ha)⟩
  have horder := h.inOrder (read.length + j) a (by
    rw [List.getElem?_append_right (Nat.le_add_right _ _), Nat.add_sub_cancel_left]
    exact ha)
  rw [List.length_append] at horder
  omega

/-- The requests are numbered modulo 100, and the answers that are left are those to the
last calls. -/
structure Numbered (c : Channel) : Prop where
  rid : c.lib.rid.toNat = c.calls % 100
  unread : Last c.calls c.lastArrival c.unread

variable {c : Channel} {call : GetCall}

theorem toNat_id (n : Nat) : (UInt8.ofNat (n % 100)).toNat = n % 100 :=
  UInt8.toNat_ofNat_of_lt' (Nat.lt_trans (Nat.mod_lt n (by decide)) (by decide))

theorem Numbered.requested_rid (h : c.Numbered) (call : GetCall) :
    (c.requested call).rid = UInt8.ofNat ((c.calls + 1) % 100) := by
  have hrid := h.rid
  have hrequested : (c.requested call).rid =
      if (c.lib.rid + 1) % 100 = 0 then 0 else c.lib.rid + 1 := rfl
  have hsucc : (c.lib.rid + 1).toNat = c.lib.rid.toNat + 1 := by
    rw [UInt8.toNat_add, UInt8.toNat_one]
    omega
  have hzero : (c.lib.rid + 1) % 100 = 0 ↔ (c.lib.rid.toNat + 1) % 100 = 0 := by
    rw [← UInt8.toNat_inj, UInt8.toNat_mod, hsucc]
    rfl
  rw [hrequested, ← UInt8.toNat_inj, toNat_id]
  split
  next hround =>
    rw [hzero] at hround
    rw [UInt8.toNat_zero]
    omega
  next hround =>
    rw [hzero] at hround
    rw [hsucc]
    omega

/-! ## One step -/

theorem recv_suffix (deadline : Nat) (answers : List Answer) :
    (recv deadline answers).2 <:+ answers := by
  cases answers with
  | nil => exact List.suffix_rfl
  | cons first rest =>
    rw [recv]
    split
    · exact List.suffix_cons first rest
    · exact List.suffix_rfl

theorem Numbered.next (h : c.Numbered) (call : GetCall) : (c.next call).Numbered := by
  have hid := h.requested_rid call
  have hlast : Last (c.calls + 1) (c.answer call).arrival (c.unread ++ [c.answer call]) := by
    refine ⟨fun a ha => ?_, fun j a ha => ?_, fun a ha => ?_⟩
    · rcases List.mem_append.mp ha with hold | hown
      · exact h.unread.reqIds a hold
      · rw [List.mem_singleton.mp hown]
        exact hid
    · rw [List.length_append, List.length_singleton]
      rw [List.getElem?_append] at ha
      split at ha
      · have := h.unread.inOrder j a ha
        omega
      · obtain ⟨hj, rfl⟩ := List.getElem?_eq_some_iff.mp ha
        simp only [List.length_singleton, List.getElem_singleton] at hj ⊢
        have hnumber : (c.answer call).call = c.calls := rfl
        omega
    · rcases List.mem_append.mp ha with hold | hown
      · exact Nat.le_trans (h.unread.arrivals a hold) (Nat.le_max_left _ _)
      · rw [List.mem_singleton.mp hown]
  refine ⟨?_, hlast.suffix (recv_suffix _ _)⟩
  exact (congrArg UInt8.toNat hid).trans (toNat_id _)

theorem Numbered.step {e : ChannelEvent} {c' : Channel} (h : c.Numbered)
    (hstep : channelStep c e = some c') : c'.Numbered := by
  cases e with
  | get call =>
    obtain ⟨_, _, rfl⟩ := Option.map_eq_some_iff.mp hstep
    exact h.next call
  | nextFunction idle =>
    cases hstep
    exact ⟨h.rid, h.unread.suffix (List.dropWhile_suffix _)⟩

theorem returned_of_timeout (hreceived : (c.received call).1 = none) :
    c.returned call = some none := by
  unfold returned
  rw [hreceived]

theorem returned_of_received {a : Answer} (hreceived : (c.received call).1 = some a) :
    c.returned call = readGetResponse (c.requested call).rid a.message := by
  unfold returned
  rw [hreceived]

theorem returns_iff_of_none_left (call : GetCall) (hunread : c.unread = []) :
    c.Returns (.get call) ↔
      ((c.answer call).arrival ≤ c.deadline call → (c.answer call).Readable) := by
  have hreceived : c.received call = if (c.answer call).arrival ≤ c.deadline call then
      (some (c.answer call), []) else (none, [c.answer call]) := by
    unfold received
    rw [hunread]
    rfl
  split at hreceived
  next hin =>
    have hreturned := returned_of_received (congrArg Prod.fst hreceived)
    have hread : c.returned call = some (some call.size.toNat) ↔ (c.answer call).Readable := by
      rw [hreturned]
      exact readGetResponse_readable_iff (c.answer call)
    simp [Returns, hread, hreceived, hin]
  next hlate =>
    have hnull := returned_of_timeout (congrArg Prod.fst hreceived)
    refine iff_of_true ⟨fun hin => absurd hin hlate, fun size hsize => ?_⟩
      fun hin => absurd hin hlate
    cases hnull.symm.trans hsize

theorem Numbered.returns_iff_of_left (h : c.Numbered) (call : GetCall) {first : Answer}
    {rest : List Answer} (hunread : c.unread = first :: rest) :
    c.Returns (.get call) ↔ c.deadline call < (c.answer call).arrival ∧
      (first.arrival ≤ c.deadline call → first.Numeric → c.unread.length % 100 ≠ 0) := by
  have hfirst : first ∈ c.unread := hunread ▸ List.mem_cons_self
  have hlength : 0 < c.unread.length := by rw [hunread]; exact Nat.succ_pos _
  have hnumber : first.call + c.unread.length = c.calls + 0 :=
    h.unread.inOrder 0 first (by rw [hunread]; rfl)
  have hbefore : first.arrival ≤ (c.answer call).arrival :=
    Nat.le_trans (h.unread.arrivals first hfirst) (Nat.le_max_left _ _)
  have hreceived : c.received call = if first.arrival ≤ c.deadline call then
      (some first, rest ++ [c.answer call]) else (none, first :: (rest ++ [c.answer call])) := by
    unfold received
    rw [hunread]
    rfl
  split at hreceived
  next hin =>
    have hother : (c.received call).1 ≠ some (c.answer call) := by
      rw [hreceived]
      intro heq
      have hcall : first.call = c.calls := congrArg Answer.call (Option.some.inj heq)
      omega
    have hreturned := returned_of_received (congrArg Prod.fst hreceived)
    -- the id of the answer is that of the request a multiple of 100 calls later
    have hid : first.reqId = (c.requested call).rid ↔ c.unread.length % 100 = 0 := by
      rw [h.unread.reqIds first hfirst, h.requested_rid call, ← UInt8.toNat_inj, toNat_id,
        toNat_id]
      omega
    have hnumeric : (∃ size, c.returned call = some (some size)) ↔
        first.Numeric ∧ c.unread.length % 100 = 0 := by
      rw [hreturned]
      by_cases hsame : first.reqId = (c.requested call).rid
      · rw [← hsame, readGetResponse_numeric_iff, and_iff_left (hid.mp hsame)]
      · rw [readGetResponse_other hsame]
        exact iff_of_false (by simp) fun hround => hsame (hid.mpr hround.2)
    constructor
    · rintro ⟨hown, honly⟩
      have hnone : ¬ ∃ size, c.returned call = some (some size) :=
        fun ⟨size, hsize⟩ => hother (honly size hsize)
      exact ⟨Nat.lt_of_not_le fun hle => hnone ⟨_, hown hle⟩, fun _ hnum hround =>
        hnone (hnumeric.mpr ⟨hnum, hround⟩)⟩
    · rintro ⟨hlate, hround⟩
      refine ⟨fun hle => absurd hle (Nat.not_le.mpr hlate), fun size hsize => ?_⟩
      obtain ⟨hnum, hzero⟩ := hnumeric.mp ⟨size, hsize⟩
      exact absurd hzero (hround hin hnum)
  next hlate =>
    have hnull := returned_of_timeout (congrArg Prod.fst hreceived)
    refine iff_of_true ⟨fun hle => ?_, fun size hsize => ?_⟩ ⟨by omega, fun hin => absurd hin hlate⟩
    · omega
    · cases hnull.symm.trans hsize

theorem returns_iff_clean (h : c.Numbered) (e : ChannelEvent) : c.Returns e ↔ c.Clean e := by
  cases e with
  | nextFunction idle => exact Iff.rfl
  | get call =>
    cases hunread : c.unread with
    | nil =>
      rw [returns_iff_of_none_left call hunread]
      simp [Clean, hunread]
    | cons first rest =>
      rw [h.returns_iff_of_left call hunread]
      simp [Clean, hunread]

end Channel

/-! ## All calls -/

def callFor (size : UInt32) (delay : Nat) : GetCall where
  bucket := Bytes.lit "b"
  key := Bytes.lit "k"
  fromEpheStore := true
  idle := 0
  delay := delay
  size := size
  fromNode := false

end Pheromone.Executor
