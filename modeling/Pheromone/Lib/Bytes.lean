import Mathlib.Algebra.Order.Ring.Int
import Mathlib.Data.List.Basic
import Mathlib.Data.List.Lemmas

/-!
# Byte strings

A C++ `std::string` is a list of bytes.  This module has the few string
operations the rest of the development needs, each with the behaviour of its
standard library counterpart: `std::getline` splitting, NUL-terminated reads,
decimal printing, and the decimal parser `std::stoi`.
-/

namespace Pheromone.Lib

variable {s field : Bytes} {c delim : UInt8} {n : Nat}

abbrev Bytes := List UInt8

instance : LawfulBEq Bytes := inferInstance

namespace Bytes

/-- The bytes of an ASCII literal. -/
def lit (s : String) : Bytes := s.toList.map fun c => c.toNat.toUInt8

/-- `std::to_string` on an unsigned number. -/
def toDecimal (n : Nat) : Bytes :=
  (Nat.toDigits 10 n).map fun c => c.toNat.toUInt8

/-- `string(const char *)`: the bytes before the first NUL. -/
def cstr (s : Bytes) : Bytes := s.takeWhile (· ≠ 0)

/-- `s.substr(pos, s.find(c, pos) - pos)`: up to the next `c`, or to the end
when there is none.  `none` is the exception for a position past the end. -/
def substrUntil (s : Bytes) (c : UInt8) (pos : Nat) : Option Bytes :=
  if pos ≤ s.length then some ((s.drop pos).takeWhile (· ≠ c)) else none

/-- The `std::getline` loop with the item read so far.  At the end of the input
an empty item is not produced. -/
def splitFrom (delim : UInt8) : Bytes → Bytes → List Bytes
  | item, [] => if item = [] then [] else [item]
  | item, c :: cs =>
      if c = delim then item :: splitFrom delim [] cs
      else splitFrom delim (item ++ [c]) cs

def split (delim : UInt8) (s : Bytes) : List Bytes := splitFrom delim [] s

def isDigit (c : UInt8) : Bool := 48 ≤ c && c ≤ 57

def isSpace (c : UInt8) : Bool := c == 32 || (9 ≤ c && c ≤ 13)

def digitsValue (ds : Bytes) : Nat :=
  ds.foldl (fun acc c => acc * 10 + (c.toNat - 48)) 0

/-- The signed value of the longest leading run of digits, when there is one. -/
def readDigits (negative : Bool) (s : Bytes) : Option Int :=
  let digits := s.takeWhile isDigit
  if digits = [] then none
  else if negative then some (-(digitsValue digits : Int))
  else some (digitsValue digits : Int)

/-- `std::stoi`: leading white space, an optional sign, then digits; whatever
follows the digits is ignored.  `none` is the exception thrown when there is no
digit or the value does not fit an `int`. -/
def stoi (s : Bytes) : Option Int :=
  let rest := s.dropWhile isSpace
  let value :=
    match rest with
    | 45 :: ds => readDigits true ds
    | 43 :: ds => readDigits false ds
    | ds => readDigits false ds
  match value with
  | some v => if -(2 ^ 31) ≤ v ∧ v < 2 ^ 31 then some v else none
  | none => none

/-- A field behind its length, which has one byte, and what follows the field. -/
def withLength (field rest : Bytes) : Bytes := UInt8.ofNat field.length :: (field ++ rest)

/-- The field behind a length byte and what follows it; `none` when the field would end
after the message. -/
def readField : Bytes → Option (Bytes × Bytes)
  | [] => none
  | len :: body =>
      if len.toNat ≤ body.length then some (body.take len.toNat, body.drop len.toNat) else none

example : split 124 (lit "a||b|") = [lit "a", [], lit "b"] := by decide

example : stoi (lit " 42,7") = some 42 := by decide

theorem splitFrom_append_delim (delim : UInt8) (item field rest : Bytes)
    (hfield : delim ∉ field) :
    splitFrom delim item (field ++ delim :: rest) =
      (item ++ field) :: split delim rest := by
  induction field generalizing item with
  | nil => simp [splitFrom, split]
  | cons c cs ih =>
    have hc : c ≠ delim := fun h => hfield (by simp [h])
    have hcs : delim ∉ cs := fun h => hfield (by simp [h])
    rw [List.cons_append, splitFrom, if_neg hc, ih (item ++ [c]) hcs]
    simp

theorem split_append_delim (delim : UInt8) (field rest : Bytes)
    (hfield : delim ∉ field) :
    split delim (field ++ delim :: rest) = field :: split delim rest := by
  rw [split, splitFrom_append_delim delim [] field rest hfield, List.nil_append]

theorem not_mem_of_mem_splitFrom {item : Bytes} (hitem : delim ∉ item)
    (hfield : field ∈ splitFrom delim item s) : delim ∉ field := by
  induction s generalizing item with
  | nil =>
    unfold splitFrom at hfield
    split at hfield
    · cases hfield
    · rwa [List.mem_singleton.mp hfield]
  | cons c s ih =>
    unfold splitFrom at hfield
    split at hfield
    · rcases List.mem_cons.mp hfield with rfl | hfield
      · exact hitem
      · exact ih List.not_mem_nil hfield
    next hc =>
      refine ih ?_ hfield
      simp only [List.mem_append, List.mem_singleton, not_or]
      exact ⟨hitem, fun h => hc h.symm⟩

theorem not_mem_of_mem_split (hfield : field ∈ split delim s) : delim ∉ field :=
  not_mem_of_mem_splitFrom List.not_mem_nil hfield

theorem length_le_of_mem_splitFrom {item : Bytes} (hfield : field ∈ splitFrom delim item s) :
    field.length ≤ item.length + s.length := by
  induction s generalizing item with
  | nil =>
    unfold splitFrom at hfield
    split at hfield
    · cases hfield
    · rw [List.mem_singleton.mp hfield]
      exact Nat.le_add_right _ _
  | cons c s ih =>
    unfold splitFrom at hfield
    rw [List.length_cons]
    split at hfield
    · rcases List.mem_cons.mp hfield with rfl | hfield
      · exact Nat.le_add_right _ _
      · have hlength := ih hfield
        rw [List.length_nil] at hlength
        omega
    · have hlength := ih hfield
      rw [List.length_append, List.length_singleton] at hlength
      omega

theorem length_le_of_mem_split (hfield : field ∈ split delim s) : field.length ≤ s.length := by
  have hlength := length_le_of_mem_splitFrom hfield
  rwa [List.length_nil, Nat.zero_add] at hlength

theorem splitFrom_of_not_mem (delim : UInt8) (item s : Bytes) (hs : delim ∉ s) :
    splitFrom delim item s = if item ++ s = [] then [] else [item ++ s] := by
  induction s generalizing item with
  | nil => simp [splitFrom]
  | cons c cs ih =>
    have hc : c ≠ delim := fun h => hs (by simp [h])
    have hcs : delim ∉ cs := fun h => hs (by simp [h])
    rw [splitFrom, if_neg hc, ih (item ++ [c]) hcs]
    simp

theorem split_of_not_mem (delim : UInt8) (hs : delim ∉ s) (hne : s ≠ []) : split delim s = [s] := by
  rw [split, splitFrom_of_not_mem delim [] s hs, List.nil_append, if_neg hne]

theorem splitFrom_append (delim : UInt8) (item s t : Bytes) :
    splitFrom delim item (s ++ delim :: t) =
      splitFrom delim item (s ++ [delim]) ++ split delim t := by
  induction s generalizing item with
  | nil => simp [splitFrom, split]
  | cons c cs ih =>
    rw [List.cons_append, List.cons_append, splitFrom, splitFrom]
    split
    · rw [ih, List.cons_append]
    · exact ih (item ++ [c])

theorem split_append_last (delim : UInt8) (s : Bytes) (hfield : delim ∉ field) (hne : field ≠ []) :
    split delim (s ++ delim :: (field ++ [delim])) = split delim (s ++ delim :: field) := by
  have hend : split delim [] = [] := rfl
  rw [split, splitFrom_append, split_append_delim delim field [] hfield, hend,
    ← split_of_not_mem delim hfield hne, ← splitFrom_append]
  rfl

theorem length_splitFrom_le (delim : UInt8) (item s : Bytes) :
    (splitFrom delim item s).length ≤ item.length + s.length := by
  induction s generalizing item with
  | nil =>
    unfold splitFrom
    split
    · exact Nat.zero_le _
    next hne =>
      have hpos := List.length_pos_iff.mpr hne
      exact hpos
  | cons c cs ih =>
    unfold splitFrom
    split
    · have hrest := ih []
      simp only [List.length_cons, List.length_nil] at hrest ⊢
      omega
    · have hrest := ih (item ++ [c])
      simp only [List.length_append, List.length_cons, List.length_nil] at hrest ⊢
      omega

theorem length_split_le (delim : UInt8) (s : Bytes) : (split delim s).length ≤ s.length := by
  have h := length_splitFrom_le delim [] s
  rwa [List.length_nil, Nat.zero_add] at h

theorem idxOf?_append_delim (rest : Bytes) (hfield : delim ∉ field) :
    (field ++ delim :: rest).idxOf? delim = some field.length := by
  induction field with
  | nil =>
    rw [List.nil_append, List.idxOf?_cons, beq_self_eq_true]
    rfl
  | cons c cs ih =>
    have hc : (c == delim) = false :=
      beq_eq_false_iff_ne.mpr fun heq => hfield (heq ▸ List.mem_cons_self)
    have hcs : delim ∉ cs := fun h => hfield (List.mem_cons_of_mem c h)
    rw [List.cons_append, List.idxOf?_cons, hc, ih hcs]
    rfl

theorem append_delim_inj {field' rest rest' : Bytes} (hfield : delim ∉ field)
    (hfield' : delim ∉ field') (h : field ++ delim :: rest = field' ++ delim :: rest') :
    field = field' ∧ rest = rest' := by
  have hsplit := congrArg (split delim) h
  rw [split_append_delim delim field rest hfield, split_append_delim delim field' rest' hfield',
    List.cons.injEq] at hsplit
  obtain ⟨rfl, -⟩ := hsplit
  exact ⟨rfl, (List.cons.inj (List.append_cancel_left h)).2⟩

/-! ## Decimal numbers -/

theorem digit_range {c : Char} (h : c ∈ Nat.toDigits 10 n) : 48 ≤ c.toNat ∧ c.toNat ≤ 57 := by
  have hdigit := Nat.isDigit_of_mem_toDigits (by decide) (by decide) h
  unfold Char.isDigit at hdigit
  simp only [Bool.and_eq_true, decide_eq_true_eq] at hdigit
  exact hdigit

theorem isDigit_of_mem_toDecimal (h : c ∈ toDecimal n) : isDigit c = true := by
  obtain ⟨d, hd, rfl⟩ := List.mem_map.mp h
  have hrange := digit_range hd
  have htoNat : d.toNat.toUInt8.toNat = d.toNat := by
    change d.toNat % 256 = d.toNat
    omega
  unfold isDigit
  simp only [Bool.and_eq_true, decide_eq_true_eq, UInt8.le_iff_toNat_le, htoNat]
  exact hrange

theorem toDecimal_ne_nil (n : Nat) : toDecimal n ≠ [] := by
  simp [toDecimal, Nat.toDigits_ne_nil]

theorem digitsValue_toDecimal (n : Nat) : digitsValue (toDecimal n) = n := by
  have hfold : ∀ (l : List Char) (acc : Nat), (∀ c ∈ l, c.toNat < 256) →
      (l.map fun c => c.toNat.toUInt8).foldl (fun acc c => acc * 10 + (c.toNat - 48)) acc =
        Nat.ofDigitChars 10 l acc := by
    intro l
    induction l with
    | nil => intro acc _; rfl
    | cons c l ih =>
      intro acc hl
      have hc : c.toNat.toUInt8.toNat = c.toNat :=
        Nat.mod_eq_of_lt (hl c List.mem_cons_self)
      rw [List.map_cons, List.foldl_cons, ih _ fun d hd => hl d (List.mem_cons_of_mem _ hd),
        hc, Nat.mul_comm acc 10]
      rfl
  unfold digitsValue toDecimal
  rw [hfold, Nat.ofDigitChars_toDigits (by decide) (by decide)]
  intro c hc
  have hrange := digit_range hc
  omega

theorem toDecimal_inj {m : Nat} (h : toDecimal n = toDecimal m) : n = m := by
  rw [← digitsValue_toDecimal n, h, digitsValue_toDecimal]

theorem isDigit_ne (h : isDigit c = true) : isSpace c = false ∧ c ≠ 45 ∧ c ≠ 43 := by
  simp only [isDigit, Bool.and_eq_true, decide_eq_true_eq] at h
  refine ⟨?_, ?_, ?_⟩
  · cases hspace : isSpace c with
    | false => rfl
    | true =>
      simp only [isSpace, Bool.or_eq_true, beq_iff_eq, Bool.and_eq_true,
        decide_eq_true_eq] at hspace
      rcases hspace with rfl | ⟨-, hle⟩
      · exact absurd h.1 (by decide)
      · exact absurd (UInt8.le_trans h.1 hle) (by decide)
  · rintro rfl
    exact absurd h.1 (by decide)
  · rintro rfl
    exact absurd h.1 (by decide)

/-- `stoi(to_string(n))` is `n` as long as `n` fits an `int`. -/
theorem stoi_toDecimal (n : Nat) :
    stoi (toDecimal n) = if n < 2 ^ 31 then some (n : Int) else none := by
  have hdigits : ∀ c ∈ toDecimal n, isDigit c = true := fun c => isDigit_of_mem_toDecimal
  have hread : readDigits false (toDecimal n) = some (n : Int) := by
    have hall : (toDecimal n ++ []).takeWhile isDigit = toDecimal n ++ [].takeWhile isDigit :=
      List.takeWhile_append_of_pos hdigits
    simp only [List.append_nil, List.takeWhile_nil] at hall
    unfold readDigits
    simp only [hall, if_neg (toDecimal_ne_nil n), digitsValue_toDecimal]
    rfl
  obtain ⟨c, cs, hcons⟩ := List.exists_cons_of_ne_nil (toDecimal_ne_nil n)
  obtain ⟨hspace, hminus, hplus⟩ :=
    isDigit_ne (hdigits c (by rw [hcons]; exact List.mem_cons_self))
  have hrest : (toDecimal n).dropWhile isSpace = c :: cs := by
    rw [hcons, List.dropWhile_cons_of_neg (by rw [hspace]; exact Bool.false_ne_true)]
  rw [hcons] at hread
  have hvalue : (match c :: cs with
      | 45 :: ds => readDigits true ds
      | 43 :: ds => readDigits false ds
      | ds => readDigits false ds) = some (n : Int) := by
    split
    next heq => exact absurd (List.cons.inj heq).1 hminus
    next heq => exact absurd (List.cons.inj heq).1 hplus
    · exact hread
  unfold stoi
  simp only [hrest, hvalue]
  have hfits : (-(2 ^ 31) ≤ (n : Int) ∧ (n : Int) < 2 ^ 31) ↔ n < 2 ^ 31 := by omega
  simp only [hfits]

/-! ## Fields behind their length -/

/-- The length byte has the length modulo 256, and the field is cut there. -/
theorem readField_withLength (field rest : Bytes) :
    readField (withLength field rest) =
      some (field.take (field.length % 256), field.drop (field.length % 256) ++ rest) := by
  have hle : field.length % 256 ≤ field.length := Nat.mod_le _ _
  have hbyte : (UInt8.ofNat field.length).toNat = field.length % 256 := by
    rw [UInt8.toNat_ofNat']
  unfold withLength readField
  simp only [hbyte, List.length_append]
  rw [if_pos (by omega), List.take_append_of_le_length hle, List.drop_append_of_le_length hle]

theorem readField_withLength_iff (field rest : Bytes) :
    readField (withLength field rest) = some (field, rest) ↔ field.length < 256 := by
  rw [readField_withLength]
  constructor
  · intro h
    have hfield : field.take (field.length % 256) = field := congrArg Prod.fst (Option.some.inj h)
    have hlength := congrArg List.length hfield
    rw [List.length_take] at hlength
    omega
  · intro h
    rw [Nat.mod_eq_of_lt h, List.take_length, List.drop_length, List.nil_append]

end Bytes

end Pheromone.Lib
