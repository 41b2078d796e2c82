import Mathlib.Algebra.Order.Ring.Nat
import Mathlib.Data.List.Basic

/- Little-endian numbers of any width, and four-byte words inside a byte list.
   Reading past the end gives no word, as a bounds-checked buffer does. -/
namespace LittleEndianWords

abbrev Bytes := List UInt8

def numberOf : Bytes → Nat
  | [] => 0
  | b :: bs => b.toNat + 256 * numberOf bs

def numberBytes : Nat → Nat → Bytes
  | 0, _ => []
  | width + 1, n => UInt8.ofNat n :: numberBytes width (n / 256)

def wordBytes (n : Nat) : Bytes := numberBytes 4 n

def wordOf : Bytes → Option Nat
  | a :: b :: c :: d :: _ => some (numberOf [a, b, c, d])
  | _ => none

def wordAt (bs : Bytes) (offset : Nat) : Option Nat := wordOf (bs.drop offset)

/-- The words `i, i + 1, ..` of a table, `count` of them, or nothing as soon as
    one is out of range. -/
def wordsFrom (bs : Bytes) : Nat → Nat → Option (List Nat)
  | _, 0 => some []
  | i, count + 1 =>
    match wordAt bs (i * 4) with
    | none => none
    | some first => (wordsFrom bs (i + 1) count).map (first :: ·)

@[simp] theorem numberBytes_length (width n : Nat) : (numberBytes width n).length = width := by
  induction width generalizing n with
  | zero => rfl
  | succ width ih => rw [numberBytes, List.length_cons, ih]

theorem numberOf_numberBytes (width n : Nat) : numberOf (numberBytes width n) = n % 256 ^ width := by
  induction width generalizing n with
  | zero => simp [numberBytes, numberOf, Nat.mod_one]
  | succ width ih =>
    have digit : (UInt8.ofNat n).toNat = n % 256 := UInt8.toNat_ofNat'
    rw [numberBytes, numberOf, ih, digit, Nat.pow_succ, Nat.mul_comm (256 ^ width) 256, Nat.mod_mul]

theorem numberOf_lt (bs : Bytes) : numberOf bs < 256 ^ bs.length := by
  induction bs with
  | nil => exact Nat.one_pos
  | cons b bs ih =>
    have digit := b.toNat_lt
    rw [numberOf, List.length_cons, Nat.pow_succ]
    omega

theorem four_bytes : 256 ^ 4 = 2 ^ 32 := rfl

@[simp] theorem wordBytes_length (n : Nat) : (wordBytes n).length = 4 := numberBytes_length 4 n

theorem wordOf_wordBytes {n : Nat} (fits : n < 2 ^ 32) (rest : Bytes) :
    wordOf (wordBytes n ++ rest) = some n := by
  have number : wordOf (wordBytes n ++ rest) = some (numberOf (numberBytes 4 n)) := rfl
  rw [number, numberOf_numberBytes, four_bytes, Nat.mod_eq_of_lt fits]

theorem wordOf_lt {bs : Bytes} {n : Nat} (word : wordOf bs = some n) : n < 2 ^ 32 := by
  match bs, word with
  | a :: b :: c :: d :: _, word =>
    rw [← Option.some.inj word, ← four_bytes]
    exact numberOf_lt [a, b, c, d]

theorem wordOf_isSome (bs : Bytes) : (wordOf bs).isSome ↔ 4 ≤ bs.length := by
  match bs with
  | [] => simp [wordOf]
  | [_] => simp [wordOf]
  | [_, _] => simp [wordOf]
  | [_, _, _] => simp [wordOf]
  | _ :: _ :: _ :: _ :: _ => simp [wordOf]

theorem wordOf_append {bs : Bytes} (enough : 4 ≤ bs.length) (rest : Bytes) :
    wordOf (bs ++ rest) = wordOf bs := by
  match bs, enough with
  | _ :: _ :: _ :: _ :: _, _ => rfl

theorem wordAt_shift (pre bs : Bytes) (offset : Nat) :
    wordAt (pre ++ bs) (pre.length + offset) = wordAt bs offset := by
  rw [wordAt, wordAt, List.drop_append, List.drop_eq_nil_of_le (by omega), List.nil_append,
    Nat.add_sub_cancel_left]

theorem wordAt_append {bs : Bytes} {offset : Nat} (enough : offset + 4 ≤ bs.length)
    (rest : Bytes) : wordAt (bs ++ rest) offset = wordAt bs offset := by
  simp only [wordAt, List.drop_append_of_le_length (show offset ≤ bs.length by omega)]
  exact wordOf_append (by simp; omega) rest

theorem wordsFrom_isSome (bs : Bytes) (i count : Nat) :
    (wordsFrom bs i count).isSome ↔ count = 0 ∨ (i + count) * 4 ≤ bs.length := by
  induction count generalizing i with
  | zero => simp [wordsFrom]
  | succ count ih =>
    have first := wordOf_isSome (bs.drop (i * 4))
    have rest := ih (i + 1)
    rw [List.length_drop] at first
    simp only [wordsFrom, wordAt]
    cases h : wordOf (bs.drop (i * 4)) with
    | none => simp [h] at first ⊢; omega
    | some w => simp [h] at first ⊢; rw [rest]; omega

theorem wordsFrom_length {bs : Bytes} {i count : Nat} {ws : List Nat}
    (h : wordsFrom bs i count = some ws) : ws.length = count := by
  induction count generalizing i ws with
  | zero => simp only [wordsFrom, Option.some.injEq] at h; subst ws; rfl
  | succ count ih =>
    simp only [wordsFrom] at h
    split at h
    · simp at h
    · obtain ⟨tail, ht, eq⟩ := Option.map_eq_some_iff.mp h
      subst ws
      simp [ih ht]

theorem wordsFrom_lt {bs : Bytes} {i count : Nat} {ws : List Nat}
    (h : wordsFrom bs i count = some ws) : ∀ n ∈ ws, n < 2 ^ 32 := by
  induction count generalizing i ws with
  | zero => simp only [wordsFrom, Option.some.injEq] at h; subst ws; simp
  | succ count ih =>
    simp only [wordsFrom] at h
    split at h
    · simp at h
    · rename_i first word
      obtain ⟨tail, ht, eq⟩ := Option.map_eq_some_iff.mp h
      subst ws
      exact List.forall_mem_cons.mpr ⟨wordOf_lt word, ih ht⟩

theorem wordsFrom_append {bs : Bytes} {i count : Nat} (enough : (i + count) * 4 ≤ bs.length)
    (rest : Bytes) : wordsFrom (bs ++ rest) i count = wordsFrom bs i count := by
  induction count generalizing i with
  | zero => rfl
  | succ count ih =>
    simp only [wordsFrom]
    rw [wordAt_append (by omega), ih (by omega)]

theorem wordsFrom_table (pre : Bytes) (ns : List Nat) (fits : ∀ n ∈ ns, n < 2 ^ 32)
    (rest : Bytes) (i : Nat) (aligned : pre.length = i * 4) :
    wordsFrom (pre ++ ns.flatMap wordBytes ++ rest) i ns.length = some ns := by
  induction ns generalizing pre i with
  | nil => rfl
  | cons n ns ih =>
    have first : wordAt (pre ++ (n :: ns).flatMap wordBytes ++ rest) (i * 4) = some n := by
      rw [← aligned, List.append_assoc]
      have shift := wordAt_shift pre ((n :: ns).flatMap wordBytes ++ rest) 0
      rw [Nat.add_zero] at shift
      rw [shift, wordAt, List.drop_zero, List.flatMap_cons, List.append_assoc]
      exact wordOf_wordBytes (fits n (by simp)) _
    have tail := ih (pre ++ wordBytes n) (fun m hm => fits m (List.mem_cons_of_mem n hm)) (i + 1)
      (by rw [List.length_append, aligned, wordBytes_length]; omega)
    simp only [List.length_cons, wordsFrom, first]
    rw [List.flatMap_cons, ← List.append_assoc pre, tail]
    rfl

end LittleEndianWords
