import CalculatorRpc.LittleEndianWords

/- Little-endian numbers as fields of a section of bytes. A field that does not
   lie inside the section reads as zero. -/
namespace SectionFields
open LittleEndianWords

abbrev Section := Bytes

def getField (sec : Section) (offset width : Nat) : Nat :=
  if offset + width ≤ sec.length then numberOf ((sec.drop offset).take width) else 0

def putField (sec : Section) (offset width n : Nat) : Section :=
  sec.take offset ++ numberBytes width n ++ sec.drop (offset + width)

def Apart (offset width offset' width' : Nat) : Prop :=
  offset + width ≤ offset' ∨ offset' + width' ≤ offset

instance (offset width offset' width' : Nat) : Decidable (Apart offset width offset' width') :=
  inferInstanceAs (Decidable (_ ∨ _))

section Writing

variable {sec : Section} {offset width : Nat} (inside : offset + width ≤ sec.length)
include inside

theorem putField_length (n : Nat) : (putField sec offset width n).length = sec.length := by
  simp only [putField, List.length_append, List.length_take, numberBytes_length, List.length_drop]
  omega

theorem getField_put_same (n : Nat) :
    getField (putField sec offset width n) offset width = n % 256 ^ width := by
  have start : (sec.take offset).length = offset := by rw [List.length_take]; omega
  have window : ((putField sec offset width n).drop offset).take width = numberBytes width n := by
    rw [putField, List.append_assoc, List.drop_left' start,
      List.take_left' (numberBytes_length width n)]
  rw [getField, putField_length inside, if_pos inside, window, numberOf_numberBytes]

theorem getField_put_apart (n : Nat) {offset' width' : Nat}
    (apart : Apart offset width offset' width') :
    getField (putField sec offset width n) offset' width' = getField sec offset' width' := by
  have window : ((putField sec offset width n).drop offset').take width' =
      (sec.drop offset').take width' := by
    apply List.ext_getElem?
    intro i
    by_cases before : i < width'
    · rw [List.getElem?_take_of_lt before, List.getElem?_take_of_lt before, List.getElem?_drop,
        List.getElem?_drop, putField]
      rcases apart with after | first
      · rw [List.getElem?_append_right (by simp; omega), List.getElem?_drop]
        congr 1
        simp only [List.length_append, List.length_take, numberBytes_length]
        omega
      · rw [List.append_assoc, List.getElem?_append_left (by simp; omega),
          List.getElem?_take_of_lt (by omega)]
    · rw [List.getElem?_take_eq_none (by omega), List.getElem?_take_eq_none (by omega)]
  rw [getField, getField, putField_length inside, window]

end Writing

end SectionFields
