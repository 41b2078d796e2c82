import CalculatorRpc.LittleEndianWords

/- The standard stream framing: the segment count minus one, one size in words
   for each segment, padding to an eight-byte boundary, then the segments.
   This file only states the format; who writes or reads it is elsewhere. -/
namespace StreamFraming
open LittleEndianWords

abbrev wordSize : Nat := 8

structure Segment where
  bytes : Bytes
  words : Nat
  aligned : bytes.length = wordSize * words
  fits : words < 2 ^ 32

/-- What a sender may frame: at most 2^21 segments, so that every sum of sizes
    is exact in binary64, and at least one word altogether. -/
structure Message where
  segments : List Segment
  some_segment : 1 ≤ segments.length
  few_segments : segments.length ≤ 2 ^ 21
  some_word : 1 ≤ (segments.map Segment.words).sum

def Message.sizes (m : Message) : List Nat := m.segments.map Segment.words

def padding (n : Nat) : Bytes := if (4 + 4 * n) % 8 = 0 then [] else [0, 0, 0, 0]

def Message.countBytes (m : Message) : Bytes := wordBytes (m.segments.length - 1)

def Message.tableBytes (m : Message) : Bytes :=
  m.sizes.flatMap wordBytes ++ padding m.segments.length

def Message.segmentBytes (m : Message) : Bytes := m.segments.flatMap Segment.bytes

def Message.encode (m : Message) : Bytes := m.countBytes ++ m.tableBytes ++ m.segmentBytes

def headerLength (n : Nat) : Nat := (4 + 4 * n + 7) / 8 * 8

def IsHeader (hdr : Bytes) (sizes : List Nat) : Prop :=
  ∃ count, wordAt hdr 0 = some count ∧ wordsFrom (hdr.drop 4) 0 (count + 1) = some sizes ∧
    hdr.length = headerLength (count + 1)

/-- The buffer is as long as its own count and its own table say. -/
def Complete (buf : Bytes) : Prop :=
  ∃ count sizes, wordAt buf 0 = some count ∧
    wordsFrom (buf.drop 4) 0 (count + 1) = some sizes ∧
    buf.length = headerLength (count + 1) + wordSize * sizes.sum

theorem headerLength_ge (n : Nat) : 4 + 4 * n ≤ headerLength n ∧ headerLength n < 4 + 4 * n + 8 := by
  simp only [headerLength]
  omega

theorem padding_length (n : Nat) : 4 + 4 * n + (padding n).length = headerLength n := by
  simp only [padding, headerLength]
  split <;> simp <;> omega

theorem table_length (ns : List Nat) : (ns.flatMap wordBytes).length = 4 * ns.length := by
  induction ns with
  | nil => rfl
  | cons n ns ih =>
    rw [List.flatMap_cons, List.length_append, ih, wordBytes_length, List.length_cons]
    omega

theorem sizes_length (m : Message) : m.sizes.length = m.segments.length := by simp [Message.sizes]

theorem sizes_fit (m : Message) : ∀ n ∈ m.sizes, n < 2 ^ 32 := by
  intro n hn
  obtain ⟨s, _, eq⟩ := List.mem_map.mp hn
  subst n
  exact s.fits

theorem tableBytes_length (m : Message) :
    4 + m.tableBytes.length = headerLength m.segments.length := by
  have pad := padding_length m.segments.length
  unfold Message.tableBytes
  rw [List.length_append, table_length, sizes_length]
  omega

theorem segments_length (segments : List Segment) :
    (segments.flatMap Segment.bytes).length = wordSize * (segments.map Segment.words).sum := by
  induction segments with
  | nil => rfl
  | cons s rest ih =>
    rw [List.flatMap_cons, List.length_append, ih, s.aligned, List.map_cons, List.sum_cons, Nat.mul_add]

theorem sum_bound (ns : List Nat) (bound : ∀ n ∈ ns, n < 2 ^ 32) : ns.sum ≤ ns.length * 2 ^ 32 := by
  induction ns with
  | nil => simp
  | cons n ns ih =>
    have head := bound n (by simp)
    have tail := ih (fun m hm => bound m (by simp [hm]))
    rw [List.sum_cons, List.length_cons, Nat.add_mul]
    omega

/-- At most 2^21 sizes below 2^32 never leave the range where binary64 is exact.
    The bound is strict because every size is below 2^32. -/
theorem sizes_sum_small (ns : List Nat) (few : ns.length ≤ 2 ^ 21)
    (bound : ∀ n ∈ ns, n < 2 ^ 32) : ns.sum < 2 ^ 53 := by
  cases ns with
  | nil => simp
  | cons n rest =>
    have head := bound n (by simp)
    have tail := sum_bound rest (fun m hm => bound m (by simp [hm]))
    rw [List.length_cons] at few
    rw [List.sum_cons]
    omega

theorem IsHeader.append_complete {hdr body : Bytes} {sizes : List Nat} (h : IsHeader hdr sizes) :
    Complete (hdr ++ body) ↔ body.length = wordSize * sizes.sum := by
  obtain ⟨count, hcount, htable, hlen⟩ := h
  have enough := headerLength_ge (count + 1)
  have four : 4 ≤ hdr.length := by omega
  have hcount' : wordAt (hdr ++ body) 0 = some count := by
    rw [wordAt_append (by omega), hcount]
  have htable' : wordsFrom ((hdr ++ body).drop 4) 0 (count + 1) = some sizes := by
    rw [List.drop_append_of_le_length four, wordsFrom_append (by rw [List.length_drop]; omega), htable]
  constructor
  · rintro ⟨c, s, hc, hs, hl⟩
    rw [hcount', Option.some.injEq] at hc
    subst c
    rw [htable', Option.some.injEq] at hs
    subst s
    rw [List.length_append] at hl
    omega
  · intro hl
    exact ⟨count, sizes, hcount', htable', by rw [List.length_append]; omega⟩

end StreamFraming
