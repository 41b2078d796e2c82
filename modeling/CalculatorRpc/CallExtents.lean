import CalculatorRpc.PrefixCodes
import CalculatorRpc.TcpTransport

/- Which bytes of a stream successive calls of `recvMessage` take. The extents are
   defined on bytes alone; the receiver is shown to follow them on every stream,
   as long as the stream does not end inside one. -/
namespace CallExtents
open LittleEndianWords StreamFraming TcpTransport EventRuns PrefixCodes

/-- How many bytes a call asks for after a header. A table of 2^32 sizes makes
    `new Array` throw before anything more is read. -/
def bodyLength (sizes : List Nat) : Nat :=
  if 2 ^ 32 ≤ sizes.length then 0 else NearestDouble.total sizes * wordSize

def CallExtent (piece : Bytes) : Prop :=
  ∃ hdr sizes body, piece = hdr ++ body ∧ IsHeader hdr sizes ∧ body.length = bodyLength sizes

/-- The buffer is a header and as much of its segments as the stream holds, up
    to what the call asks for, at a place where a call starts. -/
def TakenFrom (s buf : Bytes) : Prop :=
  ∃ pieces hdr sizes body back, s = List.flatten pieces ++ (hdr ++ (body ++ back)) ∧
    (∀ p ∈ pieces, CallExtent p) ∧ IsHeader hdr sizes ∧ sizes.length < 2 ^ 32 ∧ body ≠ [] ∧
    body.length = min (body ++ back).length (NearestDouble.total sizes * wordSize) ∧ buf = hdr ++ body

theorem header_unique {hdr hdr' : Bytes} {sizes sizes' : List Nat} {x y : Bytes}
    (h : IsHeader hdr sizes) (h' : IsHeader hdr' sizes') (same : hdr ++ x = hdr' ++ y) :
    hdr = hdr' ∧ sizes = sizes' := by
  obtain ⟨count, word, table, len⟩ := h
  obtain ⟨count', word', table', len'⟩ := h'
  have long := headerLength_ge (count + 1)
  have long' := headerLength_ge (count' + 1)
  have first : wordAt (hdr ++ x) 0 = some count := by rw [wordAt_append (by omega), word]
  have first' : wordAt (hdr ++ x) 0 = some count' := by
    rw [same, wordAt_append (by omega), word']
  have counts : count = count' := Option.some.inj (first.symm.trans first')
  subst count'
  obtain ⟨headers, _⟩ := List.append_inj same (len.trans len'.symm)
  subst hdr'
  exact ⟨rfl, Option.some.inj (table.symm.trans table')⟩

theorem extents_prefix_free : PrefixFree CallExtent := by
  intro p q x y hp hq same
  obtain ⟨hdr, sizes, body, eq, header, len⟩ := hp
  obtain ⟨hdr', sizes', body', eq', header', len'⟩ := hq
  subst p; subst q
  rw [List.append_assoc, List.append_assoc] at same
  obtain ⟨headers, tables⟩ := header_unique header header' same
  subst hdr'; subst sizes'
  have rest := List.append_cancel_left same
  obtain ⟨bodies, _⟩ := List.append_inj rest (len.trans len'.symm)
  rw [bodies]

theorem cut_has_no_extent {hdr part : Bytes} {sizes : List Nat} (header : IsHeader hdr sizes)
    (short : part.length < bodyLength sizes) : ∀ p, p <+: hdr ++ part → ¬ CallExtent p := by
  rintro p ⟨rest, eq⟩ ⟨hdr', sizes', body, split, header', len⟩
  subst p
  rw [List.append_assoc] at eq
  obtain ⟨headers, tables⟩ := header_unique header' header eq
  subst hdr'; subst sizes'
  have bodies := congrArg List.length (List.append_cancel_left eq)
  rw [List.length_append] at bodies
  omega

theorem few_body {sizes : List Nat} (few : sizes.length < 2 ^ 32) :
    bodyLength sizes = NearestDouble.total sizes * wordSize := if_neg (by omega)

def ReadOk : Read → Prop
  | .numSegments => True
  | .segmentsSize count n len => ∃ c, count.length = 4 ∧ wordAt count 0 = some c ∧ n = c + 1 ∧
      len = headerLength n - 4
  | .segments count table len => ∃ sizes, IsHeader (count ++ table) sizes ∧
      sizes.length < 2 ^ 32 ∧ sizes.sum ≠ 0 ∧ len = NearestDouble.total sizes * wordSize

structure OnTrack (s : Bytes) (l : Link) (done : List Bytes) : Prop where
  stream : s = done.flatten ++ (held l.receiver.read ++ (l.socket.buffered ++ l.wire))
  extents : ∀ p ∈ done, CallExtent p
  handed : l.receiver.handed.Sublist done
  taken : ∀ b ∈ l.receiver.handed, TakenFrom s b
  reads : ReadOk l.receiver.read

/-- The last call met the end of the stream inside its extent. Nothing is left to
    read, so no later call gets anywhere. -/
structure Stopped (s : Bytes) (l : Link) (done : List Bytes) (tail : Bytes) : Prop where
  stream : s = done.flatten ++ tail
  extents : ∀ p ∈ done, CallExtent p
  handed : l.receiver.handed.Sublist done ∨ ∃ earlier, l.receiver.handed = earlier ++ [tail] ∧
    earlier.Sublist done ∧ ∀ p, p <+: tail → ¬ CallExtent p
  taken : ∀ b ∈ l.receiver.handed, TakenFrom s b
  ended : l.socket.ended = true
  empty : l.socket.buffered = []
  asks : l.receiver.read.len ≠ 0

structure Followed (s : Bytes) (l : Link) : Prop where
  drained : l.socket.ended = true → l.wire = []
  stage : (∃ done, OnTrack s l done) ∨ ∃ done tail, Stopped s l done tail

theorem table_is_header {count table : Bytes} {c : Nat} {sizes : List Nat}
    (four : count.length = 4) (word : wordAt count 0 = some c)
    (len : table.length = headerLength (c + 1) - 4)
    (words : wordsFrom table 0 (c + 1) = some sizes) : IsHeader (count ++ table) sizes := by
  have long := headerLength_ge (c + 1)
  refine ⟨c, ?_, ?_, ?_⟩
  · rw [wordAt_append (by omega), word]
  · rw [← four, List.drop_left' rfl, words]
  · rw [List.length_append]
    omega

theorem full_table {table : Bytes} {c : Nat} (len : table.length = headerLength (c + 1) - 4) :
    ∃ sizes, wordsFrom table 0 (c + 1) = some sizes ∧ sizes.length = c + 1 := by
  have long := headerLength_ge (c + 1)
  have some_words := (wordsFrom_isSome table 0 (c + 1)).mpr (Or.inr (by omega))
  obtain ⟨sizes, words⟩ := Option.isSome_iff_exists.mp some_words
  exact ⟨sizes, words, wordsFrom_length words⟩

theorem header_extent {hdr : Bytes} {sizes : List Nat} (header : IsHeader hdr sizes)
    (nothing : bodyLength sizes = 0) : CallExtent hdr :=
  ⟨hdr, sizes, [], (List.append_nil hdr).symm, header, nothing.symm⟩

theorem OnTrack.reject {s : Bytes} {l : Link} {done : List Bytes} {piece back : Bytes}
    (t : OnTrack s l done) (extent : CallExtent piece) (failure : Failure)
    (stream : s = done.flatten ++ (piece ++ (back ++ l.wire))) :
    OnTrack s { l with
      socket := { l.socket with buffered := back }
      receiver := l.receiver.settle (.reject failure) } (done ++ [piece]) :=
  { stream := by simpa [Receiver.settle, held] using stream
    extents := by
      intro p hp
      rcases List.mem_append.mp hp with old | new
      · exact t.extents p old
      · rw [List.mem_singleton.mp new]
        exact extent
    handed := t.handed.trans (List.sublist_append_left _ _)
    taken := t.taken
    reads := trivial }

theorem OnTrack.suspend {s : Bytes} {l : Link} {done : List Bytes} {back : Bytes}
    (t : OnTrack s l done) {read : Read} (reads : ReadOk read)
    (stream : s = done.flatten ++ (held read ++ (back ++ l.wire))) :
    OnTrack s { l with
      socket := { l.socket with buffered := back }
      receiver := l.receiver.settle (.suspend read) } done :=
  { stream := stream
    extents := t.extents
    handed := t.handed
    taken := t.taken
    reads := reads }

theorem OnTrack.handOver {s : Bytes} {l : Link} {done : List Bytes} {hdr body back : Bytes}
    {sizes : List Nat} (t : OnTrack s l done) (header : IsHeader hdr sizes)
    (few : sizes.length < 2 ^ 32) (some_word : sizes.sum ≠ 0)
    (len : body.length = NearestDouble.total sizes * wordSize)
    (stream : s = done.flatten ++ (hdr ++ (body ++ (back ++ l.wire)))) :
    OnTrack s { l with
      socket := { l.socket with buffered := back }
      receiver := l.receiver.settle (.handOver (hdr ++ body)) } (done ++ [hdr ++ body]) := by
  have nonempty : body ≠ [] := by
    intro empty
    have zero : NearestDouble.total sizes ≠ 0 :=
      fun h => some_word ((NearestDouble.total_zero_iff sizes).mp h)
    simp only [empty, List.length_nil, wordSize] at len
    omega
  refine
    { stream := by simpa [Receiver.settle, held] using stream
      extents := ?_
      handed := List.Sublist.append t.handed (List.Sublist.refl _)
      taken := ?_
      reads := trivial }
  · intro p hp
    rcases List.mem_append.mp hp with old | new
    · exact t.extents p old
    · rw [List.mem_singleton.mp new]
      exact ⟨hdr, sizes, body, rfl, header, len.trans (few_body few).symm⟩
  · intro b hb
    rcases List.mem_append.mp hb with old | new
    · exact t.taken b old
    · rw [List.mem_singleton.mp new]
      refine ⟨done, hdr, sizes, body, back ++ l.wire, stream, t.extents, header, few, nonempty, ?_, rfl⟩
      rw [List.length_append]
      omega

theorem full_read_cases {read : Read} {buf : Bytes} (ok : ReadOk read) (len : buf.length = read.len) :
    (∃ next, proceed read buf = .suspend next ∧ ReadOk next ∧ held next = held read ++ buf) ∨
    (∃ sizes failure, proceed read buf = .reject failure ∧ IsHeader (held read ++ buf) sizes ∧
      bodyLength sizes = 0 ∧
      (sizes.length < 2 ^ 32 → sizes.sum = 0 ∧ failure = .invalidReadLength 0)) ∨
    (∃ sizes, proceed read buf = .handOver (held read ++ buf) ∧ IsHeader (held read) sizes ∧
      sizes.length < 2 ^ 32 ∧ sizes.sum ≠ 0 ∧ buf.length = NearestDouble.total sizes * wordSize) := by
  cases read with
  | numSegments =>
    simp only [Read.len] at len
    have some_word := (wordOf_isSome buf).mpr (by omega)
    obtain ⟨c, word⟩ := Option.isSome_iff_exists.mp some_word
    have word' : wordAt buf 0 = some c := word
    rw [proceed, afterNumSegments_full word']
    exact Or.inl ⟨_, rfl, ⟨c, len, word', rfl, rfl⟩, rfl⟩
  | segmentsSize count n size =>
    obtain ⟨c, four, word, eq, table⟩ := ok
    subst n
    simp only [Read.len] at len
    obtain ⟨sizes, words, number⟩ := full_table (len.trans table)
    have header := table_is_header four word (len.trans table) words
    rw [proceed]
    by_cases huge : 2 ^ 32 ≤ c + 1
    · unfold afterSegmentsSize
      rw [if_pos huge]
      exact Or.inr (Or.inl ⟨sizes, _, rfl, header, if_pos (by omega), fun few => by omega⟩)
    · have few : sizes.length < 2 ^ 32 := by omega
      rw [afterSegmentsSize_table (by omega) words]
      by_cases empty : sizes.sum = 0
      · have nothing : bodyLength sizes = 0 := by
          rw [few_body few, (NearestDouble.total_zero_iff sizes).mpr empty, Nat.zero_mul]
        rw [if_pos empty]
        exact Or.inr (Or.inl ⟨sizes, _, rfl, header, nothing, fun _ => ⟨empty, rfl⟩⟩)
      · rw [if_neg empty]
        exact Or.inl ⟨_, rfl, ⟨sizes, header, few, empty, rfl⟩, rfl⟩
  | segments count table size =>
    obtain ⟨sizes, header, few, some_word, eq⟩ := ok
    subst size
    exact Or.inr (Or.inr ⟨sizes, rfl, header, few, some_word, len⟩)

theorem full_read {s : Bytes} {l : Link} {done : List Bytes} {buf back : Bytes}
    (t : OnTrack s l done) (split : l.socket.buffered = buf ++ back)
    (len : buf.length = l.receiver.read.len) :
    ∃ done', OnTrack s { l with
      socket := { l.socket with buffered := back }
      receiver := l.receiver.settle (proceed l.receiver.read buf) } done' := by
  have stream := t.stream
  rw [split, List.append_assoc] at stream
  rcases full_read_cases t.reads len with ⟨next, progress, reads, grown⟩ |
    ⟨sizes, failure, progress, header, nothing, -⟩ | ⟨sizes, progress, header, few, some_word, body⟩
  · rw [progress]
    refine ⟨done, t.suspend reads ?_⟩
    rw [grown, List.append_assoc]
    exact stream
  · rw [progress]
    refine ⟨_, t.reject (header_extent header nothing) failure ?_⟩
    rw [List.append_assoc]
    exact stream
  · rw [progress]
    exact ⟨_, t.handOver header few some_word body stream⟩

end CallExtents
