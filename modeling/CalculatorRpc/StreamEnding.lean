import CalculatorRpc.CallExtents

/- A stream of given bytes that may end after its last byte. Node then returns
   what is left of the buffer even when it is shorter than the read asked for,
   and `readBytes` passes that on. The result is exact: which streams make
   `recvMessage` hand over a buffer that is no complete frame. -/
namespace StreamEnding
open LittleEndianWords StreamFraming TcpTransport EventRuns PrefixCodes CallExtents

inductive Delivery where
  | arrive (n : Nat)
  | finish
  | readable
  | resume

/-- All of the stream is in flight from the start; only its arrival, its end and
    the receiver's steps remain to be scheduled. -/
def deliver (l : Link) : Delivery → Option Link
  | .arrive n => l.step (.arrive n)
  | .finish => l.step .finish
  | .readable => l.step .readable
  | .resume => l.step .resume

/-- A position at which a call starts and neither gets its extent nor could hand
    over a complete frame. -/
def Unfinished (tail : Bytes) : Prop := ∀ p, p <+: tail → ¬ CallExtent p ∧ ¬ Complete p

/-- Every buffer handed over is a complete frame, and nothing is handed over of a
    frame that the stream ends in. -/
def HandsOverFrames (s : Bytes) (l : Link) : Prop :=
  (∀ b ∈ l.receiver.handed, Complete b) ∧
    ∀ pieces tail, s = List.flatten pieces ++ tail → (∀ p ∈ pieces, CallExtent p) →
      Unfinished tail → l.receiver.handed.Sublist pieces

/-- Some call meets a complete header and at least one byte of its segments, and
    the bytes it then takes are not as many as the table announces. -/
def CutInSegments (s : Bytes) : Prop :=
  ∃ pieces hdr sizes part, s = List.flatten pieces ++ (hdr ++ part) ∧
    (∀ p ∈ pieces, CallExtent p) ∧ IsHeader hdr sizes ∧ sizes.length < 2 ^ 32 ∧ part ≠ [] ∧
    min part.length (NearestDouble.total sizes * wordSize) ≠ wordSize * sizes.sum

theorem table_never_hands_over (count table : Bytes) (n : Nat) :
    (∃ failure, afterSegmentsSize count n table = .reject failure) ∨
      ∃ read, afterSegmentsSize count n table = .suspend read ∧ read.len ≠ 0 := by
  by_cases huge : 2 ^ 32 ≤ n
  · exact Or.inl ⟨_, by rw [afterSegmentsSize, if_pos huge]⟩
  · cases words : wordsFrom table 0 n with
    | none =>
      exact Or.inl ⟨.outOfRange table.length, by simp only [afterSegmentsSize, if_neg huge, words]⟩
    | some sizes =>
      rw [afterSegmentsSize_table (by omega) words]
      split
      · exact Or.inl ⟨_, rfl⟩
      · rename_i some_word
        refine Or.inr ⟨_, rfl, ?_⟩
        have positive : NearestDouble.total sizes ≠ 0 :=
          fun h => some_word ((NearestDouble.total_zero_iff sizes).mp h)
        simp only [Read.len, wordSize]
        omega

theorem short_read {s : Bytes} {l : Link} {done : List Bytes} (t : OnTrack s l done)
    (drained : l.wire = []) (ended : l.socket.ended = true) (some_left : l.socket.buffered ≠ [])
    (short : l.socket.buffered.length < l.receiver.read.len) :
    ∃ tail, Stopped s { l with
      socket := { l.socket with buffered := [] }
      receiver := l.receiver.settle (proceed l.receiver.read l.socket.buffered) } done tail := by
  have stream := t.stream
  have reads := t.reads
  rw [drained, List.append_nil] at stream
  cases read : l.receiver.read with
  | numSegments =>
    rw [read] at stream short
    rw [proceed, afterNumSegments_short short]
    exact ⟨_, stream, t.extents, Or.inl t.handed, t.taken, ended, rfl, Nat.succ_ne_zero 3⟩
  | segmentsSize count n size =>
    rw [read] at stream
    rw [proceed]
    rcases table_never_hands_over count l.socket.buffered n with ⟨failure, eq⟩ | ⟨next, eq, asks⟩
    · rw [eq]
      exact ⟨_, stream, t.extents, Or.inl t.handed, t.taken, ended, rfl, Nat.succ_ne_zero 3⟩
    · rw [eq]
      exact ⟨_, stream, t.extents, Or.inl t.handed, t.taken, ended, rfl, asks⟩
  | segments count table size =>
    rw [read] at stream short reads
    obtain ⟨sizes, header, few, some_word, eq⟩ := reads
    subst size
    simp only [Read.len] at short
    simp only [held] at stream
    unfold proceed
    have cut : ∀ p, p <+: (count ++ table) ++ l.socket.buffered → ¬ CallExtent p :=
      cut_has_no_extent header (by rw [few_body few]; exact short)
    refine ⟨_, stream, t.extents, Or.inr ⟨l.receiver.handed, rfl, t.handed, cut⟩, ?_, ended, rfl,
      Nat.succ_ne_zero 3⟩
    intro b hb
    rcases List.mem_append.mp hb with old | new
    · exact t.taken b old
    · rw [List.mem_singleton.mp new]
      refine ⟨done, count ++ table, sizes, l.socket.buffered, [], ?_, t.extents, header, few,
        some_left, ?_, rfl⟩
      · rw [List.append_nil]
        exact stream
      · rw [List.append_nil]
        omega

theorem resume_followed {s : Bytes} {l : Link} (f : Followed s l) : Followed s l.resume := by
  rcases resume_cases l with ⟨buf, back, split, len, after⟩ | ⟨short, ended, some_left, after⟩ |
    ⟨_, _, after⟩
  · rcases f.stage with ⟨done, t⟩ | ⟨done, tail, t⟩
    · rw [after]
      exact ⟨f.drained, Or.inl (full_read t split len)⟩
    · rw [t.empty] at split
      have none_taken := (List.append_eq_nil_iff.mp split.symm).1
      rw [none_taken] at len
      exact absurd len.symm t.asks
  · rcases f.stage with ⟨done, t⟩ | ⟨done, tail, t⟩
    · rw [after]
      obtain ⟨tail, stopped⟩ := short_read t (f.drained ended) ended some_left short
      exact ⟨f.drained, Or.inr ⟨done, tail, stopped⟩⟩
    · exact absurd t.empty some_left
  · rw [after]
    refine ⟨f.drained, ?_⟩
    rcases f.stage with ⟨done, t⟩ | ⟨done, tail, t⟩
    · exact Or.inl ⟨done, t.stream, t.extents, t.handed, t.taken, t.reads⟩
    · exact Or.inr ⟨done, tail, t.stream, t.extents, t.handed, t.taken, t.ended, t.empty, t.asks⟩

theorem wake_followed {s : Bytes} {l : Link} (f : Followed s l) : Followed s l.wake := by
  refine ⟨f.drained, ?_⟩
  rcases f.stage with ⟨done, t⟩ | ⟨done, tail, t⟩
  · exact Or.inl ⟨done, t.stream, t.extents, t.handed, t.taken, t.reads⟩
  · exact Or.inr ⟨done, tail, t.stream, t.extents, t.handed, t.taken, t.ended, t.empty, t.asks⟩

theorem deliver_followed (s : Bytes) (l : Link) (e : Delivery) (l' : Link)
    (f : Followed s l) (next : deliver l e = some l') : Followed s l' := by
  cases e with
  | arrive n =>
    simp only [deliver, Link.step] at next
    split at next
    · rename_i bounds
      simp only [Option.some.injEq] at next
      subst l'
      have flying : l.wire ≠ [] := by
        intro empty
        rw [empty] at bounds
        simp only [List.length_nil] at bounds
        omega
      have running : l.socket.ended ≠ true := fun ended => flying (f.drained ended)
      refine ⟨fun ended => absurd ended running, ?_⟩
      rcases f.stage with ⟨done, t⟩ | ⟨done, tail, t⟩
      · refine Or.inl ⟨done, ?_, t.extents, t.handed, t.taken, t.reads⟩
        have stream := t.stream
        simp only [Link.wake]
        rw [List.append_assoc l.socket.buffered, List.take_append_drop]
        exact stream
      · exact absurd t.ended running
    · simp at next
  | finish =>
    simp only [deliver, Link.step] at next
    split at next
    · rename_i bounds
      simp only [Option.some.injEq] at next
      subst l'
      refine ⟨fun _ => bounds.1, ?_⟩
      rcases f.stage with ⟨done, t⟩ | ⟨done, tail, t⟩
      · exact Or.inl ⟨done, t.stream, t.extents, t.handed, t.taken, t.reads⟩
      · exact Or.inr ⟨done, tail, t.stream, t.extents, t.handed, t.taken, rfl, t.empty, t.asks⟩
    · simp at next
  | readable =>
    simp only [deliver, Link.step] at next
    split at next
    · obtain rfl := Option.some.inj next
      exact wake_followed f
    · simp at next
  | resume =>
    simp only [deliver, Link.step] at next
    split at next
    · simp at next
    · simp only [Option.some.injEq] at next
      subst l'
      exact resume_followed f

theorem reachable_followed {s : Bytes} {l : Link} (h : Reachable deliver (Link.opened s) l) :
    Followed s l := by
  refine reachable_invariant (Followed s) ⟨by simp [Link.opened], Or.inl ⟨[], ?_⟩⟩ (deliver_followed s) h
  exact ⟨rfl, by simp, List.Sublist.refl _, by simp [Link.opened, Receiver.start], trivial⟩

theorem taken_complete {s b : Bytes} (taken : TakenFrom s b) (whole : ¬ CutInSegments s) :
    Complete b := by
  obtain ⟨pieces, hdr, sizes, body, back, stream, extents, header, few, some_byte, len, eq⟩ := taken
  subst b
  refine header.append_complete.mpr ?_
  by_contra wrong
  refine whole ⟨pieces, hdr, sizes, body ++ back, stream, extents, header, few, ?_, ?_⟩
  · intro empty
    exact some_byte (List.append_eq_nil_iff.mp empty).1
  · rw [← len]
    exact wrong

theorem whole_stream_hands_over_frames {s : Bytes} (whole : ¬ CutInSegments s) {l : Link}
    (f : Followed s l) : HandsOverFrames s l := by
  have complete : ∀ b ∈ l.receiver.handed, TakenFrom s b → Complete b :=
    fun b _ taken => taken_complete taken whole
  rcases f.stage with ⟨done, t⟩ | ⟨done, tail, t⟩
  · refine ⟨fun b hb => complete b hb (t.taken b hb), ?_⟩
    intro pieces rest stream extents unfinished
    obtain ⟨more, eq, _⟩ := cut_follows extents_prefix_free t.extents extents
      (t.stream.symm.trans stream) (fun p hp => (unfinished p hp).1)
    rw [eq]
    exact t.handed.trans (List.sublist_append_left _ _)
  · refine ⟨fun b hb => complete b hb (t.taken b hb), ?_⟩
    intro pieces rest stream extents unfinished
    obtain ⟨more, eq, left⟩ := cut_follows extents_prefix_free t.extents extents
      (t.stream.symm.trans stream) (fun p hp => (unfinished p hp).1)
    rcases t.handed with sub | ⟨earlier, handed, _, cut⟩
    · rw [eq]
      exact sub.trans (List.sublist_append_left _ _)
    · have frame : Complete tail :=
        complete tail (by simp [handed]) (t.taken tail (by simp [handed]))
      -- The cut buffer was complete after all, so the stream does not end in it.
      cases more with
      | nil =>
        simp only [List.flatten_nil, List.nil_append] at left
        subst rest
        exact absurd frame (unfinished tail (List.prefix_refl _)).2
      | cons q more =>
        rw [List.flatten_cons, List.append_assoc] at left
        exact absurd (extents q (by simp [eq])) (cut q ⟨_, left.symm⟩)

def atEnd (buffered : Bytes) (read : Read) (handed : List Bytes) (rejected : List Failure) : Link :=
  ⟨[], ⟨buffered, true⟩, ⟨read, false, handed, rejected⟩⟩

theorem resume_atEnd {buf back : Bytes} (read : Read) {handed : List Bytes}
    {rejected : List Failure} (len : buf.length = read.len) :
    deliver (atEnd (buf ++ back) read handed rejected) .resume =
      some ⟨[], ⟨back, true⟩, (Receiver.mk read false handed rejected).settle (proceed read buf)⟩ := by
  have enough : read.len ≤ (buf ++ back).length := by rw [List.length_append]; omega
  simp only [deliver, Link.step, atEnd, Link.resume, Socket.read]
  rw [if_neg (by simp), if_pos enough, ← len, List.take_left' rfl, List.drop_left' rfl]

theorem resume_short_atEnd {left : Bytes} (read : Read) {handed : List Bytes}
    {rejected : List Failure} (some_left : left ≠ []) (short : left.length < read.len) :
    deliver (atEnd left read handed rejected) .resume =
      some ⟨[], ⟨[], true⟩, (Receiver.mk read false handed rejected).settle (proceed read left)⟩ := by
  simp only [deliver, Link.step, atEnd, Link.resume, Socket.read]
  rw [if_neg (by simp), if_neg (by omega), if_pos ⟨trivial, some_left⟩]

theorem header_atEnd {start : Link} {hdr rest : Bytes} {sizes : List Nat} {handed : List Bytes}
    {rejected : List Failure} (header : IsHeader hdr sizes)
    (reached : Reachable deliver start (atEnd (hdr ++ rest) .numSegments handed rejected)) :
    (bodyLength sizes = 0 ∧
      ∃ failure, Reachable deliver start (atEnd rest .numSegments handed (rejected ++ [failure]))) ∨
    (sizes.length < 2 ^ 32 ∧ sizes.sum ≠ 0 ∧ ∃ count table, hdr = count ++ table ∧
      Reachable deliver start
        (atEnd rest (.segments count table (NearestDouble.total sizes * wordSize)) handed rejected)) := by
  obtain ⟨c, word, table, len⟩ := header
  have long := headerLength_ge (c + 1)
  have number := wordsFrom_length table
  have front : (hdr.take 4).length = 4 := by rw [List.length_take]; omega
  have back : (hdr.drop 4).length = headerLength (c + 1) - 4 := by rw [List.length_drop]; omega
  have halves : hdr = hdr.take 4 ++ hdr.drop 4 := (List.take_append_drop 4 hdr).symm
  have word' : wordAt (hdr.take 4) 0 = some c := by
    rw [halves, wordAt_append (by omega)] at word
    exact word
  rw [halves, List.append_assoc] at reached
  have counted := reachable_step reached (resume_atEnd .numSegments front)
  rw [proceed, afterNumSegments_full word'] at counted
  have tabled := reachable_step counted
    (resume_atEnd (.segmentsSize (hdr.take 4) (c + 1) (headerLength (c + 1) - 4)) back)
  rw [proceed] at tabled
  by_cases huge : 2 ^ 32 ≤ c + 1
  · unfold afterSegmentsSize at tabled
    rw [if_pos huge] at tabled
    exact Or.inl ⟨if_pos (by omega), _, tabled⟩
  · have few : sizes.length < 2 ^ 32 := by omega
    rw [afterSegmentsSize_table (by omega) table] at tabled
    by_cases empty : sizes.sum = 0
    · rw [if_pos empty] at tabled
      have nothing : bodyLength sizes = 0 := by
        rw [few_body few, (NearestDouble.total_zero_iff sizes).mpr empty, Nat.zero_mul]
      exact Or.inl ⟨nothing, _, tabled⟩
    · rw [if_neg empty] at tabled
      exact Or.inr ⟨few, empty, _, _, halves, tabled⟩

theorem extents_atEnd {start : Link} {pieces : List Bytes} {rest : Bytes} {handed : List Bytes}
    {rejected : List Failure} (extents : ∀ p ∈ pieces, CallExtent p)
    (reached : Reachable deliver start
      (atEnd (List.flatten pieces ++ rest) .numSegments handed rejected)) :
    ∃ handed' rejected', Reachable deliver start (atEnd rest .numSegments handed' rejected') := by
  induction pieces generalizing handed rejected with
  | nil => exact ⟨handed, rejected, reached⟩
  | cons p pieces ih =>
    have others : ∀ q ∈ pieces, CallExtent q := fun q hq => extents q (by simp [hq])
    obtain ⟨hdr, sizes, body, eq, header, len⟩ := extents p (by simp)
    subst p
    rw [List.flatten_cons, List.append_assoc, List.append_assoc] at reached
    rcases header_atEnd header reached with ⟨nothing, failure, next⟩ | ⟨few, _, count, table, _, next⟩
    · have no_body : body = [] := List.length_eq_zero_iff.mp (len.trans nothing)
      rw [no_body] at next
      exact ih others next
    · rw [few_body few] at len
      have done := reachable_step next (resume_atEnd (.segments count table _) len)
      exact ih others done

/-- On a stream that is cut, the receiver does hand over a buffer that is no
    complete frame, in the run where everything arrives before it reads. -/
theorem cut_stream_hands_over {s : Bytes} (cut : CutInSegments s) :
    ∃ l, Reachable deliver (Link.opened s) l ∧ ∃ b ∈ l.receiver.handed, ¬ Complete b := by
  obtain ⟨pieces, hdr, sizes, part, stream, extents, header, few, some_byte, wrong⟩ := cut
  have some_bytes : s ≠ [] := by
    intro empty
    rw [empty] at stream
    have parts := (List.append_eq_nil_iff.mp stream.symm).2
    exact some_byte (List.append_eq_nil_iff.mp parts).2
  have arrived : deliver (Link.opened s) (.arrive s.length) = some ⟨[], ⟨s, false⟩, .start⟩ := by
    have positive := List.length_pos_iff.mpr some_bytes
    simp [deliver, Link.step, Link.opened, Link.wake, Receiver.start, positive]
  have finished : deliver ⟨[], ⟨s, false⟩, .start⟩ .finish = some (atEnd s .numSegments [] []) := by
    simp [deliver, Link.step, Link.wake, Receiver.start, atEnd]
  have reached :=
    reachable_step (reachable_step (reachable_start deliver (Link.opened s)) arrived) finished
  nth_rewrite 2 [stream] at reached
  obtain ⟨handed, rejected, aligned⟩ := extents_atEnd extents reached
  rcases header_atEnd header aligned with ⟨nothing, _⟩ | ⟨_, _, count, table, halves, segments⟩
  · rw [few_body few] at nothing
    have zero : NearestDouble.total sizes = 0 := by simp only [wordSize] at nothing; omega
    have sum := (NearestDouble.total_zero_iff sizes).mp zero
    simp [zero, sum] at wrong
  · by_cases enough : NearestDouble.total sizes * wordSize ≤ part.length
    · rw [← List.take_append_drop (NearestDouble.total sizes * wordSize) part] at segments
      have len : (part.take (NearestDouble.total sizes * wordSize)).length =
          NearestDouble.total sizes * wordSize := by rw [List.length_take]; omega
      refine ⟨_, reachable_step segments (resume_atEnd (.segments count table _) len),
        count ++ table ++ part.take (NearestDouble.total sizes * wordSize),
        by simp [Receiver.settle, proceed], ?_⟩
      rw [← halves, header.append_complete, len]
      omega
    · refine ⟨_, reachable_step segments
          (resume_short_atEnd (.segments count table _) some_byte (by simp only [Read.len]; omega)),
        count ++ table ++ part, by simp [Receiver.settle, proceed], ?_⟩
      rw [← halves, header.append_complete]
      omega

/-- Exactly the streams that are cut inside the segments of a frame make
    `recvMessage` hand over anything but complete frames. -/
theorem hands_over_frames_iff (s : Bytes) :
    (∀ l, Reachable deliver (Link.opened s) l → HandsOverFrames s l) ↔ ¬ CutInSegments s := by
  constructor
  · intro always cut
    obtain ⟨l, reached, b, member, wrong⟩ := cut_stream_hands_over cut
    exact wrong ((always l reached).1 b member)
  · intro whole l reached
    exact whole_stream_hands_over_frames whole (reachable_followed reached)

def cutAfterOneByte : Bytes := [0, 0, 0, 0, 1, 0, 0, 0, 7]

theorem cut_after_one_byte_incomplete : ¬ Complete cutAfterOneByte := by
  rintro ⟨count, sizes, word, table, len⟩
  have zero : count = 0 := (Option.some.inj word).symm
  subst count
  have one : sizes = [1] := (Option.some.inj table).symm
  subst sizes
  exact absurd len (by decide)

theorem cut_after_one_byte_handed_over :
    ¬ ∀ l, Reachable deliver (Link.opened cutAfterOneByte) l → HandsOverFrames cutAfterOneByte l := by
  intro always
  have reached : Reachable deliver (Link.opened cutAfterOneByte)
      ⟨[], ⟨[], true⟩, ⟨.numSegments, false, [cutAfterOneByte], []⟩⟩ :=
    ⟨[.arrive 9, .finish, .resume, .resume, .resume], rfl⟩
  exact cut_after_one_byte_incomplete ((always _ reached).1 cutAfterOneByte (by simp))

end StreamEnding
