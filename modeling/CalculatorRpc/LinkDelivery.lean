import CalculatorRpc.TcpTransport

/- One sender, one stream, one receiver. The sender's messages, the arrivals in
   arbitrary chunks and the receiver's steps interleave freely, and the peer
   does not end the stream here. -/
namespace LinkDelivery
open LittleEndianWords StreamFraming TcpTransport EventRuns

structure Channel where
  link : Link
  sent : List Message

def Channel.opened : Channel := ⟨.opened [], []⟩

inductive Action where
  | sendMessage (m : Message)
  | arrive (n : Nat)
  | readable
  | resume

def Channel.onLink (c : Channel) (e : Event) : Option Channel :=
  (c.link.step e).map fun l => { c with link := l }

def Channel.step (c : Channel) : Action → Option Channel
  | .sendMessage m => (c.link.step (.write m.encode)).map fun l => ⟨l, c.sent ++ [m]⟩
  | .arrive n => c.onLink (.arrive n)
  | .readable => c.onLink .readable
  | .resume => c.onLink .resume

/-- The suspended call is reading the first of the messages still to come. -/
def ReadsFrom : Read → List Message → Prop
  | .numSegments, _ => True
  | .segmentsSize bufNumSegments n len, rest => ∃ m ms, rest = m :: ms ∧
      bufNumSegments = m.countBytes ∧ n = m.segments.length ∧ len = m.tableBytes.length
  | .segments bufNumSegments bufSegmentsSize len, rest => ∃ m ms, rest = m :: ms ∧
      bufNumSegments = m.countBytes ∧ bufSegmentsSize = m.tableBytes ∧ len = m.segmentBytes.length

structure Aligned (c : Channel) (done rest : List Message) : Prop where
  sent : c.sent = done ++ rest
  handed : c.link.receiver.handed = done.map Message.encode
  bytes : held c.link.receiver.read ++ (c.link.socket.buffered ++ c.link.wire) =
    rest.flatMap Message.encode
  reads : ReadsFrom c.link.receiver.read rest
  waits : c.link.receiver.waiting = true →
    c.link.socket.buffered.length < c.link.receiver.read.len
  running : c.link.socket.ended = false
  accepted : c.link.receiver.rejected = []

theorem after_count (m : Message) :
    afterNumSegments m.countBytes =
      .suspend (.segmentsSize m.countBytes m.segments.length m.tableBytes.length) := by
  have some_segment := m.some_segment
  have few := m.few_segments
  have word : wordAt m.countBytes 0 = some (m.segments.length - 1) := by
    have h := wordOf_wordBytes (n := m.segments.length - 1) (by omega) []
    simpa [wordAt, Message.countBytes] using h
  have back : m.segments.length - 1 + 1 = m.segments.length := by omega
  have len := tableBytes_length m
  rw [afterNumSegments_full word, back, ← len, Nat.add_sub_cancel_left]

theorem after_table (m : Message) :
    afterSegmentsSize m.countBytes m.segments.length m.tableBytes =
      .suspend (.segments m.countBytes m.tableBytes m.segmentBytes.length) := by
  have few := m.few_segments
  have some_word := m.some_word
  have table : wordsFrom m.tableBytes 0 m.segments.length = some m.sizes := by
    have h := wordsFrom_table [] m.sizes (sizes_fit m) (padding m.segments.length) 0 rfl
    rwa [List.nil_append, sizes_length] at h
  have exact_sum : NearestDouble.total m.sizes = m.sizes.sum :=
    NearestDouble.total_exact (sizes_sum_small m.sizes (by rw [sizes_length]; exact few) (sizes_fit m))
  have len : m.sizes.sum * wordSize = m.segmentBytes.length := by
    unfold Message.segmentBytes
    rw [segments_length, Nat.mul_comm]
    rfl
  have positive : m.sizes.sum ≠ 0 := by
    simp only [Message.sizes]
    omega
  rw [afterSegmentsSize_table (by omega) table, if_neg positive, exact_sum, len]

theorem next_field {read : Read} {rest : List Message} {stream : Bytes}
    (reads : ReadsFrom read rest) (nonempty : rest ≠ [])
    (bytes : held read ++ stream = rest.flatMap Message.encode) :
    ∃ m ms field back, rest = m :: ms ∧ stream = field ++ back ∧ field.length = read.len ∧
      ((proceed read field = .handOver m.encode ∧ back = ms.flatMap Message.encode) ∨
        ∃ next, proceed read field = .suspend next ∧ ReadsFrom next rest ∧
          held next ++ back = rest.flatMap Message.encode) := by
  cases read with
  | numSegments =>
    obtain ⟨m, ms, eq⟩ := List.exists_cons_of_ne_nil nonempty
    subst rest
    refine ⟨m, ms, m.countBytes, m.tableBytes ++ m.segmentBytes ++ ms.flatMap Message.encode,
      rfl, ?_, rfl, Or.inr ⟨_, after_count m, ⟨m, ms, rfl, rfl, rfl, rfl⟩, ?_⟩⟩
    · simpa [held, Message.encode, List.append_assoc] using bytes
    · simp [held, Message.encode, List.append_assoc]
  | segmentsSize bufNumSegments n len =>
    obtain ⟨m, ms, eq, count, segs, table⟩ := reads
    subst rest; subst bufNumSegments; subst n; subst len
    refine ⟨m, ms, m.tableBytes, m.segmentBytes ++ ms.flatMap Message.encode,
      rfl, ?_, rfl, Or.inr ⟨_, after_table m, ⟨m, ms, rfl, rfl, rfl, rfl⟩, ?_⟩⟩
    · simpa [held, Message.encode, List.append_assoc] using bytes
    · simp [held, Message.encode, List.append_assoc]
  | segments bufNumSegments bufSegmentsSize len =>
    obtain ⟨m, ms, eq, count, table, total⟩ := reads
    subst rest; subst bufNumSegments; subst bufSegmentsSize; subst len
    refine ⟨m, ms, m.segmentBytes, ms.flatMap Message.encode, rfl, ?_, rfl, Or.inl ⟨rfl, rfl⟩⟩
    simpa [held, Message.encode, List.append_assoc] using bytes

theorem reads_append {read : Read} {rest : List Message} (more : List Message)
    (h : ReadsFrom read rest) : ReadsFrom read (rest ++ more) := by
  cases read with
  | numSegments => trivial
  | segmentsSize bufNumSegments n len =>
    obtain ⟨m, ms, eq, facts⟩ := h
    subst rest
    exact ⟨m, ms ++ more, rfl, facts⟩
  | segments bufNumSegments bufSegmentsSize len =>
    obtain ⟨m, ms, eq, facts⟩ := h
    subst rest
    exact ⟨m, ms ++ more, rfl, facts⟩

theorem read_len_positive {read : Read} {rest : List Message} (h : ReadsFrom read rest) :
    0 < read.len := by
  cases read with
  | numSegments => decide
  | segmentsSize bufNumSegments n len =>
    obtain ⟨m, _, _, _, _, table⟩ := h
    have len := tableBytes_length m
    have some_segment := m.some_segment
    simp only [headerLength] at len
    simp only [Read.len, table]
    omega
  | segments bufNumSegments bufSegmentsSize len =>
    obtain ⟨m, _, _, _, _, total⟩ := h
    have word := m.some_word
    simp only [Read.len, total, Message.segmentBytes, segments_length, wordSize]
    omega

theorem resume_aligned {c : Channel} {done rest : List Message} (a : Aligned c done rest) :
    ∃ done' rest', Aligned { c with link := c.link.resume } done' rest' := by
  have positive := read_len_positive a.reads
  have running := a.running
  rcases resume_cases c.link with ⟨buf, back, split, len, after⟩ | ⟨_, ended, _⟩ | ⟨short, _, after⟩
  · have bytes := a.bytes
    have nonempty : rest ≠ [] := by
      intro empty
      subst rest
      have total := congrArg List.length bytes
      rw [split] at total
      simp only [List.length_append, List.flatMap_nil, List.length_nil] at total
      omega
    obtain ⟨m, ms, field, behind, eq, stream, fieldLen, next⟩ := next_field a.reads nonempty bytes
    rw [split, List.append_assoc] at stream
    obtain ⟨same, dropped⟩ := List.append_inj stream (by omega)
    subst buf
    have awake : c.link.receiver.waiting ≠ true := by
      intro waiting
      have := a.waits waiting
      rw [split, List.length_append] at this
      omega
    rcases next with ⟨finished, rfl⟩ | ⟨following, suspended, reads, bytes'⟩
    · refine ⟨done ++ [m], ms, ?_⟩
      rw [after, finished]
      exact
        { sent := by simp [a.sent, eq]
          handed := by simp [Receiver.settle, a.handed]
          bytes := by simpa [Receiver.settle, held] using dropped
          reads := trivial
          waits := fun waiting => absurd waiting awake
          running := running
          accepted := a.accepted }
    · refine ⟨done, rest, ?_⟩
      rw [after, suspended]
      exact
        { sent := a.sent
          handed := a.handed
          bytes := by simpa [Receiver.settle, dropped] using bytes'
          reads := reads
          waits := fun waiting => absurd waiting awake
          running := running
          accepted := a.accepted }
  · simp [running] at ended
  · refine ⟨done, rest, ?_⟩
    rw [after]
    exact
      { sent := a.sent
        handed := a.handed
        bytes := a.bytes
        reads := a.reads
        waits := fun _ => short
        running := running
        accepted := a.accepted }

theorem send_aligned {c : Channel} {done rest : List Message} (m : Message)
    (a : Aligned c done rest) :
    Aligned ⟨{ c.link with wire := c.link.wire ++ m.encode }, c.sent ++ [m]⟩ done (rest ++ [m]) :=
  { sent := by simp [a.sent]
    handed := a.handed
    bytes := by
      have bytes := a.bytes
      rw [List.flatMap_append, ← bytes]
      simp [List.append_assoc]
    reads := reads_append [m] a.reads
    waits := a.waits
    running := a.running
    accepted := a.accepted }

theorem arrive_aligned {c : Channel} {done rest : List Message} (n : Nat)
    (a : Aligned c done rest) :
    Aligned { c with link := Link.wake { c.link with
      wire := c.link.wire.drop n
      socket := { c.link.socket with
        buffered := c.link.socket.buffered ++ c.link.wire.take n } } } done rest :=
  { sent := a.sent
    handed := a.handed
    bytes := by
      have bytes := a.bytes
      rw [← bytes]
      simp [Link.wake, List.append_assoc]
    reads := a.reads
    waits := by simp [Link.wake]
    running := a.running
    accepted := a.accepted }

theorem wake_aligned {c : Channel} {done rest : List Message} (a : Aligned c done rest) :
    Aligned { c with link := c.link.wake } done rest :=
  { sent := a.sent
    handed := a.handed
    bytes := a.bytes
    reads := a.reads
    waits := by simp [Link.wake]
    running := a.running
    accepted := a.accepted }

theorem step_aligned (c : Channel) (e : Action) (c' : Channel)
    (h : ∃ done rest, Aligned c done rest) (next : c.step e = some c') :
    ∃ done rest, Aligned c' done rest := by
  obtain ⟨done, rest, a⟩ := h
  have running := a.running
  cases e with
  | sendMessage m =>
    simp [Channel.step, Link.step, running] at next
    subst c'
    exact ⟨done, rest ++ [m], send_aligned m a⟩
  | arrive n =>
    simp only [Channel.step, Channel.onLink, Link.step] at next
    split at next
    · simp only [Option.map_some, Option.some.injEq] at next
      subst c'
      exact ⟨done, rest, arrive_aligned n a⟩
    · simp at next
  | readable =>
    simp only [Channel.step, Channel.onLink, Link.step] at next
    split at next
    · simp only [Option.map_some, Option.some.injEq] at next
      subst c'
      exact ⟨done, rest, wake_aligned a⟩
    · simp at next
  | resume =>
    simp only [Channel.step, Channel.onLink, Link.step] at next
    split at next
    · simp at next
    · simp only [Option.map_some, Option.some.injEq] at next
      subst c'
      exact resume_aligned a

theorem opened_aligned : Aligned Channel.opened [] [] :=
  { sent := rfl
    handed := rfl
    bytes := rfl
    reads := trivial
    waits := by simp [Channel.opened, Link.opened, Receiver.start]
    running := rfl
    accepted := rfl }

theorem reachable_aligned {c : Channel} (h : Reachable Channel.step Channel.opened c) :
    ∃ done rest, Aligned c done rest :=
  reachable_invariant (fun c => ∃ done rest, Aligned c done rest) ⟨[], [], opened_aligned⟩
    step_aligned h

/-- A receiver that awaits more bytes when none are in flight has nothing left
    of the sent messages to read. -/
theorem rest_empty {c : Channel} {done rest : List Message} (a : Aligned c done rest)
    (arrived : c.link.wire = []) (idle : c.link.receiver.waiting = true) : rest = [] := by
  by_contra nonempty
  obtain ⟨m, ms, field, back, _, stream, len, _⟩ := next_field a.reads nonempty a.bytes
  have short := a.waits idle
  have total := congrArg List.length stream
  rw [arrived, List.append_nil, List.length_append] at total
  omega

/-- Whatever the interleaving, the buffers handed to `new Message` are the first
    of the sent encodings, and all of them once every byte has arrived and the
    receiver can take no further step. -/
theorem channel_delivers_in_order (c : Channel) (h : Reachable Channel.step Channel.opened c) :
    c.link.receiver.handed <+: c.sent.map Message.encode ∧
      (c.link.wire = [] → c.step .resume = none →
        c.link.receiver.handed = c.sent.map Message.encode) := by
  obtain ⟨done, rest, a⟩ := reachable_aligned h
  constructor
  · rw [a.handed, a.sent, List.map_append]
    exact List.prefix_append _ _
  · intro arrived stuck
    have idle : c.link.receiver.waiting = true := by
      by_contra awake
      simp [Channel.step, Channel.onLink, Link.step, awake] at stuck
    have empty := rest_empty a arrived idle
    rw [a.handed, a.sent, empty, List.append_nil]

def oneWord : Message :=
  ⟨[⟨[1, 2, 3, 4, 5, 6, 7, 8], 1, rfl, by decide⟩], by decide, by decide, by decide⟩

def oneWordArrived : Channel :=
  ⟨⟨[], ⟨[], false⟩, ⟨.numSegments, true, [oneWord.encode], []⟩⟩, [oneWord]⟩

theorem one_word_delivered :
    Reachable Channel.step Channel.opened oneWordArrived ∧
      oneWordArrived.link.receiver.handed = oneWordArrived.sent.map Message.encode := by
  have reached : Reachable Channel.step Channel.opened oneWordArrived :=
    ⟨[.sendMessage oneWord, .arrive 8, .resume, .resume, .resume, .arrive 8, .resume, .resume], rfl⟩
  exact ⟨reached, (channel_delivers_in_order oneWordArrived reached).2 rfl rfl⟩

end LinkDelivery
