import CalculatorRpc.CallExtents

/- One call of `recvMessage` on arbitrary bytes. The stream stays open, its bytes
   arrive in any chunks and `readable` may come at any time; the receiver is stopped
   when its first call is over. -/
namespace FrameAcceptance
open LittleEndianWords StreamFraming TcpTransport EventRuns CallExtents

def Frame (sizes : List Nat) (p : Bytes) : Prop :=
  ∃ hdr body, p = hdr ++ body ∧ IsHeader hdr sizes ∧ body.length = wordSize * sizes.sum

/-- Every sum of that many sizes is exact in binary64. -/
def FewSegments (s : Bytes) : Prop := ∀ count, wordAt s 0 = some count → count + 1 ≤ 2 ^ 21

def Over (l : Link) : Prop := l.receiver.handed ≠ [] ∨ l.receiver.rejected ≠ []

instance : DecidablePred Over := fun l =>
  inferInstanceAs (Decidable (l.receiver.handed ≠ [] ∨ l.receiver.rejected ≠ []))

inductive Turn where
  | arrive (n : Nat)
  | readable
  | resume

def recvOnce (l : Link) : Turn → Option Link
  | .arrive n => l.step (.arrive n)
  | .readable => if Over l then none else l.step .readable
  | .resume => if Over l then none else l.step .resume

/-- Everything has arrived and the call does nothing until it is woken. -/
def Stuck (l : Link) : Prop := l.wire = [] ∧ recvOnce l .resume = none

theorem frames_unique {sizes sizes' : List Nat} {p p' x y : Bytes} (f : Frame sizes p)
    (f' : Frame sizes' p') (same : p ++ x = p' ++ y) : p = p' ∧ sizes = sizes' := by
  obtain ⟨hdr, body, eq, header, len⟩ := f
  obtain ⟨hdr', body', eq', header', len'⟩ := f'
  subst p; subst p'
  rw [List.append_assoc, List.append_assoc] at same
  obtain ⟨headers, tables⟩ := header_unique header header' same
  subst hdr'; subst sizes'
  obtain ⟨bodies, _⟩ := List.append_inj (List.append_cancel_left same) (len.trans len'.symm)
  rw [bodies]
  exact ⟨rfl, rfl⟩

theorem header_exact {s hdr rest : Bytes} {sizes : List Nat} (few : FewSegments s)
    (stream : s = hdr ++ rest) (header : IsHeader hdr sizes) :
    sizes.length < 2 ^ 32 ∧ NearestDouble.total sizes = sizes.sum := by
  obtain ⟨count, word, table, len⟩ := header
  have long := headerLength_ge (count + 1)
  have number := wordsFrom_length table
  have bound := few count (by rw [stream, wordAt_append (by omega), word])
  refine ⟨by omega, NearestDouble.total_exact (sizes_sum_small sizes (by omega) (wordsFrom_lt table))⟩

structure Underway (s : Bytes) (l : Link) : Prop where
  handed : l.receiver.handed = []
  rejected : l.receiver.rejected = []
  stream : s = held l.receiver.read ++ (l.socket.buffered ++ l.wire)
  reads : ReadOk l.receiver.read
  waits : l.receiver.waiting = true → l.socket.buffered.length < l.receiver.read.len

structure Done (s : Bytes) (l : Link) (sizes : List Nat) (p : Bytes) : Prop where
  frame : Frame sizes p
  stream : s = p ++ (l.socket.buffered ++ l.wire)
  fresh : l.receiver.read = .numSegments
  handed : l.receiver.handed = if sizes.sum = 0 then [] else [p]
  rejected : l.receiver.rejected = if sizes.sum = 0 then [.invalidReadLength 0] else []

structure Tracked (s : Bytes) (l : Link) : Prop where
  running : l.socket.ended = false
  stage : Underway s l ∨ ∃ sizes p, Done s l sizes p

theorem Underway.suspend {s : Bytes} {l : Link} {back : Bytes} (u : Underway s l)
    (awake : l.receiver.waiting = false) {read : Read} (reads : ReadOk read)
    (stream : s = held read ++ (back ++ l.wire)) :
    Underway s { l with
      socket := { l.socket with buffered := back }
      receiver := l.receiver.settle (.suspend read) } :=
  { handed := u.handed
    rejected := u.rejected
    stream := stream
    reads := reads
    waits := fun waiting => absurd (awake.symm.trans waiting) (by simp) }

theorem full_read_tracked {s : Bytes} {l : Link} {buf back : Bytes} (few : FewSegments s)
    (running : l.socket.ended = false) (u : Underway s l) (awake : l.receiver.waiting = false)
    (split : l.socket.buffered = buf ++ back) (len : buf.length = l.receiver.read.len) :
    Tracked s { l with
      socket := { l.socket with buffered := back }
      receiver := l.receiver.settle (proceed l.receiver.read buf) } := by
  refine ⟨running, ?_⟩
  have stream := u.stream
  rw [split, List.append_assoc] at stream
  rcases full_read_cases u.reads len with ⟨next, progress, reads, grown⟩ |
    ⟨sizes, failure, progress, header, -, why⟩ | ⟨sizes, progress, header, -, some_word, body⟩
  · rw [progress]
    refine Or.inl (u.suspend awake reads ?_)
    rw [grown, List.append_assoc]
    exact stream
  · rw [← List.append_assoc] at stream
    obtain ⟨empty, eq⟩ := why (header_exact few stream header).1
    rw [progress, eq]
    refine Or.inr ⟨sizes, held l.receiver.read ++ buf, ?_, stream, rfl, ?_, ?_⟩
    · exact ⟨_, [], (List.append_nil _).symm, header, by rw [empty]; rfl⟩
    · rw [if_pos empty]
      exact u.handed
    · simp only [if_pos empty, Receiver.settle, u.rejected, List.nil_append]
  · have exact_sum := (header_exact few stream header).2
    rw [exact_sum, Nat.mul_comm] at body
    rw [progress]
    refine Or.inr ⟨sizes, held l.receiver.read ++ buf, ⟨_, buf, rfl, header, body⟩, ?_, rfl, ?_, ?_⟩
    · rw [List.append_assoc]
      exact stream
    · simp only [if_neg some_word, Receiver.settle, u.handed, List.nil_append]
    · rw [if_neg some_word]
      exact u.rejected

theorem underway_not_over {s : Bytes} {l : Link} (u : Underway s l) : ¬ Over l := by
  rintro (some_message | some_failure)
  · exact some_message u.handed
  · exact some_failure u.rejected

theorem done_over {s : Bytes} {l : Link} {sizes : List Nat} {p : Bytes} (d : Done s l sizes p) :
    Over l := by
  by_cases empty : sizes.sum = 0
  · have failure := d.rejected
    rw [if_pos empty] at failure
    exact Or.inr (by rw [failure]; simp)
  · have message := d.handed
    rw [if_neg empty] at message
    exact Or.inl (by rw [message]; simp)

theorem arrive_tracked {s : Bytes} {l : Link} (tracked : Tracked s l) (n : Nat) :
    Tracked s { l with
      wire := l.wire.drop n
      socket := { l.socket with buffered := l.socket.buffered ++ l.wire.take n } }.wake := by
  have kept : l.socket.buffered ++ l.wire.take n ++ l.wire.drop n = l.socket.buffered ++ l.wire := by
    rw [List.append_assoc, List.take_append_drop]
  refine ⟨tracked.running, ?_⟩
  rcases tracked.stage with u | ⟨sizes, p, d⟩
  · refine Or.inl ⟨u.handed, u.rejected, ?_, u.reads, by simp [Link.wake]⟩
    simp only [Link.wake]
    rw [kept]
    exact u.stream
  · refine Or.inr ⟨sizes, p, d.frame, ?_, d.fresh, d.handed, d.rejected⟩
    simp only [Link.wake]
    rw [kept]
    exact d.stream

theorem Underway.wake {s : Bytes} {l : Link} (u : Underway s l) : Underway s l.wake :=
  ⟨u.handed, u.rejected, u.stream, u.reads, by simp [Link.wake]⟩

theorem resume_tracked {s : Bytes} (few : FewSegments s) {l : Link} (running : l.socket.ended = false)
    (u : Underway s l) (awake : l.receiver.waiting = false) : Tracked s l.resume := by
  rcases resume_cases l with ⟨buf, back, split, len, after⟩ | ⟨_, ended, _⟩ | ⟨short, _, after⟩
  · rw [after]
    exact full_read_tracked few running u awake split len
  · exact absurd (running.symm.trans ended) (by simp)
  · rw [after]
    exact ⟨running, Or.inl ⟨u.handed, u.rejected, u.stream, u.reads, fun _ => short⟩⟩

theorem recvOnce_cases {l l' : Link} {t : Turn} (next : recvOnce l t = some l') :
    (∃ n, t = .arrive n ∧ 0 < n ∧ n ≤ l.wire.length ∧ l' = { l with
      wire := l.wire.drop n
      socket := { l.socket with buffered := l.socket.buffered ++ l.wire.take n } }.wake) ∨
    (t = .readable ∧ ¬ Over l ∧ l.receiver.waiting = true ∧ l' = l.wake) ∨
    (t = .resume ∧ ¬ Over l ∧ l.receiver.waiting = false ∧ l' = l.resume) := by
  cases t with
  | arrive n =>
    simp only [recvOnce, Link.step] at next
    split at next
    · rename_i bounds
      exact Or.inl ⟨n, rfl, bounds.1, bounds.2, (Option.some.inj next).symm⟩
    · simp at next
  | readable =>
    simp only [recvOnce, Link.step] at next
    split at next
    · simp at next
    · rename_i going
      split at next
      · rename_i waiting
        exact Or.inr (Or.inl ⟨rfl, going, waiting, (Option.some.inj next).symm⟩)
      · simp at next
  | resume =>
    simp only [recvOnce, Link.step] at next
    split at next
    · simp at next
    · rename_i going
      split at next
      · simp at next
      · rename_i awake
        exact Or.inr (Or.inr ⟨rfl, going, by simpa using awake, (Option.some.inj next).symm⟩)

theorem recvOnce_tracked {s : Bytes} (few : FewSegments s) (l : Link) (t : Turn) (l' : Link)
    (tracked : Tracked s l) (next : recvOnce l t = some l') : Tracked s l' := by
  rcases recvOnce_cases next with ⟨n, -, -, -, after⟩ | ⟨-, going, -, after⟩ | ⟨-, going, awake, after⟩
  · subst l'
    exact arrive_tracked tracked n
  · subst l'
    rcases tracked.stage with u | ⟨sizes, p, d⟩
    · exact ⟨tracked.running, Or.inl u.wake⟩
    · exact absurd (done_over d) going
  · subst l'
    rcases tracked.stage with u | ⟨sizes, p, d⟩
    · exact resume_tracked few tracked.running u awake
    · exact absurd (done_over d) going

theorem opened_tracked (s : Bytes) : Tracked s (Link.opened s) :=
  ⟨rfl, Or.inl ⟨rfl, rfl, rfl, trivial, by simp [Link.opened, Receiver.start]⟩⟩

/-- A call that waits with everything arrived has met no frame. -/
theorem short_has_no_frame {s : Bytes} (few : FewSegments s) {l : Link} (u : Underway s l)
    (arrived : l.wire = []) (short : l.socket.buffered.length < l.receiver.read.len)
    {sizes : List Nat} {p rest : Bytes} (split : s = p ++ rest) : ¬ Frame sizes p := by
  rintro ⟨hdr, body, eq, header, len⟩
  subst p
  have stream := u.stream
  have reads := u.reads
  rw [arrived, List.append_nil] at stream
  rw [List.append_assoc] at split
  cases read : l.receiver.read with
  | numSegments =>
    rw [read] at stream short
    obtain ⟨c, -, -, full⟩ := header
    have long := headerLength_ge (c + 1)
    have lengths := congrArg List.length (stream.symm.trans split)
    simp only [held, Read.len, List.length_append, List.length_nil] at lengths short
    omega
  | segmentsSize count n size =>
    rw [read] at stream short reads
    obtain ⟨c, word, -, full⟩ := header
    obtain ⟨c', four, word', eq, table⟩ := reads
    have long := headerLength_ge (c + 1)
    have first : wordAt s 0 = some c := by rw [split, wordAt_append (by omega), word]
    have first' : wordAt s 0 = some c' := by
      rw [stream, held, wordAt_append (by omega), word']
    have counts : c = c' := Option.some.inj (first.symm.trans first')
    subst c'; subst n
    have lengths := congrArg List.length (stream.symm.trans split)
    simp only [held, Read.len, List.length_append] at lengths short
    omega
  | segments count table size =>
    rw [read] at stream short reads
    obtain ⟨sizes', header', -, -, eq⟩ := reads
    have exact_sum := (header_exact few stream header').2
    obtain ⟨headers, tables⟩ := header_unique header header' (split.symm.trans stream)
    subst sizes'; subst hdr
    have bodies := congrArg List.length (List.append_cancel_left (split.symm.trans stream))
    simp only [Read.len, eq, exact_sum, List.length_append, wordSize] at bodies short len
    omega

theorem stuck_cases {l : Link} (stuck : Stuck l) :
    l.wire = [] ∧ (Over l ∨ l.receiver.waiting = true) := by
  refine ⟨stuck.1, ?_⟩
  by_contra going
  rw [not_or] at going
  have resumes := stuck.2
  simp [recvOnce, Link.step, going.1, going.2] at resumes

theorem tracked_in_range {s : Bytes} {l : Link} (tracked : Tracked s l) (length : Nat) :
    .outOfRange length ∉ l.receiver.rejected := by
  rcases tracked.stage with u | ⟨sizes, p, d⟩
  · rw [u.rejected]
    exact List.not_mem_nil
  · rw [d.rejected]
    split <;> simp

theorem tracked_stuck_over {s : Bytes} (few : FewSegments s) {l : Link} (tracked : Tracked s l)
    {p rest : Bytes} {sizes : List Nat} (split : s = p ++ rest) (frame : Frame sizes p)
    (stuck : Stuck l) : Over l := by
  rcases tracked.stage with u | ⟨_, _, d⟩
  · obtain ⟨arrived, finished | waiting⟩ := stuck_cases stuck
    · exact finished
    · exact absurd frame (short_has_no_frame few u arrived (u.waits waiting) split)
  · exact done_over d

def readsLeft : Read → Nat
  | .numSegments => 3
  | .segmentsSize _ _ _ => 2
  | .segments _ _ _ => 1

theorem readsLeft_le (read : Read) : readsLeft read ≤ 3 := by
  cases read <;> simp [readsLeft]

theorem readsLeft_pos (read : Read) : 0 < readsLeft read := by
  cases read <;> simp [readsLeft]

theorem readBytes_suspend {read next : Read} (h : readBytes read = .suspend next) : next = read := by
  unfold readBytes at h
  split at h
  · simp at h
  · exact (Progress.suspend.inj h).symm

theorem readsLeft_lower {read next : Read} {buf : Bytes} (h : proceed read buf = .suspend next) :
    readsLeft next < readsLeft read := by
  cases read with
  | numSegments =>
    simp only [proceed, afterNumSegments] at h
    split at h
    · simp at h
    · split at h
      all_goals
        rw [readBytes_suspend h]
        simp [readsLeft]
  | segmentsSize count n size =>
    simp only [proceed, afterSegmentsSize] at h
    split at h
    · simp at h
    · split at h
      · simp at h
      · rw [readBytes_suspend h]
        simp [readsLeft]
  | segments count table size => simp [proceed] at h

theorem resume_lowers {s : Bytes} (few : FewSegments s) {l : Link} (running : l.socket.ended = false)
    (u : Underway s l) (awake : l.receiver.waiting = false) :
    (l.resume.receiver.waiting = true ∧ l.socket.buffered.length < l.receiver.read.len) ∨ Over l.resume ∨
      (Underway s l.resume ∧ l.resume.receiver.waiting = false ∧
        readsLeft l.resume.receiver.read < readsLeft l.receiver.read) := by
  have tracked := resume_tracked few running u awake
  rcases tracked.stage with still | ⟨sizes, p, d⟩
  · rcases resume_cases l with ⟨buf, back, split, len, after⟩ | ⟨_, ended, _⟩ | ⟨short, _, after⟩
    · have going := underway_not_over still
      rw [after] at going still ⊢
      cases progress : proceed l.receiver.read buf with
      | suspend next =>
        rw [progress] at still
        exact Or.inr (Or.inr ⟨still, awake, readsLeft_lower progress⟩)
      | handOver messageBuf => simp [Over, progress, Receiver.settle] at going
      | reject failure => simp [Over, progress, Receiver.settle] at going
    · exact absurd (running.symm.trans ended) (by simp)
    · rw [after]
      exact Or.inl ⟨rfl, short⟩
  · exact Or.inr (Or.inl (done_over d))

theorem resume_wire (l : Link) : l.resume.wire = l.wire := by
  unfold Link.resume
  split <;> rfl

def callLeft (l : Link) : Nat := if Over l then 0 else readsLeft l.receiver.read

/-- Once everything has arrived, a call that meets a frame ends after its reads. -/
theorem reads_end_the_call {s : Bytes} (few : FewSegments s) {p rest : Bytes} {sizes : List Nat}
    (split : s = p ++ rest) (frame : Frame sizes p) {l : Link} (tracked : Tracked s l)
    (arrived : l.wire = []) {us : List Turn} {l' : Link} (ran : run recvOnce l us = some l') :
    us.length ≤ 3 := by
  have lower : ∀ l t l', (Tracked s l ∧ l.wire = []) → recvOnce l t = some l' →
      (Tracked s l' ∧ l'.wire = []) ∧ callLeft l' < callLeft l := by
    rintro l t l' ⟨tracked, arrived⟩ next
    have tracked' := recvOnce_tracked few l t l' tracked next
    rcases recvOnce_cases next with ⟨n, -, some_bytes, enough, -⟩ | ⟨-, going, waiting, -⟩ |
      ⟨-, going, awake, after⟩
    · rw [arrived, List.length_nil] at enough
      omega
    · rcases tracked.stage with u | ⟨_, _, d⟩
      · exact absurd frame (short_has_no_frame few u arrived (u.waits waiting) split)
      · exact absurd (done_over d) going
    · subst l'
      refine ⟨⟨tracked', (resume_wire l).trans arrived⟩, ?_⟩
      rcases tracked.stage with u | ⟨_, _, d⟩
      · simp only [callLeft, if_neg going]
        rcases resume_lowers few tracked.running u awake with ⟨-, short⟩ | finished | ⟨u', -, fewer⟩
        · exact absurd frame (short_has_no_frame few u arrived short split)
        · rw [if_pos finished]
          exact readsLeft_pos _
        · rw [if_neg (underway_not_over u')]
          exact fewer
      · exact absurd (done_over d) going
  have bounded := run_bounded (fun l => Tracked s l ∧ l.wire = []) callLeft lower ⟨tracked, arrived⟩ ran
  have most : callLeft l ≤ 3 := by
    unfold callLeft
    split
    · exact Nat.zero_le 3
    · exact readsLeft_le _
  omega

theorem reads_end_in_waiting {s : Bytes} (few : FewSegments s)
    (no_frame : ∀ p rest sizes, s = p ++ rest → ¬ Frame sizes p) {l : Link} (tracked : Tracked s l) :
    ∃ k ≤ readsLeft l.receiver.read, ∃ l',
      run recvOnce l (List.replicate k .resume) = some l' ∧ l'.receiver.waiting = true := by
  have underway : ∀ l, Tracked s l → Underway s l := by
    intro l tracked
    rcases tracked.stage with u | ⟨sizes, p, d⟩
    · exact u
    · exact absurd d.frame (no_frame p _ sizes d.stream)
  induction bound : readsLeft l.receiver.read using Nat.strong_induction_on generalizing l with
  | _ left ih =>
    cases awake : l.receiver.waiting with
    | true => exact ⟨0, Nat.zero_le _, l, rfl, awake⟩
    | false =>
      have u := underway l tracked
      have step : recvOnce l .resume = some l.resume := by
        simp [recvOnce, Link.step, underway_not_over u, awake]
      have tracked' := resume_tracked few tracked.running u awake
      have positive := readsLeft_pos l.receiver.read
      rcases resume_lowers few tracked.running u awake with ⟨waiting, -⟩ | finished | ⟨-, -, fewer⟩
      · exact ⟨1, by omega, l.resume, by simp [run, step], waiting⟩
      · exact absurd finished (underway_not_over (underway _ tracked'))
      · obtain ⟨k, most, l', ran, waiting⟩ := ih _ (bound ▸ fewer) tracked' rfl
        refine ⟨k + 1, by omega, l', ?_, waiting⟩
        rw [List.replicate_succ, run, step]
        exact ran

theorem tracked_over {s : Bytes} {l : Link} (tracked : Tracked s l) {p rest : Bytes}
    {sizes : List Nat} (split : s = p ++ rest) (frame : Frame sizes p) (finished : Over l) :
    Done s l sizes p := by
  rcases tracked.stage with u | ⟨sizes', p', d⟩
  · exact absurd finished (underway_not_over u)
  · obtain ⟨frames, tables⟩ := frames_unique d.frame frame (d.stream.symm.trans split)
    subst p'; subst sizes'
    exact d

/-- On an open stream `recvMessage` takes exactly the frame that the stream begins
    with. It hands the frame over unless its segments are empty, and then rejects;
    the next call starts right behind it. Where the stream begins with no frame,
    the call waits. Once all bytes have arrived three reads are enough for either,
    and no word is read outside its buffer. -/
theorem takes_exactly_the_frame (s : Bytes) (few : FewSegments s) :
    (∀ p rest sizes p' rest' sizes', s = p ++ rest → Frame sizes p → s = p' ++ rest' →
      Frame sizes' p' → p = p' ∧ sizes = sizes') ∧
    ∀ ts l, run recvOnce (Link.opened s) ts = some l →
      (∀ length, .outOfRange length ∉ l.receiver.rejected) ∧
      (∀ p rest sizes, s = p ++ rest → Frame sizes p →
        (Stuck l → Over l) ∧
        (l.wire = [] → ∀ us l', run recvOnce l us = some l' → us.length ≤ 3) ∧
        (Over l → l.receiver.read = .numSegments ∧ l.socket.buffered ++ l.wire = rest ∧
          (0 < sizes.sum → l.receiver.handed = [p] ∧ l.receiver.rejected = []) ∧
          (sizes.sum = 0 → l.receiver.handed = [] ∧ l.receiver.rejected = [.invalidReadLength 0]))) ∧
      ((∀ p rest sizes, s = p ++ rest → ¬ Frame sizes p) →
        l.receiver.handed = [] ∧ l.receiver.rejected = [] ∧
        (Stuck l → l.receiver.waiting = true) ∧
        ∃ k ≤ 3, ∃ l', run recvOnce l (List.replicate k .resume) = some l' ∧
          l'.receiver.waiting = true) := by
  refine ⟨?_, fun ts l ran => ?_⟩
  · intro p rest sizes p' rest' sizes' split frame split' frame'
    exact frames_unique frame frame' (split.symm.trans split')
  have tracked : Tracked s l :=
    reachable_invariant (Tracked s) (opened_tracked s) (recvOnce_tracked few) ⟨ts, ran⟩
  refine ⟨tracked_in_range tracked, ?_, ?_⟩
  · intro p rest sizes split frame
    refine ⟨tracked_stuck_over few tracked split frame, fun arrived us l' more =>
      reads_end_the_call few split frame tracked arrived more, fun finished => ?_⟩
    have done := tracked_over tracked split frame finished
    refine ⟨done.fresh, List.append_cancel_left (done.stream.symm.trans split), ?_, ?_⟩
    · intro positive
      have some_word : sizes.sum ≠ 0 := by omega
      rw [done.handed, done.rejected, if_neg some_word, if_neg some_word]
      exact ⟨rfl, rfl⟩
    · intro empty
      rw [done.handed, done.rejected, if_pos empty, if_pos empty]
      exact ⟨rfl, rfl⟩
  · intro no_frame
    rcases tracked.stage with u | ⟨sizes, p, d⟩
    · refine ⟨u.handed, u.rejected, fun stuck => ?_, ?_⟩
      · exact (stuck_cases stuck).2.resolve_left (underway_not_over u)
      · obtain ⟨k, most, waits⟩ := reads_end_in_waiting few no_frame tracked
        exact ⟨k, most.trans (readsLeft_le _), waits⟩
    · exact absurd d.frame (no_frame p _ sizes d.stream)

/-- Two segments, of one word and of none, with padding that is not zero. -/
def twoSegments : Bytes := [1, 0, 0, 0, 1, 0, 0, 0, 0, 0, 0, 0, 9, 9, 9, 9, 1, 2, 3, 4, 5, 6, 7, 8]

theorem twoSegments_frame : Frame [1, 0] twoSegments :=
  ⟨twoSegments.take 16, twoSegments.drop 16, by decide, ⟨1, by decide, by decide, by decide⟩, by decide⟩

theorem two_segments_taken :
    FewSegments (twoSegments ++ [5]) ∧ Frame [1, 0] twoSegments ∧
    ∀ ts l, run recvOnce (Link.opened (twoSegments ++ [5])) ts = some l →
      (Stuck l → Over l) ∧
      (l.wire = [] → ∀ us l', run recvOnce l us = some l' → us.length ≤ 3) ∧
      (Over l → l.socket.buffered ++ l.wire = [5] ∧ l.receiver.handed = [twoSegments]) := by
  have few : FewSegments (twoSegments ++ [5]) := by
    intro count word
    have one : count = 1 := (Option.some.inj word).symm
    subst count
    decide
  refine ⟨few, twoSegments_frame, fun ts l ran => ?_⟩
  obtain ⟨-, taken, -⟩ := (takes_exactly_the_frame (twoSegments ++ [5]) few).2 ts l ran
  obtain ⟨ends, reads, finished⟩ := taken twoSegments [5] [1, 0] rfl twoSegments_frame
  refine ⟨ends, reads, fun done => ?_⟩
  obtain ⟨-, left, message, -⟩ := finished done
  exact ⟨left, (message (by decide)).1⟩

example : run recvOnce (Link.opened [0, 0, 0, 0, 0, 0, 0, 0, 5])
    [.arrive 9, .resume, .resume] =
    some ⟨[], ⟨[5], false⟩, ⟨.numSegments, false, [], [.invalidReadLength 0]⟩⟩ := by rfl

end FrameAcceptance
