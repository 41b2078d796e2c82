import CalculatorRpc.WireSessions
import CalculatorRpc.ScheduleTermination
import CalculatorRpc.LinkDelivery

/- The server and the TypeScript client with the link between them. Every answer is
   sent as a return message when its request returns; the bytes arrive in pieces of
   any size, and the client's transport puts the messages together again. The server's
   work, the arrivals, the `readable` events and the client's reads interleave freely.
   What a return message looks like is up to the RPC libraries on both sides. -/
namespace AnswerDelivery
open CalculatorExpression CalculatorSession RequestSchedules ScheduleTermination EventRuns
open LinkDelivery
open LittleEndianWords StreamFraming
open WireSessions (wrapping)

variable {Num : Type}

inductive Reply (Num : Type) where
  | capability
  | number (value : Num)
  | exception (reason : String)
  deriving DecidableEq

/-- The RPC libraries: the reason that an exception carries, the return message as the
    server's library writes it, and what the client's library reads in one. -/
structure ReturnFormat (Num : Type) where
  reason : Error → String
  encode : Nat × Reply Num → Message
  decode : Bytes → Option (Nat × Reply Num)

def replyOf (reason : Error → String) : Object Empty Num → Reply Num
  | .number value => .number value
  | .failed e => .exception (reason e)
  | _ => .capability

structure Remote (Num : Type) where
  server : Server Num
  channel : Channel

def Remote.start : Remote Num := ⟨Server.idle, Channel.opened⟩

inductive Move where
  | serve (e : RequestSchedules.Event)
  | arrive (n : Nat)
  | readable
  | resume

section System

variable (F : ReturnFormat Num) (A : Arithmetic Num) (reqs : List (Request Num))

def returnOf (entry : Nat × Object Empty Num) : Nat × Reply Num := (entry.1, replyOf F.reason entry.2)

def announce (before after : Server Num) (c : Channel) : Option Channel :=
  if after.returned.length = before.returned.length then some c
  else after.returned.head?.elim (some c) fun entry =>
    c.step (.sendMessage (F.encode (returnOf F entry)))

def Remote.onChannel (r : Remote Num) (a : Action) : Option (Remote Num) :=
  (r.channel.step a).map fun c => { r with channel := c }

def Remote.step (r : Remote Num) : Move → Option (Remote Num)
  | .serve e => (Server.step A reqs r.server e).bind fun s =>
    (announce F r.server s r.channel).map fun c => ⟨s, c⟩
  | .arrive n => r.onChannel (.arrive n)
  | .readable => r.onChannel .readable
  | .resume => r.onChannel .resume

def answers (s : Server Num) : List (Nat × Reply Num) := s.returned.reverse.map (returnOf F)

structure Joined (r : Remote Num) : Prop where
  server : Reachable (Server.step A reqs) Server.idle r.server
  channel : Reachable Channel.step Channel.opened r.channel
  sent : r.channel.sent = (answers F r.server).map F.encode

def heard (r : Remote Num) : List (Nat × Reply Num) :=
  r.channel.link.receiver.handed.filterMap F.decode

/-- The client's library reads back every answer that the server's has sent. -/
def ReadsBack (r : Remote Num) : Prop :=
  ∀ x ∈ answers F r.server, F.decode (F.encode x).encode = some x

end System

section Runs

variable {F : ReturnFormat Num} {A : Arithmetic Num} {reqs : List (Request Num)} {r r' : Remote Num}

theorem step_returned {s s' : Server Num} {e : RequestSchedules.Event}
    (next : Server.step A reqs s e = some s') :
    s'.returned = s.returned ∨ ∃ entry, s'.returned = entry :: s.returned := by
  rcases Server.step_cases next with ⟨id, r, -, -, -, -, begun⟩ | ⟨id, r, m, -, -, advanced⟩
  · rcases begun with ⟨obj, -, rfl⟩ | ⟨m, -, rfl⟩
    · exact Or.inr ⟨_, rfl⟩
    · exact Or.inl rfl
  · rcases advanced with ⟨result, -, rfl⟩ | ⟨-, rfl⟩
    · exact Or.inr ⟨_, rfl⟩
    · exact Or.inl rfl

theorem sendMessage_sent {c c' : Channel} {m : Message} (next : c.step (.sendMessage m) = some c') :
    c'.sent = c.sent ++ [m] := by
  obtain ⟨l, -, rfl⟩ := Option.map_eq_some_iff.mp next
  rfl

theorem onLink_sent {c c' : Channel} {e : TcpTransport.Event} (next : c.onLink e = some c') :
    c'.sent = c.sent := by
  obtain ⟨l, -, rfl⟩ := Option.map_eq_some_iff.mp next
  rfl

theorem announce_joined {s : Server Num} {c : Channel} {e : RequestSchedules.Event}
    (joined : Joined F A reqs r) (next : Server.step A reqs r.server e = some s)
    (told : announce F r.server s r.channel = some c) : Joined F A reqs ⟨s, c⟩ := by
  have server := reachable_step joined.server next
  unfold announce at told
  rcases step_returned next with same | ⟨entry, grown⟩
  · rw [same, if_pos rfl, Option.some.injEq] at told
    subst c
    refine ⟨server, joined.channel, ?_⟩
    rw [joined.sent, answers, answers, same]
  · have longer : s.returned.length ≠ r.server.returned.length := by
      rw [grown, List.length_cons]
      omega
    rw [if_neg longer, grown, List.head?_cons, Option.elim_some] at told
    refine ⟨server, reachable_step joined.channel told, ?_⟩
    rw [sendMessage_sent told, joined.sent, answers, answers, grown, List.reverse_cons,
      List.map_append, List.map_append]
    rfl

theorem onChannel_joined {a : Action} (joined : Joined F A reqs r) (next : r.onChannel a = some r')
    (still : ∀ c, r.channel.step a = some c → c.sent = r.channel.sent) : Joined F A reqs r' := by
  obtain ⟨c, moved, rfl⟩ := Option.map_eq_some_iff.mp next
  exact ⟨joined.server, reachable_step joined.channel moved, (still c moved).trans joined.sent⟩

theorem step_joined {m : Move} (joined : Joined F A reqs r)
    (next : Remote.step F A reqs r m = some r') : Joined F A reqs r' := by
  cases m with
  | serve e =>
    obtain ⟨s, served, next⟩ := Option.bind_eq_some_iff.mp next
    obtain ⟨c, told, rfl⟩ := Option.map_eq_some_iff.mp next
    exact announce_joined joined served told
  | arrive n => exact onChannel_joined joined next fun _ moved => onLink_sent moved
  | readable => exact onChannel_joined joined next fun _ moved => onLink_sent moved
  | resume => exact onChannel_joined joined next fun _ moved => onLink_sent moved

theorem start_joined : Joined F A reqs Remote.start :=
  ⟨reachable_start _ _, reachable_start _ _, rfl⟩

theorem reachable_joined (reached : Reachable (Remote.step F A reqs) Remote.start r) :
    Joined F A reqs r :=
  reachable_invariant (Joined F A reqs) start_joined
    (fun _ _ _ joined next => step_joined joined next) reached

theorem decode_encoded (xs : List (Nat × Reply Num))
    (reads : ∀ x ∈ xs, F.decode (F.encode x).encode = some x) :
    ((xs.map F.encode).map Message.encode).filterMap F.decode = xs := by
  induction xs with
  | nil => rfl
  | cons x xs ih =>
    rw [List.map_cons, List.map_cons, List.filterMap_cons_some (reads x List.mem_cons_self),
      ih fun y member => reads y (List.mem_cons_of_mem _ member)]

theorem heard_first (joined : Joined F A reqs r) (reads : ReadsBack F r) :
    heard F r <+: answers F r.server ∧
      (r.channel.link.wire = [] → r.channel.link.receiver.waiting = true →
        heard F r = answers F r.server) := by
  obtain ⟨done, rest, aligned⟩ := reachable_aligned joined.channel
  have sent := aligned.sent
  rw [joined.sent] at sent
  obtain ⟨front, back, split, first, last⟩ := List.map_eq_append_iff.mp sent
  have heardFront : heard F r = front := by
    rw [heard, aligned.handed, ← first]
    apply decode_encoded
    intro x member
    exact reads x (by rw [split]; exact List.mem_append_left _ member)
  rw [heardFront, split]
  refine ⟨List.prefix_append front back, ?_⟩
  intro arrived idle
  have empty := rest_empty aligned arrived idle
  rw [← last, List.map_eq_nil_iff] at empty
  rw [empty, List.append_nil]

def readsLeft (c : Channel) : Nat :=
  2 * c.link.socket.buffered.length + if c.link.receiver.waiting then 0 else 1

theorem settle_waiting (receiver : TcpTransport.Receiver) (progress : TcpTransport.Progress) :
    (receiver.settle progress).waiting = receiver.waiting := by
  cases progress <;> rfl

theorem resume_lower {c : Channel} (reached : Reachable Channel.step Channel.opened c)
    (awake : c.link.receiver.waiting = false) :
    ∃ c', c.step .resume = some c' ∧ c'.link.wire = c.link.wire ∧ readsLeft c' < readsLeft c := by
  obtain ⟨done, rest, aligned⟩ := reachable_aligned reached
  have positive := read_len_positive aligned.reads
  refine ⟨{ c with link := c.link.resume },
    by simp [Channel.step, Channel.onLink, TcpTransport.Link.step, awake], ?_⟩
  rcases TcpTransport.resume_cases c.link with ⟨buf, back, split, len, after⟩ | ⟨-, ended, -⟩ |
    ⟨-, -, after⟩
  · rw [after]
    have longer := congrArg List.length split
    rw [List.length_append, len] at longer
    refine ⟨rfl, ?_⟩
    simp only [readsLeft, settle_waiting, longer]
    omega
  · rw [aligned.running] at ended
    simp at ended
  · rw [after]
    simp [readsLeft, awake]

theorem reads_until_waiting (joined : Joined F A reqs r) :
    ∃ k r', run (Remote.step F A reqs) r (List.replicate k .resume) = some r' ∧
      Joined F A reqs r' ∧ r'.server = r.server ∧ r'.channel.link.wire = r.channel.link.wire ∧
      r'.channel.link.receiver.waiting = true := by
  induction left : readsLeft r.channel using Nat.strong_induction_on generalizing r with
  | _ n ih =>
    cases awake : r.channel.link.receiver.waiting with
    | true => exact ⟨0, r, rfl, joined, rfl, rfl, awake⟩
    | false =>
      obtain ⟨c, resumed, wire, lower⟩ := resume_lower joined.channel awake
      have next : Remote.step F A reqs r .resume = some { r with channel := c } := by
        simp only [Remote.step, Remote.onChannel, resumed, Option.map_some]
      obtain ⟨k, r', ran, joined', server, wire', idle⟩ :=
        ih _ (left ▸ lower) (step_joined joined next) rfl
      refine ⟨k + 1, r', ?_, joined', server, wire'.trans wire, idle⟩
      rw [List.replicate_succ, run, next]
      exact ran

end Runs

theorem all_returned_quiet {A : Arithmetic Num} {reqs : List (Request Num)} {s : Server Num}
    (sound : Sound A reqs s) (returned : ∀ id < reqs.length, id ∈ ids s.returned) : Quiet A reqs s := by
  intro e
  cases next : Server.step A reqs s e with
  | none => rfl
  | some s' =>
    rcases Server.step_cases next with ⟨id, r, request, fresh, -⟩ | ⟨id, r, m, request, running, -⟩
    · exact absurd (returned id (List.getElem?_eq_some_iff.mp request).1) fresh
    · have fresh := (sound.running id m running).fresh
      exact absurd (returned id (List.getElem?_eq_some_iff.mp request).1) fresh

theorem served_nodup {A : Arithmetic Num} {reqs : List (Request Num)} {h : History Empty Num}
    (session : Served A reqs h) : (ids h).Nodup := by
  induction session with
  | start => exact List.nodup_nil
  | serve session request fresh created ih => exact List.nodup_cons.mpr ⟨fresh, ih⟩

theorem objectOf_entry {h : History Empty Num} {id : Nat} {obj : Object Empty Num}
    (nodup : (ids h).Nodup) (entry : (id, obj) ∈ h) : objectOf h id = some obj := by
  induction h with
  | nil => simp at entry
  | cons first h ih =>
    obtain ⟨k, other⟩ := first
    obtain ⟨fresh, rest⟩ := List.nodup_cons.mp nodup
    rcases List.mem_cons.mp entry with here | later
    · obtain ⟨rfl, rfl⟩ := Prod.mk.inj here
      rw [objectOf, if_pos rfl]
    · rw [objectOf_fresh other fresh (List.mem_map_of_mem later)]
      exact ih rest later

section Answers

variable (F : ReturnFormat Num) {A : Arithmetic Num} {reqs : List (Request Num)} {s : Server Num}

theorem answers_ids (s : Server Num) : (answers F s).map Prod.fst = (ids s.returned).reverse := by
  rw [answers, ids, List.map_map, List.map_reverse]
  rfl

theorem answers_right (session : Served A reqs s.returned) {id : Nat} {reply : Reply Num}
    (answered : (id, reply) ∈ answers F s) {request : Request Num} (sent : reqs[id]? = some request) :
    reply = replyOf F.reason (serve A s.returned request) := by
  obtain ⟨⟨k, obj⟩, member, same⟩ := List.mem_map.mp answered
  obtain ⟨rfl, rfl⟩ : k = id ∧ replyOf F.reason obj = reply := Prod.mk.inj same
  have entry : (k, obj) ∈ s.returned := List.mem_reverse.mp member
  have object := objectOf_entry (served_nodup session) entry
  rw [served_object session (List.mem_map_of_mem entry) sent, Option.some.injEq] at object
  rw [object]

end Answers

/-- Over every interleaving of the server's steps, the arrivals, the wake-ups and the
    client's reads: the client hears every answer at most once, and each is the one that
    its request is due. Once the server has nothing left to do and all bytes have arrived,
    the client's reads alone bring it the answers to all requests. -/
theorem client_hears_answers {F : ReturnFormat Num} {A : Arithmetic Num} {reqs : List (Request Num)}
    {r : Remote Num} (reached : Reachable (Remote.step F A reqs) Remote.start r)
    (reads : ReadsBack F r) :
    ((heard F r).map Prod.fst).Nodup ∧
    (∀ id reply request, (id, reply) ∈ heard F r → reqs[id]? = some request →
      reply = replyOf F.reason (serve A r.server.returned request)) ∧
    (Ordered reqs → Quiet A reqs r.server → r.channel.link.wire = [] →
      ∃ k r', run (Remote.step F A reqs) r (List.replicate k .resume) = some r' ∧
        ∀ id < reqs.length, id ∈ (heard F r').map Prod.fst) := by
  have joined := reachable_joined reached
  have front := (heard_first joined reads).1
  have session := (reachable_sound joined.server).served
  refine ⟨?_, ?_, ?_⟩
  · have nodup : ((answers F r.server).map Prod.fst).Nodup := by
      rw [answers_ids]
      exact List.nodup_reverse.mpr (served_nodup session)
    exact nodup.sublist (front.map Prod.fst).sublist
  · intro id reply request member sent
    exact answers_right F session (front.subset member) sent
  · intro ordered quiet arrived
    obtain ⟨k, r', ran, joined', server, wire, idle⟩ := reads_until_waiting joined
    refine ⟨k, r', ran, fun id inside => ?_⟩
    have reads' : ReadsBack F r' := by
      rw [ReadsBack, server]
      exact reads
    rw [(heard_first joined' reads').2 (wire.trans arrived) idle, answers_ids, List.mem_reverse, server]
    exact quiet_all_returned ordered quiet id inside

section ReturnMessages

def segmentBytes (words : List Nat) : Bytes := words.flatMap (numberBytes 8)

def structPointer (offset dataWords pointers : Nat) : Nat :=
  4 * offset + 2 ^ 32 * dataWords + 2 ^ 48 * pointers

def listPointer (offset elementSize count : Nat) : Nat :=
  4 * offset + 1 + 2 ^ 32 * elementSize + 2 ^ 35 * count

/-- The root, the `Message` with its `Return`, and what the answer adds to them. Question 0
    and export 0 are the bootstrap's, so request `id` is question `id + 1`. -/
def returnWords (id which : Nat) (body : List Nat) : List Nat :=
  [structPointer 0 1 1, 3, structPointer 0 2 1, id + 1 + 2 ^ 32 + 2 ^ 48 * which, 0] ++ body

def capabilityWords (id : Nat) : List Nat :=
  returnWords id 0 [structPointer 0 0 2, structPointer 1 0 1, listPointer 1 7 2, 3,
    structPointer 1 1 1, 1 + 2 ^ 32 * (id + 1), 0]

def numberWords (id : Nat) (bits : UInt64) : List Nat :=
  returnWords id 0 [structPointer 0 0 2, structPointer 1 1 0, listPointer 1 7 0, bits.toNat,
    structPointer 0 1 1]

def textBytes (text : String) : Bytes :=
  let bytes := text.toUTF8.data.toList ++ [0]
  bytes ++ List.replicate ((wordSize - bytes.length % wordSize) % wordSize) 0

def exceptionBytes (id : Nat) (reason : String) : Bytes :=
  segmentBytes (returnWords id 1
    [structPointer 0 1 1, 0, listPointer 0 2 (reason.utf8ByteSize + 1)]) ++ textBytes reason

theorem one_segment_few : 1 ≤ 2 ^ 21 := by decide

/-- Bytes that make no segment are not sent; an empty root stands for them. -/
def oneSegment (bytes : Bytes) : Message :=
  if fits : bytes.length = wordSize * (bytes.length / wordSize) ∧ 1 ≤ bytes.length / wordSize ∧
      bytes.length / wordSize < 2 ^ 32 then
    ⟨[⟨bytes, bytes.length / wordSize, fits.1, fits.2.2⟩], Nat.le_refl 1, one_segment_few,
      by simpa using fits.2.1⟩
  else ⟨[⟨segmentBytes [0], 1, rfl, Nat.one_lt_two_pow (by decide)⟩], Nat.le_refl 1,
    one_segment_few, Nat.le_refl 1⟩

def encodeReturn : Nat × Reply UInt64 → Message
  | (id, .capability) => oneSegment (segmentBytes (capabilityWords id))
  | (id, .number value) => oneSegment (segmentBytes (numberWords id value))
  | (id, .exception reason) => oneSegment (exceptionBytes id reason)

def wordIn (segment : Bytes) (i : Nat) : Nat := numberOf ((segment.drop (8 * i)).take 8)

def target (segment : Bytes) (i : Nat) : Nat := i + 1 + wordIn segment i % 2 ^ 32 / 4

def firstPointer (segment : Bytes) (i : Nat) : Nat :=
  target segment i + wordIn segment i / 2 ^ 32 % 2 ^ 16

/-- The results of `read` are a data word, those of the other methods a pointer. -/
def readResults (segment : Bytes) (payload : Nat) : Reply UInt64 :=
  let content := firstPointer segment payload
  if wordIn segment content / 2 ^ 32 % 2 ^ 16 = 0 then .capability
  else .number (UInt64.ofNat (wordIn segment (target segment content)))

def readReason (segment : Bytes) (exception : Nat) : Option String :=
  let text := firstPointer segment exception
  let length := wordIn segment text / 2 ^ 35 - 1
  String.fromUTF8? ⟨((segment.drop (8 * target segment text)).take length).toArray⟩

def decodeReturn (buf : Bytes) : Option (Nat × Reply UInt64) :=
  -- One segment, so the header has eight bytes.
  let segment := buf.drop 8
  if wordIn segment (target segment 0) % 2 ^ 16 = 3 then
    let answer := firstPointer segment 0
    let first := wordIn segment (target segment answer)
    let id := first % 2 ^ 32 - 1
    match first / 2 ^ 48 with
    | 0 => some (id, readResults segment (firstPointer segment answer))
    | 1 => (readReason segment (firstPointer segment answer)).map fun reason => (id, .exception reason)
    | _ => none
  else none

/-- The texts of the server's own errors; those of the libraries do not occur here. -/
def returnFormat : ReturnFormat UInt64 :=
  ⟨fun e => e.text.getD "", encodeReturn, decodeReturn⟩

def five : UInt64 := 0x4014000000000000

def threeRequests : List (Request UInt64) := [.evaluate (.literal five), .read 0, .getOperator 7]

def threeMoves : List Move :=
  [.serve (.start 0), .serve (.advance 0), .serve (.advance 0), .arrive 8, .resume, .resume, .resume,
    .serve (.start 1), .serve (.advance 1), .serve (.advance 1), .arrive 96, .resume, .resume,
    .arrive 88, .serve (.start 2), .arrive 96]

theorem threeRequests_ordered : Ordered threeRequests := by
  intro id r request
  match id, request with
  | 0, rfl => decide
  | 1, rfl => decide
  | 2, rfl => decide

theorem three_answers_heard :
    ∃ r, run (Remote.step returnFormat wrapping threeRequests) Remote.start threeMoves = some r ∧
      answers returnFormat r.server =
        [(0, .capability), (1, .number five), (2, .exception "Operator not found")] ∧
      heard returnFormat r = [(0, .capability)] ∧
      ∃ k r', run (Remote.step returnFormat wrapping threeRequests) r (List.replicate k .resume) =
          some r' ∧
        ∀ id < 3, id ∈ (heard returnFormat r').map Prod.fst := by
  have ran : (run (Remote.step returnFormat wrapping threeRequests) Remote.start threeMoves).map
      (fun r => (answers returnFormat r.server, heard returnFormat r, r.channel.link.wire)) =
        some ([(0, .capability), (1, .number five), (2, .exception "Operator not found")],
          [(0, .capability)], []) := by
    decide +kernel
  obtain ⟨r, reached, same⟩ := Option.map_eq_some_iff.mp ran
  obtain ⟨sent, read, arrived⟩ : _ ∧ _ ∧ _ := by simpa only [Prod.mk.injEq] using same
  have reads : ReadsBack returnFormat r := by
    intro x member
    rw [sent] at member
    revert x
    decide +kernel
  have sound := reachable_sound (reachable_joined ⟨threeMoves, reached⟩).server
  have returned : ∀ id < threeRequests.length, id ∈ ids r.server.returned := by
    intro id inside
    rw [← List.mem_reverse, ← answers_ids returnFormat, sent]
    revert id
    decide
  exact ⟨r, reached, sent, read, (client_hears_answers ⟨threeMoves, reached⟩ reads).2.2
    threeRequests_ordered (all_returned_quiet sound returned) arrived⟩

end ReturnMessages

end AnswerDelivery
