import CalculatorRpc.EventRuns
import CalculatorRpc.NearestDouble
import CalculatorRpc.StreamFraming

/- The receiving half of the TCP transport. `recvMessage` suspends at each of its
   three reads; a suspended call is the value `Read`, which keeps the local
   variables that the rest of the call uses. The peer, the bytes in flight and
   the socket's buffer are explicit, so that a run is a list of events. -/
namespace TcpTransport
open LittleEndianWords StreamFraming

structure Socket where
  buffered : Bytes
  ended : Bool
  deriving DecidableEq

/-- `socket.read(len)`, short only when the stream has ended. Later versions of Node refuse
    a `len` above 1 GiB; here there is no such limit. -/
def Socket.read (socket : Socket) (len : Nat) : Option Bytes × Socket :=
  if len ≤ socket.buffered.length then
    (some (socket.buffered.take len), { socket with buffered := socket.buffered.drop len })
  else if socket.ended = true ∧ socket.buffered ≠ [] then
    (some socket.buffered, { socket with buffered := [] })
  else (none, socket)

inductive Failure where
  | outOfRange (length : Nat)
  | invalidArrayLength
  | invalidReadLength (len : Nat)
  deriving DecidableEq

def Failure.text : Failure → String
  -- `readUInt32LE` tells a buffer that is too short for any word from a wrong offset.
  | .outOfRange length => if length < 4 then "ERR_BUFFER_OUT_OF_BOUNDS" else "ERR_OUT_OF_RANGE"
  | .invalidArrayLength => "Invalid array length"
  | .invalidReadLength len => "invalid read length: " ++ toString len

inductive Read where
  | numSegments
  | segmentsSize (bufNumSegments : Bytes) (n segmentSizeSize : Nat)
  | segments (bufNumSegments bufSegmentsSize : Bytes) (totalSegmentSize : Nat)
  deriving DecidableEq

def Read.len : Read → Nat
  | .numSegments => 4
  | .segmentsSize _ _ segmentSizeSize => segmentSizeSize
  | .segments _ _ totalSegmentSize => totalSegmentSize

def held : Read → Bytes
  | .numSegments => []
  | .segmentsSize bufNumSegments _ _ => bufNumSegments
  | .segments bufNumSegments bufSegmentsSize _ => bufNumSegments ++ bufSegmentsSize

inductive Progress where
  | suspend (read : Read)
  | handOver (messageBuf : Bytes)
  | reject (failure : Failure)
  deriving DecidableEq

/-- The guard at the top of `readBytes`; its loop is the receiver's `resume`. -/
def readBytes (read : Read) : Progress :=
  if read.len = 0 then .reject (.invalidReadLength read.len) else .suspend read

def afterNumSegments (bufNumSegments : Bytes) : Progress :=
  match wordAt bufNumSegments 0 with
  | none => .reject (.outOfRange bufNumSegments.length)
  | some count =>
    let n := count + 1
    let segmentSizeSize := n * 4
    let offset := 4 + segmentSizeSize
    if offset % wordSize ≠ 0 then
      let padding := wordSize - offset % wordSize
      readBytes (.segmentsSize bufNumSegments n (segmentSizeSize + padding))
    else readBytes (.segmentsSize bufNumSegments n segmentSizeSize)

def afterSegmentsSize (bufNumSegments : Bytes) (n : Nat) (bufSegmentsSize : Bytes) : Progress :=
  -- `new Array(n)` refuses a length that does not fit 32 bits.
  if 2 ^ 32 ≤ n then .reject .invalidArrayLength
  else
    match wordsFrom bufSegmentsSize 0 n with
    | none => .reject (.outOfRange bufSegmentsSize.length)
    | some wordsPerSegment =>
      let totalSegmentWords := NearestDouble.total wordsPerSegment
      -- Scaling by a power of two is exact in binary64.
      readBytes (.segments bufNumSegments bufSegmentsSize (totalSegmentWords * wordSize))

def proceed : Read → Bytes → Progress
  | .numSegments, buf => afterNumSegments buf
  | .segmentsSize bufNumSegments n _, buf => afterSegmentsSize bufNumSegments n buf
  | .segments bufNumSegments bufSegmentsSize _, buf =>
    .handOver (bufNumSegments ++ bufSegmentsSize ++ buf)

/-- A receiver that calls `recvMessage` again each time the previous call is over.
    `waiting` means that the call awaits the next `readable` event. -/
structure Receiver where
  read : Read
  waiting : Bool
  handed : List Bytes
  rejected : List Failure
  deriving DecidableEq

def Receiver.start : Receiver := ⟨.numSegments, false, [], []⟩

def Receiver.settle (r : Receiver) : Progress → Receiver
  | .suspend read => { r with read := read }
  | .handOver buf => { r with read := .numSegments, handed := r.handed ++ [buf] }
  | .reject failure => { r with read := .numSegments, rejected := r.rejected ++ [failure] }

structure Link where
  wire : Bytes
  socket : Socket
  receiver : Receiver
  deriving DecidableEq

def Link.opened (wire : Bytes) : Link := ⟨wire, ⟨[], false⟩, .start⟩

inductive Event where
  | write (data : Bytes)
  | arrive (n : Nat)
  | finish
  | readable
  | resume
  deriving DecidableEq

def Link.wake (l : Link) : Link := { l with receiver := { l.receiver with waiting := false } }

def Link.resume (l : Link) : Link :=
  match l.socket.read l.receiver.read.len with
  | (none, socket) => { l with socket := socket, receiver := { l.receiver with waiting := true } }
  | (some buf, socket) =>
    { l with socket := socket, receiver := l.receiver.settle (proceed l.receiver.read buf) }

/-- Waking the receiver is the `readable` event. An arrival and the end of the stream
    emit it, and Node emits it again for a listener that is added while bytes are
    buffered; here it may come whenever the receiver waits. -/
def Link.step (l : Link) : Event → Option Link
  | .write data =>
    if l.socket.ended = true then none else some { l with wire := l.wire ++ data }
  | .arrive n =>
    if 0 < n ∧ n ≤ l.wire.length then
      some { l with
        wire := l.wire.drop n
        socket := { l.socket with buffered := l.socket.buffered ++ l.wire.take n } }.wake
    else none
  | .finish =>
    if l.wire = [] ∧ l.socket.ended = false then
      some { l with socket := { l.socket with ended := true } }.wake
    else none
  | .readable => if l.receiver.waiting = true then some l.wake else none
  | .resume => if l.receiver.waiting = true then none else some l.resume

/-- Everything one step of the receiver can do: a full read, a short read at the
    end of the stream, or waiting. -/
theorem resume_cases (l : Link) :
    (∃ buf back, l.socket.buffered = buf ++ back ∧ buf.length = l.receiver.read.len ∧
      l.resume = { l with
        socket := { l.socket with buffered := back }
        receiver := l.receiver.settle (proceed l.receiver.read buf) }) ∨
    (l.socket.buffered.length < l.receiver.read.len ∧ l.socket.ended = true ∧
      l.socket.buffered ≠ [] ∧
      l.resume = { l with
        socket := { l.socket with buffered := [] }
        receiver := l.receiver.settle (proceed l.receiver.read l.socket.buffered) }) ∨
    (l.socket.buffered.length < l.receiver.read.len ∧
      (l.socket.ended = true → l.socket.buffered = []) ∧
      l.resume = { l with receiver := { l.receiver with waiting := true } }) := by
  by_cases enough : l.receiver.read.len ≤ l.socket.buffered.length
  · refine Or.inl ⟨l.socket.buffered.take l.receiver.read.len,
      l.socket.buffered.drop l.receiver.read.len, (List.take_append_drop _ _).symm, ?_, ?_⟩
    · rw [List.length_take]
      omega
    · simp only [Link.resume, Socket.read, enough, ↓reduceIte]
  · by_cases short : l.socket.ended = true ∧ l.socket.buffered ≠ []
    · refine Or.inr (Or.inl ⟨by omega, short.1, short.2, ?_⟩)
      have read : l.socket.read l.receiver.read.len =
          (some l.socket.buffered, { l.socket with buffered := [] }) := by
        unfold Socket.read
        rw [if_neg enough, if_pos short]
      simp only [Link.resume, read]
    · refine Or.inr (Or.inr ⟨by omega, ?_, ?_⟩)
      · intro ended
        by_contra nonempty
        exact short ⟨ended, nonempty⟩
      · simp only [Link.resume, Socket.read, enough, short, ↓reduceIte]

theorem readBytes_positive {read : Read} (positive : read.len ≠ 0) :
    readBytes read = .suspend read := if_neg positive

theorem afterNumSegments_full {buf : Bytes} {count : Nat} (word : wordAt buf 0 = some count) :
    afterNumSegments buf =
      .suspend (.segmentsSize buf (count + 1) (headerLength (count + 1) - 4)) := by
  simp only [afterNumSegments, word, headerLength]
  split
  · rename_i unaligned
    simp only [wordSize] at unaligned ⊢
    rw [readBytes_positive (by simp only [Read.len]; omega)]
    congr 2
    omega
  · rename_i aligned
    simp only [wordSize] at aligned
    rw [readBytes_positive (by simp only [Read.len]; omega)]
    congr 2
    omega

theorem afterNumSegments_short {buf : Bytes} (short : buf.length < 4) :
    afterNumSegments buf = .reject (.outOfRange buf.length) := by
  have none_read : wordAt buf 0 = none := by
    have h := wordOf_isSome buf
    cases word : wordOf buf with
    | none => simpa [wordAt] using word
    | some w => simp [word] at h; omega
  simp only [afterNumSegments, none_read]

theorem afterSegmentsSize_table {count table : Bytes} {n : Nat} {sizes : List Nat}
    (few : n < 2 ^ 32) (words : wordsFrom table 0 n = some sizes) :
    afterSegmentsSize count n table =
      if sizes.sum = 0 then .reject (.invalidReadLength 0)
      else .suspend (.segments count table (NearestDouble.total sizes * wordSize)) := by
  have zero := NearestDouble.total_zero_iff sizes
  simp only [afterSegmentsSize, words]
  rw [if_neg (by omega)]
  by_cases empty : sizes.sum = 0
  · rw [if_pos empty, zero.mpr empty, Nat.zero_mul]
    rfl
  · rw [if_neg empty, readBytes_positive]
    have positive : NearestDouble.total sizes ≠ 0 := fun h => empty (zero.mp h)
    simp only [Read.len, wordSize]
    omega

end TcpTransport
