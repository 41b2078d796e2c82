import CalculatorRpc.RecordLayouts
import CalculatorRpc.ExpressionAccessors

/- The frames of `frames.capnp`. A builder writes a message call by call through the
   generated setters of its language, and a reader of any language finds the frames
   that the calls describe. -/
namespace FrameScripts
open MessageStructs RecordLayouts EventRuns
open ExpressionAccessors (Language)

inductive RationalField where
  | num
  | den
  deriving DecidableEq

inductive AudioField where
  | numSamples
  | channels
  | streamId
  deriving DecidableEq

inductive VideoField where
  | width
  | height
  | pixelFormat
  | streamId
  deriving DecidableEq

def rationalWidth : RationalField → Nat
  | .num => 4
  | .den => 4

def audioWidth : AudioField → Nat
  | .numSamples => 4
  | .channels => 2
  | .streamId => 4

def videoWidth : VideoField → Nat
  | .width => 4
  | .height => 4
  | .pixelFormat => 2
  | .streamId => 4

def dataField (width index : Nat) : Nat := index * width

def tsRational : Layout rationalWidth where
  size := 8
  offset
    | .num => 0
    | .den => 4
  inside := by intro f; cases f <;> decide
  apart := by intro f g; cases f <;> cases g <;> decide

def goRational : Layout rationalWidth where
  size := 8
  offset
    | .num => 0
    | .den => 4
  inside := by intro f; cases f <;> decide
  apart := by intro f g; cases f <;> cases g <;> decide

def rustRational : Layout rationalWidth where
  size := 8
  offset
    | .num => dataField 4 0
    | .den => dataField 4 1
  inside := by intro f; cases f <;> decide
  apart := by intro f g; cases f <;> cases g <;> decide

def tsAudio : Layout audioWidth where
  size := 16
  offset
    | .numSamples => 0
    | .channels => 4
    | .streamId => 8
  inside := by intro f; cases f <;> decide
  apart := by intro f g; cases f <;> cases g <;> decide

def goAudio : Layout audioWidth where
  size := 16
  offset
    | .numSamples => 0
    | .channels => 4
    | .streamId => 8
  inside := by intro f; cases f <;> decide
  apart := by intro f g; cases f <;> cases g <;> decide

def rustAudio : Layout audioWidth where
  size := 16
  offset
    | .numSamples => dataField 4 0
    | .channels => dataField 2 2
    | .streamId => dataField 4 2
  inside := by intro f; cases f <;> decide
  apart := by intro f g; cases f <;> cases g <;> decide

def tsVideo : Layout videoWidth where
  size := 16
  offset
    | .width => 0
    | .height => 4
    | .pixelFormat => 8
    | .streamId => 12
  inside := by intro f; cases f <;> decide
  apart := by intro f g; cases f <;> cases g <;> decide

def goVideo : Layout videoWidth where
  size := 16
  offset
    | .width => 0
    | .height => 4
    | .pixelFormat => 8
    | .streamId => 12
  inside := by intro f; cases f <;> decide
  apart := by intro f g; cases f <;> cases g <;> decide

def rustVideo : Layout videoWidth where
  size := 16
  offset
    | .width => dataField 4 0
    | .height => dataField 4 1
    | .pixelFormat => dataField 2 4
    | .streamId => dataField 4 3
  inside := by intro f; cases f <;> decide
  apart := by intro f g; cases f <;> cases g <;> decide

def rationalLayout : Language → Layout rationalWidth
  | .ts => tsRational
  | .go => goRational
  | .rust => rustRational

def audioLayout : Language → Layout audioWidth
  | .ts => tsAudio
  | .go => goAudio
  | .rust => rustAudio

def videoLayout : Language → Layout videoWidth
  | .ts => tsVideo
  | .go => goVideo
  | .rust => rustVideo

theorem layout_ext {F : Type} {width : F → Nat} {L M : Layout width} (size : L.size = M.size)
    (offset : ∀ f, L.offset f = M.offset f) : L = M := by
  obtain ⟨d, o, _, _⟩ := L
  obtain ⟨d', o', _, _⟩ := M
  obtain rfl : d = d' := size
  obtain rfl : o = o' := funext offset
  rfl

theorem rationalLayout_agrees (l : Language) : rationalLayout l = tsRational := by
  cases l <;> exact layout_ext rfl (by intro f; cases f <;> rfl)

theorem audioLayout_agrees (l : Language) : audioLayout l = tsAudio := by
  cases l <;> exact layout_ext rfl (by intro f; cases f <;> rfl)

theorem videoLayout_agrees (l : Language) : videoLayout l = tsVideo := by
  cases l <;> exact layout_ext rfl (by intro f; cases f <;> rfl)

/-- What `AudioFrame` and `VideoFrame` have in common: numbers, the data behind pointer 0
    and the time behind pointer 1. -/
structure Media (F : Type) where
  number : F → Nat
  data : Option (List UInt8)
  pts : Option (RationalField → Nat)

/-- A frame by its tag; the pointer to its content may be null. -/
inductive Frame where
  | audioFrame (content : Option (Media AudioField))
  | videoFrame (content : Option (Media VideoField))
  | notInSchema (tag : UInt16)

def Frame.which : Frame → UInt16
  | .audioFrame _ => 0
  | .videoFrame _ => 1
  | .notInSchema t => t

inductive MediaWrite (F : Type) where
  | setNumber (f : F) (n : Nat)
  | initData (length : Nat)
  | setByte (j n : Nat)
  | initPts
  | setPts (f : RationalField) (n : Nat)

inductive FrameWrite where
  | initAudioFrame
  | initVideoFrame
  | audioFrame (w : MediaWrite AudioField)
  | videoFrame (w : MediaWrite VideoField)

inductive Call where
  | initFrames (length : Nat)
  | frame (i : Nat) (w : FrameWrite)

def setByte (n : Nat) : Struct → Option Struct := MessageStructs.setNumber 0 1 n

def newData (length : Nat) : Pointer := .list length (fun _ => newStruct 1 0)

/-- The write to a part that a getter gives. Where it is not set, the getters of
    TypeScript and Rust make a new one; that of Go gives a struct without any field. -/
def atPart (l : Language) (k : Nat) (new : Struct) (write : Struct → Option Struct) :
    Struct → Option Struct :=
  match l with
  | .go => atTarget k write
  | _ => atTargetOrNew k new write

section Writing

variable {F : Type} {width : F → Nat}

/-- An index outside its list or its data ends the script. The Go and Rust bindings check it;
    those of TypeScript do not, and there it is an assumption on the calls. -/
def performMedia (L : Layout width) (l : Language) : MediaWrite F → Struct → Option Struct
  | .setNumber f n => L.set f n
  | .initData length => setPtr 0 (newData length)
  | .setByte j n => atElement 0 j (setByte n)
  | .initPts => setPtr 1 (.struct (newStruct 8 0))
  | .setPts f n => atPart l 1 (newStruct 8 0) ((rationalLayout l).set f n)

def tag (s : Struct) : UInt16 := s.uint16 0

def testWhich (expected : UInt16) (write : Struct → Option Struct) (s : Struct) : Option Struct :=
  if tag s = expected then write s else none

def initMember (member : UInt16) (s : Struct) : Option Struct :=
  (setUint16 0 member s).bind (setPtr 0 (.struct (newStruct 16 2)))

def performFrame (l : Language) : FrameWrite → Struct → Option Struct
  | .initAudioFrame => initMember 0
  | .initVideoFrame => initMember 1
  | .audioFrame w => testWhich 0 (atPart l 0 (newStruct 16 2) (performMedia (audioLayout l) l w))
  | .videoFrame w => testWhich 1 (atPart l 0 (newStruct 16 2) (performMedia (videoLayout l) l w))

def perform (l : Language) : Call → Struct → Option Struct
  | .initFrames length => setPtr 0 (.list length (fun _ => newStruct 8 1))
  | .frame i w => atElement 0 i (performFrame l w)

def newRoot : Struct := newStruct 0 1

end Writing

def updatePartIn {V : Type} (l : Language) (new : V) (update : V → Option V) (part : Option V) :
    Option (Option V) :=
  match l with
  | .go => updatePart update part
  | _ => updatePart update (some (part.getD new))

section Updating

variable {F : Type} [DecidableEq F] (width : F → Nat) (l : Language)

def emptyMedia : Media F := ⟨fun _ => 0, none, none⟩

def updateMedia : MediaWrite F → Media F → Option (Media F)
  | .setNumber f n, m => some { m with number := Function.update m.number f (n % 256 ^ width f) }
  | .initData length, m => some { m with data := some (List.replicate length 0) }
  | .setByte j n, m =>
    (updatePart (updateAt j fun _ => some (UInt8.ofNat n)) m.data).map fun data =>
      { m with data := data }
  | .initPts, m => some { m with pts := some fun _ => 0 }
  | .setPts f n, m =>
    (updatePartIn l (fun _ => 0)
      (fun number => some (Function.update number f (n % 256 ^ rationalWidth f))) m.pts).map
        fun pts => { m with pts := pts }

def updateFrame : FrameWrite → Frame → Option Frame
  | .initAudioFrame, _ => some (.audioFrame (some emptyMedia))
  | .initVideoFrame, _ => some (.videoFrame (some emptyMedia))
  | .audioFrame w, .audioFrame content =>
    (updatePartIn l emptyMedia (updateMedia audioWidth l w) content).map .audioFrame
  | .videoFrame w, .videoFrame content =>
    (updatePartIn l emptyMedia (updateMedia videoWidth l w) content).map .videoFrame
  | .audioFrame _, _ => none
  | .videoFrame _, _ => none

def update : Call → Option (List Frame) → Option (Option (List Frame))
  | .initFrames length, _ => some (some (List.replicate length (.audioFrame none)))
  | .frame i w, frames => updatePart (updateAt i (updateFrame l w)) frames

end Updating

section Showing

variable {F : Type} {width : F → Nat}

structure ByteShows (s : Struct) (b : UInt8) : Prop where
  sized : Sized 1 0 s
  byte : s.number 0 1 = b.toNat

structure MediaShows (L : Layout width) (s : Struct) (m : Media F) : Prop where
  holds : Holds L 2 s m.number
  data : Lists ByteShows (s.ptr 0) m.data
  pts : PointsTo (Holds tsRational 0) (s.ptr 1) m.pts

def ContentShows (s : Struct) : Frame → Prop
  | .audioFrame content => PointsTo (MediaShows tsAudio) (s.ptr 0) content
  | .videoFrame content => PointsTo (MediaShows tsVideo) (s.ptr 0) content
  | .notInSchema t => 2 ≤ t.toNat

structure FrameShows (s : Struct) (f : Frame) : Prop where
  sized : Sized 8 1 s
  tagged : tag s = f.which
  content : ContentShows s f

structure FramesShow (s : Struct) (frames : Option (List Frame)) : Prop where
  sized : Sized 0 1 s
  frames : Lists FrameShows (s.ptr 0) frames

theorem setByte_simulates (n : Nat) :
    Simulates ByteShows (setByte n) (fun _ => some (UInt8.ofNat n)) := by
  intro s b shows
  have inside : 0 + 1 ≤ 1 := Nat.le_refl 1
  rw [setByte, shows.sized.setNumber inside]
  refine .some ⟨shows.sized.putNumber inside n, ?_⟩
  rw [number_put_same shows.sized inside, UInt8.toNat_ofNat']
  rfl

theorem byte_new : ByteShows (newStruct 1 0) 0 := ⟨newStruct_sized 1 0, number_new 1 0 0 1⟩

variable {L : Layout width} {s : Struct} {m : Media F}

theorem MediaShows.putData (shows : MediaShows L s m) {p : Pointer} {data : Option (List UInt8)}
    (lists : Lists ByteShows p data) : MediaShows L (putPtr 0 p s) { m with data := data } where
  holds := shows.holds.putPtr 0 p
  data := by
    rw [ptr_put_same shows.holds.sized (by decide)]
    exact lists
  pts := by
    rw [ptr_put_other (by decide)]
    exact shows.pts

theorem MediaShows.putPts (shows : MediaShows L s m) {p : Pointer}
    {pts : Option (RationalField → Nat)} (points : PointsTo (Holds tsRational 0) p pts) :
    MediaShows L (putPtr 1 p s) { m with pts := pts } where
  holds := shows.holds.putPtr 1 p
  data := by
    rw [ptr_put_other (by decide)]
    exact shows.data
  pts := by
    rw [ptr_put_same shows.holds.sized (by decide)]
    exact points

theorem media_new (L : Layout width) : MediaShows L (newStruct L.size 2) emptyMedia :=
  ⟨holds_new L 2, .null, .null⟩

theorem atPart_simulates {V : Type} {r : Struct → V → Prop} {write : Struct → Option Struct}
    {change : V → Option V} (l : Language) (simulates : Simulates r write change) {d p k : Nat}
    {new : Struct} {v : V} {x : Option V} (sized : Sized d p s) (inside : k < p) (fresh : r new v)
    (points : PointsTo r (s.ptr k) x) :
    Option.Rel (fun s' x' => ∃ q, s' = putPtr k q s ∧ PointsTo r q x')
      (atPart l k new write s) (updatePartIn l v change x) := by
  cases l with
  | go => exact atTarget_simulates simulates points
  | ts => exact atTargetOrNew_simulates simulates sized inside fresh points
  | rust => exact atTargetOrNew_simulates simulates sized inside fresh points

theorem media_simulates [DecidableEq F] (L : Layout width) (l : Language) (w : MediaWrite F) :
    Simulates (MediaShows L) (performMedia L l w) (updateMedia width l w) := by
  intro s m shows
  cases w with
  | setNumber f n =>
    obtain ⟨s', set, same, holds⟩ := shows.holds.set f n
    rw [performMedia, set, updateMedia]
    refine .some ⟨holds, ?_, ?_⟩
    · rw [same]
      exact shows.data
    · rw [same]
      exact shows.pts
  | initData length =>
    rw [performMedia, shows.holds.sized.setPtr (by decide), updateMedia]
    exact .some (shows.putData (lists_new byte_new length))
  | setByte j n =>
    rw [performMedia, updateMedia]
    rcases rel_cases (atElement_simulates (i := j) (setByte_simulates n) shows.data) with
      ⟨failed, failed'⟩ | ⟨s', data, written, updated, p, rfl, lists⟩
    · rw [failed, failed', Option.map_none]
      exact .none
    · rw [written, updated, Option.map_some]
      exact .some (shows.putData lists)
  | initPts =>
    rw [performMedia, shows.holds.sized.setPtr (by decide), updateMedia]
    exact .some (shows.putPts (.struct (holds_new tsRational 0)))
  | setPts f n =>
    have fresh : Holds tsRational 0 (newStruct 8 0) (fun _ => 0) := holds_new tsRational 0
    rw [performMedia, updateMedia, rationalLayout_agrees]
    rcases rel_cases (atPart_simulates l (set_simulates tsRational 0 f n) shows.holds.sized
        (by decide) fresh shows.pts) with
      ⟨failed, failed'⟩ | ⟨s', pts, written, updated, p, rfl, points⟩
    · rw [failed, failed', Option.map_none]
      exact .none
    · rw [written, updated, Option.map_some]
      exact .some (shows.putPts points)

theorem content_simulates {width : F → Nat} {L : Layout width} [DecidableEq F] {l : Language}
    {w : MediaWrite F} {member : UInt16} {wrap : Option (Media F) → Frame} {s : Struct}
    {content : Option (Media F)} (sized : Sized 8 1 s) (size : L.size = 16)
    (wraps : ∀ {t content}, tag t = member → PointsTo (MediaShows L) (t.ptr 0) content →
      Sized 8 1 t → FrameShows t (wrap content))
    (here : tag s = member) (points : PointsTo (MediaShows L) (s.ptr 0) content) :
    Option.Rel FrameShows (testWhich member (atPart l 0 (newStruct 16 2) (performMedia L l w)) s)
      ((updatePartIn l emptyMedia (updateMedia width l w) content).map wrap) := by
  have fresh := media_new L
  rw [size] at fresh
  rw [testWhich, if_pos here]
  rcases rel_cases (atPart_simulates l (media_simulates L l w) sized (by decide) fresh points) with
    ⟨failed, failed'⟩ | ⟨s', content', written, updated, p, rfl, points'⟩
  · rw [failed, failed', Option.map_none]
    exact .none
  · rw [written, updated, Option.map_some]
    refine .some (wraps here ?_ (sized.putPtr 0 p))
    rw [ptr_put_same sized (by decide)]
    exact points'

theorem initMember_shows {s : Struct} (sized : Sized 8 1 s) (member : UInt16) :
    ∃ s', initMember member s = some s' ∧ Sized 8 1 s' ∧ tag s' = member ∧
      s'.ptr 0 = .struct (newStruct 16 2) := by
  have tagged := sized.putNumber (show 0 + 2 ≤ 8 by decide) member.toNat
  refine ⟨putPtr 0 (.struct (newStruct 16 2)) (putNumber 0 2 member.toNat s), ?_, tagged.putPtr 0 _,
    uint16_put_same sized (by decide) member, ptr_put_same tagged (by decide) _⟩
  rw [initMember, setUint16, sized.setNumber (by decide), Option.bind_some, tagged.setPtr (by decide)]

theorem testWhich_other {s : Struct} {f : Frame} (shows : FrameShows s f) {member : UInt16}
    (other : f.which ≠ member) (write : Struct → Option Struct) : testWhich member write s = none := by
  apply if_neg
  rw [shows.tagged]
  exact other

theorem notInSchema_which {t : UInt16} (large : 2 ≤ t.toNat) {member : UInt16}
    (small : member.toNat < 2) : (Frame.notInSchema t).which ≠ member := by
  intro same
  have equal : t.toNat = member.toNat := congrArg UInt16.toNat same
  omega

theorem frame_simulates (l : Language) (w : FrameWrite) :
    Simulates FrameShows (performFrame l w) (updateFrame l w) := by
  intro s f shows
  cases w with
  | initAudioFrame =>
    obtain ⟨s', made, sized, member, target⟩ := initMember_shows shows.sized 0
    rw [performFrame, made, updateFrame]
    refine .some ⟨sized, member, ?_⟩
    rw [ContentShows, target]
    exact .struct (media_new tsAudio)
  | initVideoFrame =>
    obtain ⟨s', made, sized, member, target⟩ := initMember_shows shows.sized 1
    rw [performFrame, made, updateFrame]
    refine .some ⟨sized, member, ?_⟩
    rw [ContentShows, target]
    exact .struct (media_new tsVideo)
  | audioFrame w =>
    rw [performFrame, audioLayout_agrees]
    cases f with
    | audioFrame content =>
      exact content_simulates shows.sized rfl (fun tagged points sized => ⟨sized, tagged, points⟩)
        shows.tagged shows.content
    | videoFrame content =>
      rw [testWhich_other shows (by simp [Frame.which])]
      exact .none
    | notInSchema t =>
      rw [testWhich_other shows (notInSchema_which shows.content (by decide))]
      exact .none
  | videoFrame w =>
    rw [performFrame, videoLayout_agrees]
    cases f with
    | audioFrame content =>
      rw [testWhich_other shows (by simp [Frame.which])]
      exact .none
    | videoFrame content =>
      exact content_simulates shows.sized rfl (fun tagged points sized => ⟨sized, tagged, points⟩)
        shows.tagged shows.content
    | notInSchema t =>
      rw [testWhich_other shows (notInSchema_which shows.content (by decide))]
      exact .none

theorem frame_new : FrameShows (newStruct 8 1) (.audioFrame none) where
  sized := newStruct_sized 8 1
  tagged := by
    have zero : (newStruct 8 1).number 0 2 = 0 := number_new 8 1 0 2
    rw [tag, Struct.uint16, zero]
    rfl
  content := .null

theorem call_simulates (l : Language) (c : Call) :
    Simulates FramesShow (perform l c) (update l c) := by
  intro s frames shows
  cases c with
  | initFrames length =>
    rw [perform, shows.sized.setPtr (by decide), update]
    refine .some ⟨shows.sized.putPtr 0 _, ?_⟩
    rw [ptr_put_same shows.sized (by decide)]
    exact lists_new frame_new length
  | frame i w =>
    rw [perform, update]
    rcases rel_cases (atElement_simulates (i := i) (frame_simulates l w) shows.frames) with
      ⟨failed, failed'⟩ | ⟨s', frames', written, updated, p, rfl, lists⟩
    · rw [failed, failed']
      exact .none
    · rw [written, updated]
      refine .some ⟨shows.sized.putPtr 0 p, ?_⟩
      rw [ptr_put_same shows.sized (by decide)]
      exact lists

theorem root_new : FramesShow newRoot none := ⟨newStruct_sized 0 1, .null⟩

end Showing

section Reading

variable {F : Type} {width : F → Nat} (l : Language)

def readByte (s : Struct) : UInt8 := UInt8.ofNat (s.number 0 1)

def readRational (s : Struct) : RationalField → Nat := fun f => (rationalLayout l).get f s

def readMedia (L : Layout width) (s : Struct) : Media F where
  number := fun f => L.get f s
  data := readParts readByte (s.ptr 0)
  pts := readPart (readRational l) (s.ptr 1)

def readFrame (s : Struct) : Frame :=
  if tag s = 0 then .audioFrame (readPart (readMedia l (audioLayout l)) (s.ptr 0))
  else if tag s = 1 then .videoFrame (readPart (readMedia l (videoLayout l)) (s.ptr 0))
  else .notInSchema (tag s)

def readFrames (root : Struct) : Option (List Frame) := readParts (readFrame l) (root.ptr 0)

theorem readByte_shows (s : Struct) (b : UInt8) (shows : ByteShows s b) : readByte s = b := by
  rw [readByte, shows.byte, UInt8.ofNat_toNat]

theorem readRational_shows (s : Struct) (number : RationalField → Nat)
    (holds : Holds tsRational 0 s number) : readRational l s = number := by
  funext f
  rw [readRational, rationalLayout_agrees]
  exact holds.get f

theorem readMedia_shows (L : Layout width) (s : Struct) (m : Media F) (shows : MediaShows L s m) :
    readMedia l L s = m := by
  obtain ⟨number, data, pts⟩ := m
  have numbers : (fun f => L.get f s) = number := funext shows.holds.get
  rw [readMedia, numbers, shows.data.readParts readByte_shows, shows.pts.readPart (readRational_shows l)]

theorem readFrame_shows (s : Struct) (f : Frame) (shows : FrameShows s f) : readFrame l s = f := by
  obtain ⟨-, tagged, content⟩ := shows
  rw [readFrame, tagged, audioLayout_agrees, videoLayout_agrees]
  cases f with
  | audioFrame x =>
    have here : (Frame.audioFrame x).which = 0 := rfl
    rw [if_pos here, PointsTo.readPart (readMedia_shows l tsAudio) content]
  | videoFrame x =>
    have here : (Frame.videoFrame x).which = 1 := rfl
    have other : (Frame.videoFrame x).which ≠ 0 := by simp [Frame.which]
    rw [if_neg other, if_pos here, PointsTo.readPart (readMedia_shows l tsVideo) content]
  | notInSchema t =>
    rw [if_neg (notInSchema_which content (by decide)), if_neg (notInSchema_which content (by decide)),
      Frame.which]

theorem readFrames_show {root : Struct} {frames : Option (List Frame)} (shows : FramesShow root frames) :
    readFrames l root = frames :=
  shows.frames.readParts (readFrame_shows l)

end Reading

/-- A builder in one language and a reader in another: after every sequence of calls the
    reader finds the frames that the calls describe, or both have failed. -/
theorem scripts_read_back (l l' : Language) (calls : List Call) :
    (run (fun s c => perform l c s) newRoot calls).map (readFrames l') =
      run (fun frames c => update l c frames) none calls := by
  rcases rel_cases (run_simulates (call_simulates l) calls root_new) with ⟨failed, failed'⟩ |
    ⟨root, frames, ran, ran', shows⟩
  · rw [failed, failed', Option.map_none]
  · rw [ran, ran', Option.map_some, readFrames_show l' shows]

end FrameScripts
