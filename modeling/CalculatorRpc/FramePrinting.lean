import CalculatorRpc.FrameScripts

/- The programs around the frames: `doWrite` of the TypeScript side, and the two that
   print what is in a message, `frames_main` in Rust and `readData` in Python. -/
namespace FramePrinting
open MessageStructs RecordLayouts FrameScripts EventRuns
open ExpressionAccessors (Language)

inductive Failure where
  | wantedFrame
  | indexError
  | zeroDivision
  | unknownMember
  deriving DecidableEq

structure Output where
  lines : List String
  failure : Option Failure
  deriving DecidableEq

def debugBytes (bytes : List UInt8) : String :=
  "[" ++ ", ".intercalate (bytes.map fun b => toString b.toNat) ++ "]"

def hexlify (bytes : List UInt8) : String :=
  String.join (bytes.map fun b =>
    String.ofList [Nat.digitChar (b.toNat / 16), Nat.digitChar (b.toNat % 16)])

def dataBytes (p : Pointer) : List UInt8 := p.elements.map readByte

section Printing

/- `quotient` prints the quotient of two numbers as a float of the language. -/
variable (quotient : Nat → Nat → String)

/-- A null pointer is read as a struct of zeros. -/
def framesMain (root : Struct) : Output :=
  (root.ptr 0).elements.head?.elim ⟨[], some .wantedFrame⟩ fun frame =>
    if tag frame = 0 then
      let af := (frame.ptr 0).target
      let pts := (af.ptr 1).target
      ⟨["stream ID: " ++ toString (rustAudio.get .streamId af),
        "channels: " ++ toString (rustAudio.get .channels af),
        "pts: " ++ quotient (rustRational.get .num pts) (rustRational.get .den pts),
        "data: " ++ debugBytes (dataBytes (af.ptr 0))], none⟩
    else ⟨["Was not an audio frame"], none⟩

/-- The schema is loaded from `sourcePath` as it is, so its offsets are those of the generated
    code. The division raises for a denominator of zero, when two lines of the frame are out. -/
def readData (sourcePath : String) (root : Struct) : Output :=
  let loading := "loading schema from " ++ sourcePath
  let count := "number of frames: " ++ toString (root.ptr 0).elements.length
  (root.ptr 0).elements.head?.elim ⟨[loading, count], some .indexError⟩ fun frame =>
    if tag frame = 0 then
      let af := (frame.ptr 0).target
      let pts := (af.ptr 1).target
      let found :=
        [loading, count, "found audioFrame!", toString (tsAudio.get .channels af) ++ " channels"]
      if tsRational.get .den pts = 0 then ⟨found, some .zeroDivision⟩
      else
        ⟨found ++ ["PTS: " ++ quotient (tsRational.get .num pts) (tsRational.get .den pts),
          "Data: b'" ++ hexlify (dataBytes (af.ptr 0)) ++ "'"], none⟩
    else if tag frame = 1 then ⟨[loading, count, "found videoFrame!"], none⟩
    else ⟨[loading, count], some .unknownMember⟩

def rustLines : Frame → List String
  | .audioFrame content =>
    let m := content.getD emptyMedia
    let pts := m.pts.getD fun _ => 0
    ["stream ID: " ++ toString (m.number .streamId), "channels: " ++ toString (m.number .channels),
      "pts: " ++ quotient (pts .num) (pts .den), "data: " ++ debugBytes (m.data.getD [])]
  | _ => ["Was not an audio frame"]

def pythonLines : Frame → Output
  | .audioFrame content =>
    let m := content.getD emptyMedia
    let pts := m.pts.getD fun _ => 0
    let found := ["found audioFrame!", toString (m.number .channels) ++ " channels"]
    if pts .den = 0 then ⟨found, some .zeroDivision⟩
    else
      ⟨found ++ ["PTS: " ++ quotient (pts .num) (pts .den),
        "Data: b'" ++ hexlify (m.data.getD []) ++ "'"], none⟩
  | .videoFrame _ => ⟨["found videoFrame!"], none⟩
  | .notInSchema _ => ⟨[], some .unknownMember⟩

def rustOutput (frames : List Frame) : Output :=
  frames.head?.elim ⟨[], some .wantedFrame⟩ fun f => ⟨rustLines quotient f, none⟩

def pythonOutput (sourcePath : String) (frames : List Frame) : Output :=
  let loading := "loading schema from " ++ sourcePath
  let count := "number of frames: " ++ toString frames.length
  frames.head?.elim ⟨[loading, count], some .indexError⟩ fun f =>
    ⟨loading :: count :: (pythonLines quotient f).lines, (pythonLines quotient f).failure⟩

end Printing

section Lists

variable {V : Type} {shows : Struct → V → Prop} {p : Pointer} {x : Option (List V)}

theorem elements_length (lists : Lists shows p x) : p.elements.length = (x.getD []).length := by
  cases lists with
  | null => rfl
  | list here => rw [Pointer.elements, List.length_map, List.length_range, Option.getD_some]

theorem elements_head (lists : Lists shows p x) :
    Option.Rel shows p.elements.head? (x.getD []).head? := by
  cases lists with
  | null => exact .none
  | @list element vs here =>
    cases vs with
    | nil => exact .none
    | cons v vs =>
      have head : (Pointer.list (v :: vs).length element).elements.head? = some (element 0) := by
        rw [Pointer.elements, List.length_cons, List.range_succ_eq_map]
        rfl
      rw [head]
      exact .some (here 0 v rfl)

end Lists

theorem dataBytes_read (p : Pointer) : dataBytes p = (readParts readByte p).getD [] := by
  cases p with
  | list length element => rw [dataBytes, Pointer.elements, List.map_map]; rfl
  | _ => rfl

structure Content {F : Type} {width : F → Nat} (L : Layout width) (af : Struct) (m : Media F) :
    Prop where
  number : ∀ f, L.get f af = m.number f
  data : dataBytes (af.ptr 0) = m.data.getD []
  pts : ∀ f, tsRational.get f (af.ptr 1).target = m.pts.getD (fun _ => 0) f

theorem content_target {F : Type} {width : F → Nat} {L : Layout width} {p : Pointer}
    {content : Option (Media F)} (points : PointsTo (MediaShows L) p content) :
    Content L p.target (content.getD emptyMedia) := by
  cases points with
  | null => exact ⟨fun f => number_new 0 0 _ _, rfl, fun f => number_new 0 0 _ _⟩
  | @struct af m shows =>
    refine ⟨shows.holds.get, ?_, ?_⟩
    · rw [Pointer.target, dataBytes_read, shows.data.readParts readByte_shows, Option.getD_some]
    · intro f
      rw [Pointer.target, Option.getD_some]
      have points := shows.pts
      generalize m.pts = pts at points
      generalize af.ptr 1 = q at points
      cases points with
      | null => exact number_new 0 0 _ _
      | struct holds => exact holds.get f

theorem rustAudio_agrees : rustAudio = tsAudio := audioLayout_agrees .rust

theorem rustRational_agrees : rustRational = tsRational := rationalLayout_agrees .rust

section Showing

variable (quotient : Nat → Nat → String) {root : Struct} {frames : Option (List Frame)}
  (shows : FramesShow root frames)
include shows

theorem framesMain_shows : framesMain quotient root = rustOutput quotient (frames.getD []) := by
  unfold framesMain rustOutput
  rcases rel_cases (elements_head shows.frames) with ⟨none, none'⟩ | ⟨s, f, head, head', frame⟩
  · rw [none, none']
    rfl
  · rw [head, head', Option.elim_some, Option.elim_some, frame.tagged, rustAudio_agrees,
      rustRational_agrees]
    have content := frame.content
    cases f with
    | audioFrame x =>
      have reads := content_target content
      simp only [Frame.which, if_pos, reads.number, reads.data, reads.pts, rustLines]
    | videoFrame x => simp [Frame.which, rustLines]
    | notInSchema t =>
      have other : (Frame.notInSchema t).which ≠ 0 := notInSchema_which content (by decide)
      simp only [if_neg other, rustLines]

theorem readData_shows (sourcePath : String) :
    readData quotient sourcePath root = pythonOutput quotient sourcePath (frames.getD []) := by
  unfold readData pythonOutput
  rw [elements_length shows.frames]
  rcases rel_cases (elements_head shows.frames) with ⟨none, none'⟩ | ⟨s, f, head, head', frame⟩
  · rw [none, none']
    rfl
  · simp only [head, head', Option.elim_some, frame.tagged]
    have content := frame.content
    cases f with
    | audioFrame x =>
      have reads := content_target content
      simp only [Frame.which, if_pos, reads.number, reads.data, reads.pts, pythonLines]
      split <;> rfl
    | videoFrame x => simp [Frame.which, pythonLines]
    | notInSchema t =>
      have first : (Frame.notInSchema t).which ≠ 0 := notInSchema_which content (by decide)
      have second : (Frame.notInSchema t).which ≠ 1 := notInSchema_which content (by decide)
      simp only [if_neg first, if_neg second, pythonLines]

end Showing

/-- Whatever calls a builder of any language makes, the two programs print what the calls
    describe. The Python program fails on the frames that it can not divide for. The two
    languages print a float each in their own way. -/
theorem programs_print_frames (display repr : Nat → Nat → String) (sourcePath : String)
    (l : Language) (calls : List Call) :
    (run (fun s c => perform l c s) newRoot calls).map (framesMain display) =
        (run (fun frames c => update l c frames) none calls).map
          (fun frames => rustOutput display (frames.getD [])) ∧
      (run (fun s c => perform l c s) newRoot calls).map (readData repr sourcePath) =
        (run (fun frames c => update l c frames) none calls).map
          (fun frames => pythonOutput repr sourcePath (frames.getD [])) := by
  rcases rel_cases (run_simulates (call_simulates l) calls root_new) with ⟨failed, failed'⟩ |
    ⟨root, frames, ran, ran', shows⟩
  · rw [failed, failed']
    exact ⟨rfl, rfl⟩
  · rw [ran, ran', Option.map_some, Option.map_some, Option.map_some, Option.map_some,
      framesMain_shows display shows, readData_shows repr shows sourcePath]
    exact ⟨rfl, rfl⟩

def onAudio (w : MediaWrite AudioField) : Call := .frame 0 (.audioFrame w)

def header (length : Nat) : List Call :=
  [.initFrames 1, .frame 0 .initAudioFrame, onAudio (.setNumber .channels 2),
    onAudio (.setNumber .streamId 69), onAudio .initPts, onAudio (.setPts .num 1),
    onAudio (.setPts .den 60), onAudio (.initData length)]

/-- The random numbers are taken as the bytes that `Math.random() * 256` is cut to. -/
def fill (length : Nat) (random : Nat → Nat) : List Call :=
  (List.range length).map fun j => onAudio (.setByte j (random j))

def doWrite (random : Nat → Nat) : List Call := header 200 ++ fill 200 random

def written (data : List UInt8) : Media AudioField where
  number := Function.update (Function.update (fun _ => 0) .channels 2) .streamId 69
  data := some data
  pts := some (Function.update (Function.update (fun _ => 0) .num 1) .den 60)

theorem header_run (length : Nat) :
    run (fun frames c => update .ts c frames) none (header length) =
      some (some [.audioFrame (some (written (List.replicate length 0)))]) := rfl

theorem setByte_next (m : Media AudioField) (done : List UInt8) (n v : Nat) :
    update .ts (onAudio (.setByte done.length v))
        (some [.audioFrame (some { m with data := some (done ++ List.replicate (n + 1) 0) })]) =
      some (some [.audioFrame (some
        { m with data := some ((done ++ [UInt8.ofNat v]) ++ List.replicate n 0) })]) := by
  have found : (done ++ List.replicate (n + 1) (0 : UInt8))[done.length]? = some 0 := by
    rw [List.getElem?_append_right (Nat.le_refl _), Nat.sub_self]
    rfl
  have set : (done ++ List.replicate (n + 1) (0 : UInt8)).set done.length (UInt8.ofNat v) =
      (done ++ [UInt8.ofNat v]) ++ List.replicate n 0 := by
    rw [List.set_append_right _ _ (Nat.le_refl _), Nat.sub_self, List.append_assoc]
    rfl
  simp only [onAudio, update, updatePartIn, updatePart, updateAt, updateFrame, updateMedia,
    Option.bind_some, Option.getD_some, List.getElem?_cons_zero, found, Option.map_some, set,
    List.set_cons_zero]

theorem fill_bytes (random : Nat → Nat) (m : Media AudioField) (n : Nat) (done : List UInt8) :
    run (fun frames c => update .ts c frames)
        (some [.audioFrame (some { m with data := some (done ++ List.replicate n 0) })])
        ((List.range' done.length n).map fun j => onAudio (.setByte j (random j))) =
      some (some [.audioFrame (some { m with
        data := some (done ++ (List.range' done.length n).map fun j => UInt8.ofNat (random j)) })]) := by
  induction n generalizing done with
  | zero => rfl
  | succ n ih =>
    have rest := ih (done ++ [UInt8.ofNat (random done.length)])
    rw [List.length_append, List.length_singleton] at rest
    rw [List.range'_succ, List.map_cons, run, setByte_next, Option.bind_some, rest, List.map_cons,
      List.append_assoc]
    rfl

theorem fill_run (length : Nat) (random : Nat → Nat) :
    run (fun frames c => update .ts c frames) none (header length ++ fill length random) =
      some (some [.audioFrame (some (written ((List.range length).map fun j =>
        UInt8.ofNat (random j))))]) := by
  have loop := fill_bytes random (written []) length []
  rw [List.length_nil, ← List.range_eq_range'] at loop
  rw [run_append, header_run, Option.bind_some]
  exact loop

theorem rustOutput_written (quotient : Nat → Nat → String) (bytes : List UInt8) :
    rustOutput quotient [.audioFrame (some (written bytes))] =
      ⟨["stream ID: 69", "channels: 2", "pts: " ++ quotient 1 60, "data: " ++ debugBytes bytes],
        none⟩ := by
  have stream : "stream ID: " ++ toString 69 = "stream ID: 69" := by decide
  have channels : "channels: " ++ toString 2 = "channels: 2" := by decide
  rw [← stream, ← channels]
  rfl

theorem pythonOutput_written (quotient : Nat → Nat → String) (sourcePath : String)
    (bytes : List UInt8) :
    pythonOutput quotient sourcePath [.audioFrame (some (written bytes))] =
      ⟨["loading schema from " ++ sourcePath, "number of frames: 1", "found audioFrame!",
        "2 channels", "PTS: " ++ quotient 1 60, "Data: b'" ++ hexlify bytes ++ "'"], none⟩ := by
  have count : "number of frames: " ++ toString 1 = "number of frames: 1" := by decide
  have channels : toString 2 ++ " channels" = "2 channels" := by decide
  rw [← count, ← channels]
  rfl

/-- What the TypeScript program writes, the other two print: the header of the frame and
    every byte, whatever the random numbers were. -/
theorem written_file_prints (display repr : Nat → Nat → String) (sourcePath : String)
    (random : Nat → Nat) :
    ∃ root, run (fun s c => perform .ts c s) newRoot (doWrite random) = some root ∧
      framesMain display root = ⟨["stream ID: 69", "channels: 2", "pts: " ++ display 1 60,
        "data: " ++ debugBytes ((List.range 200).map fun j => UInt8.ofNat (random j))], none⟩ ∧
      readData repr sourcePath root = ⟨["loading schema from " ++ sourcePath, "number of frames: 1",
        "found audioFrame!", "2 channels", "PTS: " ++ repr 1 60,
        "Data: b'" ++ hexlify ((List.range 200).map fun j => UInt8.ofNat (random j)) ++ "'"], none⟩ := by
  have ran := fill_run 200 random
  rcases rel_cases (run_simulates (call_simulates .ts) (doWrite random) root_new) with
    ⟨-, failed⟩ | ⟨root, frames, built, described, shows⟩
  · rw [doWrite, ran] at failed
    simp at failed
  · obtain rfl := Option.some.inj (described.symm.trans ran)
    refine ⟨root, built, ?_, ?_⟩
    · rw [framesMain_shows display shows, Option.getD_some, rustOutput_written]
    · rw [readData_shows repr shows sourcePath, Option.getD_some, pythonOutput_written]

end FramePrinting
