import Kahawai.Core.Decimal
import Kahawai.Lib.Codec
import Kahawai.Lib.CommandLine
import Kahawai.Media.Remux

/-!
# Jobs

One run of the pipeline and its spellings (`crates/kahawai-playback/src/job.rs`): the command
line of the worker, `to_argv` and `from_args`, and the message to a transcoder,
`to_start_session` and `from_start_session`; the flags are those of `WorkerArgs`
(`crates/kahawai-playback/src/worker.rs`).

Floating-point numbers, `serde_json` and the parser of command lines are parameters. The message
itself is handed on as it is. `launch` is what the child of a supervisor makes of the tokens it
was started with.
-/

namespace Kahawai.Playback

open Kahawai.Core Kahawai.Core.Text Kahawai.Lib Kahawai.Lib.CommandLine Kahawai.Media
open Kahawai.Lib.Codec (Bytes)

/-! ## Plans -/

/-- `f64`: a finite number is read as it was written. -/
structure Floats where
  F64 : Type
  isFinite : F64 → Bool
  nan : F64
  toText : F64 → Text
  parse : Text → Option F64
  nan_not_finite : isFinite nan = false
  parse_toText : ∀ x, isFinite x = true → parse (toText x) = some x

/-- `AudioLayoutGain`. -/
structure AudioLayoutGain (fl : Floats) where
  layout : AudioLayout
  gainDb : fl.F64

/-- `MAX_LAYOUT_GAINS`. -/
def maxLayoutGains : ℕ := standardLayouts.length + 1

/-- `AudioLayoutGains`: an array of as many slots. -/
abbrev AudioLayoutGains (fl : Floats) :=
  { slots : List (Option (AudioLayoutGain fl)) // slots.length = maxLayoutGains }

/-- `RemuxPlan` with the loudness gains. -/
structure Plan (fl : Floats) extends RemuxPlan where
  stereoGainDb : Option fl.F64
  nativeGainDb : Option fl.F64
  loudnessSourceChannels : Option ℕ
  loudnessGains : AudioLayoutGains fl

/-- `Payload`. -/
inductive Payload
  | bytes (data : Bytes)
  | path (file : Text)
  deriving DecidableEq

/-- `Payload::read`, where `files` are the files that can be read. -/
def Payload.read (files : Text → Option Bytes) : Payload → Option Bytes
  | .bytes data => some data
  | .path file => files file

/-- `Job`. -/
structure Job (fl : Floats) where
  plan : Plan fl
  partSizes : List ℕ
  startMs : ℕ
  sink : Option Text
  burnSets : Option Payload
  burnAss : Option Payload
  targetDurationSecs : Option ℕ

variable {fl : Floats}

/-- `exact_gains`. -/
def exactGains (plan : Plan fl) : List (AudioLayoutGain fl) := plan.loudnessGains.1.filterMap id

/-- Gains in the first slots. -/
def packSlots (gains : List (AudioLayoutGain fl)) (h : gains.length ≤ maxLayoutGains) :
    AudioLayoutGains fl :=
  ⟨gains.map some ++ List.replicate (maxLayoutGains - gains.length) none, by
    rw [List.length_append, List.length_map, List.length_replicate]; omega⟩

/-- `layout_gains` (lines 370–384). -/
def layoutGains (gains : List (AudioLayoutGain fl)) : Except Text (AudioLayoutGains fl) :=
  if h : gains.length ≤ maxLayoutGains then .ok (packSlots gains h)
  else .error (lit "too many layout gains (" ++ ofNat gains.length ++ lit " > " ++
    ofNat maxLayoutGains ++ lit ")")

/-! ## Enumerations -/

/-- `mode_arg`. -/
def modeArg : StreamMode → Text
  | .copy => lit "copy"
  | .encode => lit "encode"
  | .off => lit "off"

/-- `parse_mode`. -/
def parseMode (s : Text) : StreamMode :=
  if s = lit "copy" then .copy else if s = lit "encode" then .encode else .off

/-- `VideoTarget::from_str`. -/
def videoTargetFromStr (s : Text) : VideoTarget :=
  if s = lit "hevc" then .hevc else if s = lit "av1" then .av1 else .h264

/-- `AudioTarget::from_str`. -/
def audioTargetFromStr (s : Text) : AudioTarget := if s = lit "opus" then .opus else .aac

/-- `SegmentFormat::as_str`. -/
def segmentFormatAsStr : SegmentFormat → Text
  | .ts => lit "ts"
  | .fmp4 => lit "fmp4"

/-- `SegmentFormat::from_str`. -/
def segmentFormatFromStr (s : Text) : SegmentFormat := if s = lit "fmp4" then .fmp4 else .ts

/-! ## The message -/

/-- The message `AudioLayoutGain`. -/
structure WireGain (fl : Floats) where
  channels : ℕ
  channelMask : ℕ
  gainDb : fl.F64

/-- `message StartSession`. -/
structure StartSession (fl : Floats) where
  sessionId : Text
  size : ℕ
  video : Text
  audio : Text
  startMs : ℕ
  sink : Text
  audioTrack : ℕ
  videoTrack : ℕ
  tailSizes : List ℕ
  videoKbps : ℕ
  maxHeight : ℕ
  maxChannels : ℕ
  toneMap : Bool
  burnSubtitle : ℕ
  burnSets : Bytes
  videoCodec : Text
  audioCodec : Text
  container : Text
  burnAss : ℕ
  burnAssFile : Bytes
  deinterlace : Bool
  stereoGainDb : Option fl.F64
  nativeGainDb : Option fl.F64
  loudnessSourceChannels : Option ℕ
  loudnessGains : List (WireGain fl)
  targetDurationSecs : ℕ
  maxBitDepth : ℕ

/-- `as u32`. -/
def asU32 (n : ℕ) : ℕ := n % 2 ^ 32

/-- The closure `payload` of `to_start_session`. -/
def wirePayload (files : Text → Option Bytes) : Option Payload → Except Text Bytes
  | none => .ok []
  | some p =>
    match p.read files with
    | some bytes => .ok bytes
    | none => .error (lit "reading a burn payload")

/-- A burn index: 1-based, 0 burns nothing. -/
def wireIndex (n : Option ℕ) : ℕ := n.elim 0 fun n => asU32 (asU32 n + 1)

/-- `to_start_session` (lines 270–320). -/
def toStartSession (files : Text → Option Bytes) (sessionId : Text) (job : Job fl) :
    Except Text (StartSession fl) :=
  match job.partSizes with
  | [] => .error (lit "a job needs at least one part")
  | size :: tailSizes => do
    let plan := job.plan
    let burnSets ← wirePayload files job.burnSets
    let burnAssFile ← wirePayload files job.burnAss
    return {
      sessionId
      size
      video := modeArg plan.video
      audio := modeArg plan.audio
      startMs := job.startMs
      sink := job.sink.getD []
      audioTrack := asU32 plan.audioTrack
      videoTrack := asU32 plan.videoTrack
      tailSizes
      videoKbps := plan.videoKbps.getD 0
      maxHeight := plan.maxHeight.getD 0
      maxChannels := plan.maxChannels.getD 0
      toneMap := plan.toneMap
      burnSubtitle := wireIndex plan.burnSubtitle
      burnSets
      videoCodec := lit plan.videoCodec.asStr
      audioCodec := lit plan.audioCodec.asStr
      container := segmentFormatAsStr plan.segmentFormat
      burnAss := wireIndex plan.burnAss
      burnAssFile
      deinterlace := plan.deinterlace
      stereoGainDb := some (plan.stereoGainDb.getD fl.nan)
      nativeGainDb := some (plan.nativeGainDb.getD fl.nan)
      loudnessSourceChannels := some (plan.loudnessSourceChannels.getD 0)
      loudnessGains := (exactGains plan).map fun g =>
        ⟨g.layout.channels, g.layout.channelMask, g.gainDb⟩
      targetDurationSecs := job.targetDurationSecs.getD 0
      maxBitDepth := plan.maxBitDepth.getD 0 }

/-- The closure `positive` of `from_start_session`. -/
def positive (v : ℕ) : Option ℕ := if 0 < v then some v else none

/-- `from_start_session` (lines 323–366). -/
def fromStartSession (msg : StartSession fl) : Except Text (Job fl) := do
  let loudnessGains ← layoutGains (msg.loudnessGains.map fun g =>
    (⟨.new g.channels g.channelMask, g.gainDb⟩ : AudioLayoutGain fl))
  let plan : Plan fl := {
    video := parseMode msg.video
    audio := parseMode msg.audio
    audioTrack := msg.audioTrack
    videoTrack := msg.videoTrack
    videoKbps := positive msg.videoKbps
    maxHeight := positive msg.maxHeight
    maxBitDepth := positive msg.maxBitDepth
    maxChannels := positive msg.maxChannels
    stereoGainDb := msg.stereoGainDb.filter fun gain => fl.isFinite gain
    nativeGainDb := msg.nativeGainDb.filter fun gain => fl.isFinite gain
    loudnessSourceChannels := msg.loudnessSourceChannels.bind positive
    loudnessGains
    toneMap := msg.toneMap
    deinterlace := msg.deinterlace
    burnSubtitle := (positive msg.burnSubtitle).map fun n => n - 1
    burnAss := (positive msg.burnAss).map fun n => n - 1
    videoCodec := videoTargetFromStr msg.videoCodec
    audioCodec := audioTargetFromStr msg.audioCodec
    segmentFormat := segmentFormatFromStr msg.container }
  return {
    plan
    partSizes := msg.size :: msg.tailSizes
    startMs := msg.startMs
    sink := if msg.sink.isEmpty then none else some msg.sink
    burnSets := if msg.burnSets.isEmpty then none else some (.bytes msg.burnSets)
    burnAss := if msg.burnAssFile.isEmpty then none else some (.bytes msg.burnAssFile)
    targetDurationSecs := positive msg.targetDurationSecs }

/-! ## The command line -/

/-- The flags of `WorkerArgs` (`crates/kahawai-playback/src/worker.rs`). -/
inductive WorkerFlag
  | video
  | audio
  | audioTrack
  | videoTrack
  | startMs
  | sink
  | part
  | videoKbps
  | maxHeight
  | maxBitDepth
  | maxChannels
  | stereoGainDb
  | nativeGainDb
  | loudnessSourceChannels
  | loudnessGains
  | toneMap
  | deinterlace
  | supervisorPid
  | burnSub
  | burnSets
  | burnAss
  | burnAssFile
  | videoCodec
  | audioCodec
  | container
  deriving DecidableEq

namespace WorkerFlag

def all : List WorkerFlag :=
  [video, audio, audioTrack, videoTrack, startMs, sink, part, videoKbps, maxHeight, maxBitDepth,
    maxChannels, stereoGainDb, nativeGainDb, loudnessSourceChannels, loudnessGains, toneMap,
    deinterlace, supervisorPid, burnSub, burnSets, burnAss, burnAssFile, videoCodec, audioCodec,
    container]

/-- The long name that the attribute gives a field. -/
def long : WorkerFlag → String
  | video => "--video"
  | audio => "--audio"
  | audioTrack => "--audio-track"
  | videoTrack => "--video-track"
  | startMs => "--start-ms"
  | sink => "--sink"
  | part => "--part"
  | videoKbps => "--video-kbps"
  | maxHeight => "--max-height"
  | maxBitDepth => "--max-bit-depth"
  | maxChannels => "--max-channels"
  | stereoGainDb => "--stereo-gain-db"
  | nativeGainDb => "--native-gain-db"
  | loudnessSourceChannels => "--loudness-source-channels"
  | loudnessGains => "--loudness-gains"
  | toneMap => "--tone-map"
  | deinterlace => "--deinterlace"
  | supervisorPid => "--supervisor-pid"
  | burnSub => "--burn-sub"
  | burnSets => "--burn-sets"
  | burnAss => "--burn-ass"
  | burnAssFile => "--burn-ass-file"
  | videoCodec => "--video-codec"
  | audioCodec => "--audio-codec"
  | container => "--container"

/-- The token of the flag. -/
def name (f : WorkerFlag) : Text := lit f.long

/-- A field of type `bool` takes no value. -/
def takesValue : WorkerFlag → Bool
  | toneMap => false
  | deinterlace => false
  | _ => true

def find (token : Text) : Option WorkerFlag := all.find? fun f => f.name = token

theorem find_name (f : WorkerFlag) : find f.name = some f := by
  cases f <;> decide

end WorkerFlag

def workerFlags : Flags WorkerFlag where
  name := WorkerFlag.name
  takesValue := WorkerFlag.takesValue
  find := WorkerFlag.find
  find_name := WorkerFlag.find_name

/-- `WorkerArgs`. -/
structure WorkerArgs (fl : Floats) where
  socket : Text
  outDir : Text
  size : ℕ
  video : Text
  audio : Text
  audioTrack : ℕ
  videoTrack : ℕ
  startMs : ℕ
  sink : Option Text
  parts : List Text
  videoKbps : Option ℕ
  maxHeight : Option ℕ
  maxBitDepth : Option ℕ
  maxChannels : Option ℕ
  stereoGainDb : Option fl.F64
  nativeGainDb : Option fl.F64
  loudnessSourceChannels : Option ℕ
  loudnessGains : Option Text
  toneMap : Bool
  deinterlace : Bool
  supervisorPid : Option ℕ
  burnSub : Option ℕ
  burnSets : Option Text
  burnAss : Option ℕ
  burnAssFile : Option Text
  videoCodec : Text
  audioCodec : Text
  container : Text

/-- An optional value of a type that `parse` reads; no value when there is more than one. -/
def typed {α : Type} (parse : Text → Option α) (f : WorkerFlag)
    (flags : List (WorkerFlag × Option Token)) : Option (Option α) := do
  match ← valueOf f flags with
  | none => some none
  | some value => (parse value).map some

/-- The derived `WorkerArgs` of a command line, with the defaults of the attributes. -/
def WorkerArgs.ofLine (fl : Floats) (l : Line WorkerFlag) : Option (WorkerArgs fl) := do
  let [socket, outDir, size] := l.positionals | none
  let u32 := fun f => typed parseU32 f l.flags
  let usize := fun f => typed (parseUnsigned (2 ^ 64)) f l.flags
  let f64 := fun f => typed fl.parse f l.flags
  let text := fun f => typed some f l.flags
  return {
    socket
    outDir
    size := ← parseUnsigned (2 ^ 64) size
    video := (← text .video).getD (lit "off")
    audio := (← text .audio).getD (lit "off")
    audioTrack := (← usize .audioTrack).getD 0
    videoTrack := (← usize .videoTrack).getD 0
    startMs := (← usize .startMs).getD 0
    sink := ← text .sink
    parts := valuesOf .part l.flags
    videoKbps := ← u32 .videoKbps
    maxHeight := ← u32 .maxHeight
    maxBitDepth := ← u32 .maxBitDepth
    maxChannels := ← u32 .maxChannels
    stereoGainDb := ← f64 .stereoGainDb
    nativeGainDb := ← f64 .nativeGainDb
    loudnessSourceChannels := ← u32 .loudnessSourceChannels
    loudnessGains := ← text .loudnessGains
    toneMap := given .toneMap l.flags
    deinterlace := given .deinterlace l.flags
    supervisorPid := ← u32 .supervisorPid
    burnSub := ← usize .burnSub
    burnSets := ← text .burnSets
    burnAss := ← usize .burnAss
    burnAssFile := ← text .burnAssFile
    videoCodec := (← text .videoCodec).getD (lit "h264")
    audioCodec := (← text .audioCodec).getD (lit "aac")
    container := (← text .container).getD (lit "ts") }

/-- `ArgvLayout`; paths are UTF-8. -/
structure ArgvLayout where
  sockets : List Text
  outDir : Text
  burnSets : Option Text
  burnAss : Option Text
  supervisorPid : Option ℕ

/-- `WorkerInvocation`. -/
structure WorkerInvocation (fl : Floats) where
  job : Job fl
  sockets : List Text
  outDir : Text
  supervisorPid : Option ℕ

/-- `serde_json` on `Vec<AudioLayoutGain>`. -/
structure Json (fl : Floats) where
  toText : List (AudioLayoutGain fl) → Option Text
  fromText : Text → Option (List (AudioLayoutGain fl))

/-- The closure `push` of `to_argv`, for a flag that has a value if `value` has. -/
def push (flag : String) (value : Option Text) : List Text :=
  match value with
  | some value => [lit flag, value]
  | none => []

/-- The closure `push`, for a flag alone. -/
def pushSwitch (flag : String) (on : Bool) : List Text := if on then [lit flag] else []

/-- The flag `--loudness-gains` (lines 172–178). -/
def gainsText (json : Json fl) (gains : List (AudioLayoutGain fl)) : Except Text (Option Text) :=
  if gains.isEmpty then .ok none
  else
    match json.toText gains with
    | some text => .ok (some text)
    | none => .error (lit "encoding loudness gains")

/-- `to_argv` (lines 121–209). -/
def toArgv (json : Json fl) (layout : ArgvLayout) (job : Job fl) : Except Text (List Text) :=
  match job.partSizes, layout.sockets with
  | [], _ => .error (lit "a job needs at least one part")
  | size :: tailSizes, sockets => do
    if sockets.length ≠ (size :: tailSizes).length then
      throw (ofNat sockets.length ++ lit " sockets for " ++ ofNat (size :: tailSizes).length ++
        lit " parts")
    let plan := job.plan
    let gains ← gainsText json (exactGains plan)
    return [lit "remux-worker", sockets.headD [], layout.outDir, ofNat size] ++
      push "--supervisor-pid" (layout.supervisorPid.map ofNat) ++
      ((sockets.tail.zip tailSizes).flatMap fun (sock, size) =>
        push "--part" (some (sock ++ lit ":" ++ ofNat size))) ++
      push "--video-kbps" (plan.videoKbps.map ofNat) ++
      push "--max-height" (plan.maxHeight.map ofNat) ++
      push "--max-bit-depth" (plan.maxBitDepth.map ofNat) ++
      push "--max-channels" (plan.maxChannels.map ofNat) ++
      push "--stereo-gain-db" (plan.stereoGainDb.map fl.toText) ++
      push "--native-gain-db" (plan.nativeGainDb.map fl.toText) ++
      push "--loudness-source-channels" (plan.loudnessSourceChannels.map ofNat) ++
      push "--loudness-gains" gains ++
      pushSwitch "--deinterlace" plan.deinterlace ++
      pushSwitch "--tone-map" plan.toneMap ++
      push "--burn-sub" (plan.burnSubtitle.map ofNat) ++
      push "--burn-sets" layout.burnSets ++
      push "--burn-ass" (plan.burnAss.map ofNat) ++
      push "--burn-ass-file" layout.burnAss ++
      push "--video" (some (modeArg plan.video)) ++
      push "--audio" (some (modeArg plan.audio)) ++
      push "--video-codec" (some (lit plan.videoCodec.asStr)) ++
      push "--audio-codec" (some (lit plan.audioCodec.asStr)) ++
      push "--container" (some (segmentFormatAsStr plan.segmentFormat)) ++
      push "--audio-track" (some (ofNat plan.audioTrack)) ++
      push "--video-track" (some (ofNat plan.videoTrack)) ++
      push "--start-ms" (some (ofNat job.startMs)) ++
      push "--sink" job.sink

/-- A `--part`: the socket, and the size behind the last colon (lines 215–221). -/
def parsePart (part : Text) : Except Text (Text × ℕ) :=
  match rsplitOnce (· = ':') part with
  | none => .error (lit "--part wants <socket>:<size>")
  | some (sock, size) =>
    match parseUnsigned (2 ^ 64) size with
    | some size => .ok (sock, size)
    | none => .error (lit "--part size")

/-- The gains of `--loudness-gains` (lines 222–229). -/
def parseGains (json : Json fl) : Option Text → Except Text (List (AudioLayoutGain fl))
  | none => .ok []
  | some text =>
    match json.fromText text with
    | some gains => .ok gains
    | none => .error (lit "parsing --loudness-gains")

/-- `from_args` (lines 212–267). -/
def fromArgs (json : Json fl) (args : WorkerArgs fl) : Except Text (WorkerInvocation fl) := do
  let parts ← args.parts.mapM parsePart
  let parsed ← parseGains json args.loudnessGains
  let loudnessGains ← layoutGains parsed
  let plan : Plan fl := {
    video := parseMode args.video
    audio := parseMode args.audio
    audioTrack := args.audioTrack
    videoTrack := args.videoTrack
    videoKbps := args.videoKbps
    maxHeight := args.maxHeight
    maxBitDepth := args.maxBitDepth
    maxChannels := args.maxChannels
    stereoGainDb := args.stereoGainDb
    nativeGainDb := args.nativeGainDb
    loudnessSourceChannels := args.loudnessSourceChannels
    loudnessGains
    toneMap := args.toneMap
    deinterlace := args.deinterlace
    burnSubtitle := args.burnSub
    burnAss := args.burnAss
    videoCodec := videoTargetFromStr args.videoCodec
    audioCodec := audioTargetFromStr args.audioCodec
    segmentFormat := segmentFormatFromStr args.container }
  return {
    job := {
      plan
      partSizes := args.size :: parts.map Prod.snd
      startMs := args.startMs
      sink := args.sink
      burnSets := args.burnSets.map Payload.path
      burnAss := args.burnAssFile.map Payload.path
      targetDurationSecs := none }
    sockets := args.socket :: parts.map Prod.fst
    outDir := args.outDir
    supervisorPid := args.supervisorPid }

/-- The subcommand, and what the parser makes of the tokens behind it. -/
def parseCommand (fl : Floats) (clap : List Token → Option (Line WorkerFlag)) :
    List Text → Option (WorkerArgs fl)
  | [] => none
  | command :: tokens =>
    if command = lit "remux-worker" then (clap tokens).bind (WorkerArgs.ofLine fl) else none

/-- What the child of a supervisor runs. -/
def launch (json : Json fl) (clap : List Token → Option (Line WorkerFlag)) (layout : ArgvLayout)
    (job : Job fl) : Option (WorkerInvocation fl) := do
  let argv ← (toArgv json layout job).toOption
  let args ← parseCommand fl clap argv
  (fromArgs json args).toOption

end Kahawai.Playback
