import Kahawai.Playback.Message

/-!
# The command line of a job

`toArgv` loses nothing of a job whose numbers have the types of `WorkerArgs`, except which slot an
exact gain has.

Results:
* `toArgv_eq`: the tokens are those of a command line, `jobFlags`.
* `argv_round_trip`: the worker reads the job off them, its exact gains in the first slots.
-/

namespace Kahawai.Playback

open Kahawai.Core Kahawai.Core.Text Kahawai.Lib Kahawai.Lib.CommandLine Kahawai.Media
open Kahawai.Lib.Codec (Bytes)

variable {fl : Floats}

section
variable {files : Text → Option Bytes} {job : Job fl}

/-! ## The command line round trip -/

/-- What the types of the command line ask of a job. -/
structure Spellable (job : Job fl) : Prop where
  parts : job.partSizes ≠ []
  sizes : ∀ size ∈ job.partSizes, size < 2 ^ 64
  start : job.startMs < 2 ^ 64
  tracks : job.plan.audioTrack < 2 ^ 64 ∧ job.plan.videoTrack < 2 ^ 64
  burns : ∀ n, job.plan.burnSubtitle = some n ∨ job.plan.burnAss = some n → n < 2 ^ 64
  words : ∀ c ∈ [job.plan.videoKbps, job.plan.maxHeight, job.plan.maxBitDepth,
    job.plan.maxChannels, job.plan.loudnessSourceChannels], ∀ n, c = some n → n < 2 ^ 32
  scalarGains : ∀ x, job.plan.stereoGainDb = some x ∨ job.plan.nativeGainDb = some x →
    fl.isFinite x = true

theorem HubBuilt.spellable (h : HubBuilt files job) : Spellable job where
  parts := h.parts
  sizes := h.sizes
  start := h.start
  tracks := by
    have := h.tracks
    omega
  burns n hn := by
    have := h.burns n hn
    omega
  words c hc n hn := (h.ceilings c hc n hn).2
  scalarGains := h.scalarGains

/-- A supervisor's layout for a job: a socket for each part. -/
structure ArgvLayout.For (layout : ArgvLayout) (job : Job fl) : Prop where
  sockets : layout.sockets.length = job.partSizes.length
  pid : ∀ n, layout.supervisorPid = some n → n < 2 ^ 32

/-- The `--part` flags. -/
def partFlags (parts : List (Text × ℕ)) : List (WorkerFlag × Option Token) :=
  parts.map fun part => (.part, some (part.1 ++ lit ":" ++ ofNat part.2))

/-- The flags of a job, in the order of `to_argv`. -/
def jobFlags (layout : ArgvLayout) (job : Job fl) (gains : Option Text) (tailSizes : List ℕ) :
    List (WorkerFlag × Option Token) :=
  [ option .supervisorPid (layout.supervisorPid.map ofNat),
    partFlags (layout.sockets.tail.zip tailSizes),
    option .videoKbps (job.plan.videoKbps.map ofNat),
    option .maxHeight (job.plan.maxHeight.map ofNat),
    option .maxBitDepth (job.plan.maxBitDepth.map ofNat),
    option .maxChannels (job.plan.maxChannels.map ofNat),
    option .stereoGainDb (job.plan.stereoGainDb.map fl.toText),
    option .nativeGainDb (job.plan.nativeGainDb.map fl.toText),
    option .loudnessSourceChannels (job.plan.loudnessSourceChannels.map ofNat),
    option .loudnessGains gains,
    switch .deinterlace job.plan.deinterlace,
    switch .toneMap job.plan.toneMap,
    option .burnSub (job.plan.burnSubtitle.map ofNat),
    option .burnSets layout.burnSets,
    option .burnAss (job.plan.burnAss.map ofNat),
    option .burnAssFile layout.burnAss,
    option .video (some (modeArg job.plan.video)),
    option .audio (some (modeArg job.plan.audio)),
    option .videoCodec (some (lit job.plan.videoCodec.asStr)),
    option .audioCodec (some (lit job.plan.audioCodec.asStr)),
    option .container (some (segmentFormatAsStr job.plan.segmentFormat)),
    option .audioTrack (some (ofNat job.plan.audioTrack)),
    option .videoTrack (some (ofNat job.plan.videoTrack)),
    option .startMs (some (ofNat job.startMs)),
    option .sink job.sink ].flatten

theorem flatMap_option (f : WorkerFlag) (value : Option Text) :
    (option f value).flatMap (flagTokens workerFlags) = push f.long value := by
  cases value <;> rfl

theorem flatMap_switch (f : WorkerFlag) (on : Bool) :
    (switch f on).flatMap (flagTokens workerFlags) = pushSwitch f.long on := by
  cases on <;> rfl

theorem flagTokens_some (f : WorkerFlag) (value : Text) :
    flagTokens workerFlags (f, some value) = push f.long (some value) := rfl

theorem flatMap_partFlags (parts : List (Text × ℕ)) :
    (partFlags parts).flatMap (flagTokens workerFlags) =
      parts.flatMap fun part => push "--part" (some (part.1 ++ lit ":" ++ ofNat part.2)) := by
  rw [partFlags, List.flatMap_map]
  simp only [flagTokens_some, WorkerFlag.long]

/-- The text of the gains. -/
theorem gainsText_eq {json : Json fl} (hjson : json.HandsBack (exactGains job.plan)) :
    ∃ gains, gainsText json (exactGains job.plan) = .ok gains ∧
      parseGains json gains = .ok (exactGains job.plan) := by
  obtain ⟨text, htext, hback⟩ := hjson
  unfold gainsText
  cases hgains : exactGains job.plan with
  | nil => exact ⟨none, rfl, rfl⟩
  | cons g gains =>
    rw [hgains] at htext hback
    exact ⟨some text, by simp [htext], by simp [parseGains, hback]⟩

/-- The tokens are those of a command line. -/
theorem toArgv_eq {json : Json fl} {layout : ArgvLayout} {size : ℕ} {tailSizes : List ℕ}
    {gains : Option Text} (hparts : job.partSizes = size :: tailSizes)
    (hsockets : layout.sockets.length = job.partSizes.length)
    (hgains : gainsText json (exactGains job.plan) = .ok gains) :
    toArgv json layout job = .ok (lit "remux-worker" :: Line.tokens workerFlags
      ⟨[layout.sockets.headD [], layout.outDir, ofNat size],
        jobFlags layout job gains tailSizes⟩) := by
  rw [hparts] at hsockets
  simp only [toArgv, hparts, hsockets, hgains, ne_eq, not_true, if_false, bind, Except.bind, pure,
    Except.pure, Line.tokens, jobFlags, List.flatten_cons, List.flatten_nil, List.append_nil,
    List.flatMap_append, flatMap_partFlags, flatMap_option, flatMap_switch, WorkerFlag.long,
    List.append_assoc, List.cons_append, List.nil_append]

theorem jobFlags_fits {layout : ArgvLayout} {gains : Option Text} {tailSizes : List ℕ} :
    ∀ f ∈ jobFlags layout job gains tailSizes, f.2.isSome = workerFlags.takesValue f.1 := by
  have hparts : ∀ f ∈ partFlags (layout.sockets.tail.zip tailSizes),
      f.2.isSome = workerFlags.takesValue f.1 := by
    intro f hf
    obtain ⟨part, -, rfl⟩ := List.mem_map.1 hf
    rfl
  simp only [jobFlags, List.flatten_cons, List.flatten_nil, List.append_nil,
    List.forall_mem_append]
  refine ⟨option_fits rfl, hparts, ?_⟩
  repeat' apply And.intro
  all_goals first | exact option_fits rfl | exact switch_fits rfl

/-- The values of each flag. -/
def jobValues (layout : ArgvLayout) (job : Job fl) (gains : Option Text) (tailSizes : List ℕ) :
    WorkerFlag → List Token
  | .supervisorPid => (layout.supervisorPid.map ofNat).toList
  | .part => (layout.sockets.tail.zip tailSizes).map fun part => part.1 ++ lit ":" ++ ofNat part.2
  | .videoKbps => (job.plan.videoKbps.map ofNat).toList
  | .maxHeight => (job.plan.maxHeight.map ofNat).toList
  | .maxBitDepth => (job.plan.maxBitDepth.map ofNat).toList
  | .maxChannels => (job.plan.maxChannels.map ofNat).toList
  | .stereoGainDb => (job.plan.stereoGainDb.map fl.toText).toList
  | .nativeGainDb => (job.plan.nativeGainDb.map fl.toText).toList
  | .loudnessSourceChannels => (job.plan.loudnessSourceChannels.map ofNat).toList
  | .loudnessGains => gains.toList
  | .deinterlace => []
  | .toneMap => []
  | .burnSub => (job.plan.burnSubtitle.map ofNat).toList
  | .burnSets => layout.burnSets.toList
  | .burnAss => (job.plan.burnAss.map ofNat).toList
  | .burnAssFile => layout.burnAss.toList
  | .video => [modeArg job.plan.video]
  | .audio => [modeArg job.plan.audio]
  | .videoCodec => [lit job.plan.videoCodec.asStr]
  | .audioCodec => [lit job.plan.audioCodec.asStr]
  | .container => [segmentFormatAsStr job.plan.segmentFormat]
  | .audioTrack => [ofNat job.plan.audioTrack]
  | .videoTrack => [ofNat job.plan.videoTrack]
  | .startMs => [ofNat job.startMs]
  | .sink => job.sink.toList

theorem valuesOf_partFlags (f : WorkerFlag) (parts : List (Text × ℕ)) :
    valuesOf f (partFlags parts) = if WorkerFlag.part = f then
      parts.map fun part => part.1 ++ lit ":" ++ ofNat part.2 else [] := by
  rw [valuesOf, partFlags, List.filterMap_map]
  by_cases hf : WorkerFlag.part = f
  · simp [hf]
  · simp [hf]

theorem valuesOf_jobFlags {layout : ArgvLayout} {gains : Option Text} {tailSizes : List ℕ}
    (f : WorkerFlag) :
    valuesOf f (jobFlags layout job gains tailSizes) = jobValues layout job gains tailSizes f := by
  simp only [jobFlags, List.flatten_cons, List.flatten_nil, List.append_nil, valuesOf_append,
    valuesOf_option, valuesOf_switch, valuesOf_partFlags]
  cases f <;> simp [jobValues]

theorem given_partFlags (f : WorkerFlag) (hf : f ≠ .part) (parts : List (Text × ℕ)) :
    given f (partFlags parts) = false := by
  simp [given, partFlags, hf.symm]

theorem given_jobFlags {layout : ArgvLayout} {gains : Option Text} {tailSizes : List ℕ} :
    given .toneMap (jobFlags layout job gains tailSizes) = job.plan.toneMap ∧
      given .deinterlace (jobFlags layout job gains tailSizes) = job.plan.deinterlace := by
  simp [jobFlags, given_partFlags]

/-- An optional value is read as it was written. -/
theorem typed_eq {α : Type} {parse : Text → Option α} {write : α → Text} {f : WorkerFlag}
    {flags : List (WorkerFlag × Option Token)} {o : Option α}
    (hvalues : valuesOf f flags = (o.map write).toList)
    (hback : ∀ x, o = some x → parse (write x) = some x) : typed parse f flags = some o := by
  unfold typed
  rw [valueOf_eq hvalues]
  cases o with
  | none => rfl
  | some x =>
    show (parse (write x)).map some = some (some x)
    rw [hback x rfl, Option.map_some]

theorem typed_text {f : WorkerFlag} {flags : List (WorkerFlag × Option Token)} {o : Option Text}
    (hvalues : valuesOf f flags = o.toList) : typed some f flags = some o := by
  have hvalues' : valuesOf f flags = (o.map id).toList := by rw [hvalues, Option.map_id, id_eq]
  exact typed_eq hvalues' fun _ _ => rfl

theorem mapM_parsePart {parts : List (Text × ℕ)} (h : ∀ part ∈ parts, part.2 < 2 ^ 64) :
    (parts.map fun part => part.1 ++ lit ":" ++ ofNat part.2).mapM parsePart = .ok parts := by
  induction parts with
  | nil => rfl
  | cons part parts ih =>
    obtain ⟨hpart, hparts⟩ := List.forall_mem_cons.1 h
    have hfirst : parsePart (part.1 ++ lit ":" ++ ofNat part.2) = .ok part := by
      simp only [parsePart, rsplitOnce_ofNat, parseUnsigned_ofNat hpart]
    rw [List.map_cons, List.mapM_cons, hfirst, ih hparts]
    rfl

/-- What the child reads in the flags of a job. -/
def jobArgs (layout : ArgvLayout) (job : Job fl) (gains : Option Text) (size : ℕ)
    (tailSizes : List ℕ) : WorkerArgs fl where
  socket := layout.sockets.headD []
  outDir := layout.outDir
  size := size
  video := modeArg job.plan.video
  audio := modeArg job.plan.audio
  audioTrack := job.plan.audioTrack
  videoTrack := job.plan.videoTrack
  startMs := job.startMs
  sink := job.sink
  parts := (layout.sockets.tail.zip tailSizes).map fun part => part.1 ++ lit ":" ++ ofNat part.2
  videoKbps := job.plan.videoKbps
  maxHeight := job.plan.maxHeight
  maxBitDepth := job.plan.maxBitDepth
  maxChannels := job.plan.maxChannels
  stereoGainDb := job.plan.stereoGainDb
  nativeGainDb := job.plan.nativeGainDb
  loudnessSourceChannels := job.plan.loudnessSourceChannels
  loudnessGains := gains
  toneMap := job.plan.toneMap
  deinterlace := job.plan.deinterlace
  supervisorPid := layout.supervisorPid
  burnSub := job.plan.burnSubtitle
  burnSets := layout.burnSets
  burnAss := job.plan.burnAss
  burnAssFile := layout.burnAss
  videoCodec := lit job.plan.videoCodec.asStr
  audioCodec := lit job.plan.audioCodec.asStr
  container := segmentFormatAsStr job.plan.segmentFormat

theorem ofLine_jobFlags (h : Spellable job) {layout : ArgvLayout} (hlayout : layout.For job)
    {size : ℕ} (hsize : size < 2 ^ 64) {tailSizes : List ℕ} (gains : Option Text) :
    WorkerArgs.ofLine fl ⟨[layout.sockets.headD [], layout.outDir, ofNat size],
      jobFlags layout job gains tailSizes⟩ = some (jobArgs layout job gains size tailSizes) := by
  have hu32 (f : WorkerFlag) (o : Option ℕ)
      (hf : jobValues layout job gains tailSizes f = (o.map ofNat).toList)
      (ho : ∀ n, o = some n → n < 2 ^ 32) :
      typed parseU32 f (jobFlags layout job gains tailSizes) = some o :=
    typed_eq ((valuesOf_jobFlags f).trans hf) fun n hn => parseUnsigned_ofNat (ho n hn)
  have husize (f : WorkerFlag) (o : Option ℕ)
      (hf : jobValues layout job gains tailSizes f = (o.map ofNat).toList)
      (ho : ∀ n, o = some n → n < 2 ^ 64) :
      typed (parseUnsigned (2 ^ 64)) f (jobFlags layout job gains tailSizes) = some o :=
    typed_eq ((valuesOf_jobFlags f).trans hf) fun n hn => parseUnsigned_ofNat (ho n hn)
  have hf64 (f : WorkerFlag) (o : Option fl.F64)
      (hf : jobValues layout job gains tailSizes f = (o.map fl.toText).toList)
      (ho : ∀ x, o = some x → fl.isFinite x = true) :
      typed fl.parse f (jobFlags layout job gains tailSizes) = some o :=
    typed_eq ((valuesOf_jobFlags f).trans hf) fun x hx => fl.parse_toText x (ho x hx)
  have htext (f : WorkerFlag) (o : Option Text)
      (hf : jobValues layout job gains tailSizes f = o.toList) :
      typed some f (jobFlags layout job gains tailSizes) = some o :=
    typed_text ((valuesOf_jobFlags f).trans hf)
  have hword (f : WorkerFlag) (c : Option ℕ) (hc : c ∈ [job.plan.videoKbps, job.plan.maxHeight,
      job.plan.maxBitDepth, job.plan.maxChannels, job.plan.loudnessSourceChannels])
      (hf : jobValues layout job gains tailSizes f = (c.map ofNat).toList) :=
    hu32 f c hf (h.words c hc)
  have hnumber (f : WorkerFlag) (n : ℕ) (hn : n < 2 ^ 64)
      (hf : jobValues layout job gains tailSizes f = [ofNat n]) :
      typed (parseUnsigned (2 ^ 64)) f (jobFlags layout job gains tailSizes) = some (some n) :=
    husize f (some n) hf fun _ heq => Option.some.inj heq ▸ hn
  simp only [WorkerArgs.ofLine, parseUnsigned_ofNat hsize,
    htext .video (some (modeArg job.plan.video)) rfl,
    htext .audio (some (modeArg job.plan.audio)) rfl,
    hnumber .audioTrack job.plan.audioTrack h.tracks.1 rfl,
    hnumber .videoTrack job.plan.videoTrack h.tracks.2 rfl,
    hnumber .startMs job.startMs h.start rfl,
    htext .sink job.sink rfl,
    hword .videoKbps job.plan.videoKbps (by simp) rfl,
    hword .maxHeight job.plan.maxHeight (by simp) rfl,
    hword .maxBitDepth job.plan.maxBitDepth (by simp) rfl,
    hword .maxChannels job.plan.maxChannels (by simp) rfl,
    hf64 .stereoGainDb job.plan.stereoGainDb rfl fun x hx => h.scalarGains x (.inl hx),
    hf64 .nativeGainDb job.plan.nativeGainDb rfl fun x hx => h.scalarGains x (.inr hx),
    hword .loudnessSourceChannels job.plan.loudnessSourceChannels (by simp) rfl,
    htext .loudnessGains gains rfl,
    hu32 .supervisorPid layout.supervisorPid rfl hlayout.pid,
    husize .burnSub job.plan.burnSubtitle rfl fun n hn => h.burns n (.inl hn),
    htext .burnSets layout.burnSets rfl,
    husize .burnAss job.plan.burnAss rfl fun n hn => h.burns n (.inr hn),
    htext .burnAssFile layout.burnAss rfl,
    htext .videoCodec (some (lit job.plan.videoCodec.asStr)) rfl,
    htext .audioCodec (some (lit job.plan.audioCodec.asStr)) rfl,
    htext .container (some (segmentFormatAsStr job.plan.segmentFormat)) rfl,
    valuesOf_jobFlags, given_jobFlags.1, given_jobFlags.2]
  rfl

/-- The worker reads the job off its command line: its exact gains in the first slots, its
payloads in the files that the supervisor wrote. -/
theorem argv_round_trip (h : Spellable job) {layout : ArgvLayout} (hlayout : layout.For job)
    {json : Json fl} (hjson : json.HandsBack (exactGains job.plan))
    {clap : List Token → Option (Line WorkerFlag)}
    (hclap : ∀ tokens, toArgv json layout job = .ok (lit "remux-worker" :: tokens) →
      HandsBack workerFlags 3 clap tokens) :
    launch json clap layout job = some
      { job := { job with
          plan := job.plan.packed
          burnSets := layout.burnSets.map Payload.path
          burnAss := layout.burnAss.map Payload.path
          targetDurationSecs := none }
        sockets := layout.sockets
        outDir := layout.outDir
        supervisorPid := layout.supervisorPid } := by
  obtain ⟨size, tailSizes, hparts⟩ := List.exists_cons_of_ne_nil h.parts
  obtain ⟨gains, hgains, hback⟩ := gainsText_eq hjson
  have hsizes : ∀ n ∈ size :: tailSizes, n < 2 ^ 64 := by
    rw [← hparts]
    exact h.sizes
  obtain ⟨hsize, htail⟩ := List.forall_mem_cons.1 hsizes
  have hargv := toArgv_eq hparts hlayout.sockets hgains
  have hfits : Line.Fits workerFlags 3 ⟨[layout.sockets.headD [], layout.outDir, ofNat size],
      jobFlags layout job gains tailSizes⟩ := ⟨rfl, jobFlags_fits⟩
  have hline := hclap _ hargv _ hfits rfl
  have hzip : ∀ part ∈ layout.sockets.tail.zip tailSizes, part.2 < 2 ^ 64 := fun part hpart =>
    htail part.2 (List.of_mem_zip hpart).2
  have hlen : layout.sockets.tail.length = tailSizes.length := by
    rw [List.length_tail, hlayout.sockets, hparts]
    rfl
  have hsockets : layout.sockets.headD [] :: layout.sockets.tail = layout.sockets := by
    cases hsockets : layout.sockets with
    | nil =>
      have := hlayout.sockets
      rw [hsockets, hparts] at this
      cases this
    | cons sock sockets => rfl
  rw [launch, hargv]
  simp only [Except.toOption, Option.bind_eq_bind, Option.bind_some, parseCommand, if_true, hline,
    ofLine_jobFlags h hlayout hsize]
  simp only [fromArgs, jobArgs, mapM_parsePart hzip, hback, layoutGains_exactGains, bind,
    Except.bind, pure, Except.pure, parseMode_modeArg, videoTargetFromStr_asStr,
    audioTargetFromStr_asStr, segmentFormatFromStr_asStr]
  rw [List.map_fst_zip hlen.le, List.map_snd_zip hlen.ge, hsockets, ← hparts]
  rfl

end

end Kahawai.Playback
