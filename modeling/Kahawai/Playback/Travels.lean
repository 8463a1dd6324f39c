import Kahawai.Playback.Argv

/-!
# A job means the same to everyone

The hub runs a job with a worker of its own, or sends it to a transcoder whose worker runs it.

Results:
* `job_travels`: the message and the command line give the job back, and the two workers have the
  same plan.
-/

namespace Kahawai.Playback

open Kahawai.Core Kahawai.Core.Text Kahawai.Lib Kahawai.Lib.CommandLine Kahawai.Media
open Kahawai.Lib.Codec (Bytes)

variable {fl : Floats}

section
variable {files : Text → Option Bytes}

/-! ## Everyone runs the same job -/

/-- The jobs are the same: the plans up to slots, the payloads as bytes. -/
structure Job.Same (files : Text → Option Bytes) (j j' : Job fl) : Prop where
  plan : j.plan.Same j'.plan
  partSizes : j.partSizes = j'.partSizes
  startMs : j.startMs = j'.startMs
  sink : j.sink = j'.sink
  burnSets : j.burnSets.map (Payload.read files) = j'.burnSets.map (Payload.read files)
  burnAss : j.burnAss.map (Payload.read files) = j'.burnAss.map (Payload.read files)
  targetDurationSecs : j.targetDurationSecs = j'.targetDurationSecs

/-- A worker runs the job with the layout of its supervisor. -/
structure WorkerInvocation.Runs (inv : WorkerInvocation fl) (layout : ArgvLayout) (job : Job fl) :
    Prop where
  plan : inv.job.plan.Same job.plan
  partSizes : inv.job.partSizes = job.partSizes
  startMs : inv.job.startMs = job.startMs
  sink : inv.job.sink = job.sink
  burnSets : inv.job.burnSets = layout.burnSets.map Payload.path
  burnAss : inv.job.burnAss = layout.burnAss.map Payload.path
  sockets : inv.sockets = layout.sockets
  outDir : inv.outDir = layout.outDir
  supervisorPid : inv.supervisorPid = layout.supervisorPid

/-- The parser of the worker's command line hands back the line of the job. -/
def ReadsArgv (json : Json fl) (clap : List Token → Option (Line WorkerFlag)) (layout : ArgvLayout)
    (job : Job fl) : Prop :=
  ∀ tokens, toArgv json layout job = .ok (lit "remux-worker" :: tokens) →
    HandsBack workerFlags 3 clap tokens

/-- The bytes of a payload that can be read. -/
theorem read_bytes {o : Option Payload} (h : ∀ p, o = some p → ∃ data, p.read files = some data) :
    ((o.bind (Payload.read files)).map Payload.bytes).map (Payload.read files) =
      o.map (Payload.read files) := by
  cases o with
  | none => rfl
  | some p =>
    obtain ⟨data, hread⟩ := h p rfl
    show ((p.read files).map Payload.bytes).map (Payload.read files) = some (p.read files)
    rw [hread]
    rfl

/-- A job means the same to everyone who runs it: the message gives it back, its command line
gives it back, and a local run and a dispatched one launch their workers with the same plan. -/
theorem job_travels (files : Text → Option Bytes) (json : Json fl)
    (clap : List Token → Option (Line WorkerFlag)) :
    (∀ (job : Job fl) (sessionId : Text), HubBuilt files job →
      ∃ msg sent, toStartSession files sessionId job = .ok msg ∧
        fromStartSession msg = .ok sent ∧ sent.Same files job) ∧
    (∀ (job : Job fl) (layout : ArgvLayout), Spellable job → layout.For job →
      json.HandsBack (exactGains job.plan) → ReadsArgv json clap layout job →
      ∃ inv, launch json clap layout job = some inv ∧ inv.Runs layout job) ∧
    ∀ (job sent : Job fl) (sessionId : Text) (msg : StartSession fl) (here there : ArgvLayout),
      HubBuilt files job → json.HandsBack (exactGains job.plan) →
      toStartSession files sessionId job = .ok msg → fromStartSession msg = .ok sent →
      here.For job → ReadsArgv json clap here job →
      there.For sent → ReadsArgv json clap there sent →
      ∃ near far, launch json clap here job = some near ∧ launch json clap there sent = some far ∧
        near.Runs here job ∧ far.Runs there sent ∧ far.job.plan = near.job.plan := by
  have hargv (job : Job fl) (layout : ArgvLayout) (h : Spellable job) (hlayout : layout.For job)
      (hjson : json.HandsBack (exactGains job.plan)) (hclap : ReadsArgv json clap layout job) :
      ∃ inv, launch json clap layout job = some inv ∧ inv.Runs layout job ∧
        inv.job.plan = job.plan.packed :=
    ⟨_, argv_round_trip h hlayout hjson hclap,
      ⟨job.plan.packed_same, rfl, rfl, rfl, rfl, rfl, rfl, rfl, rfl⟩, rfl⟩
  refine ⟨fun job sessionId h => ?_, fun job layout h hlayout hjson hclap => ?_, ?_⟩
  · obtain ⟨msg, hmsg, hsent⟩ := wire_round_trip h sessionId
    refine ⟨msg, _, hmsg, hsent, job.plan.packed_same, rfl, rfl, rfl, ?_, ?_, rfl⟩
    · exact read_bytes fun p hp => (h.payloads p (.inl hp)).imp fun _ => And.left
    · exact read_bytes fun p hp => (h.payloads p (.inr hp)).imp fun _ => And.left
  · obtain ⟨inv, hinv, hruns, -⟩ := hargv job layout h hlayout hjson hclap
    exact ⟨inv, hinv, hruns⟩
  · intro job sent sessionId msg here there h hjson hmsg hsent hhere hnear hthere hfar
    obtain ⟨msg', hmsg', hsent'⟩ := wire_round_trip h sessionId
    obtain rfl : msg' = msg := Except.ok.inj (hmsg'.symm.trans hmsg)
    have heq := Except.ok.inj (hsent.symm.trans hsent')
    have hplan : sent.plan = job.plan.packed := by rw [heq]
    have hspellable : Spellable sent := by
      rw [heq]
      exact { h.spellable with }
    obtain ⟨near, hlaunch, hruns, hnearPlan⟩ := hargv job here h.spellable hhere hjson hnear
    obtain ⟨far, hlaunch', hruns', hfarPlan⟩ := hargv sent there hspellable hthere
      (by rw [hplan, exactGains_packed]; exact hjson) hfar
    refine ⟨near, far, hlaunch, hlaunch', hruns, hruns', ?_⟩
    rw [hfarPlan, hplan, Plan.packed_packed, hnearPlan]

end

/-! ## Two parts -/

/-- Finite numbers by their decimals, and NaN. -/
def decimals : Floats where
  F64 := Option Text
  isFinite := Option.isSome
  nan := none
  toText x := x.getD (lit "NaN")
  parse t := some (some t)
  nan_not_finite := rfl
  parse_toText x h := by
    cases x with
    | none => cases h
    | some t => rfl

def discGains : List (AudioLayoutGain decimals) := [⟨.new 6 0x3f, some (lit "-7.5")⟩]

/-- What `serde_json` writes for gains with decimals. -/
def gainsJson (gains : List (AudioLayoutGain decimals)) : Text :=
  lit "[" ++ (lit ",").intercalate (gains.map fun g =>
    lit "\x7b\"layout\":\x7b\"channels\":" ++ ofNat g.layout.channels ++
      lit ",\"channel_mask\":" ++ ofNat g.layout.channelMask ++ lit "\x7d,\"gain_db\":" ++
      g.gainDb.getD (lit "null") ++ lit "\x7d") ++ lit "]"

def discJson : Json decimals where
  toText gains := some (gainsJson gains)
  fromText t := if t = gainsJson discGains then some discGains else none

/-- A film on two discs, its commentary burnt in. -/
def discJob : Job decimals where
  plan := {
    video := .encode
    audio := .encode
    audioTrack := 1
    videoTrack := 0
    videoKbps := some 4000
    maxHeight := some 720
    maxBitDepth := none
    maxChannels := some 6
    stereoGainDb := some (some (lit "-3"))
    nativeGainDb := none
    loudnessSourceChannels := some 6
    loudnessGains := ⟨[none, some ⟨.new 6 0x3f, some (lit "-7.5")⟩, none, none, none, none], rfl⟩
    toneMap := true
    deinterlace := false
    burnSubtitle := some 0
    burnAss := none
    videoCodec := .hevc
    audioCodec := .opus
    segmentFormat := .fmp4 }
  partSizes := [700, 650]
  startMs := 90000
  sink := some (lit "hlssink2")
  burnSets := some (.bytes [1, 2, 3])
  burnAss := none
  targetDurationSecs := some 2

theorem discJob_built : HubBuilt (fun _ => none) discJob where
  parts := by decide
  sizes := by decide
  start := by decide
  tracks := by decide
  burns := by
    rintro n (h | h)
    · obtain rfl : 0 = n := Option.some.inj h
      decide
    · cases h
  ceilings := by
    intro c hc n hn
    simp only [discJob, List.mem_cons, List.not_mem_nil, or_false] at hc
    rcases hc with rfl | rfl | rfl | rfl | rfl <;> simp_all <;> omega
  scalarGains := by
    rintro x (h | h)
    · obtain rfl : some (lit "-3") = x := Option.some.inj h
      rfl
    · cases h
  exactGains := by
    intro g hg
    obtain rfl : g = ⟨.new 6 0x3f, some (lit "-7.5")⟩ := List.mem_singleton.1 hg
    rfl
  layouts := by
    intro g hg
    obtain rfl : g = ⟨.new 6 0x3f, some (lit "-7.5")⟩ := List.mem_singleton.1 hg
    exact ⟨6, 0x3f, rfl⟩
  sink := by decide
  payloads := by
    rintro p (h | h)
    · obtain rfl : .bytes [1, 2, 3] = p := Option.some.inj h
      exact ⟨[1, 2, 3], rfl, by decide⟩
    · cases h
  target := by decide

/-- The discs as the hub's own worker has them. -/
def hubLayout : ArgvLayout where
  sockets := [lit "/tmp/k1/worker.sock", lit "/tmp/k1/worker1.sock"]
  outDir := lit "/scratch/s1/r1"
  burnSets := some (lit "/scratch/s1/r1/burn-sets.bin")
  burnAss := none
  supervisorPid := some 4711

/-- The discs as a worker of a transcoder has them. -/
def boxLayout : ArgvLayout where
  sockets := [lit "/tmp/k2/worker.sock", lit "/tmp/k2/worker1.sock"]
  outDir := lit "/box/s1/r7"
  burnSets := some (lit "/box/s1/r7/burn-sets.bin")
  burnAss := none
  supervisorPid := some 99

/-- The two discs, run by the hub and by a transcoder. -/
theorem job_travels_discs :
    ∃ sent near far, (toStartSession (fun _ => none) (lit "s1") discJob).bind fromStartSession =
        .ok sent ∧ sent.Same (fun _ => none) discJob ∧
      launch discJson (read workerFlags 3) hubLayout discJob = some near ∧
      launch discJson (read workerFlags 3) boxLayout sent = some far ∧
      near.Runs hubLayout discJob ∧ far.Runs boxLayout sent ∧ far.job.plan = near.job.plan := by
  obtain ⟨hwire, -, hplans⟩ :=
    job_travels (fun _ => none) discJson (read workerFlags 3)
  obtain ⟨msg, sent, hmsg, hsent, hsame⟩ := hwire discJob (lit "s1") discJob_built
  have hjson : discJson.HandsBack (exactGains discJob.plan) := by
    refine ⟨gainsJson discGains, rfl, ?_⟩
    show (if gainsJson discGains = gainsJson discGains then some discGains else none) = _
    rw [if_pos rfl]
    rfl
  have hbox : boxLayout.For sent := by
    refine ⟨?_, fun n hn => ?_⟩
    · rw [hsame.partSizes]
      rfl
    · obtain rfl : 99 = n := Option.some.inj hn
      decide
  have hhub : hubLayout.For discJob := by
    refine ⟨rfl, fun n hn => ?_⟩
    obtain rfl : 4711 = n := Option.some.inj hn
    decide
  obtain ⟨near, far, hnear, hfar, hruns, hruns', hplan⟩ := hplans discJob sent (lit "s1") msg
    hubLayout boxLayout discJob_built hjson hmsg hsent hhub (fun _ _ => read_tokens 3 _) hbox
    fun _ _ => read_tokens 3 _
  refine ⟨sent, near, far, ?_, hsame, hnear, hfar, hruns, hruns', hplan⟩
  rw [hmsg]
  exact hsent

end Kahawai.Playback
