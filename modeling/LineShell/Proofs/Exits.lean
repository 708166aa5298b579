import LineShell.Proofs.Endings
import LineShell.Proofs.Escapes

/-!
# What an exit code tells

A session begins only when the options and the settings of a run are settled.  Before that the shell
does nothing but write; and when a session has begun, the exit code of the run tells in which of two
ways the session ended, and no more.

* `Result.Idle`: what is left of a host on which the shell did no more than write.
* `Options.Stop.code`, `Options.Stop.stream`, `Options.Stop.notice`: the exit code of a run that
  does not begin, and what it writes, and where.
* `Ending.exit`: how a run ends, by how its session ends.
* `Invocation.run_of_stop`, `Invocation.run_of_settings`: all that such a run does, and what a run
  adds to its session.
* `Invocation.run_exits`: which runs have a session, and how each run ends.
-/

namespace LineShell

open LineShell.Action

/-! ## Runs without a session -/

/-- Nothing is done on a host but that the shell writes: nobody reads, and no child is made. -/
structure Result.Idle (host : Host) (r : Result α) : Prop where
  input : r.host.input = host.input
  forks : r.host.forks = host.forks
  nextPid : r.host.nextPid = host.nextPid
  programs : r.host.programs = host.programs
  trace : ∀ e ∈ r.trace, ∃ s bytes, e = .write .shell s bytes

theorem Result.Idle.of_writes {host : Host} {ending : Ending α} {t : Trace} (s : Stream)
    (ht : ∀ e ∈ t, ∃ s bytes, e = .write .shell s bytes) :
    Result.Idle host ⟨ending, host.setPending s [], t⟩ := by
  cases s <;> exact ⟨rfl, rfl, rfl, rfl, ht⟩

namespace Options.Stop

def code : Stop → Nat
  | help | version => 0
  | misuse _ => 2

def stream : Stop → Stream
  | help | version => .output
  | misuse _ => .errors

def notice : Stop → Bytes
  | help => Options.help.coded
  | version => Options.version.coded
  | misuse m => (Options.complaint m).shown.utf8

end Options.Stop

theorem Options.encodable_help : Options.help.Encodable :=
  Text.encodable_append.mpr ⟨Text.encodable_ofString _, Text.encodable_ofString _⟩

theorem Options.encodable_version : Options.version.Encodable :=
  Text.encodable_ofString _

/-- Records of the loading are for debugging. -/
theorem Config.level_of_mem_records {s : Sources} {r : Record} (hr : r ∈ records s) :
    r.level = .debug := by
  unfold records at hr
  dsimp only at hr
  split at hr
  · cases hr
  · rcases List.mem_append.mp hr with hr | hr
    · split at hr
      · cases hr
      · split at hr
        · rw [List.mem_singleton.mp hr]
        · cases hr
    · split at hr
      · rw [List.mem_singleton.mp hr]
      · cases hr

/-! ## Runs with a session -/

/-- How a run ends, by how its session ends: it has an exit code if the session came to its end or
was interrupted, and otherwise it ends as the session did. -/
def Ending.exit : Ending α → Ending Nat
  | value _ => .value 0
  | fault .interrupted => .value 130
  | fault f => .fault f
  | departure d => .departure d

namespace Ending

variable {e : Ending α}

theorem exit_eq_zero_iff : e.exit = .value 0 ↔ ∃ a, e = .value a := by
  match e with
  | .value a => exact ⟨fun _ => ⟨a, rfl⟩, fun _ => rfl⟩
  | .fault f => cases f <;> exact ⟨nofun, nofun⟩
  | .departure d => exact ⟨nofun, nofun⟩

theorem exit_eq_interrupted_iff : e.exit = .value 130 ↔ e = .fault .interrupted := by
  match e with
  | .value a => exact ⟨nofun, nofun⟩
  | .fault f => cases f <;> first | exact ⟨fun _ => rfl, fun _ => rfl⟩ | exact ⟨nofun, nofun⟩
  | .departure d => exact ⟨nofun, nofun⟩

/-- A session ends with no other exit code than 0 and 130. -/
theorem exit_eq_value {code : Nat} (h : e.exit = .value code) : code = 0 ∨ code = 130 := by
  match e with
  | .value a => exact Or.inl (Ending.value.inj h).symm
  | .fault f =>
    cases f with
    | interrupted => exact Or.inr (Ending.value.inj h).symm
    | _ => cases h
  | .departure d => cases h

theorem exit_eq_fault_iff {f : Fault} : e.exit = .fault f ↔ e = .fault f ∧ f ≠ .interrupted := by
  match e with
  | .value a => exact ⟨nofun, fun h => nomatch h.1⟩
  | .fault f' =>
    constructor
    · intro h
      cases f' with
      | interrupted => cases h
      | _ =>
        obtain rfl := Ending.fault.inj h
        exact ⟨rfl, nofun⟩
    · rintro ⟨h, hf⟩
      obtain rfl := Ending.fault.inj h
      cases f' <;> first | rfl | exact absurd rfl hf
  | .departure d => exact ⟨nofun, fun h => nomatch h.1⟩

theorem exit_eq_departure_iff {d : Departure} : e.exit = .departure d ↔ e = .departure d := by
  match e with
  | .value a => exact ⟨nofun, nofun⟩
  | .fault f => cases f <;> exact ⟨nofun, nofun⟩
  | .departure d' => exact ⟨fun h => congrArg _ (Ending.departure.inj h),
      fun h => congrArg _ (Ending.departure.inj h)⟩

end Ending

namespace Invocation

variable {i : Invocation} {o : Options} {config : Config} {h : Host}

def epilogue (r : Result (Session × Report)) : Trace :=
  match r.ending with
  | .value (_, report) => [.log ⟨"labsh", .debug,
      .ofString "ran " ++ .decimal report.commands ++ .ofString " commands"⟩]
  | .fault .interrupted => [.write .shell .errors (r.host.pendingErrors ++ [Line.terminator])]
  | _ => []

/-- The host behind a session.  The line feed that an interrupt gets is written behind all that
waited. -/
def leaving (r : Result (Session × Report)) : Host :=
  match r.ending with
  | .fault .interrupted => r.host.setPending .errors []
  | _ => r.host

/-- **A run adds to its session no more than its last word**, and turns the end of the session into
its own. -/
theorem session_eq (config : Config) (h : Host) : session config h =
    let r := Session.run { config } h
    ⟨r.ending.exit, leaving r, r.trace ++ epilogue r⟩ := by
  have hattempt := attempt_apply (Session.run { config }) h
  rcases hr : Session.run { config } h with ⟨ending, left, t⟩
  rw [hr] at hattempt
  rw [session]
  match ending with
  | .value (s, report) =>
    rw [bind_of_value hattempt]
    rfl
  | .departure d =>
    rw [bind_of_departure hattempt]
    exact congrArg (Result.mk _ _) (List.append_nil _).symm
  | .fault f =>
    rw [bind_of_value hattempt]
    cases f with
    | interrupted =>
      dsimp only
      rw [complain, bind_of_value (writeBytes_flushes _ _ _ left),
        Event.writes_of_ne_nil (List.append_ne_nil_of_right_ne_nil _ (by decide))]
      rfl
    | _ => rfl

theorem input_leaving (r : Result (Session × Report)) : (leaving r).input = r.host.input := by
  unfold leaving
  split
  · rfl
  · rfl

theorem run_of_settings (ho : Options.ofArguments i.arguments = .ok o) (hf : i.canFork = true)
    (hload : Config.load (i.sources o) = .ok config) (h : Host) : i.run h =
      let r := Session.run { config } h
      ⟨r.ending.exit, leaving r, i.loadingLog o ++
        (r.trace ++ epilogue r).logged (if o.debug then .debug else .warning)⟩ := by
  rw [run_of_load ho hf hload, session_eq]

/-- A run whose arguments are not followed says so, and that is all. -/
theorem run_of_stop {stop : Options.Stop} (ho : Options.ofArguments i.arguments = .error stop)
    (h : Host) : i.run h = ⟨.value stop.code, h.setPending stop.stream [],
      Event.writes .shell stop.stream (h.pending stop.stream ++ stop.notice)⟩ := by
  rw [run, ho]
  cases stop with
  | help =>
    dsimp only
    rw [bind_of_value (write_flushes Options.encodable_help .shell .output h)]
    exact congrArg (Result.mk _ _) (List.append_nil _)
  | version =>
    dsimp only
    rw [bind_of_value (write_flushes Options.encodable_version .shell .output h)]
    exact congrArg (Result.mk _ _) (List.append_nil _)
  | misuse m =>
    dsimp only
    rw [complain, bind_of_value (writeBytes_flushes _ _ _ h), Text.spell_eq]
    exact congrArg (Result.mk _ _) (List.append_nil _)

theorem run_congr_of_stop {stop : Options.Stop}
    (ho : Options.ofArguments i.arguments = .error stop) {j : Invocation}
    (hj : j.arguments = i.arguments) : j.run = i.run := by
  rw [run, run, hj, ho]
  cases stop <;> rfl

/-- While settings are loaded nothing is shown but lines of the log, and these only for
debugging. -/
theorem eq_of_mem_loadingLog {e : Event} (he : e ∈ i.loadingLog o) : o.debug = true ∧
    ∃ r ∈ Config.records (i.sources o), e = .write .shell .errors r.line.shown.utf8 := by
  unfold loadingLog Trace.logged at he
  obtain ⟨e', he', he⟩ := List.mem_flatMap.mp he
  obtain ⟨r, hr, rfl⟩ := List.mem_map.mp he'
  dsimp only at he
  rw [Config.level_of_mem_records hr, Text.spell_eq] at he
  cases hd : o.debug with
  | true =>
    rw [hd] at he
    exact ⟨rfl, r, hr, List.mem_singleton.mp he⟩
  | false =>
    rw [hd] at he
    cases he

theorem written_loadingLog (i : Invocation) (o : Options) :
    (i.loadingLog o).written .output = [] := by
  refine List.flatMap_eq_nil_iff.mpr ?_
  intro e he
  obtain ⟨-, r, -, rfl⟩ := eq_of_mem_loadingLog he
  rfl

/-- **Without settings there is no session**: what is written goes to standard error. -/
theorem run_of_load_error (ho : Options.ofArguments i.arguments = .ok o) (hf : i.canFork = true)
    {e : LoadError} (he : Config.load (i.sources o) = .error e) (h : Host) :
    (i.run h).Idle h ∧ (i.run h).trace.written .output = [] := by
  have hlog : ∀ event ∈ i.loadingLog o, ∃ s bytes, event = .write .shell s bytes := by
    intro event hevent
    obtain ⟨-, r, -, rfl⟩ := eq_of_mem_loadingLog hevent
    exact ⟨_, _, rfl⟩
  by_cases hbad : ∃ b, e = .bad b
  · obtain ⟨b, rfl⟩ := hbad
    rw [run_of_bad ho hf he]
    refine ⟨.of_writes .errors ?_, ?_⟩
    · exact List.forall_mem_append.mpr ⟨hlog, List.forall_mem_singleton.mpr ⟨_, _, rfl⟩⟩
    · rw [Trace.written_append, written_loadingLog]
      rfl
  · rw [run_of_escape ho hf he (not_exists.mp hbad)]
    exact ⟨⟨rfl, rfl, rfl, rfl, hlog⟩, written_loadingLog i o⟩

/-- **A session begins only when options and settings are settled, and the exit code of a run tells
how its session ended.**

If the arguments are not followed, a run says so and has the exit code of that; it looks at nothing
else.  If no settings are loaded, nobody reads, no child is made, and nothing goes to standard
output; a bad configuration is told in one line behind the log, which is UTF-8 with surrogates
spelled out, and has the exit code 2, and anything else that goes wrong is the fault of the run.

With settings there is a session, behind the log of the loading.  The run has the exit code 0 iff
the session comes to its end, and 130 iff it is interrupted; these are all its exit codes.
Otherwise the run ends as its session does. -/
theorem run_exits (i : Invocation) (host : Host) (hf : i.canFork = true) :
    (∀ stop, Options.ofArguments i.arguments = .error stop →
      (i.run host).Idle host ∧
      i.run host = ⟨.value stop.code, host.setPending stop.stream [],
        Event.writes .shell stop.stream (host.pending stop.stream ++ stop.notice)⟩ ∧
      ∀ j : Invocation, j.arguments = i.arguments → j.run = i.run) ∧
    ∀ o, Options.ofArguments i.arguments = .ok o →
      (∀ e, Config.load (i.sources o) = .error e →
        (i.run host).Idle host ∧ (i.run host).trace.written .output = [] ∧
        (∀ event ∈ i.loadingLog o, o.debug = true ∧
          ∃ r ∈ Config.records (i.sources o), event = .write .shell .errors r.line.shown.utf8) ∧
        (∀ b, e = .bad b → Text.ofUtf8 (badLine b).shown.utf8 = .ok (badLine b).shown ∧
          i.run host = ⟨.value 2, host.setPending .errors [], i.loadingLog o ++
            [.write .shell .errors (host.pendingErrors ++ (badLine b).shown.utf8)]⟩) ∧
        ((∀ b, e ≠ .bad b) → i.run host = ⟨.fault (.load e), host, i.loadingLog o⟩)) ∧
      ∀ config, Config.load (i.sources o) = .ok config →
        (i.run host).ending = (Session.run { config } host).ending.exit ∧
        (i.run host).trace = i.loadingLog o ++
          ((Session.run { config } host).trace ++ epilogue (Session.run { config } host)).logged
            (if o.debug then .debug else .warning) ∧
        (i.run host).host.input = (Session.run { config } host).host.input ∧
        ((i.run host).ending = .value 0 ↔
          ∃ r, (Session.run { config } host).ending = .value r) ∧
        ((i.run host).ending = .value 130 ↔
          (Session.run { config } host).ending = .fault .interrupted) ∧
        (∀ code, (i.run host).ending = .value code → code = 0 ∨ code = 130) ∧
        (∀ f, (i.run host).ending = .fault f ↔
          (Session.run { config } host).ending = .fault f ∧ f ≠ .interrupted) ∧
        ∀ d, (i.run host).ending = .departure d ↔
          (Session.run { config } host).ending = .departure d := by
  constructor
  · intro stop ho
    have hrun := run_of_stop ho host
    refine ⟨?_, hrun, fun j => run_congr_of_stop ho⟩
    rw [hrun]
    exact .of_writes _ fun e he => ⟨_, _, Event.eq_of_mem_writes he⟩
  intro o ho
  constructor
  · intro e he
    obtain ⟨hidle, hsilent⟩ := run_of_load_error ho hf he host
    refine ⟨hidle, hsilent, fun event => eq_of_mem_loadingLog, ?_, ?_⟩
    · rintro b rfl
      exact ⟨Text.ofUtf8_shown _, run_of_bad ho hf he host⟩
    · intro hbad
      exact run_of_escape ho hf he hbad host
  · intro config hload
    rw [run_of_settings ho hf hload]
    exact ⟨rfl, rfl, input_leaving _, Ending.exit_eq_zero_iff, Ending.exit_eq_interrupted_iff,
      fun code => Ending.exit_eq_value, fun f => Ending.exit_eq_fault_iff,
      fun d => Ending.exit_eq_departure_iff⟩

/-- An argument that is not known, a file that holds no object and whose name is no UTF-8, and two
sessions with one command that is killed: the first comes to its end, and an interrupt ends the
second. -/
theorem run_exits_of_four : ∃ (unknown bad i : Invocation) (host host' : Host),
    unknown.arguments = [.ofString "-x"] ∧ bad.files = (fun _ => .ok (Text.bytes "[]")) ∧
    bad.environment "LABSH_CONFIG" = some [0x2F, 0xFF] ∧
    i.arguments = [.ofString "--no-echo"] ∧ i.files = (fun _ => .error .noSuchFile) ∧
    host.input = .ofBytes (Text.bytes "/a\n") ∧
    host'.input = Input.ofBytes (Text.bytes "/a\n") ++ [.interrupt, .byte 0x0A] ∧
    Program.launch? host.programs (Text.bytes "/a") = .ok { ending := .ok 9 } ∧
    (unknown.run host).ending = .value 2 ∧ (unknown.run host).Idle host ∧
    (bad.run host).ending = .value 2 ∧ (bad.run host).Idle host ∧
    (bad.run host).trace = [.write .shell .errors
      (Text.bytes "Error: /\\udcff must contain a JSON object\n")] ∧
    (i.run host).ending = .value 0 ∧ (i.run host').ending = .value 130 ∧
    (i.run host').host.input = .ofBytes (Text.bytes "\n") := by
  let i : Invocation := {
    arguments := [.ofString "--no-echo"]
    environment := fun _ => none
    files := fun _ => .error .noSuchFile
    defaultFile := Config.fileIn (.ofString "/h") }
  let unknown : Invocation := { i with arguments := [.ofString "-x"] }
  let bad : Invocation := { i with
    environment := fun name => if name = Config.fileVariable then some [0x2F, 0xFF] else none
    files := fun _ => .ok (Text.bytes "[]") }
  let programs : List Program := [⟨Text.bytes "/a", .ok { ending := .ok 9 }⟩]
  let host : Host := { input := .ofBytes (Text.bytes "/a\n"), programs }
  let host' : Host := { host with
    input := Input.ofBytes (Text.bytes "/a\n") ++ [.interrupt, .byte 0x0A] }
  let o : Options := { noEcho := true }
  let config : Config := { echo := false }
  have ho : Options.ofArguments i.arguments = .ok o := by with_unfolding_all exact rfl
  have hload : Config.load (i.sources o) = .ok config := by with_unfolding_all exact rfl
  -- behind the one command the second prompt finds the end of the input, or the interrupt
  have hround : ∃ command t, Session.round config host =
    ⟨.value (some ⟨command, some 100, some (-9)⟩), { host with input := [], nextPid := 101 }, t⟩ :=
      ⟨_, _, rfl⟩
  have hround' : ∃ command t, Session.round config host' =
    ⟨.value (some ⟨command, some 100, some (-9)⟩),
      { host with input := [.interrupt, .byte 0x0A], nextPid := 101 }, t⟩ :=
      ⟨_, _, rfl⟩
  obtain ⟨_, _, hround⟩ := hround
  obtain ⟨_, _, hround'⟩ := hround'
  have hr : Session.Reaches { config } host 0 _ host := .start rfl rfl
  have hr' : Session.Reaches { config } host' 0 _ host' := .start rfl rfl
  have hnext := hr.next (congrArg Result.ending hround)
  have hnext' := hr'.next (congrArg Result.ending hround')
  rw [hround] at hnext
  rw [hround'] at hnext'
  obtain ⟨report, hended⟩ := hnext.run_of_endOfStream rfl
  have hinterrupted := hnext'.run_of_unread rfl
  have hunknown : ∃ stop, Options.ofArguments unknown.arguments = .error (.misuse stop) :=
    ⟨_, by with_unfolding_all exact rfl⟩
  obtain ⟨stop, hunknown⟩ := hunknown
  have hbad : Config.load (bad.sources o) = .error (.bad (.notObject [.slash, 0xDCFF])) := by
    with_unfolding_all exact rfl
  obtain ⟨hidle, hmisuse, -⟩ := (run_exits unknown host rfl).1 _ hunknown
  obtain ⟨hidle', -, -, htold, -⟩ := ((run_exits bad host rfl).2 o ho).1 _ hbad
  obtain ⟨-, htold⟩ := htold _ rfl
  have hline : (bad.run host).trace = [.write .shell .errors
      (Text.bytes "Error: /\\udcff must contain a JSON object\n")] := by
    rw [htold]
    with_unfolding_all exact rfl
  obtain ⟨-, -, -, hzero, -⟩ := ((run_exits i host rfl).2 o ho).2 config hload
  obtain ⟨-, -, hinput', -, hcode, -⟩ := ((run_exits i host' rfl).2 o ho).2 config hload
  refine ⟨unknown, bad, i, host, host', rfl, rfl, rfl, rfl, rfl, rfl, rfl, rfl,
    congrArg Result.ending hmisuse, hidle, congrArg Result.ending htold, hidle', hline,
    hzero.mpr ?_, hcode.mpr ?_, hinput'.trans ?_⟩
  · exact ⟨_, hended⟩
  · rw [hinterrupted]
  · rw [hinterrupted]
    rfl

end Invocation

end LineShell
