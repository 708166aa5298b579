import LineShell.Proofs.SharedInput
import LineShell.Proofs.Turns

/-!
# One command, whatever happens

A host may answer a command with anything: no child, a child that no program replaces, a read that
is interrupted, a wait that fails.

* `Host.forked`: the host after a fork.
* `Image.fault?`, `Image.taking`: what stops a program while it reads, and what it takes.
* `Line.Lived`: all that a child comes to while the shell waits for it.
* `Line.Spawned`: all that a command comes to, with everything that is done on the way.
* `Line.spawn_spawned`: on any host, a command comes to one of these.  `Line.Spawned.quiet`: nothing
  waits to be written then.
* `Session.dispatch_of_value`, `Session.dispatch_of_fault`: what that makes of the line.
* `Session.showBanner_flushes`, `Session.ask_apply`: a banner and a prompt that can be written.
-/

namespace LineShell

open LineShell.Action

namespace Action

theorem emits_apply (t : Trace) (h : Host) : emits t h = ⟨.value (), h, t⟩ := rfl

theorem emit_apply (e : Event) (h : Host) : emit e h = ⟨.value (), h, [e]⟩ := rfl

theorem log_apply (logger : String) (level : Level) (text : Text) (h : Host) :
    log logger level text h = ⟨.value (), h, [.log ⟨logger, level, text⟩]⟩ := rfl

/-- Bytes are written behind all that waited. -/
theorem writeBytes_flushes (a : Actor) (s : Stream) (bytes : Bytes) (h : Host) :
    writeBytes a s bytes h =
      ⟨.value (), h.setPending s [], Event.writes a s (h.pending s ++ bytes)⟩ := by
  cases s <;> rfl

theorem write_flushes {text : Text} (ht : text.Encodable) (a : Actor) (s : Stream) (h : Host) :
    write a s text h =
      ⟨.value (), h.setPending s [], Event.writes a s (h.pending s ++ text.coded)⟩ := by
  have hl : liftExcept Fault.unencodable text.encode h = ⟨.value text.coded, h, []⟩ := by
    rw [Text.encode_eq_ok ht]
    rfl
  rw [write, bind_of_value hl, writeBytes_flushes]
  rfl

end Action

theorem Event.writes_of_ne_nil {a : Actor} {s : Stream} {bytes : Bytes} (hb : bytes ≠ []) :
    writes a s bytes = [.write a s bytes] := by rw [writes, if_neg (by simpa using hb)]

namespace Host

def forked (h : Host) : Host := h.flushed.answered

theorem quiet_forked (h : Host) : h.forked.Quiet := Quiet.answered (h := h.flushed) ⟨rfl, rfl⟩

theorem input_forked (h : Host) : h.forked.input = h.input := h.flushed.input_answered

theorem programs_forked (h : Host) : h.forked.programs = h.programs := h.flushed.programs_answered

end Host

/-! ## Children -/

theorem Input.Stop.of_fault? {stop : Stop} {f : Fault} (h : stop.fault? = some f) :
    stop = .interrupt ∧ f = .interrupted ∨ ∃ e, stop = .failure e ∧ f = .system e := by
  cases stop with
  | interrupt => exact Or.inl ⟨rfl, (Option.some.inj h).symm⟩
  | failure e => exact Or.inr ⟨e, rfl, (Option.some.inj h).symm⟩
  | _ => cases h

namespace Image

def fault? (image : Image) (input : Input) : Option Fault :=
  image.reads.bind fun q => (input.take q).stop.fault?

def taking (image : Image) (input : Input) : Trace :=
  match image.reads with
  | some q => [.read .child (input.take q).bytes (input.take q).stop]
  | none => []

variable {image : Image} {h : Host}

theorem run_of_fault {f : Fault} (hf : image.fault? h.input = some f) :
    image.run h = ⟨.fault f, { h with input := image.rest h.input }, image.taking h.input⟩ := by
  unfold fault? at hf
  unfold run taking rest
  cases hr : image.reads with
  | none =>
    rw [hr] at hf
    cases hf
  | some q =>
    rw [hr] at hf
    exact bind_of_fault (takeInput_of_fault hf)

theorem run_of_no_fault (hf : image.fault? h.input = none) :
    image.run h = ⟨.value image.ending, { h with input := image.rest h.input },
      image.taking h.input ++ image.shown (image.got h.input)⟩ := by
  have hout : ∀ h, (do
      emits (Event.writes .child .output image.output)
      emits (Event.writes .child .errors image.errors)
      return image.ending : Action (Except SystemError Int)) h = ⟨.value image.ending, h,
        Event.writes .child .output image.output ++ Event.writes .child .errors image.errors⟩ := by
    intro h
    rw [bind_of_value (emits_apply _ _), bind_of_value (emits_apply _ _), pure_apply,
      List.append_nil]
  unfold fault? at hf
  unfold run taking rest shown got
  cases hr : image.reads with
  | none => exact hout h
  | some q =>
    rw [hr] at hf
    have htake := takeInput_of_value (a := .child) hf
    dsimp only
    rw [bind_of_value htake, bind_of_value (emit_apply _ _), hout]
    rfl

end Image

namespace Line

variable {line : Line} {h : Host}

/-- All that a child comes to while the shell waits for it. -/
inductive Lived (line : Line) (h : Host) : Result (Except SystemError Int) → Prop
  /-- No program replaces the child. -/
  | failed {e : LaunchError} : Program.launch? h.programs line.bytes = .error e →
      Lived line h ⟨.value (.ok (0x100 * failureCode)), h,
        .exec line.bytes [line.bytes] :: (e.report line ++ [.exit failureCode])⟩
  /-- The program is stopped while it reads. -/
  | stopped {image : Image} {f : Fault} : Program.launch? h.programs line.bytes = .ok image →
      image.fault? h.input = some f →
      Lived line h ⟨.fault f, { h with input := image.rest h.input },
        .exec line.bytes [line.bytes] :: image.taking h.input⟩
  | ran {image : Image} : Program.launch? h.programs line.bytes = .ok image →
      image.fault? h.input = none →
      Lived line h ⟨.value image.ending, { h with input := image.rest h.input },
        .exec line.bytes [line.bytes] ::
          (image.taking h.input ++ image.shown (image.got h.input))⟩

theorem life_lived (hq : h.Quiet) : Lived line h (line.life h) := by
  unfold life
  cases hl : Program.launch? h.programs line.bytes with
  | error e =>
    have hd : line.become.departing h = ⟨.value (.exited failureCode), h,
        .exec line.bytes [line.bytes] :: (e.report line ++ [.exit failureCode])⟩ := by
      rw [departing_apply, become_of_error line hq hl]
    rw [bind_of_value hd]
    dsimp only
    rw [pure_apply, List.append_nil]
    exact .failed hl
  | ok image =>
    have hd : line.become.departing h =
        ⟨.value (.replaced image), h, [.exec line.bytes [line.bytes]]⟩ := by
      rw [departing_apply, become_of_ok line hl]
    rw [bind_of_value hd]
    cases hf : image.fault? h.input with
    | some f =>
      dsimp only
      rw [Image.run_of_fault hf]
      exact .stopped hl hf
    | none =>
      dsimp only
      rw [Image.run_of_no_fault hf]
      exact .ran hl hf

theorem Lived.eq_of_error {r : Result (Except SystemError Int)} (hl : Lived line h r)
    {e : LaunchError} (he : Program.launch? h.programs line.bytes = .error e) :
    r = ⟨.value (.ok (0x100 * failureCode)), h,
      .exec line.bytes [line.bytes] :: (e.report line ++ [.exit failureCode])⟩ := by
  cases hl with
  | failed hl =>
    obtain rfl := Except.error.inj (he.symm.trans hl)
    rfl
  | stopped hl | ran hl => cases he.symm.trans hl

theorem Lived.eq_of_ok {r : Result (Except SystemError Int)} (hl : Lived line h r) {image : Image}
    (himage : Program.launch? h.programs line.bytes = .ok image)
    (hf : image.fault? h.input = none) :
    r = ⟨.value image.ending, { h with input := image.rest h.input },
      .exec line.bytes [line.bytes] ::
        (image.taking h.input ++ image.shown (image.got h.input))⟩ := by
  cases hl with
  | failed hl => cases himage.symm.trans hl
  | stopped hl hf' =>
    obtain rfl := Except.ok.inj (himage.symm.trans hl)
    cases hf.symm.trans hf'
  | ran hl =>
    obtain rfl := Except.ok.inj (himage.symm.trans hl)
    rfl

theorem Lived.quiet {r : Result (Except SystemError Int)} (hl : Lived line h r) (hq : h.Quiet) :
    r.host.Quiet := by
  cases hl with
  | failed => exact hq
  | stopped | ran => exact ⟨hq.output, hq.errors⟩

theorem Lived.of_fault {f : Fault} {left : Host} {t : Trace}
    (hl : Lived line h ⟨.fault f, left, t⟩) : ∃ q, (h.input.take q).stop.fault? = some f ∧
      t = [.exec line.bytes [line.bytes],
        .read .child (h.input.take q).bytes (h.input.take q).stop] := by
  cases hl with
  | @stopped image _ _ hf =>
    unfold Image.fault? at hf
    unfold Image.taking
    cases hr : image.reads with
    | none =>
      rw [hr] at hf
      cases hf
    | some q =>
      rw [hr] at hf
      exact ⟨q, hf, rfl⟩

/-- A child that is waited for could become no program, or the wait gives what its program says. -/
theorem Lived.of_value {result : Except SystemError Int} {left : Host} {t : Trace}
    (hl : Lived line h ⟨.value result, left, t⟩) : result = .ok (0x100 * failureCode) ∨
      ∃ image, Program.launch? h.programs line.bytes = .ok image ∧ image.ending = result ∧
        .exec line.bytes [line.bytes] ∈ t := by
  cases hl with
  | failed => exact Or.inl rfl
  | ran hl _ => exact Or.inr ⟨_, hl, rfl, List.mem_cons_self⟩

end Line

/-! ## Waiting -/

namespace Child

variable {child : Child} {life : Action (Except SystemError Int)} {h left : Host} {t : Trace}

theorem await_of_fault (hc : child.reaped = false) {f : Fault} (hl : life h = ⟨.fault f, left, t⟩) :
    child.await life h = ⟨.fault f, left, .wait child.pid 0 :: t⟩ := by
  rw [await, hc, if_neg (by decide), bind_of_value (emit_apply _ _), bind_of_fault hl]
  rfl

theorem await_of_error (hc : child.reaped = false) {e : SystemError}
    (hl : life h = ⟨.value (.error e), left, t⟩) : child.await life h =
      ⟨.fault (.system e), left, .wait child.pid 0 :: (t ++ [.waited child.pid])⟩ := by
  rw [await, hc, if_neg (by decide), bind_of_value (emit_apply _ _), bind_of_value hl,
    bind_of_value (emit_apply _ _)]
  rfl

theorem await_of_status (hc : child.reaped = false) {status : Int}
    (hl : life h = ⟨.value (.ok status), left, t⟩) : child.await life h =
      ⟨.value ({ child with reaped := true }, WaitStatus.exitCode status), left,
        .wait child.pid 0 :: (t ++ [.waited child.pid])⟩ := by
  rw [await, hc, if_neg (by decide), bind_of_value (emit_apply _ _), bind_of_value hl,
    bind_of_value (emit_apply _ _)]
  rfl

end Child

/-! ## Commands -/

namespace Line

variable {line : Line} {h : Host}

/-- What is done for a command when no child can be made, up to saying so. -/
def refusing (line : Line) (h : Host) (e : SystemError) : Trace :=
  h.pendingWrites ++ [.forkFailure e.number, .log ⟨"labsh.shell.supervisor", .debug,
    .ofString "fork failed for " ++ line.text.quoted ++ .ofString ": " ++ e.message⟩]

/-- What is done for a command until the shell waits for its child. -/
def starting (line : Line) (h : Host) (pid : Int) : Trace :=
  h.pendingWrites ++ [.fork pid, .log ⟨"labsh.shell.supervisor", .debug,
    .ofString "spawned pid " ++ .ofInt pid ++ .ofString " for " ++ line.text.quoted⟩, .wait pid 0]

def exitRecord (pid code : Int) : Record :=
  ⟨"labsh.shell.supervisor", .debug,
    .ofString "pid " ++ .ofInt pid ++ .ofString " exited with " ++ .ofInt code⟩

/-- All that a command comes to. -/
inductive Spawned (line : Line) (h : Host) : Result Outcome → Prop
  /-- No child can be made. -/
  | refused {e : SystemError} : h.answer = .error e → e.message.Encodable →
      Spawned line h ⟨.value { command := line.text }, h.forked, line.refusing h e ++
        Event.writes .shell .errors
          (Text.coded (.ofString "fork failed: ") ++ e.message.coded ++ [terminator])⟩
  /-- No child can be made, and it cannot be said why. -/
  | unsaid {e : SystemError} {place : Utf8.Unencodable} : h.answer = .error e →
      ¬ e.message.Encodable →
      Spawned line h ⟨.fault (.unencodable place), h.forked, line.refusing h e⟩
  /-- The process is the child itself. -/
  | departed {d : Departure} {t : Trace} : h.answer = .ok 0 →
      line.become h.forked = ⟨.departure d, h.forked, t⟩ →
      Spawned line h ⟨.departure d, h.forked, h.pendingWrites ++ .fork 0 :: t⟩
  /-- The child is stopped while it reads. -/
  | stopped {pid : Int} {f : Fault} {left : Host} {t : Trace} : h.answer = .ok pid → pid ≠ 0 →
      Lived line h.forked ⟨.fault f, left, t⟩ →
      Spawned line h ⟨.fault f, left, line.starting h pid ++ t⟩
  /-- The wait fails. -/
  | lost {pid : Int} {e : SystemError} {left : Host} {t : Trace} : h.answer = .ok pid → pid ≠ 0 →
      Lived line h.forked ⟨.value (.error e), left, t⟩ →
      Spawned line h ⟨.fault (.system e), left, line.starting h pid ++ (t ++ [.waited pid])⟩
  /-- The wait comes back with a status that says of no process how it ended. -/
  | undecided {pid status : Int} {e : WaitStatus.Error} {left : Host} {t : Trace} :
      h.answer = .ok pid → pid ≠ 0 → Lived line h.forked ⟨.value (.ok status), left, t⟩ →
      WaitStatus.exitCode status = .error e →
      Spawned line h ⟨.fault (.status e), left, line.starting h pid ++ (t ++ [.waited pid])⟩
  | ended {pid status code : Int} {left : Host} {t : Trace} :
      h.answer = .ok pid → pid ≠ 0 → Lived line h.forked ⟨.value (.ok status), left, t⟩ →
      WaitStatus.exitCode status = .ok code →
      Spawned line h ⟨.value { command := line.text, pid, code }, left,
        line.starting h pid ++ (t ++ [.waited pid, .log (exitRecord pid code)])⟩

theorem spawn_of_refusal {e : SystemError} (ha : h.answer = .error e) :
    Spawned line h (line.spawn h) := by
  have hf : fork.attempt h = ⟨.value (.error (.childless e)), h.forked,
      h.pendingWrites ++ [.forkFailure e.number]⟩ := by
    rw [attempt_apply, fork_of_refusal ha]
    rfl
  have htext : Text.Encodable (.ofString "fork failed: " ++ e.message ++ [.lineFeed]) ↔
      e.message.Encodable := by
    simp only [Text.encodable_append, Text.encodable_ofString, Text.encodable_lineFeed, true_and,
      and_true]
  rw [spawn, bind_of_value hf]
  dsimp only
  rw [bind_of_value (log_apply _ _ _ _)]
  by_cases he : e.message.Encodable
  · have hw := write_of_encodable h.quiet_forked (htext.mpr he) .shell .errors
    rw [Text.coded_append, Text.coded_append, Text.coded_lineFeed] at hw
    rw [bind_of_value hw, pure_apply, List.append_nil]
    have hr : Spawned line h _ := .refused ha he
    simp only [refusing, List.append_assoc] at hr ⊢
    exact hr
  · obtain ⟨place, hw⟩ := write_of_not_encodable (h := h.forked) (mt htext.mp he) .shell .errors
    rw [bind_of_fault hw, List.append_nil]
    have hr : Spawned line h ⟨.fault (.unencodable place), _, _⟩ := .unsaid ha he
    simp only [refusing, List.append_assoc] at hr ⊢
    exact hr

theorem spawn_of_child (ha : h.answer = .ok 0) : Spawned line h (line.spawn h) := by
  have hf : fork.attempt h = ⟨.value (.ok .child), h.forked, h.pendingWrites ++ [.fork 0]⟩ := by
    rw [attempt_apply, fork_apply, ha]
    rfl
  have hb : ∃ d t, line.become h.forked = ⟨.departure d, h.forked, t⟩ := by
    cases hl : Program.launch? h.forked.programs line.bytes with
    | error e => exact ⟨_, _, become_of_error line h.quiet_forked hl⟩
    | ok image => exact ⟨_, _, become_of_ok line hl⟩
  obtain ⟨d, t, hb⟩ := hb
  rw [spawn, bind_of_value hf]
  dsimp only
  rw [bind_of_departure hb, List.append_assoc]
  exact .departed ha hb

theorem attempt_fork_of_pid {pid : Int} (ha : h.answer = .ok pid) (hpid : pid ≠ 0) :
    fork.attempt h =
      ⟨.value (.ok (.parent { pid })), h.forked, h.pendingWrites ++ [.fork pid]⟩ := by
  rw [attempt_apply, fork_of_pid ha hpid]
  rfl

theorem spawn_of_await_fault {pid : Int} (ha : h.answer = .ok pid) (hpid : pid ≠ 0) {f : Fault}
    {left : Host} {t : Trace}
    (hw : Child.await { pid } line.life h.forked = ⟨.fault f, left, .wait pid 0 :: t⟩) :
    line.spawn h = ⟨.fault f, left, line.starting h pid ++ t⟩ := by
  rw [spawn, bind_of_value (attempt_fork_of_pid ha hpid)]
  dsimp only
  rw [bind_of_value (log_apply _ _ _ _), bind_of_fault hw]
  simp only [starting, List.append_assoc, List.cons_append, List.nil_append]

theorem spawn_of_await_undecided {pid : Int} (ha : h.answer = .ok pid) (hpid : pid ≠ 0)
    {child : Child} {e : WaitStatus.Error} {left : Host} {t : Trace}
    (hw : Child.await { pid } line.life h.forked =
      ⟨.value (child, .error e), left, .wait pid 0 :: t⟩) :
    line.spawn h = ⟨.fault (.status e), left, line.starting h pid ++ t⟩ := by
  rw [spawn, bind_of_value (attempt_fork_of_pid ha hpid)]
  dsimp only
  rw [bind_of_value (log_apply _ _ _ _), bind_of_value hw]
  dsimp only
  rw [bind_of_fault (show liftExcept _ _ left = ⟨.fault (.status e), left, []⟩ from rfl)]
  simp only [starting, List.append_assoc, List.cons_append, List.nil_append, List.append_nil]

theorem spawn_of_await_code {pid : Int} (ha : h.answer = .ok pid) (hpid : pid ≠ 0) {child : Child}
    {code : Int} {left : Host} {t : Trace}
    (hw : Child.await { pid } line.life h.forked =
      ⟨.value (child, .ok code), left, .wait pid 0 :: t⟩) :
    line.spawn h = ⟨.value { command := line.text, pid, code }, left,
      line.starting h pid ++ (t ++ [.log (exitRecord pid code)])⟩ := by
  rw [spawn, bind_of_value (attempt_fork_of_pid ha hpid)]
  dsimp only
  rw [bind_of_value (log_apply _ _ _ _), bind_of_value hw]
  dsimp only
  rw [bind_of_value (show liftExcept _ _ left = ⟨.value code, left, []⟩ from rfl),
    bind_of_value (log_apply _ _ _ _), pure_apply]
  simp only [starting, exitRecord, List.append_assoc, List.cons_append, List.nil_append]

theorem spawn_of_pid {pid : Int} (ha : h.answer = .ok pid) (hpid : pid ≠ 0) :
    Spawned line h (line.spawn h) := by
  have hlived : Lived line _ _ := life_lived h.quiet_forked
  have hc : Child.reaped { pid } = false := rfl
  rcases hlife : line.life h.forked with ⟨ending, left, t⟩
  rw [hlife] at hlived
  match ending with
  | .fault f =>
    rw [spawn_of_await_fault ha hpid (Child.await_of_fault hc hlife)]
    exact .stopped ha hpid hlived
  | .departure d => cases hlived
  | .value (.error e) =>
    rw [spawn_of_await_fault ha hpid (Child.await_of_error hc hlife)]
    exact .lost ha hpid hlived
  | .value (.ok status) =>
    have hw := Child.await_of_status hc hlife
    cases hcode : WaitStatus.exitCode status with
    | error e =>
      rw [hcode] at hw
      rw [spawn_of_await_undecided ha hpid hw]
      exact .undecided ha hpid hlived hcode
    | ok code =>
      rw [hcode] at hw
      rw [spawn_of_await_code ha hpid hw, List.append_assoc]
      exact .ended ha hpid hlived hcode

/-- **A command comes to one of these**, whatever the host answers. -/
theorem spawn_spawned (line : Line) (h : Host) : Spawned line h (line.spawn h) := by
  cases ha : h.answer with
  | error e => exact spawn_of_refusal ha
  | ok pid =>
    by_cases hpid : pid = 0
    · exact spawn_of_child (hpid ▸ ha)
    · exact spawn_of_pid ha hpid

/-- **After a command nothing waits to be written.** -/
theorem Spawned.quiet {r : Result Outcome} (hs : Spawned line h r) : r.host.Quiet := by
  cases hs with
  | refused | unsaid | departed => exact h.quiet_forked
  | stopped _ _ hl | lost _ _ hl | undecided _ _ hl | ended _ _ hl =>
    exact hl.quiet h.quiet_forked

end Line

/-! ## Dispatching -/

theorem Outcome.coded_statusLine_ne_nil {o : Outcome} {line : Text}
    (h : o.statusLine? = some line) : line.coded ≠ [] := by
  unfold statusLine? at h
  split at h
  · obtain rfl := Option.some.inj h
    split
    · split
      · simp only [Text.coded_append]
        exact List.append_ne_nil_of_right_ne_nil _ (by decide)
      · simp only [Text.coded_append]
        exact List.append_ne_nil_of_right_ne_nil _ (by decide)
    · decide
  · cases h

namespace Session

variable {config : Config} {line : Line} {h left : Host} {t : Trace}

def echo (config : Config) (line : Line) (h : Host) : Trace :=
  if config.echo then [.write .shell .output
    (h.pendingOutput ++ (echoLead.coded ++ line.bytes ++ [Line.terminator]))] else []

def echoed (config : Config) (h : Host) : Host :=
  if config.echo then h.setPending .output [] else h

theorem answer_echoed (config : Config) (h : Host) : (echoed config h).answer = h.answer := by
  unfold echoed
  split <;> rfl

theorem input_echoed (config : Config) (h : Host) : (echoed config h).input = h.input := by
  unfold echoed
  split <;> rfl

theorem programs_echoed (config : Config) (h : Host) : (echoed config h).programs = h.programs := by
  unfold echoed
  split <;> rfl

theorem encodable_echo (line : Line) : Text.Encodable (echoLead ++ line.text ++ [.lineFeed]) := by
  simp only [Text.encodable_append]
  exact ⟨⟨Text.encodable_ofString _, Text.encodable_ofBytes _⟩, Text.encodable_lineFeed⟩

theorem encodable_status {outcome : Outcome} {status : Text}
    (hs : (if config.reportStatus then outcome.statusLine? else none) = some status) :
    status.Encodable := by
  split at hs
  · exact Outcome.encodable_statusLine hs
  · cases hs

theorem showCommand_apply (config : Config) (line : Line) (h : Host) :
    showCommand config line h = ⟨.value (), echoed config h, echo config line h⟩ := by
  unfold showCommand echoed echo
  split
  · rw [write_flushes (encodable_echo line), Text.coded_append, Text.coded_append,
      Text.coded_lineFeed, Line.text, Text.coded_ofBytes, Event.writes_of_ne_nil (by simp)]
    rfl
  · rfl

theorem showStatus_apply (config : Config) (outcome : Outcome) (h : Host) :
    ∃ left t, showStatus config outcome h = ⟨.value (), left, t⟩ ∧ left.input = h.input ∧
      ∀ e ∈ t, ∃ bytes, e = .write .shell .errors bytes := by
  unfold showStatus
  cases hs : if config.reportStatus then outcome.statusLine? else none with
  | none => exact ⟨_, _, rfl, rfl, nofun⟩
  | some status =>
    exact ⟨_, _, write_flushes (encodable_status hs) .shell .errors h, rfl,
      fun e he => ⟨_, Event.eq_of_mem_writes he⟩⟩

theorem dispatch_of_value {outcome : Outcome}
    (hs : line.spawn (echoed config h) = ⟨.value outcome, left, t⟩) :
    ∃ left' u, dispatch config line h = ⟨.value outcome, left', echo config line h ++ (t ++ u)⟩ ∧
      left'.input = left.input ∧ ∀ e ∈ u, ∃ bytes, e = .write .shell .errors bytes := by
  obtain ⟨left', u, hstatus, hleft, hu⟩ := showStatus_apply config outcome left
  refine ⟨left', u, ?_, hleft, hu⟩
  rw [dispatch, bind_of_value (showCommand_apply config line h), bind_of_value hs,
    bind_of_value hstatus, pure_apply, List.append_nil]

theorem dispatch_of_fault {f : Fault} (hs : line.spawn (echoed config h) = ⟨.fault f, left, t⟩) :
    dispatch config line h = ⟨.fault f, left, echo config line h ++ t⟩ := by
  rw [dispatch, bind_of_value (showCommand_apply config line h), bind_of_fault hs]

theorem dispatch_of_departure {d : Departure}
    (hs : line.spawn (echoed config h) = ⟨.departure d, left, t⟩) :
    dispatch config line h = ⟨.departure d, left, echo config line h ++ t⟩ := by
  rw [dispatch, bind_of_value (showCommand_apply config line h), bind_of_departure hs]

/-! ## Banners and prompts -/

/-- A banner that can be written is written behind all that waits; an empty one is not written. -/
theorem showBanner_flushes (hbanner : config.banner.Encodable) (h : Host) : showBanner config h =
    if config.banner.isEmpty then ⟨.value (), h, []⟩
    else ⟨.value (), h.setPending .output [], Event.writes .shell .output
      (h.pendingOutput ++ (config.banner.coded ++ [Line.terminator]))⟩ := by
  unfold showBanner
  split
  · rfl
  · rw [write_flushes (Text.encodable_append.mpr ⟨hbanner, Text.encodable_lineFeed⟩),
      Text.coded_append, Text.coded_lineFeed]
    rfl

theorem showBanner_of_encodable (hbanner : config.banner.Encodable) (h : Host) :
    (showBanner config h).ending = .value () := by
  rw [showBanner_flushes hbanner]
  split <;> rfl

/-- A banner that cannot be written changes nothing. -/
theorem showBanner_of_not_encodable (hbanner : ¬ config.banner.Encodable) (h : Host) :
    ∃ place, showBanner config h = ⟨.fault (.unencodable place), h, []⟩ := by
  have hne : config.banner.isEmpty = false := by
    cases hempty : config.banner with
    | nil =>
      rw [hempty] at hbanner
      exact absurd (Text.encodable_ofChars []) hbanner
    | cons c t => rfl
  have hline : ¬ Text.Encodable (config.banner ++ [.lineFeed]) :=
    fun hline => hbanner (Text.encodable_append.mp hline).1
  rw [showBanner, hne]
  exact write_of_not_encodable hline .shell .output

theorem ask_apply (hprompt : config.prompt.Encodable) (h : Host) : ask config h =
    let r := Line.read config.lineLimit (h.setPending .output [])
    ⟨r.ending, r.host, Event.writes .shell .output (h.pendingOutput ++ config.prompt.coded) ++
      r.trace⟩ :=
  bind_of_value (write_flushes hprompt .shell .output h)

end Session

end LineShell
