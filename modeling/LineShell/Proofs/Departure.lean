import LineShell.Proofs.Command

/-!
# How a child departs

On the child's side of a fork the code of the shell never comes back: either a program replaces the
child, or the child exits.  The shell learns of it only through the wait.

* `LaunchError.isRefusal`, `LaunchError.isRejection`: the errors that are reported.
* `LaunchError.told`: what is told of an error; `LaunchError.notice`: the whole report.
* `LaunchError.report_eq`: when there is a report, and what is written then.
* `Line.spawn_of_replaced`, `Line.spawn_of_exited`: the child's side of a fork.
* `Line.spawn_of_unlaunched`, `Line.spawn_of_launched`: the shell's side.
* `Line.spawn_departs`: both sides, for all that may come of the request for the program.
-/

namespace LineShell

open LineShell.Action

/-! ## Reports -/

namespace LaunchError

def isRefusal : LaunchError → Bool
  | refused _ | unnumbered _ => true
  | _ => false

def isRejection : LaunchError → Bool
  | emptyPath | zeroByte | rejected _ => true
  | _ => false

def words : LaunchError → Text
  | refused error => error.reason
  | _ => []

/-- What is told of an error: the words of the system, or the whole message if it has none. -/
def told (e : LaunchError) : Text := if e.words.isEmpty then e.message else e.words

/-- What a child says that cannot become its program. -/
def notice (line : Line) (e : LaunchError) : Text :=
  .ofString "exec failed: " ++ line.text ++ .ofString ": " ++ e.told ++ [.lineFeed]

theorem reason?_eq (e : LaunchError) :
    e.reason? = if e.isRefusal || e.isRejection then some e.told else none := by
  cases e <;> rfl

theorem encodable_notice {line : Line} {e : LaunchError} :
    (e.notice line).Encodable ↔ e.told.Encodable := by
  simp only [notice, Line.text, Text.encodable_append, Text.encodable_ofString,
    Text.encodable_ofBytes, Text.encodable_lineFeed, true_and, and_true]

/-- The command is reported byte for byte. -/
theorem coded_notice (line : Line) (e : LaunchError) : (e.notice line).coded =
    Text.coded (.ofString "exec failed: ") ++ line.bytes ++ Text.coded (.ofString ": ") ++
      e.told.coded ++ [Line.terminator] := by
  simp only [notice, Line.text, Text.coded_append, Text.coded_ofBytes, Text.coded_lineFeed]

/-- Refusals and rejections are reported, if the report can be encoded; nothing else is. -/
theorem report_eq (line : Line) (e : LaunchError) : e.report line =
    if (e.isRefusal || e.isRejection) ∧ (e.notice line).Encodable then
      [.write .child .errors (e.notice line).coded]
    else [] := by
  rw [report, reason?_eq]
  cases e.isRefusal || e.isRejection with
  | false =>
    rw [if_neg Bool.false_ne_true, if_neg fun h => Bool.false_ne_true h.1]
  | true =>
    rw [if_pos rfl]
    dsimp only
    rw [← coded_notice]
    by_cases he : e.told.Encodable
    · have hne : (e.notice line).coded ≠ [] := by
        rw [coded_notice]
        exact List.append_ne_nil_of_right_ne_nil _ (List.cons_ne_nil _ _)
      rw [if_pos he, if_pos ⟨rfl, encodable_notice.mpr he⟩, Event.writes_of_ne_nil hne]
    · rw [if_neg he, if_neg fun h => he (encodable_notice.mp h.2)]

end LaunchError

namespace Line

variable {line : Line} {h : Host}

/-! ## The child's side -/

theorem spawn_of_become (ha : h.answer = .ok 0) {d : Departure} {t : Trace}
    (hb : line.become h.forked = ⟨.departure d, h.forked, t⟩) :
    line.spawn h = ⟨.departure d, h.forked, h.pendingWrites ++ .fork 0 :: t⟩ := by
  have hs := line.spawn_spawned h
  generalize line.spawn h = r at hs
  cases hs with
  | departed _ hb' =>
    obtain ⟨hd, -, rfl⟩ := Result.mk.inj (hb.symm.trans hb')
    obtain rfl := Ending.departure.inj hd
    rfl
  | refused ha' | unsaid ha' => cases ha.symm.trans ha'
  | stopped ha' hpid | lost ha' hpid | undecided ha' hpid | ended ha' hpid =>
    exact absurd (Except.ok.inj (ha'.symm.trans ha)) hpid

/-- A program that starts replaces the child, and that is all. -/
theorem spawn_of_replaced (ha : h.answer = .ok 0) {image : Image}
    (hl : Program.launch? h.programs line.bytes = .ok image) : line.spawn h =
      ⟨.departure (.replaced image), h.forked,
        h.pendingWrites ++ [.fork 0, .exec line.bytes [line.bytes]]⟩ := by
  rw [← h.programs_forked] at hl
  exact spawn_of_become ha (become_of_ok line hl)

/-- A child that no program replaces exits, whatever the reason, and whether or not it can be
reported. -/
theorem spawn_of_exited (ha : h.answer = .ok 0) {e : LaunchError}
    (hl : Program.launch? h.programs line.bytes = .error e) : line.spawn h =
      ⟨.departure (.exited failureCode), h.forked, h.pendingWrites ++
        .fork 0 :: .exec line.bytes [line.bytes] :: (e.report line ++ [.exit failureCode])⟩ := by
  rw [← h.programs_forked] at hl
  exact spawn_of_become ha (become_of_error line h.quiet_forked hl)

/-! ## The shell's side -/

theorem spawn_of_lived {pid status code : Int} (ha : h.answer = .ok pid) (hpid : pid ≠ 0)
    {left : Host} {t : Trace} (hl : line.life h.forked = ⟨.value (.ok status), left, t⟩)
    (hcode : WaitStatus.exitCode status = .ok code) : line.spawn h =
      ⟨.value { command := line.text, pid, code }, left,
        line.starting h pid ++ (t ++ [.waited pid, .log (exitRecord pid code)])⟩ := by
  have hc : Child.reaped { pid } = false := rfl
  have hw := Child.await_of_status hc hl
  rw [hcode] at hw
  rw [spawn_of_await_code ha hpid hw, List.append_assoc]
  rfl

theorem spawn_of_unlaunched {pid : Int} (ha : h.answer = .ok pid) (hpid : pid ≠ 0) {e : LaunchError}
    (hl : Program.launch? h.programs line.bytes = .error e) : line.spawn h =
      ⟨.value { command := line.text, pid, code := failureCode }, h.forked,
        line.starting h pid ++ ((.exec line.bytes [line.bytes] ::
          (e.report line ++ [.exit failureCode])) ++
            [.waited pid, .log (exitRecord pid failureCode)])⟩ := by
  rw [← h.programs_forked] at hl
  exact spawn_of_lived ha hpid ((life_lived h.quiet_forked).eq_of_error hl) (by decide)

/-- The shell finds what the wait for a program says that was not stopped while it read. -/
theorem spawn_of_launched {pid status code : Int} (ha : h.answer = .ok pid) (hpid : pid ≠ 0)
    {image : Image} (hl : Program.launch? h.programs line.bytes = .ok image)
    (hf : image.fault? h.input = none) (hending : image.ending = .ok status)
    (hcode : WaitStatus.exitCode status = .ok code) : line.spawn h =
      ⟨.value { command := line.text, pid, code },
        { h.forked with input := image.rest h.input }, line.starting h pid ++
        ((.exec line.bytes [line.bytes] ::
          (image.taking h.input ++ image.shown (image.got h.input))) ++
            [.waited pid, .log (exitRecord pid code)])⟩ := by
  rw [← h.programs_forked] at hl
  rw [← h.input_forked] at hf ⊢
  have hlife := (life_lived h.quiet_forked).eq_of_ok hl hf
  rw [hending] at hlife
  exact spawn_of_lived ha hpid hlife hcode

/-! ## Both sides -/

/-- **A child never comes back, and whatever becomes of it is told.**

Once a fork is answered with zero, the request for the program is made, once and with the bytes of
the command.  Then a program replaces the child, and nothing more is done; or the child exits, once,
with the code 1.  What it does in between is at most to write its report, and it does that if the
request was refused or rejected and the report can be encoded.  It takes nothing from the input.

The shell, on its own side of the fork, finds the code 1 in any case in which the child exits, and
otherwise what the wait for the program says. -/
theorem spawn_departs (line : Line) (h : Host) (ha : h.answer = .ok 0) : ∃ d t,
    line.spawn h = ⟨.departure d, h.forked,
      h.pendingWrites ++ .fork 0 :: .exec line.bytes [line.bytes] :: t⟩ ∧
    h.forked.Quiet ∧ h.forked.input = h.input ∧
    (∀ image, Program.launch? h.programs line.bytes = .ok image → d = .replaced image ∧ t = []) ∧
    (∀ e, Program.launch? h.programs line.bytes = .error e →
      d = .exited 1 ∧
      t = (if (e.isRefusal || e.isRejection) ∧ (e.notice line).Encodable then
        [.write .child .errors (Text.coded (.ofString "exec failed: ") ++ line.bytes ++
          Text.coded (.ofString ": ") ++
          (if e.words.isEmpty then e.message else e.words).coded ++ [terminator])]
        else []) ++ [.exit 1]) ∧
    ∀ (shell : Host) (pid : Int), shell.programs = h.programs → shell.answer = .ok pid → pid ≠ 0 →
      (∀ e, Program.launch? h.programs line.bytes = .error e → line.spawn shell =
        ⟨.value { command := line.text, pid, code := some 1 }, shell.forked,
          line.starting shell pid ++ ((.exec line.bytes [line.bytes] :: t) ++
            [.waited pid, .log (exitRecord pid 1)])⟩) ∧
      ∀ image status code, Program.launch? h.programs line.bytes = .ok image →
        image.fault? shell.input = none → image.ending = .ok status →
        WaitStatus.exitCode status = .ok code → line.spawn shell =
          ⟨.value { command := line.text, pid, code },
            { shell.forked with input := image.rest shell.input }, line.starting shell pid ++
            ((.exec line.bytes [line.bytes] ::
              (image.taking shell.input ++ image.shown (image.got shell.input))) ++
                [.waited pid, .log (exitRecord pid code)])⟩ := by
  cases hl : Program.launch? h.programs line.bytes with
  | ok image =>
    refine ⟨.replaced image, [], spawn_of_replaced ha hl, h.quiet_forked, h.input_forked, ?_,
      nofun, ?_⟩
    · rintro _ ⟨⟩
      exact ⟨rfl, rfl⟩
    · intro shell pid hprograms hanswer hpid
      refine ⟨nofun, ?_⟩
      rintro _ status code ⟨⟩ hf hending hcode
      rw [← hprograms] at hl
      exact spawn_of_launched hanswer hpid hl hf hending hcode
  | error e =>
    refine ⟨.exited failureCode, e.report line ++ [.exit failureCode], spawn_of_exited ha hl,
      h.quiet_forked, h.input_forked, nofun, ?_, ?_⟩
    · rintro _ ⟨⟩
      refine ⟨rfl, ?_⟩
      rw [LaunchError.report_eq, LaunchError.coded_notice]
      rfl
    · intro shell pid hprograms hanswer hpid
      refine ⟨?_, nofun⟩
      rintro _ ⟨⟩
      rw [← hprograms] at hl
      exact spawn_of_unlaunched hanswer hpid hl

/-- The system refuses without a word: the whole message is told, behind all that the shell had not
yet written, and the shell that gets the pid of the child finds its exit code. -/
theorem spawn_departs_of_wordless : ∃ (line : Line) (h shell : Host) (e : LaunchError),
    h.answer = .ok 0 ∧ shell.answer = .ok 7 ∧ (7 : Int) ≠ 0 ∧ shell.programs = h.programs ∧
    Program.launch? h.programs line.bytes = .error e ∧ e = .refused ⟨13, [], none⟩ ∧
    h.pendingOutput = [0x78] ∧
    (line.spawn h).ending = .departure (.exited 1) ∧
    (line.spawn h).trace = [.write .shell .output [0x78], .fork 0, .exec [0x61] [[0x61]],
      .write .child .errors (Text.coded (.ofString "exec failed: a: [Errno 13] \n")), .exit 1] ∧
    (line.spawn shell).ending = .value { command := line.text, pid := some 7, code := some 1 } := by
  let line : Line := ⟨[0x61], false, by decide⟩
  let e : LaunchError := .refused ⟨13, [], none⟩
  let h : Host :=
    { programs := [⟨[0x61], .error e⟩], forks := [.pid 0], pendingOutput := [0x78] }
  let shell : Host := { h with forks := [.pid 7] }
  have hl : Program.launch? h.programs line.bytes = .error e := rfl
  obtain ⟨d, t, hchild, -, -, -, hfailed, hsides⟩ := spawn_departs line h rfl
  obtain ⟨hd, ht⟩ := hfailed e hl
  have hshell := (hsides shell 7 rfl rfl (by decide)).1 e hl
  refine ⟨line, h, shell, e, rfl, rfl, by decide, rfl, hl, rfl, rfl, ?_, ?_, ?_⟩
  · rw [hchild, hd]
  · have htold : (e.isRefusal || e.isRejection) = true ∧ (e.notice line).Encodable :=
      ⟨rfl, LaunchError.encodable_notice.mpr
        (SystemError.encodable_message (Text.encodable_ofChars []) rfl)⟩
    rw [hchild, ht, if_pos htold, hd]
    decide +kernel
  · rw [hshell]

end Line

end LineShell
