import LineShell.Proofs.Action

/-!
# A run, turn by turn

A run is a banner, then a **turn** for each line that is read, then one prompt more.

* `Fate`: what becomes of a command, and `Fate.trace`, all that can be seen of it.
* `Host.fate`, `Host.leave`: the fate of a command on a host, and the host after it.
* `Turn`, `Turn.trace`: a line with its fate, and all that can be seen of the turn.
* `Session.turns`: the turns of a session.
* `Session.run_turns`: a run ends when its input does, and nothing is seen of it but its turns.
-/

namespace LineShell

open LineShell.Action

/-! ## The fate of a command -/

/-- What becomes of a command. -/
inductive Fate
  /-- No child could be made. -/
  | refused (error : SystemError)
  /-- The child could not become the program. -/
  | failed (pid : Int) (error : LaunchError)
  /-- The child became the program; `got` is what that read, if it reads. -/
  | ran (pid : Int) (image : Image) (got : Option Bytes)

namespace Image

def code? (image : Image) : Option Int :=
  match image.ending with
  | .ok status => (WaitStatus.exitCode status).toOption
  | .error _ => none

theorem ending_of_code? {image : Image} {code : Int} (hc : image.code? = some code) :
    ∃ status, image.ending = .ok status ∧ WaitStatus.exitCode status = .ok code := by
  unfold code? at hc
  split at hc
  · rename_i status hend
    refine ⟨status, hend, ?_⟩
    cases he : WaitStatus.exitCode status with
    | ok code' =>
      rw [he] at hc
      exact congrArg Except.ok (Option.some.inj hc)
    | error e =>
      rw [he] at hc
      cases hc
  · cases hc

def got (image : Image) (input : Input) : Option Bytes :=
  image.reads.map fun q => (input.take q).bytes

def rest (image : Image) (input : Input) : Input :=
  match image.reads with
  | some q => (input.take q).rest
  | none => input

def shown (image : Image) (got : Option Bytes) : Trace :=
  got.toList.map (.write .child .output) ++ (Event.writes .child .output image.output ++
    Event.writes .child .errors image.errors)

end Image

/-- The report of a child that could not become its program.  There is none if there is no reason
for it, or if the reason cannot be written. -/
def LaunchError.report (line : Line) (e : LaunchError) : Trace :=
  match e.reason? with
  | some reason =>
    if reason.Encodable then
      Event.writes .child .errors <| Text.coded (.ofString "exec failed: ") ++ line.bytes ++
        Text.coded (.ofString ": ") ++ reason.coded ++ [Line.terminator]
    else []
  | none => []

namespace Fate

/-- All that can be seen of a command between its echo and its status. -/
def trace (line : Line) : Fate → Trace
  | refused e => .forkFailure e.number :: Event.writes .shell .errors
      (Text.coded (.ofString "fork failed: ") ++ e.message.coded ++ [Line.terminator])
  | failed pid e => [.fork pid, .wait pid 0, .exec line.bytes [line.bytes]] ++ e.report line ++
      [.exit Line.failureCode]
  | ran pid image got => [.fork pid, .wait pid 0, .exec line.bytes [line.bytes]] ++ image.shown got

def outcome (line : Line) : Fate → Outcome
  | refused _ => { command := line.text }
  | failed pid _ => { command := line.text, pid, code := Line.failureCode }
  | ran pid image _ => { command := line.text, pid, code := image.code? }

/-- The shell can say that no child was made, and how a child ended. -/
def Tellable : Fate → Prop
  | refused e => e.message.Encodable
  | failed _ _ => True
  | ran _ image _ => ∃ code, image.code? = some code

end Fate

namespace Host

def fate (h : Host) (line : Line) : Fate :=
  match h.answer with
  | .error e => .refused e
  | .ok pid =>
    match Program.launch? h.programs line.bytes with
    | .error e => .failed pid e
    | .ok image => .ran pid image (image.got h.input)

/-- The host after a command.  A program that reads has taken something from the input. -/
def leave (h : Host) (line : Line) : Host :=
  match h.fate line with
  | .ran _ image _ => { h.answered with input := image.rest h.input }
  | _ => h.answered

end Host

/-! ## Turns -/

structure Turn where
  line : Line
  fate : Fate

def Turn.outcome (turn : Turn) : Outcome := turn.fate.outcome turn.line

def Line.shown (line : Line) : Trace :=
  if line.truncated then [.log (truncationRecord line.length)] else []

/-- All that can be seen of a turn: the prompt, the record of a line that was cut short, the echo,
the fate of the command, and the status of a child. -/
def Turn.trace (config : Config) (turn : Turn) : Trace :=
  Event.writes .shell .output config.prompt.coded ++
  turn.line.shown ++
  (if config.echo then Event.writes .shell .output
      (Session.echoLead.coded ++ turn.line.bytes ++ [Line.terminator])
    else []) ++
  turn.fate.trace turn.line ++
  (match if config.reportStatus then turn.outcome.statusLine? else none with
    | some status => Event.writes .shell .errors status.coded
    | none => [])

theorem Image.length_rest (image : Image) (input : Input) :
    (image.rest input).length ≤ input.length := by
  unfold rest
  split
  · rename_i q _
    have := Input.length_take q input
    omega
  · exact Nat.le_refl _

theorem Host.length_leave (h : Host) (line : Line) :
    (h.leave line).input.length ≤ h.input.length := by
  unfold leave
  split
  · exact Image.length_rest _ _
  · rw [h.input_answered]

namespace Session

def bannerTrace (config : Config) : Trace :=
  if config.banner.isEmpty then []
  else Event.writes .shell .output (config.banner.coded ++ [Line.terminator])

/-- The turns of a session: one for each line that is read, until none is. -/
def turns (limit : Int) (h : Host) : List Turn :=
  match _h : (Line.read limit h).ending with
  | .value (.line line) =>
    ⟨line, (Line.read limit h).host.fate line⟩ :: turns limit ((Line.read limit h).host.leave line)
  | _ => []
termination_by h.input.length
decreasing_by
  exact Nat.lt_of_le_of_lt (Host.length_leave _ _) (Line.length_input_read _h)

end Session

/-! ## What is seen of an action -/

/-- The action ends with a value and leaves a host, and a trace is all that can be seen of it. -/
structure Action.Shows (x : Action α) (h : Host) (a : α) (h' : Host) (t : Trace) : Prop where
  ending : (x h).ending = .value a
  host : (x h).host = h'
  trace : (x h).trace.filter Trace.isObservable = t

namespace Action.Shows

variable {h h' h'' : Host} {t u : Trace}

theorem of_eq {x : Action α} {a : α} (hx : x h = ⟨.value a, h', t⟩) :
    Shows x h a h' (t.filter Trace.isObservable) := by
  refine ⟨?_, ?_, ?_⟩ <;> rw [hx]

theorem bind {x : Action α} {f : α → Action β} {a : α} {b : β} (hx : Shows x h a h' t)
    (hf : Shows (f a) h' b h'' u) : Shows (x >>= f) h b h'' (t ++ u) := by
  obtain ⟨hx, rfl, rfl⟩ := hx
  obtain ⟨hf, rfl, rfl⟩ := hf
  have hb := bind_of_ending (f := f) hx
  refine ⟨?_, ?_, ?_⟩
  · rw [hb, hf]
  · rw [hb]
  · rw [hb, List.filter_append]

theorem silent_bind {x : Action α} {f : α → Action β} {a : α} {b : β} (hx : Shows x h a h' [])
    (hf : Shows (f a) h' b h'' u) : Shows (x >>= f) h b h'' u := hx.bind hf

theorem bind_silent {x : Action α} {f : α → Action β} {a : α} {b : β} (hx : Shows x h a h' t)
    (hf : Shows (f a) h' b h'' []) : Shows (x >>= f) h b h'' t := by
  have := hx.bind hf
  rwa [List.append_nil] at this

theorem pure (h : Host) (a : α) : Shows (pure a : Action α) h a h [] := ⟨rfl, rfl, rfl⟩

theorem emit (h : Host) {e : Event} (he : Trace.isObservable e = true) :
    Shows (emit e) h () h [e] := ⟨rfl, rfl, List.filter_cons_of_pos he⟩

theorem emit_silent (h : Host) {e : Event} (he : Trace.isObservable e = false) :
    Shows (Action.emit e) h () h [] := ⟨rfl, rfl, List.filter_cons_of_neg (by simp [he])⟩

theorem debug (h : Host) (logger : String) (text : Text) :
    Shows (log logger .debug text) h () h [] := ⟨rfl, rfl, rfl⟩

theorem filter_writes (a : Actor) (s : Stream) (bytes : Bytes) :
    (Event.writes a s bytes).filter Trace.isObservable = Event.writes a s bytes :=
  Event.filter_writes_of_pos rfl

theorem write (hq : h.Quiet) {text : Text} (ht : text.Encodable) (a : Actor) (s : Stream) :
    Shows (write a s text) h () h (Event.writes a s text.coded) := by
  rw [← filter_writes]
  exact .of_eq (write_of_encodable hq ht a s)

theorem emits_writes (h : Host) (a : Actor) (s : Stream) (bytes : Bytes) :
    Shows (emits (Event.writes a s bytes)) h () h (Event.writes a s bytes) :=
  ⟨rfl, rfl, filter_writes a s bytes⟩

end Action.Shows

/-! ## Running a command -/

theorem SystemError.encodable_message {e : SystemError} (hr : e.reason.Encodable)
    (hp : e.path = none) : e.message.Encodable := by
  rw [message, hp]
  simp only [Text.encodable_append]
  exact ⟨⟨⟨⟨Text.encodable_ofString _, Text.encodable_ofInt _⟩, Text.encodable_ofString _⟩, hr⟩,
    Text.encodable_ofChars []⟩

theorem Text.coded_lineFeed : Text.coded [CodePoint.lineFeed] = [Line.terminator] := by decide

def LaunchError.write (line : Line) (e : LaunchError) : Action Unit :=
  if let some reason := e.reason? then
    Action.write .child .errors <|
      .ofString "exec failed: " ++ line.text ++ .ofString ": " ++ reason ++ [.lineFeed]
  else pure ()

theorem LaunchError.attempt_write {h : Host} (hq : h.Quiet) (line : Line) (e : LaunchError) :
    ∃ r, (e.write line).attempt h = ⟨.value r, h, e.report line⟩ := by
  rw [attempt_apply, LaunchError.write, LaunchError.report]
  cases e.reason? with
  | none => exact ⟨_, rfl⟩
  | some reason =>
    dsimp only
    by_cases hr : reason.Encodable
    · have ht : Text.Encodable (.ofString "exec failed: " ++ line.text ++ .ofString ": " ++
          reason ++ [.lineFeed]) := by
        simp only [Text.encodable_append]
        exact ⟨⟨⟨⟨Text.encodable_ofString _, Text.encodable_ofBytes _⟩, Text.encodable_ofString _⟩,
          hr⟩, Text.encodable_lineFeed⟩
      rw [if_pos hr, write_of_encodable hq ht, Text.coded_append, Text.coded_append,
        Text.coded_append, Text.coded_append, Text.coded_lineFeed, Line.text, Text.coded_ofBytes]
      exact ⟨_, rfl⟩
    · have ht : ¬ Text.Encodable (.ofString "exec failed: " ++ line.text ++ .ofString ": " ++
          reason ++ [.lineFeed]) := by
        intro ht
        simp only [Text.encodable_append] at ht
        exact hr ht.1.2
      obtain ⟨place, hplace⟩ := write_of_not_encodable (h := h) ht .child .errors
      rw [if_neg hr, hplace]
      exact ⟨_, rfl⟩

/-- What a program reads it writes, and then its own output. -/
theorem Image.run_shows {h : Host} (hi : h.input.Undisturbed) (image : Image) :
    Shows image.run h image.ending { h with input := image.rest h.input }
      (image.shown (image.got h.input)) := by
  have hout : ∀ h, Shows (do
      emits (Event.writes .child .output image.output)
      emits (Event.writes .child .errors image.errors)
      return image.ending : Action (Except SystemError Int)) h image.ending h
        (Event.writes .child .output image.output ++
          Event.writes .child .errors image.errors) := by
    intro h
    refine .bind (.emits_writes h _ _ _) ?_
    exact .bind_silent (.emits_writes h _ _ _) (.pure h _)
  unfold Image.run
  cases hr : image.reads with
  | none =>
    have : image.rest h.input = h.input := by rw [rest, hr]
    rw [this, shown, got, hr]
    exact hout h
  | some q =>
    have htake := Shows.of_eq (takeInput_of_value (a := .child) (hi.fault? q))
    have hrest : image.rest h.input = (h.input.take q).rest := by rw [rest, hr]
    rw [hrest, shown, got, hr]
    exact htake.silent_bind (.bind (.emit _ rfl) (hout _))

namespace Line

variable {h : Host} (line : Line)

theorem become_of_ok {image : Image} (hl : Program.launch? h.programs line.bytes = .ok image) :
    line.become h = ⟨.departure (.replaced image), h, [.exec line.bytes [line.bytes]]⟩ := by
  have hexec : (exec line.bytes).attempt h =
      ⟨.departure (.replaced image), h, [.exec line.bytes [line.bytes]]⟩ := by
    rw [attempt_apply, exec_apply, hl]
  refine bind_of_departure ?_
  rw [attempt_apply, bind_of_departure hexec]

theorem become_of_error (hq : h.Quiet) {e : LaunchError}
    (hl : Program.launch? h.programs line.bytes = .error e) :
    line.become h = ⟨.departure (.exited failureCode), h,
      .exec line.bytes [line.bytes] :: (e.report line ++ [.exit failureCode])⟩ := by
  have hexec : (exec line.bytes).attempt h =
      ⟨.value (.error (.launch e)), h, [.exec line.bytes [line.bytes]]⟩ := by
    rw [attempt_apply, exec_apply, hl]
  obtain ⟨r, hr⟩ := e.attempt_write hq line
  exact bind_of_value (attempt_bind_of_value hexec hr)

theorem life_of_error (hq : h.Quiet) {e : LaunchError}
    (hl : Program.launch? h.programs line.bytes = .error e) :
    Shows line.life h (.ok (0x100 * failureCode)) h
      (.exec line.bytes [line.bytes] :: (e.report line ++ [.exit failureCode])) := by
  have hd : line.become.departing h = ⟨.value (.exited failureCode), h,
      .exec line.bytes [line.bytes] :: (e.report line ++ [.exit failureCode])⟩ := by
    rw [departing_apply, become_of_error line hq hl]
  have hobs : (e.report line).filter Trace.isObservable = e.report line := by
    unfold LaunchError.report
    split
    · split
      · exact Shows.filter_writes _ _ _
      · rfl
    · rfl
  have hs := Shows.of_eq hd
  rw [List.filter_cons_of_pos rfl, List.filter_append, hobs] at hs
  exact hs.bind_silent (.pure h (Except.ok (0x100 * failureCode)))

theorem life_of_ok (hi : h.input.Undisturbed) {image : Image}
    (hl : Program.launch? h.programs line.bytes = .ok image) :
    Shows line.life h image.ending { h with input := image.rest h.input }
      (.exec line.bytes [line.bytes] :: image.shown (image.got h.input)) := by
  have hd : line.become.departing h =
      ⟨.value (.replaced image), h, [.exec line.bytes [line.bytes]]⟩ := by
    rw [departing_apply, become_of_ok line hl]
  exact (Shows.of_eq hd).bind (image.run_shows hi)

theorem await_shows {child : Child} (hc : child.reaped = false) {status : Int} {h' : Host}
    {t : Trace} (hlife : Shows line.life h (.ok status) h' t) :
    Shows (child.await line.life) h ({ child with reaped := true }, WaitStatus.exitCode status) h'
      (.wait child.pid 0 :: t) := by
  rw [Child.await, hc, if_neg (by decide)]
  refine .bind (t := [_]) (.emit h rfl) ?_
  refine .bind_silent hlife ?_
  refine .silent_bind (.emit_silent h' rfl) ?_
  exact .silent_bind (.pure h' status) (.pure h' _)

theorem fork_shows_refusal (hq : h.Quiet) {e : SystemError} (ha : h.answer = .error e) :
    Shows fork.attempt h (.error (.childless e)) h.answered [.forkFailure e.number] := by
  refine .of_eq (t := [.forkFailure e.number]) ?_
  rw [attempt_apply, fork_of_refusal ha, hq.flushed, hq.pendingWrites]
  rfl

theorem fork_shows_pid (hq : h.Quiet) {pid : Int} (ha : h.answer = .ok pid) (hpid : pid ≠ 0) :
    Shows fork.attempt h (.ok (.parent { pid })) h.answered [.fork pid] := by
  refine .of_eq (t := [.fork pid]) ?_
  rw [attempt_apply, fork_of_pid ha hpid, hq.flushed, hq.pendingWrites]
  rfl

theorem spawn_shows_child (hq : h.Quiet) {pid code status : Int} (ha : h.answer = .ok pid)
    (hpid : pid ≠ 0) {h' : Host} {t : Trace} (hlife : Shows line.life h.answered (.ok status) h' t)
    (hcode : WaitStatus.exitCode status = .ok code) :
    Shows line.spawn h { command := line.text, pid, code } h' (.fork pid :: .wait pid 0 :: t) := by
  have hawait := await_shows line (show Child.reaped { pid } = false from rfl) hlife
  rw [hcode] at hawait
  refine .bind (t := [_]) (fork_shows_pid hq ha hpid) ?_
  refine .silent_bind (.debug _ _ _) ?_
  refine .bind_silent hawait ?_
  refine .silent_bind (.pure h' code) ?_
  exact .silent_bind (.debug _ _ _) (.pure _ _)

/-- **All that is seen of a command is its fate.** -/
theorem spawn_shows (hq : h.Quiet) (hp : h.Parental) (hi : h.input.Undisturbed)
    (ht : (h.fate line).Tellable) :
    Shows line.spawn h ((h.fate line).outcome line) (h.leave line) ((h.fate line).trace line) := by
  cases ha : h.answer with
  | error e =>
    have hf : h.fate line = .refused e := by rw [Host.fate, ha]
    have hleave : h.leave line = h.answered := by rw [Host.leave, hf]
    rw [hf] at ht
    have htext : Text.Encodable (.ofString "fork failed: " ++ e.message ++ [.lineFeed]) := by
      simp only [Text.encodable_append]
      exact ⟨⟨Text.encodable_ofString _, ht⟩, Text.encodable_lineFeed⟩
    have hw := Shows.write hq.answered htext .shell .errors
    rw [Text.coded_append, Text.coded_append, Text.coded_lineFeed] at hw
    rw [hf, hleave]
    refine .bind (t := [_]) (fork_shows_refusal hq ha) ?_
    refine .silent_bind (.debug _ _ _) ?_
    exact .bind_silent hw (.pure _ _)
  | ok pid =>
    have hpid := hp.answer_ne_zero ha
    have hi' : h.answered.input.Undisturbed := by rwa [h.input_answered]
    cases hl : Program.launch? h.programs line.bytes with
    | error e =>
      have hf : h.fate line = .failed pid e := by rw [Host.fate, ha, hl]
      have hleave : h.leave line = h.answered := by rw [Host.leave, hf]
      rw [← h.programs_answered] at hl
      rw [hf, hleave]
      exact spawn_shows_child line hq ha hpid (life_of_error line hq.answered hl) rfl
    | ok image =>
      have hf : h.fate line = .ran pid image (image.got h.input) := by rw [Host.fate, ha, hl]
      have hleave : h.leave line = { h.answered with input := image.rest h.input } := by
        rw [Host.leave, hf]
      rw [← h.programs_answered] at hl
      have hlife := life_of_ok line hi' hl
      rw [h.input_answered] at hlife
      rw [hf] at ht
      obtain ⟨code, hcode⟩ := ht
      obtain ⟨status, hend, hexit⟩ := Image.ending_of_code? hcode
      rw [hend] at hlife
      rw [hf, hleave, Fate.outcome, hcode]
      exact spawn_shows_child line hq ha hpid hlife hexit

end Line

/-! ## A turn -/

/-- Nothing waits to be written, no fork is answered with zero, and no read fails. -/
structure Host.Orderly (h : Host) : Prop where
  quiet : h.Quiet
  parental : h.Parental
  undisturbed : h.input.Undisturbed

namespace Host.Orderly

variable {h : Host}

theorem setInput (ho : h.Orderly) {input : Input} (hi : input.Undisturbed) :
    Orderly { h with input } :=
  ⟨⟨ho.quiet.output, ho.quiet.errors⟩, ⟨ho.parental.forks, ho.parental.nextPid⟩, hi⟩

theorem answered (ho : h.Orderly) : h.answered.Orderly :=
  ⟨ho.quiet.answered, ho.parental.answered, h.input_answered ▸ ho.undisturbed⟩

theorem leave (ho : h.Orderly) (line : Line) : (h.leave line).Orderly := by
  unfold Host.leave
  split
  · rename_i image _ _
    refine ho.answered.setInput ?_
    unfold Image.rest
    split
    · exact ho.undisturbed.rest _
    · exact ho.undisturbed
  · exact ho.answered

end Host.Orderly

theorem Line.length_of_isCut {limit : Int} {raw : Bytes} (h : isCut limit raw = true) :
    (ofRaw raw true).length = raw.length := by
  have hmem : terminator ∉ raw := by
    rw [isCut, Bool.and_eq_true] at h
    simpa using h.1
  rw [length, bytes_ofRaw_of_notMem hmem]

theorem Line.read_shows {limit : Int} (hl : 2 ≤ limit) {h : Host} (ho : h.Orderly) :
    ∃ left, left.Orderly ∧ (Shows (Line.read limit) h .endOfStream left [] ∨
      ∃ line, Shows (Line.read limit) h (.line line) left line.shown) := by
  have hf := ho.undisturbed.fault? (.lineWithin (room limit))
  refine ⟨_, ho.setInput (ho.undisturbed.rest (.lineWithin (room limit))), ?_⟩
  by_cases hb : (h.input.take (.lineWithin (room limit))).bytes = []
  · exact Or.inl (.of_eq (read_of_empty hl hf hb))
  · have hread := Shows.of_eq (read_of_bytes hl hf hb)
    refine Or.inr ⟨ofRaw (h.input.take (.lineWithin (room limit))).bytes
      (isCut limit (h.input.take (.lineWithin (room limit))).bytes), ?_⟩
    cases hcut : isCut limit (h.input.take (.lineWithin (room limit))).bytes with
    | false =>
      rw [hcut] at hread
      exact hread
    | true =>
      rw [hcut, ← length_of_isCut hcut] at hread
      exact hread

theorem Outcome.encodable_statusLine {o : Outcome} {status : Text}
    (h : o.statusLine? = some status) : status.Encodable := by
  unfold statusLine? at h
  split at h
  · obtain rfl := Option.some.inj h
    split
    · split
      · simp only [Text.encodable_append]
        exact ⟨⟨Text.encodable_ofString _, Text.encodable_ofInt _⟩, Text.encodable_ofString _⟩
      · simp only [Text.encodable_append]
        exact ⟨⟨Text.encodable_ofString _, Text.encodable_ofInt _⟩, Text.encodable_ofString _⟩
    · exact Text.encodable_ofString _
  · cases h

namespace Session

variable {h : Host} {line : Line}

theorem showCommand_shows (hq : h.Quiet) (config : Config) (line : Line) :
    Shows (showCommand config line) h () h (if config.echo then Event.writes .shell .output
      (echoLead.coded ++ line.bytes ++ [Line.terminator]) else []) := by
  have ht : Text.Encodable (echoLead ++ line.text ++ [.lineFeed]) := by
    simp only [Text.encodable_append]
    exact ⟨⟨Text.encodable_ofString _, Text.encodable_ofBytes _⟩, Text.encodable_lineFeed⟩
  have hw := Shows.write hq ht .shell .output
  rw [Text.coded_append, Text.coded_append, Text.coded_lineFeed, Line.text,
    Text.coded_ofBytes] at hw
  unfold showCommand
  split
  · exact hw
  · exact .pure h ()

theorem showStatus_shows (hq : h.Quiet) (config : Config) (outcome : Outcome) :
    Shows (showStatus config outcome) h () h
      (match if config.reportStatus then outcome.statusLine? else none with
        | some status => Event.writes .shell .errors status.coded
        | none => []) := by
  unfold showStatus
  cases hs : if config.reportStatus then outcome.statusLine? else none with
  | none => exact .pure h ()
  | some status =>
    refine .write hq (Outcome.encodable_statusLine (o := outcome) ?_) _ _
    split at hs
    · exact hs
    · cases hs

/-- **All that is seen of a round with a command is its turn.** -/
theorem round_shows {config : Config} (hprompt : config.prompt.Encodable) (ho : h.Orderly)
    {left : Host} (hleft : left.Orderly)
    (hread : Shows (Line.read config.lineLimit) h (.line line) left line.shown)
    (ht : (left.fate line).Tellable) :
    Shows (round config) h (some (Turn.outcome ⟨line, left.fate line⟩)) (left.leave line)
      (Turn.trace config ⟨line, left.fate line⟩) := by
  have hspawn := Line.spawn_shows line hleft.quiet hleft.parental hleft.undisturbed ht
  have hstatus := showStatus_shows (hleft.leave line).quiet config ((left.fate line).outcome line)
  have hecho := showCommand_shows hleft.quiet config line
  have hdispatch : Shows (dispatch config line) left _ _ _ :=
    .bind hecho (.bind hspawn (.bind_silent hstatus (.pure _ _)))
  have hask := Shows.write ho.quiet hprompt .shell .output
  have hround : Shows (round config) h _ _ _ :=
    .bind hask (.bind hread (.bind_silent hdispatch (.pure _ _)))
  simp only [← List.append_assoc] at hround
  exact hround

theorem turns_of_line {limit : Int} {left : Host} {t : Trace}
    (hread : Shows (Line.read limit) h (.line line) left t) :
    turns limit h = ⟨line, left.fate line⟩ :: turns limit (left.leave line) := by
  rw [turns, ← hread.host]
  split
  · rename_i line' hline
    obtain rfl := Reading.line.inj (Ending.value.inj (hread.ending.symm.trans hline))
    rfl
  · rename_i hline
    exact absurd hread.ending (hline _)

theorem turns_of_endOfStream {limit : Int} {left : Host} {t : Trace}
    (hread : Shows (Line.read limit) h .endOfStream left t) : turns limit h = [] := by
  rw [turns]
  split
  · rename_i line' hline
    cases hread.ending.symm.trans hline
  · rfl

end Session

def Report.after (report : Report) (turns : List Turn) : Report where
  commands := report.commands + turns.length
  last := (turns.getLast?.map Turn.outcome).or report.last

theorem Report.after_cons (report : Report) (turn : Turn) (turns : List Turn) :
    Report.after ⟨report.commands + 1, some turn.outcome⟩ turns = report.after (turn :: turns) := by
  rw [after, after, Report.mk.injEq, List.length_cons, List.getLast?_cons]
  constructor
  · show report.commands + 1 + turns.length = report.commands + (turns.length + 1)
    omega
  · cases turns.getLast? <;> rfl

namespace Session

/-- What is seen of the rounds are their turns, and the prompt that no line answers. -/
theorem rounds_shows {config : Config} (hprompt : config.prompt.Encodable) (report : Report)
    {h : Host} (ho : h.Orderly) (ht : ∀ turn ∈ turns config.lineLimit h, turn.fate.Tellable) :
    ∃ left, Shows (rounds config report) h (report.after (turns config.lineLimit h)) left
      ((turns config.lineLimit h).flatMap (Turn.trace config) ++
        Event.writes .shell .output config.prompt.coded) := by
  -- a round with a command shortens the input and leaves an orderly host
  induction hk : h.input.length using Nat.strong_induction_on generalizing h report with
  | _ k ih =>
    rw [rounds_eq]
    obtain ⟨left, hleft, hread | ⟨line, hread⟩⟩ := Line.read_shows config.two_le_lineLimit ho
    · rw [turns_of_endOfStream hread]
      have hround : Shows (round config) h none left _ :=
        .bind_silent (.write ho.quiet hprompt .shell .output) (.bind_silent hread (.pure left none))
      exact ⟨left, hround.bind_silent (.pure left report)⟩
    · rw [turns_of_line hread] at ht ⊢
      obtain ⟨hfate, ht⟩ := List.forall_mem_cons.mp ht
      have hround := round_shows hprompt ho hleft hread hfate
      have hlt := length_input_round hround.ending
      rw [hround.host, hk] at hlt
      obtain ⟨last, hrest⟩ := ih _ hlt ⟨report.commands + 1, _⟩ (hleft.leave line) ht rfl
      rw [Report.after_cons] at hrest
      refine ⟨last, ?_⟩
      rw [List.flatMap_cons, List.append_assoc]
      exact hround.bind hrest

theorem showBanner_shows {config : Config} (hbanner : config.banner.Encodable) {h : Host}
    (hq : h.Quiet) : Shows (showBanner config) h () h (bannerTrace config) := by
  unfold showBanner bannerTrace
  split
  · exact .pure h ()
  · have hw := Shows.write hq (Text.encodable_append.mpr ⟨hbanner, Text.encodable_lineFeed⟩)
      .shell .output
    rwa [Text.coded_append, Text.coded_lineFeed] at hw

/-- **A run is its turns.**  Suppose that a run starts with nothing that waits to be written, that
the banner and the prompt can be written, no read fails, no fork is answered with zero, and that the
shell can tell of each command how it ended.  Then the run ends with the input, and all that is seen
of it is the banner, a turn for each line that is read, and the prompt that no line answers.  The
report counts the turns and keeps the last outcome. -/
theorem run_turns (session : Session) {host : Host} (hrunning : session.running = true)
    (hbanner : session.config.banner.Encodable) (hprompt : session.config.prompt.Encodable)
    (ho : host.Orderly)
    (ht : ∀ turn ∈ turns session.config.lineLimit host, turn.fate.Tellable) :
    (session.run host).ending = .value ({ session with running := false },
      { commands := (turns session.config.lineLimit host).length
        last := (turns session.config.lineLimit host).getLast?.map Turn.outcome }) ∧
    (session.run host).trace.filter Trace.isObservable = bannerTrace session.config ++
      (turns session.config.lineLimit host).flatMap (Turn.trace session.config) ++
      Event.writes .shell .output session.config.prompt.coded ∧
    (session.run host).trace.observed = Trace.joined (bannerTrace session.config ++
      (turns session.config.lineLimit host).flatMap (Turn.trace session.config) ++
      Event.writes .shell .output session.config.prompt.coded) := by
  obtain ⟨left, hrounds⟩ := rounds_shows hprompt {} ho ht
  have hrun : Shows session.run host ({ session with running := false },
      Report.after {} (turns session.config.lineLimit host)) left (bannerTrace session.config ++
      ((turns session.config.lineLimit host).flatMap (Turn.trace session.config) ++
        Event.writes .shell .output session.config.prompt.coded)) := by
    rw [run_eq hrunning]
    exact (showBanner_shows hbanner ho.quiet).bind
      (hrounds.bind_silent (.silent_bind (.debug _ _ _) (.pure _ _)))
  have htrace := hrun.trace
  rw [← List.append_assoc] at htrace
  refine ⟨hrun.ending.trans ?_, htrace, congrArg Trace.joined htrace⟩
  simp [Report.after]

/-- Two turns: no child can be made for the first command, and the second, which the limit cuts from
`xy`, is a program that reads just that. -/
theorem run_turns_of_two : ∃ (session : Session) (host : Host),
    session.running = true ∧ session.config.banner.Encodable ∧ session.config.prompt.Encodable ∧
    host.Orderly ∧
    (∀ turn ∈ turns session.config.lineLimit host, turn.fate.Tellable) ∧
    (∃ command, (session.run host).ending = .value ({ session with running := false },
      ⟨2, some { command, pid := some 100, code := some 0 }⟩)) ∧
    (session.run host).trace.filter Trace.isObservable = [
      .write .shell .output [0x24],
      .forkFailure 11, .write .shell .errors (Text.coded (.ofString "fork failed: ") ++
        (SystemError.ofNumber 11).message.coded ++ [Line.terminator]),
      .write .shell .output [0x24], .log (Line.truncationRecord 3),
      .fork 100, .wait 100 0, .exec [0x63, 0x63, 0x63] [[0x63, 0x63, 0x63]],
      .write .child .output [0x78, 0x79],
      .write .shell .errors (Text.coded (.ofString "[exit " ++ .ofInt 0 ++ .ofString "]\n")),
      .write .shell .output [0x24]] := by
  let image : Image := { reads := some .all }
  let session : Session := { config := {
    prompt := .ofString "$", banner := [], lineLimit := 4, echo := false, reportStatus := true } }
  let host : Host := {
    input := .ofBytes [0x61, 0x0A, 0x63, 0x63, 0x63, 0x78, 0x79]
    programs := [⟨[0x63, 0x63, 0x63], .ok image⟩]
    forks := [.failure (.ofNumber 11)] }
  let first : Line := ⟨[0x61], false, by decide⟩
  let second : Line := ⟨[0x63, 0x63, 0x63], true, by decide⟩
  have ho : host.Orderly :=
    ⟨⟨rfl, rfl⟩, ⟨by decide, by decide⟩, Input.undisturbed_ofBytes _⟩
  have hfirst : Shows (Line.read 4) host (.line first) _ [] := ⟨rfl, rfl, rfl⟩
  have hsecond : Shows (Line.read 4)
      { host with input := .ofBytes [0x63, 0x63, 0x63, 0x78, 0x79], forks := [] } (.line second) _
      second.shown := ⟨rfl, rfl, rfl⟩
  have hend : Shows (Line.read 4) { host with input := [], forks := [], nextPid := 101 }
      .endOfStream _ [] := ⟨rfl, rfl, rfl⟩
  have hturns : turns 4 host = [⟨first, .refused (.ofNumber 11)⟩,
      ⟨second, .ran 100 image (some [0x78, 0x79])⟩] :=
    (turns_of_line hfirst).trans (congrArg _ ((turns_of_line hsecond).trans
      (congrArg _ (turns_of_endOfStream hend))))
  have htell : ∀ turn ∈ turns 4 host, turn.fate.Tellable := by
    rw [hturns]
    intro turn hturn
    rcases List.mem_pair.mp hturn with rfl | rfl
    · exact SystemError.encodable_message (Text.encodable_ofString _) rfl
    · exact ⟨0, rfl⟩
  have hbanner : session.config.banner.Encodable := Text.encodable_ofChars []
  have hprompt : session.config.prompt.Encodable := Text.encodable_ofString _
  obtain ⟨hending, htrace, -⟩ := run_turns session rfl hbanner hprompt ho htell
  refine ⟨session, host, rfl, hbanner, hprompt, ho, htell, ⟨second.text, ?_⟩, ?_⟩
  · rw [hending]
    show Ending.value (_, (⟨(turns 4 host).length, (turns 4 host).getLast?.map Turn.outcome⟩ :
      Report)) = _
    rw [hturns]
    rfl
  · rw [htrace]
    show _ ++ (turns 4 host).flatMap _ ++ _ = _
    rw [hturns]
    rfl

end Session

end LineShell
