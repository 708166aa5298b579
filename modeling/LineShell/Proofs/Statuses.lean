import Mathlib.Data.List.Forall2
import LineShell.Proofs.Endings
import LineShell.Proofs.Escapes

/-!
# How children end is no concern of the shell

Two hosts are **akin** if their programs differ in nothing but the wait statuses that they leave.
Two runs on akin hosts do the same: a status reaches the outcome, its status line and a record of
the log, and nothing else.

* `WaitStatus.Akin`, `Image.Akin`, `Program.Akin`, `Host.Akin`: what differs to begin with.
* `Outcome.Akin`, `Event.Alike`: what may differ of a command, and of what a session does.
* `Action.Blind`: an action that does not look at the programs.
* `Result.Akin`, `Result.Akin.bind`, `Result.Akin.blind_bind`: what two runs leave, with rules for
  sequences.
* `Result.Akin.spawn`, `Result.Akin.round`, `Result.Akin.run`: commands, rounds and sessions.
* `Event.Told`, `Invocation.run_akin`: two whole runs.
-/

namespace LineShell

open LineShell.Action

/-! ## What differs -/

/-- Two results of a wait that the shell cannot tell apart, but for the exit code: the same failure,
or two statuses of which none is refused, or both for the same reason. -/
inductive WaitStatus.Akin : Except SystemError Int → Except SystemError Int → Prop
  | failure (e : SystemError) : Akin (.error e) (.error e)
  | status {status status' : Int} :
      (∀ e, exitCode status = .error e ↔ exitCode status' = .error e) →
      Akin (.ok status) (.ok status')

theorem WaitStatus.Akin.of_codes {status status' code code' : Int}
    (h : exitCode status = .ok code) (h' : exitCode status' = .ok code') :
    Akin (.ok status) (.ok status') := by
  refine .status fun e => ?_
  rw [h, h']
  exact ⟨nofun, nofun⟩

theorem WaitStatus.Akin.refl (r : Except SystemError Int) : Akin r r := by
  cases r with
  | error e => exact .failure e
  | ok status => exact .status fun e => Iff.rfl

theorem WaitStatus.Akin.symm {r r' : Except SystemError Int} (h : Akin r r') : Akin r' r := by
  cases h with
  | failure e => exact .failure e
  | status h => exact .status fun e => (h e).symm

/-- Two programs that read and write the same. -/
structure Image.Akin (image image' : Image) : Prop where
  reads : image'.reads = image.reads
  output : image'.output = image.output
  errors : image'.errors = image.errors
  ending : WaitStatus.Akin image.ending image'.ending

theorem Image.Akin.refl (image : Image) : image.Akin image := ⟨rfl, rfl, rfl, .refl _⟩

theorem Image.Akin.symm {image image' : Image} (h : image.Akin image') : image'.Akin image :=
  ⟨h.reads.symm, h.output.symm, h.errors.symm, h.ending.symm⟩

/-- What two launches give: the same error, or two programs that are akin. -/
inductive Program.Launched : Except LaunchError Image → Except LaunchError Image → Prop
  | failure (e : LaunchError) : Launched (.error e) (.error e)
  | image {image image' : Image} : image.Akin image' → Launched (.ok image) (.ok image')

structure Program.Akin (program program' : Program) : Prop where
  path : program'.path = program.path
  launch : Launched program.launch program'.launch

theorem Program.Akin.symm {program program' : Program} (h : program.Akin program') :
    program'.Akin program := by
  obtain ⟨path, launch⟩ := program
  obtain ⟨path', launch'⟩ := program'
  refine ⟨h.path.symm, ?_⟩
  cases h.launch with
  | failure e => exact .failure e
  | image hi => exact .image hi.symm

/-- Two hosts whose programs are akin one by one, and that are the same otherwise. -/
structure Host.Akin (h h' : Host) : Prop where
  programs : List.Forall₂ Program.Akin h.programs h'.programs
  host : h' = { h with programs := h'.programs }

theorem Host.Akin.symm {h h' : Host} (ha : h.Akin h') : h'.Akin h := by
  refine ⟨List.Forall₂.flip (ha.programs.imp fun _ _ hp => hp.symm), ?_⟩
  rw [ha.host]

inductive Departure.Akin : Departure → Departure → Prop
  | replaced {image image' : Image} : image.Akin image' → Akin (.replaced image) (.replaced image')
  | exited (code : Int) : Akin (.exited code) (.exited code)

theorem Departure.Akin.refl (d : Departure) : d.Akin d := by
  cases d with
  | replaced image => exact .replaced (.refl image)
  | exited code => exact .exited code

/-- Two endings with values that are related, or with the same fault. -/
inductive Ending.Akin (R : α → α → Prop) : Ending α → Ending α → Prop
  | value {a a' : α} : R a a' → Akin R (.value a) (.value a')
  | fault (f : Fault) : Akin R (.fault f) (.fault f)
  | departure {d d' : Departure} : d.Akin d' → Akin R (.departure d) (.departure d')

/-- Two outcomes that differ in no more than the exit code. -/
structure Outcome.Akin (o o' : Outcome) : Prop where
  command : o'.command = o.command
  pid : o'.pid = o.pid
  code : o'.code.isSome = o.code.isSome

theorem Outcome.Akin.refl (o : Outcome) : o.Akin o := ⟨rfl, rfl, rfl⟩

/-- Two things that sessions do on akin hosts: the same, or the two status lines or the two log
records of one command.  There are no status lines unless the session reports. -/
inductive Event.Alike (report : Prop) : Event → Event → Prop
  | same (e : Event) : Alike report e e
  | status {o o' : Outcome} {line line' : Text} : report → o.Akin o' →
      o.statusLine? = some line → o'.statusLine? = some line' →
      Alike report (.write .shell .errors line.coded) (.write .shell .errors line'.coded)
  | record (pid code code' : Int) :
      Alike report (.log (Line.exitRecord pid code)) (.log (Line.exitRecord pid code'))

/-- What two sessions leave on akin hosts, with values that are related. -/
structure Result.Akin (report : Prop) (R : α → α → Prop) (r r' : Result α) : Prop where
  ending : r.ending.Akin R r'.ending
  host : r.host.Akin r'.host
  trace : List.Forall₂ (Event.Alike report) r.trace r'.trace

/-! ## Looking programs up -/

theorem Program.launched_find {programs programs' : List Program}
    (h : List.Forall₂ Akin programs programs') (path : Bytes) :
    Launched
      (match programs.find? (·.path == path) with
        | some program => program.launch
        | none => .error (.refused .noSuchFile))
      (match programs'.find? (·.path == path) with
        | some program => program.launch
        | none => .error (.refused .noSuchFile)) := by
  induction h with
  | nil => exact .failure _
  | @cons program program' _ _ hp _ ih =>
    rw [List.find?_cons, List.find?_cons, hp.path]
    cases program.path == path with
    | true => exact hp.launch
    | false => exact ih

theorem Program.launched {programs programs' : List Program}
    (h : List.Forall₂ Akin programs programs') (path : Bytes) :
    Launched (launch? programs path) (launch? programs' path) := by
  unfold launch?
  split
  · exact .failure _
  · split
    · exact .failure _
    · exact launched_find (List.forall₂_reverse_iff.mpr h) path

/-! ## Actions that do not look at the programs -/

/-- The action does the same whatever programs there are, and leaves them alone. -/
def Action.Blind (x : Action α) : Prop :=
  ∀ h programs, x { h with programs } = { x h with host := { (x h).host with programs } }

namespace Action.Blind

theorem ending {x : Action α} (hx : Blind x) {h h' : Host} (ha : h.Akin h') :
    (x h').ending = (x h).ending := by
  rw [ha.host, hx]

theorem trace {x : Action α} (hx : Blind x) {h h' : Host} (ha : h.Akin h') :
    (x h').trace = (x h).trace := by
  rw [ha.host, hx]

theorem pure (a : α) : Blind (pure a : Action α) := fun _ _ => rfl

theorem bind {x : Action α} {f : α → Action β} (hx : Blind x) (hf : ∀ a, Blind (f a)) :
    Blind (x >>= f) := by
  intro h programs
  rw [bind_apply, bind_apply, hx]
  cases (x h).ending with
  | value a =>
    dsimp only
    rw [hf]
  | fault e => rfl
  | departure d => rfl

theorem emits (t : Trace) : Blind (emits t) := fun _ _ => rfl

theorem log (logger : String) (level : Level) (text : Text) : Blind (log logger level text) :=
  emits _

theorem raise (f : Fault) : Blind (raise f : Action α) := fun _ _ => rfl

theorem attempt {x : Action α} (hx : Blind x) : Blind x.attempt := by
  intro h programs
  rw [attempt_apply, attempt_apply, hx]

theorem writeBytes (a : Actor) (s : Stream) (bytes : Bytes) : Blind (writeBytes a s bytes) := by
  intro h programs
  cases s <;> rfl

theorem write (a : Actor) (s : Stream) (text : Text) : Blind (write a s text) := by
  refine .bind ?_ fun bytes => .writeBytes a s bytes
  cases text.encode with
  | ok bytes => exact .pure bytes
  | error place => exact .raise _

theorem takeInput (a : Actor) (q : Quota) : Blind (takeInput a q) := by
  intro h programs
  rw [takeInput_apply, takeInput_apply]

theorem fork : Blind fork := by
  intro h programs
  have hanswered : ({ h with programs } : Host).flushed.answered =
      { h.flushed.answered with programs } := by
    unfold Host.answered
    cases hf : h.forks with
    | nil => simp only [Host.flushed, hf]
    | cons reply forks => cases reply <;> simp only [Host.flushed, hf]
  rw [fork_apply, fork_apply, hanswered]
  rfl

theorem read (limit : Int) : Blind (Line.read limit) := by
  unfold Line.read
  split
  · exact .raise _
  · refine .bind (.takeInput _ _) ?_
    intro raw
    split
    · exact .bind (.log _ _ _) fun _ => .pure _
    · dsimp only
      split
      · exact .bind (.log _ _ _) fun _ => .pure _
      · exact .pure _

theorem ask (config : Config) : Blind (Session.ask config) :=
  .bind (.write _ _ _) fun _ => .read _

theorem showBanner (config : Config) : Blind (Session.showBanner config) := by
  unfold Session.showBanner
  split
  · exact .pure ()
  · exact .write _ _ _

theorem showCommand (config : Config) (line : Line) : Blind (Session.showCommand config line) := by
  unfold Session.showCommand
  split
  · exact .write _ _ _
  · exact .pure ()

end Action.Blind

/-! ## Two runs -/

inductive Action.Attempted (R : α → α → Prop) : Except Fault α → Except Fault α → Prop
  | ok {a a' : α} : R a a' → Attempted R (.ok a) (.ok a')
  | error (f : Fault) : Attempted R (.error f) (.error f)

namespace Result.Akin

variable {report : Prop} {h h' : Host}

theorem weaken {report' : Prop} {R : α → α → Prop} {r r' : Result α} (hr : r.Akin report R r')
    (h : report → report') : r.Akin report' R r' := by
  refine ⟨hr.ending, hr.host, hr.trace.imp fun e e' he => ?_⟩
  cases he with
  | same e => exact .same e
  | status hr ho hs hs' => exact .status (h hr) ho hs hs'
  | record pid code code' => exact .record pid code code'

theorem pure {R : α → α → Prop} {a a' : α} (ha : h.Akin h') (hR : R a a') :
    ((pure a : Action α) h).Akin report R ((Pure.pure a' : Action α) h') :=
  ⟨.value hR, ha, .nil⟩

theorem bind {R : α → α → Prop} {S : β → β → Prop} {x x' : Action α} {f f' : α → Action β}
    (hx : (x h).Akin report R (x' h'))
    (hf : ∀ a a' left', (x h).ending = .value a → R a a' → (x h).host.Akin left' →
      (f a (x h).host).Akin report S (f' a' left')) :
    ((x >>= f) h).Akin report S ((x' >>= f') h') := by
  have hending := hx.ending
  rw [bind_apply, bind_apply]
  generalize he : (x h).ending = e at hending ⊢
  generalize (x' h').ending = e' at hending ⊢
  cases hending with
  | value ha =>
    have hfa := hf _ _ _ he ha hx.host
    exact ⟨hfa.ending, hfa.host, List.rel_append hx.trace hfa.trace⟩
  | fault f => exact ⟨.fault f, hx.host, hx.trace⟩
  | departure hd => exact ⟨.departure hd, hx.host, hx.trace⟩

/-- An action that does not look at the programs does the same on both. -/
theorem of_blind {x : Action α} (hx : Blind x) (ha : h.Akin h') :
    (x h).Akin report Eq (x h') := by
  have hprograms : (x h).host.programs = h.programs :=
    congrArg (·.host.programs) (hx h h.programs)
  have hx' := hx h h'.programs
  rw [← ha.host] at hx'
  rw [hx']
  refine ⟨?_, ⟨?_, rfl⟩, ?_⟩
  · cases (x h).ending with
    | value a => exact .value rfl
    | fault f => exact .fault f
    | departure d => exact .departure (.refl d)
  · rw [hprograms]
    exact ha.programs
  · exact List.forall₂_same.mpr fun e _ => .same e

theorem blind_bind {S : β → β → Prop} {x : Action α} {f f' : α → Action β} (hx : Blind x)
    (ha : h.Akin h') (hf : ∀ a left', (x h).host.Akin left' →
      (f a (x h).host).Akin report S (f' a left')) :
    ((x >>= f) h).Akin report S ((x >>= f') h') := by
  refine .bind (of_blind hx ha) ?_
  rintro a _ left' - rfl hleft
  exact hf a left' hleft

theorem attempt {R : α → α → Prop} {x x' : Action α} (hx : (x h).Akin report R (x' h')) :
    (x.attempt h).Akin report (Attempted R) (x'.attempt h') := by
  have hending := hx.ending
  rw [attempt_apply, attempt_apply]
  refine ⟨?_, hx.host, hx.trace⟩
  generalize (x h).ending = e at hending ⊢
  generalize (x' h').ending = e' at hending ⊢
  cases hending with
  | value ha => exact .value (.ok ha)
  | fault f => exact .value (.error f)
  | departure hd => exact .departure hd

theorem departing {R : Empty → Empty → Prop} {x x' : Action Empty}
    (hx : (x h).Akin report R (x' h')) :
    (x.departing h).Akin report Departure.Akin (x'.departing h') := by
  have hending := hx.ending
  rw [departing_apply, departing_apply]
  refine ⟨?_, hx.host, hx.trace⟩
  generalize (x h).ending = e at hending ⊢
  generalize (x' h').ending = e' at hending ⊢
  cases hending with
  | @value a => exact a.elim
  | fault f => exact .fault f
  | departure hd => exact .value hd

theorem liftExcept {r r' : Except ε α} (hr : ∀ e, r = .error e ↔ r' = .error e)
    (toFault : ε → Fault) (ha : h.Akin h') : (liftExcept toFault r h).Akin report (fun _ _ => True)
      (Action.liftExcept toFault r' h') := by
  cases r with
  | error e =>
    rw [(hr e).mp rfl]
    exact ⟨.fault _, ha, .nil⟩
  | ok a =>
    cases r' with
    | error e => cases (hr e).mpr rfl
    | ok a' => exact .pure ha trivial

/-! ### Children -/

theorem exec (path : Bytes) (ha : h.Akin h') :
    (exec path h).Akin report Eq (Action.exec path h') := by
  rw [exec_apply, exec_apply]
  refine ⟨?_, ha, List.forall₂_same.mpr fun e _ => .same e⟩
  have hl := Program.launched ha.programs path
  generalize Program.launch? h.programs path = r at hl ⊢
  generalize Program.launch? h'.programs path = r' at hl ⊢
  cases hl with
  | failure e => exact .fault _
  | image himage => exact .departure (.replaced himage)

theorem become (line : Line) (ha : h.Akin h') :
    (line.become h).Akin report Eq (line.become h') := by
  have hexit : Blind (emit (.exit Line.failureCode) >>= fun _ =>
      depart (.exited Line.failureCode) : Action Empty) :=
    .bind (.emits _) fun _ _ _ => rfl
  refine .bind (.attempt (.bind (S := Eq) (.attempt (exec line.bytes ha)) ?_)) ?_
  · intro r r' left' _ hr hleft
    cases hr with
    | @ok e => exact e.elim
    | error f =>
      refine .of_blind ?_ hleft
      split
      · split
        · exact .write _ _ _
        · exact .pure ()
      · exact .pure ()
  · intro _ _ left' _ _ hleft
    exact .of_blind hexit hleft

theorem image {image image' : Image} (hi : image.Akin image') (ha : h.Akin h') :
    (image.run h).Akin report WaitStatus.Akin (image'.run h') := by
  have hout : ∀ {h h'}, h.Akin h' → ((do
      emits (Event.writes .child .output image.output)
      emits (Event.writes .child .errors image.errors)
      return image.ending : Action (Except SystemError Int)) h).Akin report WaitStatus.Akin ((do
      emits (Event.writes .child .output image'.output)
      emits (Event.writes .child .errors image'.errors)
      return image'.ending : Action (Except SystemError Int)) h') := by
    intro h h' ha
    rw [hi.output, hi.errors]
    refine .blind_bind (.emits _) ha fun _ _ ha => ?_
    refine .blind_bind (.emits _) ha fun _ _ ha => ?_
    exact .pure ha hi.ending
  unfold Image.run
  rw [hi.reads]
  cases image.reads with
  | none => exact hout ha
  | some q =>
    refine .blind_bind (.takeInput _ _) ha fun _ _ ha => ?_
    refine .blind_bind (.emits _) ha fun _ _ ha => ?_
    exact hout ha

theorem life (line : Line) (ha : h.Akin h') :
    (line.life h).Akin report WaitStatus.Akin (line.life h') := by
  refine .bind (.departing (become line ha)) ?_
  intro d d' left' _ hd hleft
  cases hd with
  | replaced hi => exact image hi hleft
  | exited code => exact .pure hleft (.refl _)

/-- What waiting for akin children gives: the same child, with a code or the same complaint. -/
theorem await {child : Child} {life life' : Action (Except SystemError Int)} (ha : h.Akin h')
    (hlife : ∀ {h h'}, h.Akin h' → (life h).Akin report WaitStatus.Akin (life' h')) :
    (child.await life h).Akin report (fun r r' => ∀ e, r.2 = .error e ↔ r'.2 = .error e)
      (child.await life' h') := by
  unfold Child.await
  split
  · exact ⟨.fault _, ha, .nil⟩
  · refine .blind_bind (.emits _) ha fun _ _ ha => ?_
    refine .bind (hlife ha) fun r r' _ _ hr ha => ?_
    refine .blind_bind (.emits _) ha fun _ _ ha => ?_
    cases hr with
    | failure e => exact ⟨.fault _, ha, .nil⟩
    | status hcodes => exact .pure ha hcodes

theorem exited (pid code code' : Int) (ha : h.Akin h') :
    (emit (.log (Line.exitRecord pid code)) h).Akin report Eq
      (emit (.log (Line.exitRecord pid code')) h') :=
  ⟨.value rfl, ha, .cons (.record pid code code') .nil⟩

/-- **How a child ends is kept in the outcome of its command, and in one record of the log.** -/
theorem spawn (line : Line) (ha : h.Akin h') :
    (line.spawn h).Akin report Outcome.Akin (line.spawn h') := by
  refine .blind_bind (.attempt .fork) ha fun r _ ha => ?_
  split
  · refine .blind_bind (.log _ _ _) ha fun _ _ ha => ?_
    refine .blind_bind (.write _ _ _) ha fun _ _ ha => ?_
    exact .pure ha (.refl _)
  · exact ⟨.fault _, ha, .nil⟩
  · refine .bind (become line ha) ?_
    intro e
    exact e.elim
  · rename_i child
    refine .blind_bind (.log _ _ _) ha fun _ _ ha => ?_
    refine .bind (await ha (life line)) fun r r' _ _ hr ha => ?_
    refine .bind (liftExcept hr _ ha) fun code code' _ _ _ ha => ?_
    refine .bind (exited child.pid code code' ha) fun _ _ _ _ _ ha => ?_
    exact .pure ha ⟨rfl, rfl, rfl⟩

end Result.Akin

/-! ## Status lines -/

theorem Outcome.Akin.statusLine? {o o' : Outcome} (ho : o.Akin o') :
    o.statusLine? = none ∧ o'.statusLine? = none ∨
      ∃ line line', o.statusLine? = some line ∧ o'.statusLine? = some line' := by
  unfold Outcome.statusLine? started
  rw [ho.pid]
  cases o.pid.isSome with
  | true => exact Or.inr ⟨_, _, rfl, rfl⟩
  | false => exact Or.inl ⟨rfl, rfl⟩

/-- Two reports that differ in no more than the exit code of the last command. -/
structure Report.Akin (r r' : Report) : Prop where
  commands : r'.commands = r.commands
  last : Option.Rel Outcome.Akin r.last r'.last

namespace Result.Akin

variable {report : Prop} {h h' : Host}

/-! ### Sessions -/

theorem showStatus (config : Config) {o o' : Outcome} (ho : o.Akin o') (hq : h.Quiet)
    (ha : h.Akin h') : (Session.showStatus config o h).Akin (config.reportStatus = true) Eq
      (Session.showStatus config o' h') := by
  have hq' : h'.Quiet := by
    rw [ha.host]
    exact ⟨hq.output, hq.errors⟩
  unfold Session.showStatus
  cases hr : config.reportStatus with
  | false => exact .pure ha rfl
  | true =>
    rw [if_pos rfl, if_pos rfl]
    rcases ho.statusLine? with ⟨hs, hs'⟩ | ⟨line, line', hs, hs'⟩
    · rw [hs, hs']
      exact .pure ha rfl
    · rw [hs, hs']
      dsimp only
      rw [write_of_encodable hq (Outcome.encodable_statusLine hs),
        write_of_encodable hq' (Outcome.encodable_statusLine hs'),
        Event.writes_of_ne_nil (Outcome.coded_statusLine_ne_nil hs),
        Event.writes_of_ne_nil (Outcome.coded_statusLine_ne_nil hs')]
      exact ⟨.value rfl, ha, .cons (.status rfl ho hs hs') .nil⟩

theorem dispatch (config : Config) (line : Line) (ha : h.Akin h') :
    (Session.dispatch config line h).Akin (config.reportStatus = true) Outcome.Akin
      (Session.dispatch config line h') := by
  refine .blind_bind (.showCommand config line) ha fun _ _ ha => ?_
  refine .bind (spawn line ha) fun o o' _ _ ho ha => ?_
  have hq := (line.spawn_spawned (Session.showCommand config line h).host).quiet
  refine .bind (showStatus config ho hq ha) fun _ _ _ _ _ ha => ?_
  exact .pure ha ho

theorem round (config : Config) (ha : h.Akin h') :
    (Session.round config h).Akin (config.reportStatus = true) (Option.Rel Outcome.Akin)
      (Session.round config h') := by
  rw [Session.round_eq]
  refine .blind_bind (.ask config) ha fun reading _ ha => ?_
  cases reading with
  | endOfStream => exact .pure ha .none
  | line line =>
    dsimp only
    rw [map_eq_pure_bind]
    refine .bind (dispatch config line ha) fun o o' _ _ ho ha => ?_
    exact .pure ha (.some ho)

/-- **Rounds on akin hosts are akin**, one after the other. -/
theorem rounds (config : Config) {r r' : Report} (hr : r.Akin r') (ha : h.Akin h') :
    (Session.rounds config r h).Akin (config.reportStatus = true) Report.Akin
      (Session.rounds config r' h') := by
  -- a round with a command shortens the input, and leaves akin hosts
  induction hk : h.input.length using Nat.strong_induction_on generalizing h h' r r' with
  | _ k ih =>
    rw [Session.rounds_eq, Session.rounds_eq]
    refine .bind (round config ha) fun o o' left' hround ho ha => ?_
    cases ho with
    | none => exact .pure ha hr
    | some ho =>
      have hnext : Report.Akin ⟨r.commands + 1, some _⟩ ⟨r'.commands + 1, some _⟩ :=
        ⟨congrArg (· + 1) hr.commands, .some ho⟩
      exact ih _ (hk ▸ Session.length_input_round hround) hnext ha rfl

/-- **Two sessions on akin hosts are akin.** -/
theorem run (session : Session) (ha : h.Akin h') :
    (session.run h).Akin (session.config.reportStatus = true)
      (fun r r' => r'.1 = r.1 ∧ r.2.Akin r'.2) (session.run h') := by
  have hr : Report.Akin {} {} := ⟨rfl, .none⟩
  cases hrunning : session.running with
  | true =>
    rw [Session.run_eq hrunning]
    refine .blind_bind (.showBanner _) ha fun _ _ ha => ?_
    refine .bind (rounds session.config hr ha) fun r r' _ _ hr ha => ?_
    rw [hr.commands]
    refine .blind_bind (.log _ _ _) ha fun _ _ ha => ?_
    exact .pure ha ⟨rfl, hr⟩
  | false =>
    rw [Session.run_eq_of_not_running hrunning]
    refine .blind_bind (.showBanner _) ha fun _ _ ha => ?_
    refine .blind_bind (.log _ _ _) ha fun _ _ ha => ?_
    exact .pure ha ⟨rfl, hr⟩

end Result.Akin

theorem Ending.Akin.of_value {R : α → α → Prop} {e e' : Ending α} (he : e.Akin R e') {a : α}
    (hv : e = .value a) : ∃ a', e' = .value a' ∧ R a a' := by
  cases he with
  | @value _ a' hR =>
    obtain rfl := Ending.value.inj hv
    exact ⟨a', rfl, hR⟩
  | fault | departure => cases hv

theorem Session.Reaches.akin {session : Session} {host host' h : Host} {n : Nat} {t : Trace}
    (hr : session.Reaches host n t h) (ha : host.Akin host') :
    ∃ t' h', session.Reaches host' n t' h' ∧ h.Akin h' := by
  induction hr with
  | start hrunning hbanner =>
    have hb : Result.Akin True Eq _ _ := .of_blind (.showBanner session.config) ha
    refine ⟨_, _, .start hrunning ?_, hb.host⟩
    rw [Blind.ending (.showBanner session.config) ha, hbanner]
  | next _ ho ih =>
    obtain ⟨t', h', hr', hh⟩ := ih
    have hround := Result.Akin.round session.config hh
    obtain ⟨o', ho', hrel⟩ := hround.ending.of_value ho
    cases hrel with
    | some => exact ⟨_, _, hr'.next ho', hround.host⟩

theorem Session.asks_akin (session : Session) {host host' : Host} (ha : host.Akin host') (n : Nat)
    (e : Ending Reading)
    (hr : ∃ t h, session.Reaches host n t h ∧ (ask session.config h).ending = e) :
    ∃ t h, session.Reaches host' n t h ∧ (ask session.config h).ending = e := by
  obtain ⟨t, h, hr, rfl⟩ := hr
  obtain ⟨t', h', hr', hh⟩ := hr.akin ha
  exact ⟨t', h', hr', Blind.ending (.ask session.config) hh⟩

/-! ## Whole runs -/

/-- Two things that whole runs do on akin hosts: the same, or the two status lines of one command,
or the two lines of the log that tell its exit code.  These are written only when asked for. -/
inductive Event.Told (debug report : Prop) : Event → Event → Prop
  | same (e : Event) : Told debug report e e
  | status {o o' : Outcome} {line line' : Text} : report → o.Akin o' →
      o.statusLine? = some line → o'.statusLine? = some line' →
      Told debug report (.write .shell .errors line.coded) (.write .shell .errors line'.coded)
  | record (pid code code' : Int) : debug →
      Told debug report (.write .shell .errors (Line.exitRecord pid code).line.spell)
        (.write .shell .errors (Line.exitRecord pid code').line.spell)

theorem Event.Told.weaken {debug debug' report : Prop} {e e' : Event}
    (he : e.Told debug report e') (h : debug → debug') : e.Told debug' report e' := by
  cases he with
  | same e => exact .same e
  | status hr ho hs hs' => exact .status hr ho hs hs'
  | record pid code code' hd => exact .record pid code code' (h hd)

/-- What the shell itself writes to standard error. -/
def Event.isTold : Event → Bool
  | .write .shell .errors _ => true
  | _ => false

namespace Trace

variable {debug report : Prop} {t t' : Trace}

theorem told_logged {least : Level} (h : List.Forall₂ (Event.Alike report) t t') :
    List.Forall₂ (Event.Told (least = .debug) report) (t.logged least) (t'.logged least) := by
  refine List.rel_flatMap h ?_
  intro e e' he
  cases he with
  | same e => exact List.forall₂_same.mpr fun e _ => .same e
  | status hr ho hs hs' => exact .cons (.status hr ho hs hs') .nil
  | record pid code code' =>
    cases least with
    | debug => exact .cons (.record pid code code' rfl) .nil
    | warning => exact .nil

theorem filter_of_told (h : List.Forall₂ (Event.Told debug report) t t') :
    t'.filter (!·.isTold) = t.filter (!·.isTold) := by
  induction h with
  | nil => rfl
  | cons he _ ih =>
    cases he with
    | same e => rw [List.filter_cons, List.filter_cons, ih]
    | status | record =>
      rw [List.filter_cons_of_neg Bool.false_ne_true, List.filter_cons_of_neg Bool.false_ne_true,
        ih]

theorem eq_of_told (h : List.Forall₂ (Event.Told debug report) t t') (hd : ¬ debug)
    (hr : ¬ report) : t' = t := by
  have heq : List.Forall₂ Eq t t' := h.imp fun e e' he => by
    cases he with
    | same e => rfl
    | status hr' => exact absurd hr' hr
    | record _ _ _ hd' => exact absurd hd' hd
  exact (List.forall₂_eq_eq_eq ▸ heq).symm

theorem written_of_told (h : List.Forall₂ (Event.Told debug report) t t') :
    written .output t' = written .output t := by
  induction h with
  | nil => rfl
  | cons he _ ih =>
    cases he with
    | same e => exact congrArg (_ ++ ·) ih
    | status | record => exact ih

end Trace

namespace Invocation

variable {h h' : Host}

theorem session_akin (config : Config) (ha : h.Akin h') :
    (session config h).Akin (config.reportStatus = true) Eq (session config h') := by
  refine .bind (.attempt (.run { config } ha)) fun r r' _ _ hr ha => ?_
  cases hr with
  | ok hr =>
    obtain ⟨-, hr⟩ := hr
    dsimp only
    rw [hr.commands]
    exact .of_blind (.bind (.log _ _ _) fun _ => .pure 0) ha
  | error f =>
    refine .of_blind ?_ ha
    cases f with
    | interrupted => exact .bind (.writeBytes _ _ _) fun _ => .pure 130
    | _ => exact .raise _

variable {i : Invocation} {o : Options} {config : Config}

def Debugs (i : Invocation) : Prop := ∃ o, Options.ofArguments i.arguments = .ok o ∧ o.debug = true

def Reports (i : Invocation) : Prop :=
  ∃ o config, Options.ofArguments i.arguments = .ok o ∧ Config.load (i.sources o) = .ok config ∧
    config.reportStatus = true

theorem serve_akin (ho : Options.ofArguments i.arguments = .ok o) (ha : h.Akin h') :
    (i.serve o h).Akin i.Reports Eq (i.serve o h') := by
  cases hf : i.canFork with
  | false =>
    have hblind : Blind (i.serve o) := by
      rw [serve, hf]
      exact .bind (.writeBytes _ _ _) fun _ => .pure 1
    exact .of_blind hblind ha
  | true =>
    rw [serve_eq hf]
    refine .blind_bind (.emits _) ha fun _ _ ha => ?_
    cases hload : Config.load (i.sources o) with
    | ok config => exact (session_akin config ha).weaken fun hr => ⟨o, config, ho, hload, hr⟩
    | error e =>
      refine .of_blind ?_ ha
      cases e with
      | bad b => exact .bind (.writeBytes _ _ _) fun _ => .pure 2
      | _ => exact .raise _

/-- Without a session nothing is done that depends on programs. -/
theorem blind_run_of_stop {stop : Options.Stop}
    (ho : Options.ofArguments i.arguments = .error stop) : Blind i.run := by
  unfold run
  rw [ho]
  cases stop with
  | help | version => exact .bind (.write _ _ _) fun _ => .pure 0
  | misuse m => exact .bind (.writeBytes _ _ _) fun _ => .pure 2

theorem run_told (i : Invocation) (ha : h.Akin h') :
    (i.run h).ending.Akin Eq (i.run h').ending ∧ (i.run h).host.Akin (i.run h').host ∧
      List.Forall₂ (Event.Told i.Debugs i.Reports) (i.run h).trace (i.run h').trace := by
  cases ho : Options.ofArguments i.arguments with
  | ok o =>
    have hserve := serve_akin ho ha
    rw [run_eq ho, run_eq ho]
    refine ⟨hserve.ending, hserve.host, ?_⟩
    refine (Trace.told_logged hserve.trace).imp fun e e' he => he.weaken ?_
    intro hleast
    cases hd : o.debug with
    | true => exact ⟨o, ho, hd⟩
    | false =>
      rw [hd] at hleast
      cases hleast
  | error stop =>
    have hblind := blind_run_of_stop ho
    have hakin : Result.Akin i.Reports Eq _ _ := .of_blind hblind ha
    refine ⟨hakin.ending, hakin.host, ?_⟩
    rw [hblind.trace ha]
    exact List.forall₂_same.mpr fun e _ => .same e

/-- A session that has come to its end has the exit code 0. -/
theorem session_of_run {r : Session × Report} (hr : (Session.run { config } h).ending = .value r) :
    (session config h).ending = .value 0 := by
  have hattempt : ((Session.run { config }).attempt h).ending = .value (.ok r) := by
    rw [attempt_apply, hr]
  rw [session, bind_of_ending hattempt]
  rfl

/-- The exit code 0 is that of a session, and the session has come to the end of its input. -/
theorem run_eq_zero_iff (ho : Options.ofArguments i.arguments = .ok o) (hf : i.canFork = true)
    (hload : Config.load (i.sources o) = .ok config) (h : Host) : (i.run h).ending = .value 0 ↔
      ∃ n t left, Session.Reaches { config } h n t left ∧
        (Session.ask config left).ending = .value .endOfStream := by
  rw [run_of_load ho hf hload]
  constructor
  · intro hz
    obtain ⟨r, hattempt, hz, -⟩ := bind_eq_value hz
    cases r with
    | ok r =>
      rw [attempt_apply] at hattempt
      cases hr : (Session.run { config } h).ending with
      | value r' =>
        obtain ⟨-, hends⟩ := Session.run_of_value hr
        obtain ⟨t, left, hreaches, hask⟩ := hends rfl
        exact ⟨_, t, left, hreaches, hask⟩
      | fault f | departure d =>
        rw [hr] at hattempt
        cases hattempt
    | error f =>
      cases f with
      | interrupted =>
        obtain ⟨_, -, hz, -⟩ := bind_eq_value hz
        cases hz
      | _ => cases hz
  · rintro ⟨n, t, left, hreaches, hask⟩
    obtain ⟨report, hr⟩ := hreaches.run_of_endOfStream hask
    exact session_of_run hr

/-- **How children end is no concern of the shell.**

Suppose that the programs of two hosts read and write the same, and that waiting for them fails in
the same way or gives statuses that can both be decided.  Then two runs end the same way and leave
the same input.  They do the same at every place but for what the shell tells on standard error:
there a status line may stand in place of another, if the session reports, and a line of the log in
place of another, if there is one; else the two runs are the same.

A session has the same command, or the same end of the input, at every prompt.  It has the exit code
0 iff it comes to the end of its input, however its commands ended. -/
theorem run_akin (i : Invocation) {host host' : Host} (ha : host.Akin host') :
    (i.run host).ending.Akin Eq (i.run host').ending ∧
    (i.run host').host.input = (i.run host).host.input ∧
    (i.run host').trace.filter (!·.isTold) = (i.run host).trace.filter (!·.isTold) ∧
    (i.run host').trace.written .output = (i.run host).trace.written .output ∧
    List.Forall₂ (Event.Told i.Debugs i.Reports) (i.run host).trace (i.run host').trace ∧
    (¬ i.Debugs → ¬ i.Reports → (i.run host').trace = (i.run host).trace) ∧
    ∀ o config, Options.ofArguments i.arguments = .ok o → i.canFork = true →
      Config.load (i.sources o) = .ok config →
      (∀ n e, (∃ t h, Session.Reaches { config } host n t h ∧ (Session.ask config h).ending = e) ↔
        ∃ t h, Session.Reaches { config } host' n t h ∧ (Session.ask config h).ending = e) ∧
      ((i.run host).ending = .value 0 ↔ ∃ n t h, Session.Reaches { config } host n t h ∧
        (Session.ask config h).ending = .value .endOfStream) := by
  obtain ⟨hending, hhost, htold⟩ := i.run_told ha
  refine ⟨hending, ?_, Trace.filter_of_told htold, Trace.written_of_told htold, htold,
    Trace.eq_of_told htold, ?_⟩
  · rw [hhost.host]
  · intro o config ho hf hload
    refine ⟨?_, run_eq_zero_iff ho hf hload host⟩
    intro n e
    exact ⟨Session.asks_akin { config } ha n e, Session.asks_akin { config } ha.symm n e⟩

/-- One program dumps its core and another one fails, in place of two that end well: the run is the
same to the last byte, and its exit code is 0. -/
theorem run_akin_of_killed : ∃ (i : Invocation) (host host' : Host), host.Akin host' ∧
    host.input = .ofBytes (Text.bytes "/a\n/b\n") ∧
    host.programs = [⟨Text.bytes "/a", .ok { ending := .ok 0x8B }⟩,
      ⟨Text.bytes "/b", .ok { ending := .ok 0x100 }⟩] ∧
    WaitStatus.exitCode 0x8B = .ok (-11) ∧ WaitStatus.exitCode 0x100 = .ok 1 ∧
    host'.programs = [⟨Text.bytes "/a", .ok {}⟩, ⟨Text.bytes "/b", .ok {}⟩] ∧
    (i.run host').trace = (i.run host).trace ∧ (i.run host).ending = .value 0 ∧
    (i.run host).ending.Akin Eq (i.run host').ending := by
  let i : Invocation := {
    arguments := [.ofString "--no-echo"]
    environment := fun _ => none
    files := fun _ => .error .noSuchFile
    defaultFile := Config.fileIn (.ofString "/h") }
  let host : Host := {
    input := .ofBytes (Text.bytes "/a\n/b\n")
    programs := [⟨Text.bytes "/a", .ok { ending := .ok 0x8B }⟩,
      ⟨Text.bytes "/b", .ok { ending := .ok 0x100 }⟩] }
  let host₁ : Host := { host with input := .ofBytes (Text.bytes "/b\n"), nextPid := 101 }
  let host₂ : Host := { host with input := [], nextPid := 102 }
  let host' : Host := { host with
    programs := [⟨Text.bytes "/a", .ok {}⟩, ⟨Text.bytes "/b", .ok {}⟩] }
  let config : Config := { echo := false }
  have ha : host.Akin host' := by
    have hkilled : WaitStatus.Akin (.ok 0x8B) (.ok 0) :=
      @WaitStatus.Akin.of_codes _ _ (-11) 0 rfl rfl
    have hfailed : WaitStatus.Akin (.ok 0x100) (.ok 0) :=
      @WaitStatus.Akin.of_codes _ _ 1 0 rfl rfl
    refine ⟨.cons ⟨rfl, .image ?_⟩ (.cons ⟨rfl, .image ?_⟩ .nil), rfl⟩
    · exact ⟨rfl, rfl, rfl, hkilled⟩
    · exact ⟨rfl, rfl, rfl, hfailed⟩
  have ho : Options.ofArguments i.arguments = .ok { noEcho := true } := by
    with_unfolding_all exact rfl
  have hload : Config.load (i.sources { noEcho := true }) = .ok config := by
    with_unfolding_all exact rfl
  have hd : ¬ i.Debugs := by
    rintro ⟨o, ho', hd⟩
    cases ho.symm.trans ho'
    cases hd
  have hr : ¬ i.Reports := by
    rintro ⟨o, config', ho', hload', hr⟩
    cases ho.symm.trans ho'
    cases hload.symm.trans hload'
    cases hr
  have hfirst : ∃ command t, Session.round config host =
    ⟨.value (some ⟨command, some 100, some (-11)⟩), host₁, t⟩ := ⟨_, _, rfl⟩
  have hsecond : ∃ command t, Session.round config host₁ =
    ⟨.value (some ⟨command, some 101, some 1⟩), host₂, t⟩ := ⟨_, _, rfl⟩
  obtain ⟨_, _, hfirst⟩ := hfirst
  obtain ⟨_, _, hsecond⟩ := hsecond
  have hr₀ : Session.Reaches { config } host 0 _ host := .start rfl rfl
  have hr₁ := hr₀.next (congrArg Result.ending hfirst)
  rw [hfirst] at hr₁
  have hr₂ := hr₁.next (congrArg Result.ending hsecond)
  rw [hsecond] at hr₂
  obtain ⟨hending, -, -, -, -, hsame, hruns⟩ := i.run_akin ha
  have hzero := (hruns _ config ho rfl hload).2.mpr ⟨2, _, host₂, hr₂, rfl⟩
  exact ⟨i, host, host', ha, rfl, rfl, rfl, rfl, rfl, hsame hd hr, hzero, hending⟩

end Invocation

end LineShell
