import LineShell.Session
import LineShell.Proofs.Encoding
import LineShell.Proofs.Reading

/-!
# Laws of actions

* `Action.bind_of_value`, `Action.bind_of_ending`, `Action.bind_of_fault`,
  `Action.bind_of_departure`: a sequence whose first part has been run.  `Action.bind_eq_fault`: a
  sequence that comes to a fault.  `Action.map_apply`: an action with another value.
* `Host.answer`, `Action.fork_apply`: what the next fork is answered, and all that a fork does.
* `Action.Rule p`: the property `p` holds of the few actions that all others are made of, and it
  passes on to sequences.  Then it holds of everything that the shell does (`Action.Rule.run`).
* `Session.rounds_eq`: the rounds of a session are one round and then the others.
* `Host.Parental`: no fork is answered with zero.
* `Host.Quiet`: no output waits to be written; `Action.write_of_encodable`: a write then.
-/

namespace LineShell

namespace Ending

def map (f : α → β) : Ending α → Ending β
  | value a => .value (f a)
  | fault e => .fault e
  | departure d => .departure d

theorem map_eq_value {f : α → β} {e : Ending α} {b : β} (he : e.map f = .value b) :
    ∃ a, e = .value a ∧ f a = b := by
  cases e with
  | value a => exact ⟨a, rfl, Ending.value.inj he⟩
  | fault | departure => cases he

end Ending

namespace Action

/-! ## Sequences -/

section

variable {x : Action α} {f : α → Action β} {h h' : Host} {t : Trace}

theorem bind_of_value {a : α} (hx : x h = ⟨.value a, h', t⟩) :
    (x >>= f) h = ⟨(f a h').ending, (f a h').host, t ++ (f a h').trace⟩ := by rw [bind_apply, hx]

theorem bind_of_ending {a : α} (hx : (x h).ending = .value a) : (x >>= f) h =
    ⟨(f a (x h).host).ending, (f a (x h).host).host, (x h).trace ++ (f a (x h).host).trace⟩ := by
  rw [bind_apply, hx]

theorem bind_of_fault {e : Fault} (hx : x h = ⟨.fault e, h', t⟩) :
    (x >>= f) h = ⟨.fault e, h', t⟩ := by rw [bind_apply, hx]

theorem bind_of_departure {d : Departure} (hx : x h = ⟨.departure d, h', t⟩) :
    (x >>= f) h = ⟨.departure d, h', t⟩ := by rw [bind_apply, hx]

theorem bind_eq_fault {e : Fault} (hb : ((x >>= f) h).ending = .fault e) :
    (x h).ending = .fault e ∨
      ∃ a, (x h).ending = .value a ∧ (f a (x h).host).ending = .fault e := by
  rw [bind_apply] at hb
  cases hx : (x h).ending with
  | value a =>
    rw [hx] at hb
    exact Or.inr ⟨a, rfl, hb⟩
  | fault e' =>
    rw [hx] at hb
    obtain rfl := Ending.fault.inj hb
    exact Or.inl rfl
  | departure d =>
    rw [hx] at hb
    cases hb

end

theorem map_apply (f : α → β) (x : Action α) (h : Host) :
    (f <$> x) h = ⟨(x h).ending.map f, (x h).host, (x h).trace⟩ := by
  rw [map_eq_pure_bind, bind_apply]
  cases (x h).ending with
  | value a => exact congrArg (Result.mk _ _) (List.append_nil _)
  | fault f => rfl
  | departure d => rfl

theorem attempt_apply (x : Action α) (h : Host) : x.attempt h =
    ⟨match (x h).ending with
      | .value a => .value (.ok a)
      | .fault f => .value (.error f)
      | .departure d => .departure d, (x h).host, (x h).trace⟩ := rfl

theorem departing_apply (x : Action Empty) (h : Host) : x.departing h =
    ⟨match (x h).ending with
      | .value a => nomatch a
      | .fault f => .fault f
      | .departure d => .value d, (x h).host, (x h).trace⟩ := rfl

theorem attempt_bind_of_value {x : Action α} {f : α → Action β} {h h' h'' : Host} {t t' : Trace}
    {a : α} {r : Except Fault β} (hx : x h = ⟨.value a, h', t⟩)
    (hf : (f a).attempt h' = ⟨.value r, h'', t'⟩) :
    (x >>= f).attempt h = ⟨.value r, h'', t ++ t'⟩ := by
  rw [attempt_apply] at hf ⊢
  rw [bind_of_value hx]
  injection hf with hending hhost htrace
  dsimp only
  rw [hending, hhost, htrace]

theorem exec_apply (path : Bytes) (h : Host) :
    exec path h = ⟨match Program.launch? h.programs path with
      | .ok image => .departure (.replaced image)
      | .error e => .fault (.launch e), h, [.exec path [path]]⟩ := by
  simp only [exec, bind_apply, emit, emits, host]
  cases Program.launch? h.programs path <;> rfl

end Action

/-! ## Forks -/

namespace Host

def answer (h : Host) : Except SystemError Int :=
  match h.forks with
  | .pid n :: _ => .ok n
  | .failure e :: _ => .error e
  | _ => .ok h.nextPid

def answered (h : Host) : Host :=
  match h.forks with
  | .pid _ :: forks | .failure _ :: forks => { h with forks }
  | .nextPid :: forks => { h with forks, nextPid := h.nextPid + 1 }
  | [] => { h with nextPid := h.nextPid + 1 }

theorem input_answered (h : Host) : h.answered.input = h.input := by
  unfold answered
  split <;> rfl

theorem programs_answered (h : Host) : h.answered.programs = h.programs := by
  unfold answered
  split <;> rfl

def flushed (h : Host) : Host := { h with pendingOutput := [], pendingErrors := [] }

def pendingWrites (h : Host) : Trace :=
  Event.writes .shell .output h.pendingOutput ++ Event.writes .shell .errors h.pendingErrors

end Host

namespace Action

theorem nextReply_apply (h : Host) : nextReply h = ⟨.value h.answer, h.answered, []⟩ := by
  unfold nextReply Host.answer Host.answered
  cases h.forks with
  | nil => rfl
  | cons reply forks => cases reply <;> rfl

theorem fork_apply (h : Host) : fork h =
    ⟨match h.answer with
      | .ok pid => .value (if pid = 0 then .child else .parent { pid })
      | .error e => .fault (.childless e), h.flushed.answered, h.pendingWrites ++
      match h.answer with
      | .ok pid => [.fork pid]
      | .error e => [.forkFailure e.number]⟩ := by
  have houtput : flush .shell .output h = ⟨.value (), { h with pendingOutput := [] },
      Event.writes .shell .output h.pendingOutput⟩ := rfl
  have herrors : flush .shell .errors { h with pendingOutput := [] } = ⟨.value (), h.flushed,
      Event.writes .shell .errors h.pendingErrors⟩ := rfl
  have hanswer : h.flushed.answer = h.answer := rfl
  rw [fork, bind_of_value houtput, bind_of_value herrors, bind_of_value (nextReply_apply _)]
  rw [hanswer, Host.pendingWrites, List.append_assoc]
  cases h.answer <;> rfl

theorem fork_of_pid {h : Host} {pid : Int} (ha : h.answer = .ok pid) (hpid : pid ≠ 0) :
    fork h = ⟨.value (.parent { pid }), h.flushed.answered, h.pendingWrites ++ [.fork pid]⟩ := by
  rw [fork_apply, ha]
  dsimp only
  rw [if_neg hpid]

theorem fork_of_refusal {h : Host} {e : SystemError} (ha : h.answer = .error e) : fork h =
    ⟨.fault (.childless e), h.flushed.answered, h.pendingWrites ++ [.forkFailure e.number]⟩ := by
  rw [fork_apply, ha]

/-! ## Rules -/

/-- `Rule p`: the property `p` of actions on hosts holds of the actions that all others are made of,
and it passes on to sequences and to what is made of one action. -/
structure Rule (p : {α : Type} → Host → Action α → Prop) : Prop where
  pure {α : Type} (h : Host) (a : α) : p h (pure a : Action α)
  bind {α β : Type} {h : Host} {x : Action α} {f : α → Action β} (hx : p h x)
    (hf : ∀ a, (x h).ending = .value a → p (x h).host (f a)) : p h (x >>= f)
  emits (h : Host) {t : Trace} (ht : ∀ e ∈ t, e.isRead = false) : p h (emits t)
  raise {α : Type} (h : Host) (e : Fault) : p h (raise e : Action α)
  depart {α : Type} (h : Host) (d : Departure) : p h (depart d : Action α)
  attempt {α : Type} {h : Host} {x : Action α} (hx : p h x) : p h x.attempt
  departing {h : Host} {x : Action Empty} (hx : p h x) : p h x.departing
  buffer (h : Host) (s : Stream) (bytes : Bytes) : p h (buffer s bytes)
  flush (h : Host) (a : Actor) (s : Stream) : p h (flush a s)
  takeInput (h : Host) (a : Actor) (q : Quota) : p h (takeInput a q)
  nextReply (h : Host) : p h nextReply
  exec (h : Host) (path : Bytes) : p h (exec path)

end Action

open LineShell.Action

theorem Event.eq_of_mem_writes {a : Actor} {s : Stream} {bytes : Bytes} {e : Event}
    (he : e ∈ writes a s bytes) : e = .write a s bytes := by
  unfold writes at he
  split at he
  · cases he
  · exact List.mem_singleton.mp he

/-- A write passes a filter; writing nothing is no event. -/
theorem Event.filter_writes_of_pos {p : Event → Bool} {a : Actor} {s : Stream} {bytes : Bytes}
    (hp : p (.write a s bytes) = true) : (writes a s bytes).filter p = writes a s bytes := by
  refine List.filter_eq_self.mpr ?_
  intro e he
  rw [eq_of_mem_writes he]
  exact hp

theorem Event.filter_writes_of_neg {p : Event → Bool} {a : Actor} {s : Stream} {bytes : Bytes}
    (hp : ¬ p (.write a s bytes) = true) : (writes a s bytes).filter p = [] := by
  refine List.filter_eq_nil_iff.mpr ?_
  intro e he
  rw [eq_of_mem_writes he]
  exact hp

theorem Host.filter_pendingWrites {p : Event → Bool}
    (hp : ∀ s bytes, ¬ p (.write .shell s bytes) = true) (h : Host) :
    h.pendingWrites.filter p = [] := by
  rw [pendingWrites, List.filter_append, Event.filter_writes_of_neg (hp _ _),
    Event.filter_writes_of_neg (hp _ _)]
  rfl

theorem Event.writes_not_isRead {a : Actor} {s : Stream} {bytes : Bytes} :
    ∀ e ∈ writes a s bytes, e.isRead = false := by
  intro e he
  rw [eq_of_mem_writes he]
  rfl

theorem Session.rounds_eq (config : Config) (report : Report) :
    rounds config report = round config >>= fun
      | none => pure report
      | some outcome =>
        rounds config { commands := report.commands + 1, last := some outcome } := by
  funext h
  rw [rounds, bind_apply]
  cases (round config h).ending with
  | value o =>
    cases o with
    | none => simp [pure_apply]
    | some outcome => simp
  | fault e => simp
  | departure d => simp

theorem Session.run_eq {session : Session} (hr : session.running = true) :
    session.run = showBanner session.config >>= fun _ => rounds session.config {} >>= fun report =>
      Action.log "labsh.shell.loop" .debug (.ofString "input ended after " ++
        .decimal report.commands ++ .ofString " commands") >>= fun _ =>
      pure ({ session with running := false }, report) := by
  rw [run, if_pos hr]

/-- A session that does not run shows no more than its banner. -/
theorem Session.run_eq_of_not_running {session : Session} (hr : session.running = false) :
    session.run = showBanner session.config >>= fun _ =>
      Action.log "labsh.shell.loop" .debug (.ofString "input ended after " ++
        .decimal 0 ++ .ofString " commands") >>= fun _ =>
      pure ({ session with running := false }, {}) := by
  rw [run, if_neg (by rw [hr]; decide)]
  rfl

namespace Action.Rule

section

variable {p : {α : Type} → Host → Action α → Prop} (hp : Rule p)

include hp

theorem emit (h : Host) {e : Event} (he : e.isRead = false) : p h (Action.emit e) :=
  hp.emits h (List.forall_mem_singleton.mpr he)

theorem log (h : Host) (logger : String) (level : Level) (text : Text) :
    p h (Action.log logger level text) := hp.emit h rfl

theorem liftExcept (h : Host) (toFault : ε → Fault) (e : Except ε α) :
    p h (Action.liftExcept toFault e) := by
  cases e with
  | ok a => exact hp.pure h a
  | error e => exact hp.raise h _

theorem write (h : Host) (a : Actor) (s : Stream) (text : Text) :
    p h (Action.write a s text) :=
  hp.bind (hp.liftExcept h _ _) fun _ _ => hp.bind (hp.buffer _ _ _) fun _ _ => hp.flush _ _ _

theorem fork (h : Host) : p h Action.fork := by
  refine hp.bind (hp.flush _ _ _) ?_
  intro _ _
  refine hp.bind (hp.flush _ _ _) ?_
  intro _ _
  refine hp.bind (hp.nextReply _) ?_
  intro reply _
  cases reply with
  | error e =>
    refine hp.bind (hp.emit _ rfl) ?_
    intro _ _
    exact hp.raise _ _
  | ok pid =>
    refine hp.bind (hp.emit _ rfl) ?_
    intro _ _
    exact hp.pure _ _

theorem await (h : Host) (child : Child) {life : Action (Except SystemError Int)}
    (hlife : ∀ h, p h life) : p h (child.await life) := by
  unfold Child.await
  split
  · exact hp.raise _ _
  · refine hp.bind (hp.emit _ rfl) ?_
    intro _ _
    refine hp.bind (hlife _) ?_
    intro _ _
    refine hp.bind (hp.emit _ rfl) ?_
    intro _ _
    refine hp.bind (hp.liftExcept _ _ _) ?_
    intro _ _
    exact hp.pure _ _

theorem image (h : Host) (image : Image) : p h image.run := by
  have hout : ∀ h, p h (do
      Action.emits (Event.writes .child .output image.output)
      Action.emits (Event.writes .child .errors image.errors)
      return image.ending : Action (Except SystemError Int)) := by
    intro h
    refine hp.bind (hp.emits _ Event.writes_not_isRead) ?_
    intro _ _
    refine hp.bind (hp.emits _ Event.writes_not_isRead) ?_
    intro _ _
    exact hp.pure _ _
  unfold Image.run
  cases image.reads with
  | none => exact hout h
  | some q =>
    refine hp.bind (hp.takeInput _ _ _) ?_
    intro _ _
    refine hp.bind (hp.emit _ rfl) ?_
    intro _ _
    exact hout _

theorem become (h : Host) (line : Line) : p h line.become := by
  refine hp.bind (hp.attempt (hp.bind (hp.attempt (hp.exec _ _)) ?_)) ?_
  · intro r _
    split
    · split
      · exact hp.write _ _ _ _
      · exact hp.pure _ _
    · exact hp.pure _ _
  · intro _ _
    refine hp.bind (hp.emit _ rfl) ?_
    intro _ _
    exact hp.depart _ _

theorem life (h : Host) (line : Line) : p h line.life := by
  refine hp.bind (hp.departing (hp.become _ _)) ?_
  intro d _
  cases d with
  | replaced image => exact hp.image _ image
  | exited code => exact hp.pure _ _

theorem spawn (h : Host) (line : Line) : p h line.spawn := by
  refine hp.bind (hp.attempt (hp.fork _)) ?_
  intro r _
  split
  · refine hp.bind (hp.log _ _ _ _) ?_
    intro _ _
    refine hp.bind (hp.write _ _ _ _) ?_
    intro _ _
    exact hp.pure _ _
  · exact hp.raise _ _
  · refine hp.bind (hp.become _ _) ?_
    intro e _
    exact e.elim
  · refine hp.bind (hp.log _ _ _ _) ?_
    intro _ _
    refine hp.bind (hp.await _ _ fun h => hp.life h line) ?_
    intro _ _
    refine hp.bind (hp.liftExcept _ _ _) ?_
    intro _ _
    refine hp.bind (hp.log _ _ _ _) ?_
    intro _ _
    exact hp.pure _ _

theorem read (h : Host) (limit : Int) : p h (Line.read limit) := by
  unfold Line.read
  split
  · exact hp.raise _ _
  · refine hp.bind (hp.takeInput _ _ _) ?_
    intro raw _
    split
    · refine hp.bind (hp.log _ _ _ _) ?_
      intro _ _
      exact hp.pure _ _
    · dsimp only
      split
      · refine hp.bind (hp.log _ _ _ _) ?_
        intro _ _
        exact hp.pure _ _
      · exact hp.pure _ _

theorem dispatch (h : Host) (config : Config) (line : Line) :
    p h (Session.dispatch config line) := by
  have hecho : p h (Session.showCommand config line) := by
    unfold Session.showCommand
    split
    · exact hp.write _ _ _ _
    · exact hp.pure _ _
  have hstatus : ∀ h outcome, p h (Session.showStatus config outcome) := by
    intro h outcome
    unfold Session.showStatus
    split
    · exact hp.write _ _ _ _
    · exact hp.pure _ _
  refine hp.bind hecho ?_
  intro _ _
  refine hp.bind (hp.spawn _ _) ?_
  intro _ _
  refine hp.bind (hstatus _ _) ?_
  intro _ _
  exact hp.pure _ _

theorem round (h : Host) (config : Config) : p h (Session.round config) := by
  refine hp.bind (hp.write _ _ _ _) ?_
  intro _ _
  refine hp.bind (hp.read _ _) ?_
  intro reading _
  cases reading with
  | endOfStream => exact hp.pure _ _
  | line line =>
    refine hp.bind (hp.dispatch _ _ _) ?_
    intro _ _
    exact hp.pure _ _

/-- Each round but the last shortens the input, so the property passes on to all of them. -/
theorem rounds (h : Host) (config : Config) (report : Report) :
    p h (Session.rounds config report) := by
  induction hk : h.input.length using Nat.strong_induction_on generalizing h report with
  | _ k ih =>
    rw [Session.rounds_eq]
    refine hp.bind (hp.round _ _) ?_
    intro o ho
    cases o with
    | none => exact hp.pure _ _
    | some outcome => exact ih _ (hk ▸ Session.length_input_round ho) _ _ rfl

theorem showBanner (h : Host) (config : Config) : p h (Session.showBanner config) := by
  unfold Session.showBanner
  split
  · exact hp.pure _ _
  · exact hp.write _ _ _ _

/-- **What holds of the parts holds of a whole session.** -/
theorem run (h : Host) (session : Session) : p h session.run := by
  cases hr : session.running with
  | true =>
    rw [Session.run_eq hr]
    refine hp.bind (hp.showBanner _ _) ?_
    intro _ _
    refine hp.bind (hp.rounds _ _ _) ?_
    intro _ _
    refine hp.bind (hp.log _ _ _ _) ?_
    intro _ _
    exact hp.pure _ _
  | false =>
    rw [Session.run_eq_of_not_running hr]
    refine hp.bind (hp.showBanner _ _) ?_
    intro _ _
    refine hp.bind (hp.log _ _ _ _) ?_
    intro _ _
    exact hp.pure _ _

end

end Action.Rule

/-! ## Parents -/

/-- No fork is answered with zero: it is always the shell that goes on, never its copy. -/
structure Host.Parental (h : Host) : Prop where
  forks : .pid 0 ∉ h.forks
  nextPid : 0 < h.nextPid

namespace Host.Parental

variable {h : Host}

theorem answer_ne_zero (hp : h.Parental) {pid : Int} (ha : h.answer = .ok pid) : pid ≠ 0 := by
  unfold answer at ha
  split at ha
  · rename_i forks heq
    rintro rfl
    cases ha
    exact hp.forks (heq ▸ List.mem_cons_self)
  · cases ha
  · cases ha
    exact (Int.ne_of_lt hp.nextPid).symm

theorem answered (hp : h.Parental) : h.answered.Parental := by
  have htail : ∀ reply forks, h.forks = reply :: forks → .pid 0 ∉ forks := by
    intro reply forks heq hmem
    exact hp.forks (heq ▸ List.mem_cons_of_mem _ hmem)
  have hnext := hp.nextPid
  unfold Host.answered
  split
  · exact ⟨htail _ _ ‹_›, hnext⟩
  · exact ⟨htail _ _ ‹_›, hnext⟩
  · exact ⟨htail _ _ ‹_›, by show 0 < h.nextPid + 1; omega⟩
  · exact ⟨hp.forks, by show 0 < h.nextPid + 1; omega⟩

theorem setPending (hp : h.Parental) (s : Stream) (bytes : Bytes) :
    (h.setPending s bytes).Parental := by
  cases s <;> exact ⟨hp.forks, hp.nextPid⟩

end Host.Parental

/-- Nothing that the shell and its children do changes the answers to come. -/
theorem Action.parental_rule : Rule fun h x => h.Parental → (x h).host.Parental where
  pure _ _ hp := hp
  bind := by
    intro α β h x f hx hf hp
    rw [bind_apply]
    cases hr : (x h).ending with
    | value a => exact hf a hr (hx hp)
    | fault e => exact hx hp
    | departure d => exact hx hp
  emits _ _ _ hp := hp
  raise _ _ hp := hp
  depart _ _ hp := hp
  attempt hx := hx
  departing hx := hx
  buffer _ s _ hp := hp.setPending s _
  flush _ _ s hp := hp.setPending s _
  takeInput h a q hp := by
    rw [takeInput_apply]
    exact ⟨hp.forks, hp.nextPid⟩
  nextReply h hp := by
    rw [nextReply_apply]
    exact hp.answered
  exec h path hp := by
    rw [exec_apply]
    exact hp

/-! ## Output -/

theorem Action.write_of_value {h : Host} {a : Actor} {s : Stream} {text : Text}
    (hw : (write a s text h).ending = .value ()) :
    ∃ bytes, write a s text h = ⟨.value (), h.setPending s [], Event.writes a s bytes⟩ := by
  obtain ⟨coded, hc, -⟩ := bind_eq_value hw
  have hl : liftExcept Fault.unencodable text.encode h = ⟨.value coded, h, []⟩ := by
    cases he : text.encode with
    | ok bytes =>
      rw [he] at hc
      cases hc
      rfl
    | error place =>
      rw [he] at hc
      cases hc
  rw [write, bind_of_value hl]
  refine ⟨h.pending s ++ coded, ?_⟩
  cases s <;> rfl

/-- No output waits to be written. -/
structure Host.Quiet (h : Host) : Prop where
  output : h.pendingOutput = []
  errors : h.pendingErrors = []

namespace Host.Quiet

variable {h : Host}

theorem flushed (hq : h.Quiet) : h.flushed = h := by
  obtain ⟨h1, h2⟩ := hq
  obtain ⟨input, programs, forks, nextPid, output, errors⟩ := h
  subst h1
  subst h2
  rfl

theorem pendingWrites (hq : h.Quiet) : h.pendingWrites = [] := by
  rw [Host.pendingWrites, hq.output, hq.errors]
  rfl

theorem answered (hq : h.Quiet) : h.answered.Quiet := by
  unfold Host.answered
  split <;> exact ⟨hq.output, hq.errors⟩

end Host.Quiet

namespace Action

theorem writeBytes_of_quiet {h : Host} (hq : h.Quiet) (a : Actor) (s : Stream) (bytes : Bytes) :
    writeBytes a s bytes h = ⟨.value (), h, Event.writes a s bytes⟩ := by
  obtain ⟨h1, h2⟩ := hq
  obtain ⟨input, programs, forks, nextPid, output, errors⟩ := h
  subst h1
  subst h2
  cases s <;> rfl

/-- A text that can be encoded is written at once. -/
theorem write_of_encodable {h : Host} (hq : h.Quiet) {text : Text} (ht : text.Encodable) (a : Actor)
    (s : Stream) : write a s text h = ⟨.value (), h, Event.writes a s text.coded⟩ := by
  have hl : liftExcept Fault.unencodable text.encode h = ⟨.value text.coded, h, []⟩ := by
    rw [Text.encode_eq_ok ht]
    rfl
  rw [write, bind_of_value hl, writeBytes_of_quiet hq]
  rfl

/-- A text that cannot be encoded is a fault, and nothing is written. -/
theorem write_of_not_encodable {h : Host} {text : Text} (ht : ¬ text.Encodable) (a : Actor)
    (s : Stream) : ∃ place, write a s text h = ⟨.fault (.unencodable place), h, []⟩ := by
  obtain ⟨place, hplace⟩ := Text.encode_eq_error ht
  have hl : (liftExcept Fault.unencodable text.encode : Action Bytes) h =
      ⟨.fault (.unencodable place), h, []⟩ := by
    rw [hplace]
    rfl
  exact ⟨place, bind_of_fault hl⟩

end Action

end LineShell
