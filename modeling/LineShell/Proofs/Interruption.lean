import LineShell.Proofs.Debugging
import LineShell.Proofs.Exhaustion
import LineShell.Proofs.Fitting

/-!
# Interrupts between commands and within them

An interrupt that the shell itself meets ends the run, wherever in a line it comes.  The commands
before it are run, and of the line that was being read nothing is.

* `Event.isLaunch`: a child is made, or is not, or asks for its program.
* `Stage.Dispatched`, `Stage.Completed`: a stage whose line was read to its end and then run, and
  one that came to an outcome by that.
* `Session.InterruptedAt`: a prompt whose read is interrupted.
* `Session.Reaches.of_met`: up to a prompt a run depends on nothing that was not met by then.
* `Invocation.run_interrupted`: what is done in a run that is interrupted, and what an interrupt
  behind a line does.
-/

namespace LineShell

open LineShell.Action

/-! ## Marks -/

namespace Input

/-- A mark within a line stops its reader. -/
theorem take_marked {bs : Bytes} (hbs : Line.terminator ∉ bs) {n : Nat} (hn : bs.length < n)
    {item : Item} {stop : Stop} (hs : item.stop? = some stop) (rest : Input) :
    take (.lineWithin n) (ofBytes bs ++ item :: rest) = ⟨bs, stop, rest⟩ := by
  induction bs generalizing n with
  | nil => exact take_mark (isMet_lineWithin hn) hs rest
  | cons b bs ih =>
    have hn' : 0 < n := Nat.lt_of_le_of_lt (Nat.zero_le _) hn
    have hb : b ≠ Line.terminator := (List.ne_of_not_mem_cons hbs).symm
    have hrest := ih (List.not_mem_of_not_mem_cons hbs) (n := n - 1) (by
      rw [List.length_cons] at hn
      omega)
    have hcons : ofBytes (b :: bs) ++ item :: rest = .byte b :: (ofBytes bs ++ item :: rest) := rfl
    rw [hcons, take_lineWithin_byte hn' hb, hrest]

theorem of_take_interrupt {n : Nat} {input : Input}
    (hs : (take (.lineWithin n) input).stop = .interrupt) :
    Line.terminator ∉ (take (.lineWithin n) input).bytes ∧
      (take (.lineWithin n) input).bytes.length < n ∧
      input = ofBytes (take (.lineWithin n) input).bytes ++
        .interrupt :: (take (.lineWithin n) input).rest := by
  rcases take_lineWithin n input with ⟨v, ht, -⟩ | ⟨-, hmem, hlength, hquota⟩
  · rw [ht] at hs
    cases hs
  have hne : (take (.lineWithin n) input).bytes.length ≠ n := by
    intro hfull
    cases hs.symm.trans (hquota.mpr hfull)
  refine ⟨hmem, Nat.lt_of_le_of_ne hlength hne, ?_⟩
  have hmet : (take (.lineWithin n) input).met =
      ofBytes (take (.lineWithin n) input).bytes ++ [.interrupt] := by rw [Taken.met, hs]; rfl
  rcases met_append_rest (.lineWithin n) input with h | ⟨h, -⟩
  · rw [hmet, List.append_assoc] at h
    exact h.symm
  · rw [hmet] at h
    cases (List.append_inj' h rfl).2

end Input

/-! ## What is run for a line -/

namespace Event

def isShellRead : Event → Bool
  | .read .shell _ _ => true
  | _ => false

/-- A child is made, or none could be made, or a child asks to become a program. -/
def isLaunch : Event → Bool
  | .fork _ | .forkFailure _ | .exec _ _ => true
  | _ => false

theorem not_isShellRead_of_isOfChild {e : Event} (he : e.isOfChild = true) :
    e.isShellRead = false := by
  cases e with
  | read a => cases a <;> first | rfl | cases he
  | _ => rfl

theorem not_isShellRead_of_isAboutChild {e : Event} (he : e.isAboutChild = true) :
    e.isShellRead = false := by
  cases e <;> first | rfl | cases he

end Event

namespace Trace

theorem filter_isLaunch_of_writes {t : Trace}
    (ht : ∀ e ∈ t, ∃ stream bytes, e = .write .shell stream bytes) :
    t.filter Event.isLaunch = [] := by
  refine List.filter_eq_nil_iff.mpr ?_
  intro e he
  obtain ⟨_, _, rfl⟩ := ht e he
  exact Bool.false_ne_true

theorem filter_isLaunch_writes (s : Stream) (bytes : Bytes) :
    (Event.writes .shell s bytes).filter Event.isLaunch = [] :=
  Event.filter_writes_of_neg Bool.false_ne_true

theorem met_append_writes (t : Trace) (s : Stream) (bytes : Bytes) :
    met (t ++ Event.writes .shell s bytes) = met t := by
  rw [met_append]
  unfold Event.writes
  split <;> exact List.append_nil _

end Trace

theorem Line.Tries.filter_isLaunch {line : Line} {h : Host} {t : Trace} (ht : Tries line h t) :
    t.filter Event.isLaunch = [.exec line.bytes [line.bytes]] := by
  obtain ⟨s, rfl, hs⟩ := ht.behind_exec
  rw [List.filter_cons_of_pos rfl, List.filter_eq_nil_iff.mpr]
  intro e he
  obtain ⟨hchild, hexec⟩ := hs e he
  cases e with
  | fork | forkFailure => cases hchild
  | exec => cases hexec
  | _ => exact Bool.false_ne_true

namespace Line

variable {line : Line} {h : Host}

theorem filter_isLaunch_refusing (line : Line) (hq : h.Quiet) (e : SystemError) :
    (line.refusing h e).filter Event.isLaunch = [.forkFailure e.number] := by
  rw [refusing, hq.pendingWrites]
  rfl

theorem filter_isLaunch_starting (line : Line) (hq : h.Quiet) (pid : Int) :
    (line.starting h pid).filter Event.isLaunch = [.fork pid] := by
  rw [starting, hq.pendingWrites]
  rfl

/-- **For a command one child is made**, and asks for the program at the bytes of the line; or none
can be made. -/
theorem launch (line : Line) (hq : h.Quiet) :
    (∃ number, (line.spawn h).trace.filter Event.isLaunch = [.forkFailure number]) ∨
      ∃ pid, (line.spawn h).trace.filter Event.isLaunch =
        [.fork pid, .exec line.bytes [line.bytes]] := by
  have hspawned := line.spawn_spawned h
  generalize line.spawn h = r at hspawned
  cases hspawned with
  | refused =>
    exact Or.inl ⟨_, by rw [List.filter_append, filter_isLaunch_refusing line hq,
      Trace.filter_isLaunch_writes, List.append_nil]⟩
  | unsaid => exact Or.inl ⟨_, filter_isLaunch_refusing line hq _⟩
  | departed _ hb =>
    have ht : Tries line h.forked _ := become_tries h.quiet_forked
    rw [hb] at ht
    refine Or.inr ⟨0, ?_⟩
    rw [hq.pendingWrites, List.nil_append, List.filter_cons_of_pos rfl]
    exact congrArg (_ :: ·) ht.filter_isLaunch
  | stopped _ _ hl =>
    exact Or.inr ⟨_, by rw [List.filter_append, filter_isLaunch_starting line hq,
      hl.tries.filter_isLaunch]; rfl⟩
  | lost _ _ hl | undecided _ _ hl | ended _ _ hl =>
    exact Or.inr ⟨_, by rw [List.filter_append, filter_isLaunch_starting line hq,
      List.filter_append, hl.tries.filter_isLaunch]; rfl⟩

/-- While a command runs the shell does not read. -/
theorem spawn_does_not_read (hq : h.Quiet) :
    ∀ e ∈ (line.spawn h).trace, e.isShellRead = false := by
  intro e he
  rcases mem_spawn hq e he with hchild | habout
  · exact Event.not_isShellRead_of_isOfChild hchild
  · exact Event.not_isShellRead_of_isAboutChild habout

end Line

/-! ## Dispatched and completed stages -/

namespace Stage

variable {limit : Int} {config : Config} {s : Stage} {line : Line} {e : Event}

/-- A stage whose line was read to its end, with a terminator, up to the limit or up to an end of
file, and then run. -/
structure Dispatched (limit : Int) (line : Line) (s : Stage) : Prop where
  command : s.line = some line
  reading : ∃ raw stop logs, line.IsTaken limit raw stop ∧
    s.reading = .read .shell raw stop :: logs ∧ ∀ e ∈ logs, ∃ r, e = .log r
  launch : (∃ number, s.spawned.filter Event.isLaunch = [.forkFailure number]) ∨
    ∃ pid, s.spawned.filter Event.isLaunch = [.fork pid, .exec line.bytes [line.bytes]]
  waiting : ∀ e ∈ s.spawned, e.isShellRead = false

/-- A stage whose line was read to its end, and run, and came to an outcome. -/
structure Completed (limit : Int) (line : Line) (s : Stage) : Prop
    extends Dispatched limit line s where
  outcome : ∃ outcome, s.ending = .value (some outcome)

theorem eq_of_mem_shown (he : e ∈ s.shown config) :
    ∃ bytes, e = .write .shell .output bytes := by
  unfold shown at he
  split at he
  · obtain ⟨line, -, he⟩ := List.mem_flatMap.mp he
    exact ⟨_, List.mem_singleton.mp he⟩
  · cases he

theorem eq_of_mem_told {ending : Ending (Option Outcome)} (he : e ∈ ending.told) :
    ∃ bytes, e = .write .shell .errors bytes := by
  unfold Ending.told at he
  split at he
  · split at he
    · exact ⟨_, List.mem_singleton.mp he⟩
    · cases he
  · cases he

theorem mem_trace (he : e ∈ s.trace config) :
    e ∈ s.reading ∨ e ∈ s.spawned ∨ ∃ stream bytes, e = .write .shell stream bytes := by
  rcases List.mem_append.mp he with he | he
  · exact Or.inr (Or.inr ⟨_, _, Event.eq_of_mem_writes he⟩)
  rcases List.mem_append.mp he with he | he
  · exact Or.inl he
  rcases List.mem_append.mp he with he | he
  · obtain ⟨bytes, rfl⟩ := eq_of_mem_shown he
    exact Or.inr (Or.inr ⟨_, _, rfl⟩)
  rcases List.mem_append.mp he with he | he
  · exact Or.inr (Or.inl he)
  · split at he
    · obtain ⟨bytes, rfl⟩ := eq_of_mem_told he
      exact Or.inr (Or.inr ⟨_, _, rfl⟩)
    · cases he

/-- **In a stage that has its line the shell is not interrupted.** -/
theorem Dispatched.not_interrupted (hs : s.Dispatched limit line) (bytes : Bytes) :
    .read .shell bytes .interrupt ∉ s.trace config := by
  intro he
  rcases mem_trace he with he | he | ⟨_, _, he⟩
  · obtain ⟨raw, stop, logs, htaken, hreading, hlogs⟩ := hs.reading
    rw [hreading] at he
    rcases List.mem_cons.mp he with he | he
    · cases he
      exact htaken
    · obtain ⟨r, he⟩ := hlogs _ he
      cases he
  · cases hs.waiting _ he
  · cases he

theorem Dispatched.filter_isLaunch (hs : s.Dispatched limit line) :
    (s.trace config).filter Event.isLaunch = s.spawned.filter Event.isLaunch := by
  have hreading : s.reading.filter Event.isLaunch = [] := by
    obtain ⟨raw, stop, logs, -, hreading, hlogs⟩ := hs.reading
    rw [hreading, List.filter_cons_of_neg Bool.false_ne_true, List.filter_eq_nil_iff]
    intro e he
    obtain ⟨r, rfl⟩ := hlogs e he
    exact Bool.false_ne_true
  have hshown : (s.shown config).filter Event.isLaunch = [] :=
    Trace.filter_isLaunch_of_writes fun e he => ⟨_, eq_of_mem_shown he⟩
  have htold : (if config.reportStatus then s.ending.told else []).filter Event.isLaunch = [] := by
    split
    · exact Trace.filter_isLaunch_of_writes fun e he => ⟨_, eq_of_mem_told he⟩
    · rfl
  rw [trace, List.filter_append, List.filter_append, List.filter_append, List.filter_append,
    Trace.filter_isLaunch_writes, hreading, hshown, htold, List.append_nil]
  rfl

theorem filter_isLaunch_of_completed {done : List Stage}
    (hdone : ∀ s ∈ done, ∃ line, s.Completed limit line) :
    (done.flatMap (Stage.trace config)).filter Event.isLaunch =
      done.flatMap fun s => s.spawned.filter Event.isLaunch := by
  rw [List.filter_flatMap]
  refine List.flatMap_congr ?_
  intro s hs
  obtain ⟨line, hcompleted⟩ := hdone s hs
  exact hcompleted.filter_isLaunch

end Stage

namespace Session

variable {limit : Int} {session : Session} {host h : Host} {n : Nat} {t : Trace}

theorem dispatched_stage (hl : 2 ≤ limit) (hq : h.Quiet) {line : Line}
    (hread : (Line.read limit h).ending = .value (.line line)) :
    (stage limit h).Dispatched limit line := by
  have hline : (Line.read limit h).ending.line? = some line := by rw [hread]; rfl
  obtain ⟨raw, stop, logs, htrace, -, htaken⟩ := Line.read_of_line hread
  obtain ⟨_, htakes, hlogs⟩ := Line.read_takes hl h
  obtain ⟨-, rfl⟩ := List.cons.inj (htrace.symm.trans htakes)
  have hquiet := Line.quiet_read hl hq
  rw [stage_of_line hline]
  exact ⟨rfl, ⟨raw, stop, logs, htaken, htrace, hlogs⟩, line.launch hquiet,
    Line.spawn_does_not_read hquiet⟩

theorem completed_stage (hl : 2 ≤ limit) (hq : h.Quiet) {outcome : Outcome}
    (ho : (stage limit h).ending = .value (some outcome)) :
    ∃ line, (stage limit h).Completed limit line := by
  cases hline : (Line.read limit h).ending.line? with
  | none =>
    rw [stage_of_no_line hline] at ho
    obtain ⟨_, -, hnone⟩ := Ending.map_eq_value ho
    cases hnone
  | some line => exact ⟨line, dispatched_stage hl hq (Ending.eq_of_line? hline), _, ho⟩

/-- **What a run did up to a prompt are completed stages**, one for each prompt before. -/
theorem Reaches.completed (hr : session.Reaches host n t h) (hs : session.config.Showable)
    (hq : host.Quiet) : h.Quiet ∧ ∃ done : List Stage, done.length = n ∧
      (∀ s ∈ done, ∃ line, s.Completed session.config.lineLimit line) ∧
      t = bannerTrace session.config ++ done.flatMap (Stage.trace session.config) := by
  induction hr with
  | start =>
    rw [showBanner_of_quiet hs.banner hq]
    exact ⟨hq, [], rfl, nofun, (List.append_nil _).symm⟩
  | next _ ho ih =>
    obtain ⟨hq, done, rfl, hdone, rfl⟩ := ih
    rw [round_apply hs.prompt hq] at ho ⊢
    have hl := session.config.two_le_lineLimit
    refine ⟨quiet_stage hl hq, done ++ [_], List.length_append,
      List.forall_mem_append.mpr ⟨hdone,
        List.forall_mem_singleton.mpr (completed_stage hl hq ho)⟩, ?_⟩
    rw [List.flatMap_append, List.flatMap_singleton, List.append_assoc]

theorem ask_of_quiet {config : Config} (hprompt : config.prompt.Encodable) (hq : h.Quiet) :
    ask config h = ⟨(Line.read config.lineLimit h).ending, (Line.read config.lineLimit h).host,
      Event.writes .shell .output config.prompt.coded ++
        (Line.read config.lineLimit h).trace⟩ := by
  have hask := ask_apply hprompt h
  rw [hq.setPending, hq.output, List.nil_append] at hask
  exact hask

/-- Behind a prompt a run goes on with a round. -/
theorem Reaches.run_of_round (hr : session.Reaches host n t h) :
    ∃ u, (session.run host).trace = t ++ ((round session.config h).trace ++ u) := by
  obtain ⟨last, hrun⟩ := hr.run
  rw [hrun, rest, rounds_eq, bind_assoc]
  exact (trace_bind (round session.config) _ h).imp fun u hu => congrArg (t ++ ·) hu

/-- **Up to a prompt a run depends on nothing that was not met by then.** -/
theorem Reaches.of_met (hr : session.Reaches host n t h) (j : Input) :
    session.Reaches { host with input := t.met ++ j } n t { h with input := j } := by
  induction hr generalizing j with
  | start hrun hb =>
    have hshow := (lockstep_rule.showBanner host session.config).of_met j
    have hr' : session.Reaches
      { host with input := (showBanner session.config host).trace.met ++ j } 0 _ _ :=
        .start hrun (by rw [hshow]; exact hb)
    rw [hshow] at hr'
    exact hr'
  | @next n t h outcome _ ho ih =>
    have hround := (lockstep_rule.round h session.config).of_met j
    have hr' := ih ((round session.config h).trace.met ++ j)
    rw [← List.append_assoc, ← Trace.met_append] at hr'
    have hnext := hr'.next (by rw [hround]; exact ho)
    rw [hround] at hnext
    exact hnext

/-! ## The interrupted read -/

/-- Behind the prompt number `n` come these bytes of a line, and then an interrupt. -/
structure InterruptedAt (session : Session) (host : Host) (n : Nat) (t : Trace) (h : Host)
    (bytes : Bytes) (rest : Input) : Prop where
  reaches : session.Reaches host n t h
  unterminated : Line.terminator ∉ bytes
  within : bytes.length < Line.room session.config.lineLimit
  input : h.input = Input.ofBytes bytes ++ .interrupt :: rest

/-- Nowhere but in the read behind a prompt the shell is interrupted. -/
theorem interrupted_of_mem_stage {limit : Int} (hl : 2 ≤ limit) (hq : h.Quiet) {config : Config}
    {bytes : Bytes} (hmem : .read .shell bytes .interrupt ∈ (stage limit h).trace config) :
    Line.terminator ∉ bytes ∧ bytes.length < Line.room limit ∧
      ∃ rest, h.input = Input.ofBytes bytes ++ .interrupt :: rest := by
  have hreading : (stage limit h).reading = (Line.read limit h).trace := by
    cases hline : (Line.read limit h).ending.line? with
    | none => rw [stage_of_no_line hline]
    | some line => rw [stage_of_line hline]
  have hspawned : ∀ e ∈ (stage limit h).spawned, e.isShellRead = false := by
    cases hline : (Line.read limit h).ending.line? with
    | none =>
      rw [stage_of_no_line hline]
      nofun
    | some line =>
      rw [stage_of_line hline]
      exact Line.spawn_does_not_read (Line.quiet_read hl hq)
  rcases Stage.mem_trace hmem with hread | hchild | ⟨_, _, hwrite⟩
  · obtain ⟨logs, htrace, hlogs⟩ := Line.read_takes hl h
    rw [hreading, htrace] at hread
    rcases List.mem_cons.mp hread with hread | hlog
    · injection hread with _ hbytes hstop
      obtain ⟨hunterminated, hwithin, hinput⟩ := Input.of_take_interrupt hstop.symm
      rw [← hbytes] at hunterminated hwithin hinput
      exact ⟨hunterminated, hwithin, _, hinput⟩
    · obtain ⟨_, hlog⟩ := hlogs _ hlog
      cases hlog
  · cases hspawned _ hchild
  · cases hwrite

/-- **A run in which a read of the shell is interrupted** has a prompt for that. -/
theorem interruptedAt_of_mem (hrunning : session.running = true) (hs : session.config.Showable)
    (hq : host.Quiet) {bytes : Bytes}
    (hmem : .read .shell bytes .interrupt ∈ (session.run host).trace) :
    ∃ n t h rest, session.InterruptedAt host n t h bytes rest := by
  have hstart : session.Reaches host 0 _ _ :=
    .start hrunning (by rw [showBanner_of_quiet hs.banner hq])
  obtain ⟨n, t, h, hstops⟩ := hstart.stops
  obtain ⟨last, hrun⟩ := hstops.run
  obtain ⟨hquiet, done, -, hdone, ht⟩ := hstops.reaches.completed hs hq
  have hround := round_apply hs.prompt hquiet
  rw [hrun] at hmem
  dsimp only at hmem
  rw [hround, ht, List.append_assoc] at hmem
  rcases List.mem_append.mp hmem with hbanner | hmem
  · unfold bannerTrace at hbanner
    split at hbanner
    · cases hbanner
    · cases Event.eq_of_mem_writes hbanner
  rcases List.mem_append.mp hmem with hstages | hmem
  · obtain ⟨s, hmem, hstages⟩ := List.mem_flatMap.mp hstages
    obtain ⟨line, hcompleted⟩ := hdone s hmem
    exact absurd hstages (hcompleted.not_interrupted bytes)
  rcases List.mem_append.mp hmem with hstage | hclosing
  · obtain ⟨hunterminated, hwithin, rest, hinput⟩ :=
      interrupted_of_mem_stage session.config.two_le_lineLimit hquiet hstage
    exact ⟨n, t, h, rest, hstops.reaches, hunterminated, hwithin, hinput⟩
  · unfold closing at hclosing
    split at hclosing
    · cases List.mem_singleton.mp hclosing
    · cases hclosing

namespace InterruptedAt

variable {bytes : Bytes} {rest : Input}

/-- **An interrupted read ends the run there.** -/
theorem run (hi : session.InterruptedAt host n t h bytes rest)
    (hprompt : session.config.prompt.Encodable) (hq : h.Quiet) : session.run host =
      ⟨.fault .interrupted, { h with input := rest }, t ++
        (Event.writes .shell .output session.config.prompt.coded ++
          [.read .shell bytes .interrupt])⟩ := by
  have hmark : Input.Item.stop? .interrupt = some .interrupt := rfl
  have htake := Input.take_marked hi.unterminated hi.within hmark rest
  rw [← hi.input] at htake
  have hf : (h.input.take (.lineWithin (Line.room session.config.lineLimit))).stop.fault? =
      some .interrupted := by
    rw [htake]
    rfl
  have hask := ask_of_quiet hprompt hq
  rw [Line.read_of_fault session.config.two_le_lineLimit hf, htake] at hask
  rw [hi.reaches.run_of_unread (by rw [hask]), hask]

theorem met (hi : session.InterruptedAt host n t h bytes rest) :
    host.input = t.met ++ (Input.ofBytes bytes ++ .interrupt :: rest) := by
  obtain ⟨k, hk, hleft⟩ := hi.reaches.draws.met
  rw [hi.input] at hk hleft
  rcases hleft with rfl | hleft
  · rw [hk, List.replicate_zero, List.append_nil]
  · cases (List.append_eq_nil_iff.mp hleft).2

/-- **With an end of file in the place of the interrupt** the run is the same up to that. -/
theorem ended (hi : session.InterruptedAt host n t h bytes rest)
    (hprompt : session.config.prompt.Encodable) (hq : h.Quiet) (rest' : Input) :
    ∃ v, (session.run { host with
        input := t.met ++ (Input.ofBytes bytes ++ .endOfFile :: rest') }).trace = t ++
      (Event.writes .shell .output session.config.prompt.coded ++
        .read .shell bytes .endOfFile :: v) := by
  have hmark : Input.Item.stop? .endOfFile = some .endOfFile := rfl
  have htake := Input.take_marked hi.unterminated hi.within hmark rest'
  have hr := hi.reaches.of_met (Input.ofBytes bytes ++ .endOfFile :: rest')
  obtain ⟨logs, htrace, -⟩ := Line.read_takes session.config.two_le_lineLimit
    { h with input := Input.ofBytes bytes ++ .endOfFile :: rest' }
  have hquiet : Host.Quiet { h with input := Input.ofBytes bytes ++ .endOfFile :: rest' } :=
    ⟨hq.output, hq.errors⟩
  obtain ⟨u, hu⟩ := hr.run_of_round
  obtain ⟨w, hw⟩ := trace_bind (ask session.config) _ _
  rw [round_eq, hw, ask_of_quiet hprompt hquiet, htrace, htake] at hu
  refine ⟨logs ++ (w ++ u), ?_⟩
  rw [hu, List.append_assoc, List.append_assoc]
  rfl

end InterruptedAt

end Session

/-! ## Interrupts behind a line -/

namespace Line

variable {limit : Int} {p : Bytes} {rest : Input} {line : Line} {h : Host}

/-- `Ends limit p rest input`: the input starts with the line `p`, which ends with its terminator,
at the limit or with an end of file, and `rest` comes behind that. -/
inductive Ends (limit : Int) (p : Bytes) (rest : Input) : Input → Prop
  | terminated : p.length + 1 < limit →
      Ends limit p rest (Input.ofBytes p ++ .byte terminator :: rest)
  | filled : p.length + 1 = limit → Ends limit p rest (Input.ofBytes p ++ rest)
  | ended : p ≠ [] → p.length + 1 < limit →
      Ends limit p rest (Input.ofBytes p ++ .endOfFile :: rest)

/-- **A line that ends is read**, and what comes behind it is left. -/
theorem Ends.read (hl : 2 ≤ limit) (hp : terminator ∉ p) (he : Ends limit p rest h.input) :
    ∃ truncated t, Line.read limit h =
      ⟨.value (.line ⟨p, truncated, hp⟩), { h with input := rest }, t⟩ := by
  generalize hi : h.input = input at he
  cases he with
  | terminated hlt => exact ⟨_, _, read_of_shorter hp hlt hi⟩
  | filled heq => exact ⟨_, _, read_of_filled hl hp heq hi⟩
  | ended hne hlt =>
    have hmark : Input.Item.stop? .endOfFile = some .endOfFile := rfl
    have hroom : p.length < room limit := by rw [room]; omega
    have htake := Input.take_marked hp hroom hmark rest
    rw [← hi] at htake
    have hf : (h.input.take (.lineWithin (room limit))).stop.fault? = none := by rw [htake]; rfl
    have hb : (h.input.take (.lineWithin (room limit))).bytes ≠ [] := by rw [htake]; exact hne
    have hcut : isCut limit p = false := by
      rw [isCut, decide_eq_false (Nat.not_le_of_lt hroom), Bool.and_false]
    have hline : ofRaw p false = ⟨p, false, hp⟩ := by
      rw [ofRaw, mk.injEq]
      exact ⟨bytes_ofRaw_of_notMem hp false, rfl⟩
    rw [read_of_bytes hl hf hb, htake]
    dsimp only
    rw [hcut, hline]
    exact ⟨_, _, rfl⟩

/-- A program that does not read leaves the input as it is. -/
theorem Lived.input_of_deaf {r : Result (Except SystemError Int)} (hl : Lived line h r)
    (hdeaf : ∀ image, Program.launch? h.programs line.bytes = .ok image → image.reads = none) :
    r.host.input = h.input := by
  cases hl with
  | failed => rfl
  | stopped hl | ran hl =>
    dsimp only
    rw [Image.rest, hdeaf _ hl]

/-- A command whose program does not read comes to an outcome and takes nothing from the input. -/
theorem spawn_of_deaf (ht : h.Tame) (hp : h.Parental)
    (hwaits : ∀ path image, Program.launch? h.programs path = .ok image →
      ∃ status, image.ending = .ok status)
    (hdeaf : ∀ image, Program.launch? h.programs line.bytes = .ok image → image.reads = none) :
    ∃ outcome left u, line.spawn h = ⟨.value outcome, left, u⟩ ∧ left.input = h.input := by
  have hspawned := line.spawn_spawned h
  generalize line.spawn h = r at hspawned
  cases hspawned with
  | refused => exact ⟨_, _, _, rfl, h.input_forked⟩
  | unsaid ha he => exact absurd (ht.encodable_of_answer ha) he
  | departed ha => exact absurd rfl (hp.answer_ne_zero ha)
  | stopped _ _ hl =>
    cases hl with
    | stopped hl hf =>
      rw [h.programs_forked] at hl
      rw [Image.fault?, hdeaf _ hl] at hf
      cases hf
  | lost _ _ hl =>
    rcases hl.of_value with hcode | ⟨image, himage, hend, -⟩
    · cases hcode
    · rw [h.programs_forked] at himage
      obtain ⟨status, hstatus⟩ := hwaits _ _ himage
      cases hend.symm.trans hstatus
  | undecided _ _ hl he =>
    rcases hl.of_value with hcode | ⟨image, himage, hend, -⟩
    · cases hcode
      cases he
    · rw [h.programs_forked] at himage
      obtain ⟨code, hcode⟩ := ht.statuses _ _ _ himage hend
      cases he.symm.trans hcode
  | ended _ _ hl =>
    rw [← h.programs_forked] at hdeaf
    exact ⟨_, _, _, rfl, (hl.input_of_deaf hdeaf).trans h.input_forked⟩

end Line

namespace Session

variable {session : Session} {host h : Host} {n : Nat} {t : Trace} {line : Line} {rest : Input}

theorem Reaches.parental (hr : session.Reaches host n t h) (hp : host.Parental) : h.Parental := by
  induction hr with
  | start => exact parental_rule.showBanner host session.config hp
  | next _ _ ih => exact parental_rule.round _ session.config ih

/-- **A command that does not read leaves the interrupt behind its line for the next prompt.** -/
theorem Reaches.interrupted_of_deaf (hr : session.Reaches host n t h)
    (hl : (ask session.config h).ending = .value (.line line))
    (hleft : (ask session.config h).host.input = .interrupt :: rest) (ht : host.Tame)
    (hp : host.Parental) (hwaits : ∀ path image, Program.launch? host.programs path = .ok image →
      ∃ status, image.ending = .ok status)
    (hdeaf : ∀ image, Program.launch? host.programs line.bytes = .ok image → image.reads = none) :
    (∃ outcome, (round session.config h).ending = .value (some outcome)) ∧
      session.InterruptedAt host (n + 1) (t ++ (round session.config h).trace)
        (round session.config h).host [] rest := by
  obtain ⟨htame, hprograms⟩ := hr.tame_echoed ht
  have hparental : (echoed session.config (ask session.config h).host).Parental := by
    have hask : (ask session.config h).host.Parental :=
      (parental_rule.bind (parental_rule.write h .shell .output session.config.prompt)
        fun _ _ => parental_rule.read _ session.config.lineLimit) (hr.parental hp)
    unfold echoed
    split
    · exact hask.setPending _ _
    · exact hask
  rw [← hprograms] at hwaits hdeaf
  obtain ⟨outcome, left, u, hspawn, hinput⟩ := line.spawn_of_deaf htame hparental hwaits hdeaf
  obtain ⟨t', h', hnext, hinput'⟩ := hr.next_of_value hl hspawn
  rw [hinput, input_echoed, hleft] at hinput'
  cases hnext with
  | next hr' ho =>
    obtain ⟨rfl, rfl⟩ := hr.unique hr'
    exact ⟨⟨_, ho⟩, hr.next ho, List.not_mem_nil, Line.room_pos session.config.two_le_lineLimit,
      hinput'⟩

end Session

/-! ## Runs -/

namespace Trace

variable {least : Level} {t : Trace}

theorem logged_append (least : Level) (t u : Trace) :
    logged least (t ++ u) = logged least t ++ logged least u := List.flatMap_append

theorem mem_of_read_mem_logged {a : Actor} {bytes : Bytes} {stop : Input.Stop}
    (hmem : .read a bytes stop ∈ t.logged least) : .read a bytes stop ∈ t := by
  obtain ⟨e, he, hmem⟩ := List.mem_flatMap.mp hmem
  cases e with
  | log r =>
    dsimp only at hmem
    split at hmem
    · cases List.mem_singleton.mp hmem
    · cases hmem
  | _ => exact List.mem_singleton.mp hmem ▸ he

theorem filter_isLaunch_logged (least : Level) (t : Trace) :
    (t.logged least).filter Event.isLaunch = t.filter Event.isLaunch := by
  induction t with
  | nil => rfl
  | cons e t ih =>
    cases e with
    | log r =>
      rw [logged_log, List.filter_append, ih]
      split <;> rfl
    | _ =>
      show List.filter _ (_ :: logged least t) = _
      rw [List.filter_cons, List.filter_cons, ih]

end Trace

namespace Invocation

variable {i : Invocation} {o : Options} {config : Config} {host : Host}

theorem filter_isLaunch_loadingLog (i : Invocation) (o : Options) :
    (i.loadingLog o).filter Event.isLaunch = [] := by
  refine List.filter_eq_nil_iff.mpr ?_
  intro e he
  obtain ⟨-, r, -, rfl⟩ := eq_of_mem_loadingLog he
  exact Bool.false_ne_true

theorem filter_isLaunch_bannerTrace (config : Config) :
    (Session.bannerTrace config).filter Event.isLaunch = [] := by
  unfold Session.bannerTrace
  split
  · rfl
  · exact Trace.filter_isLaunch_writes _ _

theorem filter_isLaunch_interrupted (i : Invocation) (o : Options) (least : Level) (u : Trace)
    (bytes : Bytes) : List.filter Event.isLaunch (i.loadingLog o ++ (u.logged least ++
      [.read .shell bytes .interrupt, .write .shell .errors [Line.terminator]])) =
        u.filter Event.isLaunch := by
  rw [List.filter_append, filter_isLaunch_loadingLog, List.nil_append, List.filter_append,
    Trace.filter_isLaunch_logged]
  exact List.append_nil _

theorem read_mem_session (ho : Options.ofArguments i.arguments = .ok o) (hf : i.canFork = true)
    (hload : Config.load (i.sources o) = .ok config) {a : Actor} {bytes : Bytes}
    {stop : Input.Stop} (hmem : .read a bytes stop ∈ (i.run host).trace) :
    .read a bytes stop ∈ (Session.run { config } host).trace := by
  rw [run_of_settings ho hf hload] at hmem
  rcases List.mem_append.mp hmem with hlog | hmem
  · obtain ⟨-, r, -, he⟩ := eq_of_mem_loadingLog hlog
    cases he
  rcases List.mem_append.mp (Trace.mem_of_read_mem_logged hmem) with hmem | hlast
  · exact hmem
  · unfold epilogue at hlast
    split at hlast
    · cases List.mem_singleton.mp hlast
    · cases List.mem_singleton.mp hlast
    · cases hlast

theorem trace_of_session (ho : Options.ofArguments i.arguments = .ok o) (hf : i.canFork = true)
    (hload : Config.load (i.sources o) = .ok config) {t u : Trace}
    (ht : (Session.run { config } host).trace = t ++ u) : ∃ v, (i.run host).trace =
      i.loadingLog o ++ (t.logged (if o.debug then .debug else .warning) ++
        (u.logged (if o.debug then .debug else .warning) ++ v)) := by
  have hrun := congrArg Result.trace (run_of_settings ho hf hload host)
  dsimp only at hrun
  rw [ht, List.append_assoc, Trace.logged_append, Trace.logged_append] at hrun
  exact ⟨_, hrun⟩

/-- **An interrupted session is cut off behind its prompt**, and a line feed is all that follows. -/
theorem run_of_interruptedAt (ho : Options.ofArguments i.arguments = .ok o) (hf : i.canFork = true)
    (hload : Config.load (i.sources o) = .ok config) (hprompt : config.prompt.Encodable)
    {n : Nat} {t : Trace} {h : Host} {bytes : Bytes} {rest : Input} (hq : h.Quiet)
    (hi : Session.InterruptedAt { config } host n t h bytes rest) : i.run host =
      ⟨.value 130, { h with input := rest }, i.loadingLog o ++
        ((t ++ Event.writes .shell .output config.prompt.coded).logged
            (if o.debug then .debug else .warning) ++
          [.read .shell bytes .interrupt, .write .shell .errors [Line.terminator]])⟩ := by
  have hquiet : Host.Quiet { h with input := rest } := ⟨hq.output, hq.errors⟩
  have hleaving : ∀ u, leaving ⟨.fault .interrupted, { h with input := rest }, u⟩ =
    { h with input := rest } := fun _ => hquiet.setPending .errors
  have hepilogue : ∀ u, epilogue ⟨.fault .interrupted, { h with input := rest }, u⟩ =
      [.write .shell .errors [Line.terminator]] := by
    intro u
    show [Event.write .shell .errors (h.pendingErrors ++ [Line.terminator])] = _
    rw [hq.errors]
    rfl
  have hrun := run_of_settings ho hf hload host
  rw [hi.run hprompt hq] at hrun
  dsimp only at hrun
  rw [hleaving, hepilogue, ← List.append_assoc t, List.append_assoc, Trace.logged_append] at hrun
  exact hrun

/-- **An interrupt never runs a half-typed line.**

If the shell itself meets an interrupt, the run ends with the exit code 130.  Completed stages come
before that, one for each line that was read to its end, and nothing is launched but for these.  The
bytes of the line in progress are read, and that is all that becomes of them: behind the prompt and
the read there is no more than a line feed on standard error.  With an end of file in the place of
the interrupt the run is the same up to there.

An interrupt that stands behind a line, which ends with its terminator, at the limit or with an end
of file, has no part in it: the line is dispatched.  If its program does not read, it is run as on
any other input, and the read behind the next prompt is interrupted before its first byte. -/
theorem run_interrupted (ho : Options.ofArguments i.arguments = .ok o) (hf : i.canFork = true)
    (hload : Config.load (i.sources o) = .ok config) (hs : config.Showable) (hq : host.Quiet) :
    (∀ bytes, .read .shell bytes .interrupt ∈ (i.run host).trace →
      ∃ (done : List Stage) (u : Trace) (rest : Input),
        (∀ s ∈ done, ∃ line, s.Completed config.lineLimit line) ∧
        u = Session.bannerTrace config ++ (done.flatMap (Stage.trace config) ++
          Event.writes .shell .output config.prompt.coded) ∧
        host.input = u.met ++ (Input.ofBytes bytes ++ .interrupt :: rest) ∧
        (i.run host).ending = .value 130 ∧ (i.run host).host.input = rest ∧
        (i.run host).trace = i.loadingLog o ++
          (u.logged (if o.debug then .debug else .warning) ++
            [.read .shell bytes .interrupt, .write .shell .errors [Line.terminator]]) ∧
        (i.run host).trace.filter Event.isLaunch =
          done.flatMap (fun s => s.spawned.filter Event.isLaunch) ∧
        ∀ rest', ∃ v, (i.run { host with
            input := u.met ++ (Input.ofBytes bytes ++ .endOfFile :: rest') }).trace =
          i.loadingLog o ++ (u.logged (if o.debug then .debug else .warning) ++
            .read .shell bytes .endOfFile :: v)) ∧
    ∀ n t h p rest (hp : Line.terminator ∉ p), Session.Reaches { config } host n t h →
      Line.Ends config.lineLimit p (.interrupt :: rest) h.input →
      ∃ (truncated : Bool) (s : Stage), s.Dispatched config.lineLimit ⟨p, truncated, hp⟩ ∧
        (Session.ask config h).host.input = .interrupt :: rest ∧
        (∃ v, (i.run host).trace = i.loadingLog o ++
          ((t ++ s.trace config).logged (if o.debug then .debug else .warning) ++ v)) ∧
        (host.Tame → host.Parental →
          (∀ path image, Program.launch? host.programs path = .ok image →
            ∃ status, image.ending = .ok status) →
          (∀ image, Program.launch? host.programs p = .ok image → image.reads = none) →
          (∃ outcome, s.ending = .value (some outcome)) ∧
            (∀ j, Session.round config { h with input := (s.trace config).met ++ j } =
              ⟨s.ending, { s.left with input := j }, s.trace config⟩) ∧
            Session.InterruptedAt { config } host (n + 1) (t ++ s.trace config) s.left [] rest ∧
            (i.run host).ending = .value 130 ∧ (i.run host).host.input = rest) := by
  constructor
  · intro bytes hmem
    obtain ⟨n, t, h, rest, hi⟩ :=
      Session.interruptedAt_of_mem rfl hs hq (read_mem_session ho hf hload hmem)
    obtain ⟨hquiet, done, -, hdone, ht⟩ := hi.reaches.completed hs hq
    have hrun := run_of_interruptedAt ho hf hload hs.prompt hquiet hi
    have hu : t ++ Event.writes .shell .output config.prompt.coded =
        Session.bannerTrace config ++ (done.flatMap (Stage.trace config) ++
          Event.writes .shell .output config.prompt.coded) := by rw [ht, List.append_assoc]
    refine ⟨done, _, rest, hdone, hu, ?_, congrArg Result.ending hrun,
      congrArg (·.host.input) hrun, congrArg Result.trace hrun, ?_, ?_⟩
    · rw [Trace.met_append_writes]
      exact hi.met
    · rw [hrun]
      dsimp only
      rw [filter_isLaunch_interrupted, hu, List.filter_append, filter_isLaunch_bannerTrace,
        List.nil_append, List.filter_append, Stage.filter_isLaunch_of_completed hdone,
        Trace.filter_isLaunch_writes, List.append_nil]
    · intro rest'
      obtain ⟨v, hv⟩ := hi.ended hs.prompt hquiet rest'
      rw [← List.append_assoc t] at hv
      rw [Trace.met_append_writes]
      obtain ⟨w, hw⟩ := trace_of_session ho hf hload hv
      exact ⟨_, hw⟩
  · intro n t h p rest hp hr hends
    have hl := config.two_le_lineLimit
    obtain ⟨hquiet, -⟩ := hr.completed hs hq
    obtain ⟨truncated, u, hread⟩ := hends.read hl hp
    have hask := Session.ask_of_quiet hs.prompt hquiet
    rw [hread] at hask
    have hround := Session.round_apply hs.prompt hquiet
    obtain ⟨w, hw⟩ := hr.run_of_round
    dsimp only at hw
    rw [hround, ← List.append_assoc] at hw
    obtain ⟨v, hv⟩ := trace_of_session ho hf hload hw
    refine ⟨truncated, Session.stage config.lineLimit h,
      Session.dispatched_stage hl hquiet (congrArg Result.ending hread),
      congrArg (·.host.input) hask, ⟨_, hv⟩, ?_⟩
    intro htame hparental hwaits hdeaf
    obtain ⟨⟨outcome, ho'⟩, hi⟩ := hr.interrupted_of_deaf (congrArg Result.ending hask)
      (congrArg (·.host.input) hask) htame hparental hwaits hdeaf
    have hreplay := (lockstep_rule.round h config).of_met
    dsimp only at ho' hi
    rw [hround] at ho' hi hreplay
    have hrun := run_of_interruptedAt ho hf hload hs.prompt (Session.quiet_stage hl hquiet) hi
    exact ⟨⟨outcome, ho'⟩, hreplay, hi, congrArg Result.ending hrun,
      congrArg (·.host.input) hrun⟩

/-- An interrupt within the second line, and one behind the first. -/
theorem run_interrupted_of_half_line : ∃ (i : Invocation) (host host' : Host),
    i.arguments = [.ofString "--no-echo"] ∧
    host.input = Input.ofBytes (Text.bytes "/a\n/b") ++ [.interrupt, .byte Line.terminator] ∧
    host'.input = Input.ofBytes (Text.bytes "/a\n") ++ [.interrupt, .byte Line.terminator] ∧
    (i.run host).ending = .value 130 ∧ (i.run host).host.input = [.byte Line.terminator] ∧
    (i.run host).trace.filter Event.isLaunch =
      [.fork 100, .exec (Text.bytes "/a") [Text.bytes "/a"]] ∧
    (i.run host').ending = .value 130 ∧ (i.run host').host.input = [.byte Line.terminator] := by
  let i : Invocation := {
    arguments := [.ofString "--no-echo"]
    environment := fun _ => none
    files := fun _ => .error .noSuchFile
    defaultFile := Config.fileIn (.ofString "/h") }
  let o : Options := { noEcho := true }
  let config : Config := { echo := false }
  let left : Input := [.interrupt, .byte Line.terminator]
  let programs : List Program := [⟨Text.bytes "/a", .ok {}⟩]
  let host : Host := { input := .ofBytes (Text.bytes "/a\n/b") ++ left, programs }
  let host' : Host := { host with input := .ofBytes (Text.bytes "/a\n") ++ left }
  have ho : Options.ofArguments i.arguments = .ok o := by with_unfolding_all exact rfl
  have hload : Config.load (i.sources o) = .ok config := by with_unfolding_all exact rfl
  have hs : config.Showable := ⟨Text.encodable_ofString _, Text.encodable_ofString _⟩
  have himage : ∀ path image, Program.launch? programs path = .ok image → image = {} := by
    intro path image hl
    obtain ⟨program, hmem, hlaunch⟩ := Program.mem_of_launch? hl
    obtain rfl := List.mem_singleton.mp hmem
    exact (Except.ok.inj hlaunch).symm
  have ht : host'.Tame := by
    constructor
    · intro e he
      simp [host', left, Input.ofBytes] at he
    · intro e he
      cases he
    · intro path image status hl hend
      obtain rfl := himage path image hl
      cases hend
      exact ⟨0, rfl⟩
  -- the second prompt finds the half of a line
  have hround : ∃ command t, Session.round config host =
    ⟨.value (some ⟨command, some 100, some 0⟩),
      { host with input := .ofBytes (Text.bytes "/b") ++ left, nextPid := 101 }, t⟩ := ⟨_, _, rfl⟩
  have hlaunched : (Session.round config host).trace.filter Event.isLaunch =
    [.fork 100, .exec (Text.bytes "/a") [Text.bytes "/a"]] := by decide +kernel
  obtain ⟨_, _, hround⟩ := hround
  rw [hround] at hlaunched
  have hr : Session.Reaches { config } host 0 (Session.bannerTrace config) host := .start rfl rfl
  have hr' : Session.Reaches { config } host' 0 _ host' := .start rfl rfl
  have hnext := hr.next (congrArg Result.ending hround)
  rw [hround] at hnext
  have hi : Session.InterruptedAt { config } host 1 _ _ (Text.bytes "/b") [.byte Line.terminator] :=
    ⟨hnext, by decide, by decide, rfl⟩
  have hrun := run_of_interruptedAt ho rfl hload hs.prompt ⟨rfl, rfl⟩ hi
  have hmem : .read .shell (Text.bytes "/b") .interrupt ∈ (i.run host).trace := by
    rw [hrun]
    exact List.mem_append_right _ (List.mem_append_right _ List.mem_cons_self)
  have hfirst := (run_interrupted ho rfl hload hs ⟨rfl, rfl⟩).1 _ hmem
  have hsecond := (run_interrupted ho rfl hload hs ⟨rfl, rfl⟩).2 0 _ host' (Text.bytes "/a")
    [.byte Line.terminator] (by decide) hr' (.terminated (by decide))
  obtain ⟨done, _, _, -, -, -, hending, -, -, -, -⟩ := hfirst
  have hlaunches : (i.run host).trace.filter Event.isLaunch =
      [.fork 100, .exec (Text.bytes "/a") [Text.bytes "/a"]] := by
    rw [hrun]
    dsimp only
    rw [filter_isLaunch_interrupted, List.filter_append, List.filter_append, hlaunched,
      filter_isLaunch_bannerTrace, Trace.filter_isLaunch_writes]
    rfl
  obtain ⟨_, s, -, -, -, hdeaf⟩ := hsecond
  obtain ⟨-, -, -, hending', hleft'⟩ := hdeaf ht ⟨by decide, by decide⟩
    (fun path image hl => ⟨0, himage path image hl ▸ rfl⟩) (fun image hl => himage _ image hl ▸ rfl)
  exact ⟨i, host, host', rfl, rfl, rfl, hending, congrArg (·.host.input) hrun, hlaunches, hending',
    hleft'⟩

end Invocation

end LineShell
