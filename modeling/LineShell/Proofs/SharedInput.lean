import LineShell.Proofs.Action

/-!
# Sharing standard input

The shell and its children read one input.  The shell never takes more of it than the line that it
runs next, so that a child finds the input right behind its command.

* `Session.ask`, `Session.rest`: a session in smaller steps.
* `Session.Reaches`: the hosts on which a run prompts for its commands.
* `Action.draws_rule`: whatever a run does, its reads draw on the input one after the other.
* `Result.Lockstep`: one action on two inputs does the same until a read meets different input.
* `Session.run_shares_input`: a run loses, repeats and reorders nothing of its input, it takes for a
  command no more than its line, and what it does until the next read depends on nothing behind
  that.
-/

namespace LineShell

open LineShell.Action

/-! ## Runs in steps -/

namespace Session

def ask (config : Config) : Action Reading := do
  Action.write .shell .output config.prompt
  Line.read config.lineLimit

theorem round_eq (config : Config) : round config = ask config >>= fun
    | .endOfStream => pure none
    | .line line => some <$> dispatch config line := by
  rw [ask, bind_assoc]
  rfl

def rest (session : Session) (report : Report) : Action (Session × Report) :=
  rounds session.config report >>= fun report =>
    Action.log "labsh.shell.loop" .debug (.ofString "input ended after " ++
      .decimal report.commands ++ .ofString " commands") >>= fun _ =>
    pure ({ session with running := false }, report)

theorem rest_of_round {session : Session} {report : Report} {h : Host} {outcome : Outcome}
    (hr : (round session.config h).ending = .value (some outcome)) :
    session.rest report h =
      let r := session.rest ⟨report.commands + 1, some outcome⟩ (round session.config h).host
      ⟨r.ending, r.host, (round session.config h).trace ++ r.trace⟩ := by
  rw [rest, rounds_eq, bind_assoc]
  exact bind_of_ending hr

/-- `Reaches session host n t h`: a run of the session on the host comes to its prompt number `n`,
counted from zero; `t` is all that it did before, and `h` is the host that it prompts on. -/
inductive Reaches (session : Session) (host : Host) : Nat → Trace → Host → Prop
  | start : session.running = true → (showBanner session.config host).ending = .value () →
      Reaches session host 0 (showBanner session.config host).trace
        (showBanner session.config host).host
  | next {n : Nat} {t : Trace} {h : Host} {outcome : Outcome} : Reaches session host n t h →
      (round session.config h).ending = .value (some outcome) →
      Reaches session host (n + 1) (t ++ (round session.config h).trace)
        (round session.config h).host

theorem Reaches.run {session : Session} {host h : Host} {n : Nat} {t : Trace}
    (hr : session.Reaches host n t h) :
    ∃ last, session.run host = ⟨(session.rest ⟨n, last⟩ h).ending, (session.rest ⟨n, last⟩ h).host,
      t ++ (session.rest ⟨n, last⟩ h).trace⟩ := by
  induction hr with
  | start hrun hb =>
    refine ⟨none, ?_⟩
    rw [run_eq hrun]
    exact bind_of_ending hb
  | @next n t h outcome _ ho ih =>
    obtain ⟨last, ih⟩ := ih
    refine ⟨some outcome, ?_⟩
    rw [ih, rest_of_round ho, List.append_assoc]

theorem Reaches.run_of_line {session : Session} {host h : Host} {n : Nat} {t : Trace} {line : Line}
    (hr : session.Reaches host n t h) (hl : (ask session.config h).ending = .value (.line line)) :
    ∃ u, (session.run host).trace = t ++ (ask session.config h).trace ++ u := by
  obtain ⟨last, hrun⟩ := hr.run
  rw [hrun, rest, rounds_eq, round_eq]
  simp only [bind_assoc]
  rw [bind_of_ending hl]
  exact ⟨_, (List.append_assoc _ _ _).symm⟩

end Session

/-! ## Every read draws on what is left -/

/-- What the reads of an action take is gone from the input, and nothing else is. -/
def Action.Drawing (h : Host) (x : Action α) : Prop :=
  Trace.Draws h.input (x h).trace (x h).host.input

theorem Action.Drawing.of_still {h : Host} {x : Action α} (ht : ∀ e ∈ (x h).trace, e.isRead = false)
    (hi : (x h).host.input = h.input) : Drawing h x := by
  rw [Drawing, hi]
  exact .of_not_isRead ht _

theorem Host.input_setPending (h : Host) (s : Stream) (bytes : Bytes) :
    (h.setPending s bytes).input = h.input := by cases s <;> rfl

/-- **Whatever the shell and its children do, their reads draw on one input, one after the
other.** -/
theorem Action.draws_rule : Rule Drawing where
  pure h a := .of_still (by simp [pure_apply]) rfl
  bind := by
    intro α β h x f hx hf
    unfold Drawing at hx ⊢
    rw [bind_apply]
    cases hr : (x h).ending with
    | value a => exact hx.append (hf a hr)
    | fault e => exact hx
    | departure d => exact hx
  emits h _ ht := .of_still ht rfl
  raise h e := .of_still (by simp [raise]) rfl
  depart h d := .of_still (by simp [depart]) rfl
  attempt hx := hx
  departing hx := hx
  buffer h s bytes := .of_still (by simp [buffer]) (h.input_setPending s _)
  flush h a s := .of_still Event.writes_not_isRead (h.input_setPending s _)
  takeInput h a q := by
    rw [Drawing, takeInput_apply]
    exact .read a q (.nil _)
  nextReply h := .of_still (by simp [nextReply_apply]) (by rw [nextReply_apply, h.input_answered])
  exec h path := by
    refine .of_still ?_ ?_
    · rw [exec_apply]
      exact List.forall_mem_singleton.mpr rfl
    · rw [exec_apply]

/-! ## Two runs -/

/-- Two traces, on the inputs `i` and `i'`, are the same up to a read that meets different input. -/
def Trace.Apart (i i' : Input) (t t' : Trace) : Prop :=
  ∃ (s u u' : Trace) (j j' : Input) (a : Actor) (q : Quota),
    Draws i s j ∧ Draws i' s j' ∧
    t = s ++ .read a (j.take q).bytes (j.take q).stop :: u ∧
    t' = s ++ .read a (j'.take q).bytes (j'.take q).stop :: u' ∧
    ((j'.take q).bytes, (j'.take q).stop) ≠ ((j.take q).bytes, (j.take q).stop)

/-- Where all is met that a read met elsewhere, the read comes to the same. -/
theorem Trace.Draws.take_eq_of_met {i j j' : Input} {s w : Trace} {a : Actor} {q : Quota}
    (hs : Draws i s j')
    (hm : Trace.met (s ++ .read a (j.take q).bytes (j.take q).stop :: w) <+: i.ended) :
    ((j'.take q).bytes, (j'.take q).stop) = ((j.take q).bytes, (j.take q).stop) := by
  rw [met_append] at hm
  have hmet : (j.take q).met ++ Trace.met w <+: j'.ended := hs.prefix_of_met_append hm
  obtain ⟨hb, hst⟩ := Input.take_eq_of_met ((List.prefix_append _ _).trans hmet)
  rw [hb, hst]

namespace Trace.Apart

variable {i i' : Input} {t t' : Trace}

theorem append_right (h : Apart i i' t t') (v v' : Trace) : Apart i i' (t ++ v) (t' ++ v') := by
  obtain ⟨s, u, u', j, j', a, q, hs, hs', rfl, rfl, hne⟩ := h
  exact ⟨s, u ++ v, u' ++ v', j, j', a, q, hs, hs', by simp, by simp, hne⟩

theorem append_left {s : Trace} {j j' : Input} (hs : Draws i s j) (hs' : Draws i' s j')
    (h : Apart j j' t t') : Apart i i' (s ++ t) (s ++ t') := by
  obtain ⟨s₁, u, u', k, k', a, q, h₁, h₁', rfl, rfl, hne⟩ := h
  exact ⟨s ++ s₁, u, u', k, k', a, q, hs.append h₁, hs'.append h₁', by simp, by simp, hne⟩

/-- **Traces do not differ before their inputs do**: the input on which a trace goes another way
does not start with what the trace met. -/
theorem of_met {p : Trace} (h : Apart i i' t t') (hp : p <+: t) (hm : p.met <+: i'.ended) :
    ∃ u u', t = p ++ u ∧ t' = p ++ u' ∧
      u'.takeWhile (!·.isRead) = u.takeWhile (!·.isRead) := by
  obtain ⟨s, u, u', j, j', a, q, hs, hs', rfl, rfl, hne⟩ := h
  rcases List.prefix_or_prefix_of_prefix hp (List.prefix_append s _) with hps | hsp
  · obtain ⟨w, rfl⟩ := hps
    refine ⟨_, _, List.append_assoc _ _ _, List.append_assoc _ _ _, ?_⟩
    simp [List.takeWhile_append, Event.isRead]
  · obtain ⟨w, rfl⟩ := hsp
    cases w with
    | nil =>
      rw [List.append_nil]
      exact ⟨_, _, rfl, rfl, rfl⟩
    | cons e w =>
      -- the read on which the traces part belongs to `p`, so both inputs hold all that it met
      obtain ⟨rfl, -⟩ := List.cons_prefix_cons.mp ((List.prefix_append_right_inj s).mp hp)
      exact absurd (hs'.take_eq_of_met hm) hne

/-- Traces that part do so within what the first of them met. -/
theorem not_met (h : Apart i i' t t') : ¬ t.met <+: i'.ended := by
  obtain ⟨s, u, u', j, j', a, q, -, hs', rfl, -, hne⟩ := h
  exact fun hm => hne (hs'.take_eq_of_met hm)

end Trace.Apart

/-- What one action leaves on the inputs `i` and `i'`: it did the same on both, and the hosts differ
in nothing but what is left of the input, or it met different input on the way. -/
inductive Result.Lockstep (i i' : Input) (r r' : Result α) : Prop
  | same (ending : r'.ending = r.ending) (trace : r'.trace = r.trace)
      (host : r'.host = { r.host with input := r'.host.input })
      (draws : Trace.Draws i r.trace r.host.input)
      (draws' : Trace.Draws i' r'.trace r'.host.input) :
      Lockstep i i' r r'
  | apart (trace : Trace.Apart i i' r.trace r'.trace)

theorem Result.Lockstep.of_ending {i i' : Input} {r r' : Result α} {q q' : Result β}
    (h : r.Lockstep i i' r') (ht : q.trace = r.trace) (hh : q.host = r.host)
    (ht' : q'.trace = r'.trace) (hh' : q'.host = r'.host)
    (he : r'.ending = r.ending → q'.ending = q.ending) : q.Lockstep i i' q' := by
  cases h with
  | same her htr hhr hd hd' =>
    rw [← ht, ← hh] at hd
    rw [← ht', ← hh'] at hd'
    exact .same (he her) (by rw [ht', htr, ht]) (by rw [hh', hh, ← hhr]) hd hd'
  | apart htr =>
    rw [← ht, ← ht'] at htr
    exact .apart htr

namespace Action

/-- The action does the same on a host with other input, until a read meets the difference. -/
def Lockstep (h : Host) (x : Action α) : Prop :=
  ∀ i', (x h).Lockstep h.input i' (x { h with input := i' })

/-- What an action does before the next one, it does in any case. -/
theorem trace_bind (x : Action α) (f : α → Action β) (h : Host) :
    ∃ v, ((x >>= f) h).trace = (x h).trace ++ v := by
  rw [bind_apply]
  cases (x h).ending with
  | value a => exact ⟨_, rfl⟩
  | fault e => exact ⟨[], (List.append_nil _).symm⟩
  | departure d => exact ⟨[], (List.append_nil _).symm⟩

theorem Lockstep.of_still {h : Host} {x : Action α} (ht : ∀ e ∈ (x h).trace, e.isRead = false)
    (hx : ∀ i, x { h with input := i } = { x h with host := { (x h).host with input := i } }) :
    Lockstep h x := by
  intro i'
  have hi : (x h).host.input = h.input := congrArg (·.host.input) (hx h.input)
  refine .same ?_ ?_ ?_ ?_ ?_
  · rw [hx]
  · rw [hx]
  · rw [hx]
  · rw [hi]
    exact .of_not_isRead ht _
  · rw [hx]
    exact .of_not_isRead ht _

/-- **All that the shell and its children do is in lockstep on two inputs.** -/
theorem lockstep_rule : Rule Lockstep where
  pure h a := .of_still (by simp [pure_apply]) fun _ => rfl
  bind := by
    intro α β h x f hx hf i'
    cases hx i' with
    | apart ht =>
      obtain ⟨v, hv⟩ := trace_bind x f h
      obtain ⟨v', hv'⟩ := trace_bind x f { h with input := i' }
      exact .apart (hv ▸ hv' ▸ ht.append_right v v')
    | same he ht hh hd hd' =>
      rw [bind_apply, bind_apply, he]
      cases hr : (x h).ending with
      | value a =>
        -- both parts saw the same so far, and the second starts on what each input has left
        dsimp only
        have hfa := hf a hr (x { h with input := i' }).host.input
        rw [← hh] at hfa
        cases hfa with
        | same he₂ ht₂ hh₂ hd₂ hd₂' =>
          exact .same he₂ (by rw [ht, ht₂]) hh₂ (hd.append hd₂) (hd'.append hd₂')
        | apart ht₂ =>
          rw [ht] at hd' ⊢
          exact .apart (ht₂.append_left hd hd')
      | fault e => exact .same rfl ht hh hd hd'
      | departure d => exact .same rfl ht hh hd hd'
  emits h _ ht := .of_still ht fun _ => rfl
  raise h e := .of_still (by simp [raise]) fun _ => rfl
  depart h d := .of_still (by simp [depart]) fun _ => rfl
  attempt hx i' := (hx i').of_ending rfl rfl rfl rfl fun he => by
    rw [attempt_apply, attempt_apply, he]
  departing hx i' := (hx i').of_ending rfl rfl rfl rfl fun he => by
    rw [departing_apply, departing_apply, he]
  buffer h s bytes := .of_still (by simp [buffer]) fun _ => by cases s <;> rfl
  flush h a s := .of_still Event.writes_not_isRead fun _ => by cases s <;> rfl
  takeInput h a q := by
    intro i'
    rw [takeInput_apply, takeInput_apply]
    dsimp only
    by_cases hq : ((i'.take q).bytes, (i'.take q).stop) =
        ((h.input.take q).bytes, (h.input.take q).stop)
    · obtain ⟨hb, hst⟩ := Prod.mk.inj hq
      refine .same ?_ ?_ rfl (.read a q (.nil _)) (.read a q (.nil _))
      · rw [hb, hst]
      · rw [hb, hst]
    · exact .apart ⟨[], [], [], _, _, a, q, .nil _, .nil _, rfl, rfl, hq⟩
  nextReply h := .of_still (by simp [nextReply_apply]) fun _ => by
    unfold nextReply
    cases h.forks with
    | nil => rfl
    | cons reply replies => cases reply <;> rfl
  exec h path := by
    refine .of_still ?_ fun _ => ?_
    · rw [exec_apply]
      exact List.forall_mem_singleton.mpr rfl
    · rw [exec_apply, exec_apply]

/-- **On any input that starts with what it meets, an action does the same**, and leaves the rest of
that input. -/
theorem Lockstep.of_met {h : Host} {x : Action α} (hx : Lockstep h x) (j : Input) :
    x { h with input := (x h).trace.met ++ j } =
      { x h with host := { (x h).host with input := j } } := by
  generalize hr : x { h with input := (x h).trace.met ++ j } = r'
  have hlock := hx ((x h).trace.met ++ j)
  rw [hr] at hlock
  cases hlock with
  | same hending htrace hhost _ hdraws =>
    obtain ⟨ending, left, t⟩ := r'
    obtain ⟨k, hk, hleft⟩ := hdraws.met
    dsimp only at hending htrace hhost hk hleft ⊢
    rw [htrace, List.append_assoc, List.append_cancel_left_eq] at hk
    have hinput : left.input = j := by
      rcases hleft with rfl | hleft
      · rw [hk, List.replicate_zero, List.append_nil]
      · rw [hleft] at hk ⊢
        exact (List.append_eq_nil_iff.mp hk.symm).1.symm
    rw [hinput] at hhost
    rw [hending, htrace, hhost]
  | apart htrace =>
    exact absurd ((List.prefix_append _ j).trans (List.prefix_append _ _)) htrace.not_met

end Action

/-! ## What a run takes -/

namespace Session

variable {session : Session} {host h : Host} {t : Trace} {line : Line}

/-- For one command the shell reads once. -/
theorem ask_of_line {config : Config} (hl : (ask config h).ending = .value (.line line)) :
    ∃ raw stop, line.IsTaken config.lineLimit raw stop ∧
      (ask config h).trace.filter Event.isRead = [.read .shell raw stop] ∧
      (ask config h).trace.taken = raw := by
  obtain ⟨_, hw, hread, -⟩ := bind_eq_value hl
  obtain ⟨bytes, hw⟩ := write_of_value hw
  rw [hw] at hread
  obtain ⟨raw, stop, logs, htrace, hlogs, htaken⟩ := Line.read_of_line hread
  have hask : (ask config h).trace = Event.writes .shell .output bytes ++
      (Line.read config.lineLimit (h.setPending .output [])).trace := by
    rw [ask, bind_of_value hw]
  have hwrites : (Event.writes .shell .output bytes).filter Event.isRead = [] :=
    List.filter_eq_nil_iff.mpr fun e he => by simp [Event.writes_not_isRead e he]
  have hrest : logs.filter Event.isRead = [] :=
    List.filter_eq_nil_iff.mpr fun e he => by simp [hlogs e he]
  have hreads : (ask config h).trace.filter Event.isRead = [.read .shell raw stop] := by
    rw [hask, htrace, List.filter_append, hwrites, List.nil_append, List.filter_cons_of_pos rfl,
      hrest]
  refine ⟨raw, stop, htaken, hreads, ?_⟩
  rw [← Trace.taken_filter_isRead, hreads]
  exact List.append_nil raw

theorem Reaches.draws {n : Nat} (hr : session.Reaches host n t h) :
    t.Draws host.input h.input := by
  induction hr with
  | start hrun hb => exact draws_rule.showBanner host session.config
  | next _ _ ih => exact ih.append (draws_rule.round _ session.config)

/-- **Standard input is shared, and the shell never reads ahead.**

At every point of a run, what the readers met and what is left make up the input, and ends of file
come again only when nothing is left; so what they took is the front of the input, in order.

For each command the shell reads once, and takes no more than the line: its terminator, if there was
one, and nothing at all behind it.  So the next read, which is the first that a child can make,
starts right there.

On another input that starts with what was met up to then, the run does the same up to that next
read. -/
theorem run_shares_input (session : Session) (host : Host) :
    (∀ p : Trace, p <+: (session.run host).trace → ∃ (left : Input) (k : Nat),
      p.met ++ left = host.input ++ List.replicate k .endOfFile ∧ (k = 0 ∨ left = []) ∧
      p.taken ++ left.bytes = host.input.bytes) ∧
    (session.run host).trace.taken ++ (session.run host).host.input.bytes = host.input.bytes ∧
    ∀ n t h line, session.Reaches host n t h →
      (ask session.config h).ending = .value (.line line) →
      ∃ raw stop u, line.IsTaken session.config.lineLimit raw stop ∧
        (ask session.config h).trace.filter Event.isRead = [.read .shell raw stop] ∧
        (session.run host).trace = t ++ (ask session.config h).trace ++ u ∧
        t.taken ++ raw ++ (ask session.config h).host.input.bytes = host.input.bytes ∧
        (∀ a bytes stop', u.find? Event.isRead = some (.read a bytes stop') →
          bytes <+: (ask session.config h).host.input.bytes) ∧
        ∀ input', (t ++ (ask session.config h).trace).met <+: input'.ended →
          ∃ u', (session.run { host with input := input' }).trace =
              t ++ (ask session.config h).trace ++ u' ∧
            u'.takeWhile (!·.isRead) = u.takeWhile (!·.isRead) := by
  have hdraws : (session.run host).trace.Draws host.input (session.run host).host.input :=
    draws_rule.run host session
  refine ⟨fun p hp => ?_, hdraws.taken, fun n t h line hr hl => ?_⟩
  · obtain ⟨u, hu⟩ := hp
    rw [← hu] at hdraws
    obtain ⟨left, hleft, -⟩ := hdraws.split
    obtain ⟨k, hk, hk'⟩ := hleft.met
    exact ⟨left, k, hk, hk', hleft.taken⟩
  · obtain ⟨raw, stop, htaken, hreads, hraw⟩ := ask_of_line hl
    obtain ⟨u, hu⟩ := hr.run_of_line hl
    have hask : (t ++ (ask session.config h).trace).Draws host.input
        (ask session.config h).host.input :=
      hr.draws.append (draws_rule.bind (draws_rule.write h _ _ _) fun _ _ => draws_rule.read _ _)
    have hrest := hask.taken
    rw [Trace.taken_append, hraw] at hrest
    refine ⟨raw, stop, u, htaken, hreads, hu, hrest, fun a bytes stop' hfind => ?_, ?_⟩
    · have hu' := hdraws.taken
      rw [hu, Trace.taken_append, Trace.taken_append, hraw, ← hrest, List.append_assoc,
        List.append_cancel_left_eq] at hu'
      exact (Trace.prefix_taken_of_find? hfind).trans ⟨_, hu'⟩
    · intro input' hmet
      cases lockstep_rule.run host session input' with
      | same _ htrace => exact ⟨u, by rw [htrace, hu], rfl⟩
      | apart htrace =>
        obtain ⟨v, v', hv, hv', hsame⟩ := htrace.of_met ⟨u, hu.symm⟩ hmet
        obtain rfl := List.append_cancel_left (hu.symm.trans hv)
        exact ⟨v', hv', hsame⟩

/-- A child that reads all of its input gets `xy` behind its command `c`; with `z` there instead,
the run is the same until the child reads. -/
theorem run_shares_input_of_reader :
    ∃ (session : Session) (host h : Host) (t : Trace) (line : Line),
      session.Reaches host 0 t h ∧
      (ask session.config h).ending = .value (.line line) ∧ line.bytes = [0x63] ∧
      host.input = .ofBytes [0x63, 0x0A, 0x78, 0x79] ∧
      Program.launch? host.programs line.bytes = .ok { reads := some .all } ∧
      (ask session.config h).host.input.bytes = [0x78, 0x79] ∧
      ∃ u u', (session.run host).trace = t ++ (ask session.config h).trace ++ u ∧
        (session.run { host with input := .ofBytes [0x63, 0x0A, 0x7A] }).trace =
          t ++ (ask session.config h).trace ++ u' ∧
        u'.takeWhile (!·.isRead) = u.takeWhile (!·.isRead) := by
  let host : Host := {
    input := .ofBytes [0x63, 0x0A, 0x78, 0x79]
    programs := [⟨[0x63], .ok { reads := some .all }⟩] }
  have hr : Session.Reaches {} host 0 _ _ := .start rfl rfl
  have hl : (ask {} (showBanner {} host).host).ending =
      .value (.line (.ofRaw [0x63, 0x0A] false)) := rfl
  obtain ⟨raw, stop, u, -, -, hu, hleft, -, htwo⟩ :=
    (run_shares_input {} host).2.2 0 _ _ _ hr hl
  obtain ⟨u', hu', hsame⟩ := htwo (.ofBytes [0x63, 0x0A, 0x7A]) (by decide)
  exact ⟨{}, host, _, _, _, hr, hl, rfl, rfl, rfl, rfl, u, u', hu, hu', hsame⟩

end Session

end LineShell
