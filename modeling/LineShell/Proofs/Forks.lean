import LineShell.Proofs.Transparency

/-!
# Around a fork

A command writes what waits, asks for a child, and goes on from there.

* `Host.attempt`: what is seen of the next fork; `Host.awaited`: what is waited for behind it.
* `Line.due`: all that is written for a command behind its fork.
* `Line.Behind`: what is done behind a fork.
* `Line.spawn_behind`: every command, cut at its fork; `Line.filter_spawn_isForking`,
  `Line.filter_spawn_isWait`: it makes one child at most, and waits for that one only.
-/

namespace LineShell

open LineShell.Action

namespace Event

def isForking : Event → Bool
  | .fork _ | .forkFailure _ => true
  | _ => false

def isWrite : Event → Bool
  | .write _ _ _ => true
  | _ => false

/-- A child makes no children, and it waits for none. -/
theorem not_isForking {e : Event} (he : e.isOfChild = true) :
    ¬ e.isForking = true ∧ ¬ e.isWait = true := by
  cases e <;> first | exact ⟨Bool.false_ne_true, Bool.false_ne_true⟩ | cases he

end Event

theorem LaunchError.filter_report (line : Line) (e : LaunchError) :
    (e.report line).filter Event.isWrite = e.report line := by
  refine List.filter_eq_self.mpr ?_
  intro event he
  obtain ⟨bytes, rfl⟩ := eq_of_mem_report he
  rfl

def Host.attempt (h : Host) : Event :=
  match h.answer with
  | .ok pid => .fork pid
  | .error e => .forkFailure e.number

theorem Host.isForking_attempt (h : Host) :
    h.attempt.isForking = true ∧ ¬ h.attempt.isWait = true := by
  unfold attempt
  cases h.answer <;> exact ⟨rfl, Bool.false_ne_true⟩

theorem Action.trace_fork (h : Host) : (fork h).trace = h.pendingWrites ++ [h.attempt] := by
  rw [fork_apply, Host.attempt]
  cases h.answer <;> rfl

/-- What the shell waits for behind the next fork. -/
def Host.awaited (h : Host) : Trace :=
  match h.answer with
  | .ok pid => if pid = 0 then [] else [.wait pid 0]
  | .error _ => []

theorem Host.of_mem_awaited {h : Host} {pid options : Int} (he : .wait pid options ∈ h.awaited) :
    options = 0 ∧ [h.attempt] = [.fork pid] ∧ h.awaited = [.wait pid 0] := by
  unfold awaited at he ⊢
  unfold attempt
  cases ha : h.answer with
  | error e =>
    rw [ha] at he
    cases he
  | ok n =>
    rw [ha] at he
    dsimp only at he ⊢
    by_cases hn : n = 0
    · rw [if_pos hn] at he
      cases he
    · rw [if_neg hn] at he ⊢
      obtain ⟨rfl, rfl⟩ := Event.wait.inj (List.mem_singleton.mp he)
      exact ⟨rfl, rfl, rfl⟩

namespace Line

variable {line : Line} {h : Host} {t : Trace}

/-- All that is written for a command behind its fork: why there is no child, why no program
replaces the child, or what a program writes for which the shell waits. -/
def due (line : Line) (h : Host) : Trace :=
  match h.answer with
  | .error e =>
    if e.message.Encodable then
      Event.writes .shell .errors
        (Text.coded (.ofString "fork failed: ") ++ e.message.coded ++ [terminator])
    else []
  | .ok pid =>
    match Program.launch? h.programs line.bytes with
    | .error e => e.report line
    | .ok image =>
      if pid = 0 ∨ (image.fault? h.input).isSome then [] else image.shown (image.got h.input)

theorem due_of_error {pid : Int} (ha : h.answer = .ok pid) {e : LaunchError}
    (hl : Program.launch? h.programs line.bytes = .error e) : line.due h = e.report line := by
  rw [due, ha]
  dsimp only
  rw [hl]

/-- What is done for a command behind its fork: no other fork, no more than one wait, and no writes
but those that are due. -/
structure Behind (line : Line) (h : Host) (t : Trace) : Prop where
  forks : t.filter Event.isForking = []
  waits : t.filter Event.isWait = h.awaited
  writes : t.filter Event.isWrite = line.due h

theorem Tries.filter_eq_nil (ht : Tries line h t) {p : Event → Bool}
    (hp : ∀ e, e.isOfChild = true → ¬ p e = true) : t.filter p = [] := by
  have hall := List.filter_eq_self.mp ht.filter_isOfChild
  exact List.filter_eq_nil_iff.mpr fun e he => hp e (hall e he)

theorem Lived.filter_isWrite {r : Result (Except SystemError Int)} (hl : Lived line h.forked r)
    {pid : Int} (ha : h.answer = .ok pid) (hpid : pid ≠ 0) :
    r.trace.filter Event.isWrite = line.due h := by
  have htaking : ∀ image : Image, (image.taking h.input).filter Event.isWrite = [] := by
    intro image
    refine List.filter_eq_nil_iff.mpr ?_
    intro e he
    obtain ⟨bytes, stop, rfl⟩ := Image.eq_of_mem_taking he
    exact Bool.false_ne_true
  rw [due, ha]
  dsimp only
  rw [← h.programs_forked]
  cases hl with
  | @failed e hl =>
    rw [hl, List.filter_cons_of_neg Bool.false_ne_true, List.filter_append, e.filter_report line]
    exact List.append_nil _
  | @stopped image f hl hf =>
    rw [h.input_forked] at hf ⊢
    rw [hl, List.filter_cons_of_neg Bool.false_ne_true, htaking]
    dsimp only
    rw [hf]
    exact (if_pos (Or.inr rfl)).symm
  | @ran image hl hf =>
    have hshown : (image.shown (image.got h.input)).filter Event.isWrite =
        image.shown (image.got h.input) := by
      refine List.filter_eq_self.mpr ?_
      intro e he
      obtain ⟨s, bytes, rfl⟩ := Image.eq_of_mem_shown he
      rfl
    rw [h.input_forked] at hf ⊢
    rw [hl, List.filter_cons_of_neg Bool.false_ne_true, List.filter_append, htaking, hshown]
    dsimp only
    rw [hf, List.nil_append]
    exact (if_neg (not_or.mpr ⟨hpid, Bool.false_ne_true⟩)).symm

theorem Lived.behind {r : Result (Except SystemError Int)} (hl : Lived line h.forked r) {pid : Int}
    (ha : h.answer = .ok pid) (hpid : pid ≠ 0) {after : Trace}
    (hafter : ∀ e ∈ after, ¬ e.isForking = true ∧ ¬ e.isWait = true ∧ ¬ e.isWrite = true) : ∃ t,
    line.starting h pid ++ (r.trace ++ after) = h.pendingWrites ++ h.attempt :: t ∧
      Behind line h t := by
  have hnil : ∀ {p : Event → Bool}, (∀ e ∈ after, ¬ p e = true) → after.filter p = [] :=
    List.filter_eq_nil_iff.mpr
  obtain ⟨record, hstart⟩ : ∃ record,
      line.starting h pid = h.pendingWrites ++ [.fork pid, .log record, .wait pid 0] := ⟨_, rfl⟩
  refine ⟨.log record :: .wait pid 0 :: (r.trace ++ after), ?_, ?_, ?_, ?_⟩
  · rw [hstart, List.append_assoc, Host.attempt, ha]
    rfl
  · rw [List.filter_cons_of_neg Bool.false_ne_true, List.filter_cons_of_neg Bool.false_ne_true,
      List.filter_append, hl.tries.filter_eq_nil fun e he => (Event.not_isForking he).1,
      hnil fun e he => (hafter e he).1, List.append_nil]
  · rw [List.filter_cons_of_neg Bool.false_ne_true, List.filter_cons_of_pos rfl,
      List.filter_append, hl.tries.filter_eq_nil fun e he => (Event.not_isForking he).2,
      hnil fun e he => (hafter e he).2.1, Host.awaited, ha]
    exact (if_neg hpid).symm
  · rw [List.filter_cons_of_neg Bool.false_ne_true, List.filter_cons_of_neg Bool.false_ne_true,
      List.filter_append, hl.filter_isWrite ha hpid, hnil fun e he => (hafter e he).2.2,
      List.append_nil]

/-- **Every command is cut at its fork**: before it there is all that waited to be written, and
behind it all that is due. -/
theorem spawn_behind (line : Line) (h : Host) : ∃ t,
    (line.spawn h).trace = h.pendingWrites ++ h.attempt :: t ∧ Behind line h t := by
  have hspawned := spawn_spawned line h
  generalize line.spawn h = r at hspawned
  cases hspawned with
  | @refused e ha he =>
    obtain ⟨record, hrefusing⟩ : ∃ record,
        line.refusing h e = h.pendingWrites ++ [.forkFailure e.number, .log record] := ⟨_, rfl⟩
    have hdue : line.due h = Event.writes .shell .errors
        (Text.coded (.ofString "fork failed: ") ++ e.message.coded ++ [terminator]) := by
      rw [due, ha]
      exact if_pos he
    refine ⟨.log record :: line.due h, ?_, ?_, ?_, ?_⟩
    · rw [hrefusing, List.append_assoc, Host.attempt, ha, hdue]
      rfl
    · rw [List.filter_cons_of_neg Bool.false_ne_true, hdue,
        Event.filter_writes_of_neg Bool.false_ne_true]
    · rw [List.filter_cons_of_neg Bool.false_ne_true, hdue,
        Event.filter_writes_of_neg Bool.false_ne_true, Host.awaited, ha]
    · rw [List.filter_cons_of_neg Bool.false_ne_true, hdue, Event.filter_writes_of_pos rfl]
  | @unsaid e place ha he =>
    have hdue : line.due h = [] := by
      rw [due, ha]
      exact if_neg he
    refine ⟨_, by rw [refusing, Host.attempt, ha], rfl, ?_, ?_⟩
    · rw [Host.awaited, ha]
      rfl
    · rw [hdue]
      rfl
  | @departed d t ha hb =>
    have htries : Tries line h.forked _ := become_tries h.quiet_forked
    rw [hb] at htries
    refine ⟨t, by rw [Host.attempt, ha], ?_, ?_, ?_⟩
    · exact htries.filter_eq_nil fun e he => (Event.not_isForking he).1
    · rw [htries.filter_eq_nil fun e he => (Event.not_isForking he).2, Host.awaited, ha]
      rfl
    · rw [due, ha]
      dsimp only
      rw [← h.programs_forked]
      cases hl : Program.launch? h.forked.programs line.bytes with
      | error e =>
        rw [become_of_error line h.quiet_forked hl] at hb
        obtain rfl := congrArg Result.trace hb
        rw [List.filter_cons_of_neg Bool.false_ne_true, List.filter_append, e.filter_report line]
        exact List.append_nil _
      | ok image =>
        rw [become_of_ok line hl] at hb
        obtain rfl := congrArg Result.trace hb
        exact (if_pos (Or.inl rfl)).symm
  | @stopped pid f left t ha hpid hl =>
    obtain ⟨t', ht', hbehind⟩ := hl.behind ha hpid (List.forall_mem_nil _)
    rw [List.append_nil] at ht'
    exact ⟨t', ht', hbehind⟩
  | lost ha hpid hl | undecided ha hpid hl _ =>
    refine hl.behind ha hpid (List.forall_mem_singleton.mpr ?_)
    exact ⟨Bool.false_ne_true, Bool.false_ne_true, Bool.false_ne_true⟩
  | ended ha hpid hl _ =>
    refine hl.behind ha hpid ?_
    simp [Event.isForking, Event.isWait, Event.isWrite]

theorem filter_spawn_isForking (line : Line) (h : Host) :
    (line.spawn h).trace.filter Event.isForking = [h.attempt] := by
  obtain ⟨t, ht, hbehind⟩ := line.spawn_behind h
  rw [ht, List.filter_append, h.filter_pendingWrites fun _ _ => Bool.false_ne_true,
    List.filter_cons_of_pos h.isForking_attempt.1, hbehind.forks, List.nil_append]

theorem filter_spawn_isWait (line : Line) (h : Host) :
    (line.spawn h).trace.filter Event.isWait = h.awaited := by
  obtain ⟨t, ht, hbehind⟩ := line.spawn_behind h
  rw [ht, List.filter_append, h.filter_pendingWrites fun _ _ => Bool.false_ne_true,
    List.filter_cons_of_neg h.isForking_attempt.2, hbehind.waits, List.nil_append]

end Line

end LineShell
