import LineShell.Proofs.Action

/-!
# One child at a time

The shell makes a child, waits for it, and only then goes on.

* `Trace.Serial`: what this says of the events of a run.
* `Phase`, `Phase.Step`: where a run is between two reads of the shell, and which events may come
  there; `Phase.Run`: events that all may come.
* `Trace.Serial.of_run`: such events are serial.
* `Action.Moves`: an action does what its phase allows.
* `Session.run_serial`: every run is serial, however it ends.
-/

namespace LineShell

open LineShell.Action

namespace Event

def isFork : Event → Bool
  | .fork _ => true
  | _ => false

def isWait : Event → Bool
  | .wait _ _ => true
  | _ => false

def isWaited : Event → Bool
  | .waited _ => true
  | _ => false

def isDebug : Event → Bool
  | .log record => record.level = .debug
  | _ => false

/-- The shell writes or makes a record. -/
def isSaid : Event → Bool
  | .write .shell _ _ | .log _ => true
  | _ => false

/-- A child reads, writes, becomes a program or exits. -/
def isOfChild : Event → Bool
  | .write .child _ _ | .read .child _ _ | .exec _ _ | .exit _ => true
  | _ => false

/-- The shell reads, writes or makes a record other than for debugging. -/
def isOfShell : Event → Bool
  | .write .shell _ _ | .read .shell _ _ => true
  | .log record => record.level ≠ .debug
  | _ => false

end Event

/-- The children of a trace come one after the other. -/
structure Trace.Serial (t : Trace) : Prop where
  /-- At every point no more than one child is made for which the wait is not over. -/
  one_child : ∀ p : Trace, p <+: t → p.countP Event.isWaited ≤ p.countP Event.isWait ∧
    p.countP Event.isWait ≤ p.countP Event.isFork ∧
    p.countP Event.isFork ≤ p.countP Event.isWaited + 1
  /-- The shell waits for the child that it just made, until that has ended. -/
  wait_of_fork : ∀ s pid options u, t = s ++ .wait pid options :: u → options = 0 ∧
    ∃ s' logs, s = s' ++ .fork pid :: logs ∧ ∀ e ∈ logs, e.isDebug = true
  /-- It waits for each child, and only once. -/
  fork_waited : ∀ s pid u, t = s ++ .fork pid :: u →
    ∃ logs v, u = logs ++ .wait pid 0 :: v ∧ (∀ e ∈ logs, e.isDebug = true) ∧
      ∀ e ∈ v.takeWhile (!·.isFork), e.isWait = false
  /-- Without a child nothing is done for a command but to say so. -/
  forkFailure_said : ∀ s n u, t = s ++ .forkFailure n :: u →
    ∀ e ∈ u.takeWhile (!·.isRead), e.isSaid = true
  /-- While there is a child, the shell is silent and leaves the input alone. -/
  shell_silent : ∀ s pid u, t = s ++ .fork pid :: u →
    ∀ e ∈ u.takeWhile (· != .waited pid), e.isOfShell = false

/-! ## Phases -/

inductive Phase
  /-- A command may be run. -/
  | free
  /-- A command was run; the next one is still to be read. -/
  | spent
  /-- A child is made, and the wait for it is still to begin. -/
  | forked (pid : Int)
  /-- The shell waits for a child. -/
  | awaited (pid : Int)

namespace Phase

def isSettled : Phase → Bool
  | forked _ => false
  | _ => true

def isIdle : Phase → Bool
  | free | spent => true
  | _ => false

theorem isSettled_of_isIdle {q : Phase} (hq : q.isIdle = true) : q.isSettled = true := by
  cases q with
  | free | spent | awaited => rfl
  | forked pid => cases hq

/-- The events that may come in a phase, and the phases after them. -/
inductive Step : Phase → Event → Phase → Prop
  | read {q : Phase} (bytes : Bytes) (stop : Input.Stop) : q.isIdle = true →
      Step q (.read .shell bytes stop) free
  | say {q : Phase} {e : Event} : q.isIdle = true → e.isSaid = true → Step q e q
  | fork (pid : Int) : Step free (.fork pid) (forked pid)
  | refuse (n : Int) : Step free (.forkFailure n) spent
  | debug (pid : Int) {e : Event} : e.isDebug = true → Step (forked pid) e (forked pid)
  | wait (pid : Int) : Step (forked pid) (.wait pid 0) (awaited pid)
  | live (pid : Int) {e : Event} : e.isOfChild = true → Step (awaited pid) e (awaited pid)
  | waited (pid : Int) : Step (awaited pid) (.waited pid) spent

/-- `Run q t q'`: all events of `t` may come, one after the other, from the phase `q` on, and the
phase is `q'` then. -/
inductive Run : Phase → Trace → Phase → Prop
  | nil (q : Phase) : Run q [] q
  | cons {q q₁ q' : Phase} {e : Event} {t : Trace} : Step q e q₁ → Run q₁ t q' → Run q (e :: t) q'

namespace Run

variable {q q₁ q' : Phase} {t u : Trace}

theorem append (h : Run q t q₁) (g : Run q₁ u q') : Run q (t ++ u) q' := by
  induction h with
  | nil => exact g
  | cons hs _ ih => exact .cons hs (ih g)

theorem split (h : Run q (t ++ u) q') : ∃ q₁, Run q t q₁ ∧ Run q₁ u q' := by
  induction t generalizing q with
  | nil => exact ⟨q, .nil q, h⟩
  | cons e t ih =>
    cases h with
    | cons hs h =>
      obtain ⟨q₁, h₁, h₂⟩ := ih h
      exact ⟨q₁, .cons hs h₁, h₂⟩

theorem of_steps (h : ∀ e ∈ t, Step q e q) : Run q t q := by
  induction t with
  | nil => exact .nil q
  | cons e t ih =>
    exact .cons (h e List.mem_cons_self) (ih fun e he => h e (List.mem_cons_of_mem _ he))

end Run

/-! ### Counting children -/

def children : Phase → Nat
  | forked _ | awaited _ => 1
  | _ => 0

def waits : Phase → Nat
  | awaited _ => 1
  | _ => 0

end Phase

theorem Event.isSaid_iff {e : Event} :
    e.isSaid = true ↔ (∃ s bytes, e = .write .shell s bytes) ∨ ∃ r, e = .log r := by
  constructor
  · intro h
    cases e with
    | write a s bytes =>
      cases a with
      | shell => exact Or.inl ⟨s, bytes, rfl⟩
      | child => cases h
    | log r => exact Or.inr ⟨r, rfl⟩
    | _ => cases h
  · rintro (⟨s, bytes, rfl⟩ | ⟨r, rfl⟩) <;> rfl

namespace Phase

theorem Step.balance {q q' : Phase} {e : Event} (h : Step q e q') :
    e.isFork.toNat + q.children = e.isWaited.toNat + q'.children ∧
      e.isWait.toNat + q.waits = e.isWaited.toNat + q'.waits := by
  cases h with
  | read bytes stop hq => cases q <;> first | exact ⟨rfl, rfl⟩ | cases hq
  | say hq he =>
    rcases Event.isSaid_iff.mp he with ⟨s, bytes, rfl⟩ | ⟨r, rfl⟩ <;> exact ⟨rfl, rfl⟩
  | fork pid | refuse n | wait pid | waited pid => exact ⟨rfl, rfl⟩
  | debug pid he =>
    cases e <;> first | exact ⟨rfl, rfl⟩ | cases he
  | live pid he =>
    cases e <;> first | exact ⟨rfl, rfl⟩ | cases he

theorem Run.balance {q q' : Phase} {t : Trace} (h : Run q t q') :
    t.countP Event.isFork + q.children = t.countP Event.isWaited + q'.children ∧
      t.countP Event.isWait + q.waits = t.countP Event.isWaited + q'.waits := by
  induction h with
  | nil => exact ⟨rfl, rfl⟩
  | @cons q q₁ q' e t hs _ ih =>
    have := hs.balance
    have hcount : ∀ f : Event → Bool, (e :: t).countP f = t.countP f + (f e).toNat := by
      intro f
      rw [List.countP_cons]
      cases f e <;> rfl
    rw [hcount, hcount, hcount]
    omega

theorem waits_le_children (q : Phase) : q.waits ≤ q.children ∧ q.children ≤ 1 := by
  cases q <;> simp [waits, children]

/-! ### What surrounds an event -/

/-- A child that is not yet waited for was made just before. -/
theorem Run.to_forked {q q' : Phase} {t : Trace} {pid : Int} (h : Run q t q')
    (hq' : q' = forked pid) : (q = forked pid ∧ ∀ e ∈ t, e.isDebug = true) ∨
      ∃ s logs, t = s ++ .fork pid :: logs ∧ ∀ e ∈ logs, e.isDebug = true := by
  induction h with
  | nil => exact Or.inl ⟨hq', fun e he => nomatch he⟩
  | @cons q q₁ q' e t hs _ ih =>
    rcases ih hq' with ⟨hq₁, hdebug⟩ | ⟨s, logs, rfl, hlogs⟩
    · cases hs with
      | say hq _ =>
        rw [hq₁] at hq
        cases hq
      | fork pid' =>
        obtain rfl := forked.inj hq₁
        exact Or.inr ⟨[], t, rfl, hdebug⟩
      | debug _ he => exact Or.inl ⟨hq₁, List.forall_mem_cons.mpr ⟨he, hdebug⟩⟩
      | read | refuse | wait | live | waited => cases hq₁
    · exact Or.inr ⟨e :: s, logs, rfl, hlogs⟩

/-- The wait for a child that was made comes next, unless it is the end. -/
theorem Run.of_forked {q q' : Phase} {t : Trace} {pid : Int} (h : Run q t q') (hq : q = forked pid)
    (hq' : q'.isSettled = true) :
    ∃ logs v, t = logs ++ .wait pid 0 :: v ∧ (∀ e ∈ logs, e.isDebug = true) ∧
      Run (awaited pid) v q' := by
  induction h with
  | nil =>
    rw [hq] at hq'
    cases hq'
  | @cons q q₁ q' e t hs hrun ih =>
    cases hs with
    | read _ _ hidle | say hidle _ =>
      rw [hq] at hidle
      cases hidle
    | debug _ he =>
      obtain ⟨logs, v, rfl, hlogs, hv⟩ := ih hq hq'
      exact ⟨e :: logs, v, rfl, List.forall_mem_cons.mpr ⟨he, hlogs⟩, hv⟩
    | wait pid' =>
      obtain rfl := forked.inj hq
      exact ⟨[], t, rfl, (fun e he => nomatch he), hrun⟩
    | fork | refuse | live | waited => cases hq

theorem Run.no_wait {q q' : Phase} {t : Trace} (h : Run q t q') (hq : q.isSettled = true) :
    ∀ e ∈ t.takeWhile (!·.isFork), e.isWait = false := by
  induction h with
  | nil => intro e he; cases he
  | @cons q q₁ q' e t hs _ ih =>
    cases hfork : e.isFork with
    | true =>
      rw [List.takeWhile_cons_of_neg (by simp [hfork])]
      intro e he
      cases he
    | false =>
      rw [List.takeWhile_cons_of_pos (by simp [hfork])]
      have hstep : e.isWait = false ∧ q₁.isSettled = true := by
        cases hs with
        | read | refuse | waited => exact ⟨rfl, rfl⟩
        | say _ he =>
          rcases Event.isSaid_iff.mp he with ⟨_, _, rfl⟩ | ⟨_, rfl⟩ <;> exact ⟨rfl, hq⟩
        | fork => cases hfork
        | debug => cases hq
        | wait => cases hq
        | live _ he => cases e <;> first | exact ⟨rfl, rfl⟩ | cases he
      exact List.forall_mem_cons.mpr ⟨hstep.1, ih hstep.2⟩

theorem Run.said {q q' : Phase} {t : Trace} (h : Run q t q') (hq : q = spent) :
    ∀ e ∈ t.takeWhile (!·.isRead), e.isSaid = true := by
  induction h with
  | nil => intro e he; cases he
  | @cons q q₁ q' e t hs _ ih =>
    cases hs with
    | read =>
      intro e he
      cases he
    | say _ he =>
      have hread : e.isRead = false := by
        rcases Event.isSaid_iff.mp he with ⟨_, _, rfl⟩ | ⟨_, rfl⟩ <;> rfl
      rw [List.takeWhile_cons_of_pos (by simp [hread])]
      exact List.forall_mem_cons.mpr ⟨he, ih hq⟩
    | fork | refuse | debug | wait | live | waited => cases hq

theorem Run.silent {q q' : Phase} {t : Trace} {pid : Int} (h : Run q t q')
    (hq : q = forked pid ∨ q = awaited pid) :
    ∀ e ∈ t.takeWhile (· != .waited pid), e.isOfShell = false := by
  induction h with
  | nil => intro e he; cases he
  | @cons q q₁ q' e t hs _ ih =>
    by_cases hwaited : e = .waited pid
    · rw [List.takeWhile_cons_of_neg (by simp [hwaited])]
      intro e he
      cases he
    · rw [List.takeWhile_cons_of_pos (by simp [hwaited])]
      have hstep : e.isOfShell = false ∧ (q₁ = forked pid ∨ q₁ = awaited pid) := by
        cases hs with
        | read _ _ hidle => rcases hq with rfl | rfl <;> cases hidle
        | say hidle => rcases hq with rfl | rfl <;> cases hidle
        | fork | refuse => rcases hq with hq | hq <;> cases hq
        | debug _ he =>
          refine ⟨?_, hq⟩
          cases e with
          | log record =>
            have : record.level = .debug := of_decide_eq_true he
            simp [Event.isOfShell, this]
          | _ => cases he
        | wait _ =>
          rcases hq with hq | hq <;> cases hq
          exact ⟨rfl, Or.inr rfl⟩
        | live _ he =>
          refine ⟨?_, hq⟩
          cases e with
          | write a _ _ => cases a <;> first | rfl | cases he
          | read a _ _ => cases a <;> first | rfl | cases he
          | exec | exit => rfl
          | _ => cases he
        | waited _ =>
          rcases hq with hq | hq <;> cases hq
          exact absurd rfl hwaited
      exact List.forall_mem_cons.mpr ⟨hstep.1, ih hstep.2⟩

end Phase

/-- **Events that all may come are serial**, if no child is left without a wait. -/
theorem Trace.Serial.of_run {q : Phase} {t : Trace} (h : Phase.Run .free t q)
    (hq : q.isSettled = true) : t.Serial where
  one_child := by
    rintro p ⟨u, rfl⟩
    obtain ⟨q₁, hp, -⟩ := h.split
    have hbal := hp.balance
    have hfree : Phase.free.children = 0 ∧ Phase.free.waits = 0 := ⟨rfl, rfl⟩
    have hle := q₁.waits_le_children
    omega
  wait_of_fork := by
    rintro s pid options u rfl
    obtain ⟨q₁, hs, hu⟩ := h.split
    cases hu with
    | cons hstep _ =>
      cases hstep with
      | say _ he => cases he
      | debug _ he => cases he
      | wait =>
        rcases hs.to_forked rfl with ⟨hq₁, -⟩ | h
        · cases hq₁
        · exact ⟨rfl, h⟩
      | live _ he => cases he
  fork_waited := by
    rintro s pid u rfl
    obtain ⟨q₁, -, hu⟩ := h.split
    cases hu with
    | cons hstep hu =>
      cases hstep with
      | say _ he => cases he
      | fork =>
        obtain ⟨logs, v, rfl, hlogs, hv⟩ := hu.of_forked rfl hq
        exact ⟨logs, v, rfl, hlogs, hv.no_wait rfl⟩
      | debug _ he => cases he
      | live _ he => cases he
  forkFailure_said := by
    rintro s n u rfl
    obtain ⟨q₁, -, hu⟩ := h.split
    cases hu with
    | cons hstep hu =>
      cases hstep with
      | say _ he => cases he
      | refuse => exact hu.said rfl
      | debug _ he => cases he
      | live _ he => cases he
  shell_silent := by
    rintro s pid u rfl
    obtain ⟨q₁, -, hu⟩ := h.split
    cases hu with
    | cons hstep hu =>
      cases hstep with
      | say _ he => cases he
      | fork => exact hu.silent (Or.inl rfl)
      | debug _ he => cases he
      | live _ he => cases he

/-! ## What actions do -/

namespace Action

def Does (p : Event → Bool) (x : Action α) : Prop := ∀ h, ∀ e ∈ (x h).trace, p e = true

namespace Does

variable {p : Event → Bool}

theorem pure (a : α) : Does p (pure a : Action α) := fun _ _ he => nomatch he

theorem raise (f : Fault) : Does p (raise f : Action α) := fun _ _ he => nomatch he

theorem bind {x : Action α} {f : α → Action β} (hx : Does p x) (hf : ∀ a, Does p (f a)) :
    Does p (x >>= f) := by
  intro h e he
  rw [bind_apply] at he
  cases hr : (x h).ending with
  | value a =>
    rw [hr] at he
    rcases List.mem_append.mp he with he | he
    · exact hx h e he
    · exact hf a _ e he
  | fault f =>
    rw [hr] at he
    exact hx h e he
  | departure d =>
    rw [hr] at he
    exact hx h e he

theorem attempt {x : Action α} (hx : Does p x) : Does p x.attempt := hx

theorem departing {x : Action Empty} (hx : Does p x) : Does p x.departing := hx

theorem depart (d : Departure) : Does p (depart d : Action α) := fun _ _ he => nomatch he

theorem emit {e : Event} (he : p e = true) : Does p (emit e) :=
  fun _ => List.forall_mem_singleton.mpr he

theorem writes {a : Actor} {s : Stream} (hp : ∀ bytes, p (.write a s bytes) = true)
    (bytes : Bytes) : Does p (emits (Event.writes a s bytes)) := by
  intro h e he
  rw [Event.eq_of_mem_writes he]
  exact hp bytes

theorem liftExcept (toFault : ε → Fault) (r : Except ε α) : Does p (liftExcept toFault r) := by
  cases r with
  | ok a => exact pure a
  | error e => exact raise _

theorem write {a : Actor} {s : Stream} (hp : ∀ bytes, p (.write a s bytes) = true) (text : Text) :
    Does p (write a s text) := by
  refine (liftExcept _ _).bind fun coded => bind ?_ fun _ => ?_
  · intro h e he
    cases he
  · intro h e he
    rw [Event.eq_of_mem_writes he]
    exact hp _

theorem takeInput {a : Actor} (hp : ∀ bytes stop, p (.read a bytes stop) = true) (q : Quota) :
    Does p (takeInput a q) := by
  intro h
  rw [takeInput_apply]
  exact List.forall_mem_singleton.mpr (hp _ _)

end Does

end Action

theorem Line.life_does (line : Line) : Does Event.isOfChild line.life := by
  have hwrite : ∀ s text, Does Event.isOfChild (Action.write .child s text) := fun s text =>
    .write (fun _ => by rfl) text
  have hexec : Does Event.isOfChild (exec line.bytes) := by
    intro h
    rw [exec_apply]
    exact List.forall_mem_singleton.mpr rfl
  have hbecome : Does Event.isOfChild line.become := by
    refine .bind (.attempt (.bind (.attempt hexec) fun r => ?_)) fun _ =>
      .bind (.emit rfl) fun _ => .depart _
    split
    · split
      · exact hwrite _ _
      · exact .pure _
    · exact .pure _
  refine .bind (.departing hbecome) fun d => ?_
  cases d with
  | exited code => exact .pure _
  | replaced image =>
    have hout : Does Event.isOfChild (do
        emits (Event.writes .child .output image.output)
        emits (Event.writes .child .errors image.errors)
        return image.ending : Action (Except SystemError Int)) := by
      refine .bind (.writes (fun _ => by rfl) _) ?_
      intro _
      refine .bind (.writes (fun _ => by rfl) _) ?_
      intro _
      exact .pure _
    show Does Event.isOfChild image.run
    unfold Image.run
    cases image.reads with
    | none => exact hout
    | some q =>
      refine .bind (.takeInput (fun _ _ => by rfl) q) ?_
      intro _
      refine .bind (.emit rfl) ?_
      intro _
      exact hout

/-- On a host that answers no fork with zero, an action that starts in the phase `q` does only what
may come.  If it ends with a value, `post` tells the phase then; else no child is left without a
wait. -/
def Action.Moves (h : Host) (q : Phase) (x : Action α) (post : α → Phase → Prop) : Prop :=
  h.Parental → (x h).host.Parental ∧ ∃ q', q.Run (x h).trace q' ∧
    match (x h).ending with
    | .value a => post a q'
    | _ => q'.isSettled = true

namespace Action.Moves

variable {h : Host} {q q' : Phase}

theorem pure {post : α → Phase → Prop} {a : α} (ha : post a q) :
    Moves h q (pure a : Action α) post := fun hp => ⟨hp, q, .nil q, ha⟩

theorem raise {post : α → Phase → Prop} (hq : q.isSettled = true) (f : Fault) :
    Moves h q (raise f : Action α) post := fun hp => ⟨hp, q, .nil q, hq⟩

theorem bind {x : Action α} {f : α → Action β} {m : α → Phase → Prop}
    {post : β → Phase → Prop} (hx : Moves h q x m)
    (hf : ∀ a q', (x h).ending = .value a → m a q' → Moves (x h).host q' (f a) post) :
    Moves h q (x >>= f) post := by
  intro hp
  obtain ⟨hp', q', hrun, hmid⟩ := hx hp
  rw [bind_apply]
  cases hr : (x h).ending with
  | value a =>
    rw [hr] at hmid
    obtain ⟨hp₂, q₂, hrun₂, hpost⟩ := hf a q' hr hmid hp'
    exact ⟨hp₂, q₂, hrun.append hrun₂, hpost⟩
  | fault e =>
    rw [hr] at hmid
    exact ⟨hp', q', hrun, hmid⟩
  | departure d =>
    rw [hr] at hmid
    exact ⟨hp', q', hrun, hmid⟩

theorem emit {post : Unit → Phase → Prop} {e : Event} (he : q.Step e q') (hpost : post () q') :
    Moves h q (emit e) post := fun hp => ⟨hp, q', .cons he (.nil q'), hpost⟩

theorem liftExcept {post : α → Phase → Prop} (hq : q.isSettled = true) (toFault : ε → Fault)
    {r : Except ε α} (hpost : ∀ a, post a q) : Moves h q (liftExcept toFault r) post := by
  cases r with
  | ok a => exact .pure (hpost a)
  | error e => exact .raise hq _

theorem of_does {x : Action α} {p : Event → Bool} (hx : Does p x) (hq : q.isSettled = true)
    (hs : ∀ e, p e = true → q.Step e q) (hpar : h.Parental → (x h).host.Parental) :
    Moves h q x fun _ q' => q' = q := by
  intro hp
  refine ⟨hpar hp, q, .of_steps fun e he => hs e (hx h e he), ?_⟩
  cases (x h).ending with
  | value a => rfl
  | fault e => exact hq
  | departure d => exact hq

theorem write (hq : q.isIdle = true) (s : Stream) (text : Text) :
    Moves h q (write .shell s text) fun _ q' => q' = q :=
  .of_does (.write (fun _ => by rfl) text) (Phase.isSettled_of_isIdle hq) (fun _ he => .say hq he)
    (parental_rule.write _ _ _ _)

theorem log (hq : q.isIdle = true) (logger : String) (level : Level) (text : Text) :
    Moves h q (log logger level text) fun _ q' => q' = q := .emit (.say hq rfl) rfl

theorem fork : Moves h .free fork.attempt fun r q' => match r with
    | .ok (.parent child) => q' = .forked child.pid ∧ child.reaped = false
    | .error (.childless _) => q' = .spent
    | _ => False := by
  intro hp
  have hwrites : Phase.Run .free h.pendingWrites .free := by
    refine .of_steps fun e he => .say rfl ?_
    rcases List.mem_append.mp he with he | he
    · rw [Event.eq_of_mem_writes he]
      rfl
    · rw [Event.eq_of_mem_writes he]
      rfl
  have hp' : h.flushed.answered.Parental := Host.Parental.answered (h := h.flushed) ⟨hp.1, hp.2⟩
  cases ha : h.answer with
  | ok pid =>
    rw [attempt_apply, fork_of_pid ha (hp.answer_ne_zero ha)]
    exact ⟨hp', .forked pid, hwrites.append (.cons (.fork pid) (.nil _)), rfl, rfl⟩
  | error e =>
    rw [attempt_apply, fork_of_refusal ha]
    exact ⟨hp', .spent, hwrites.append (.cons (.refuse _) (.nil _)), rfl⟩

/-- The wait for a child begins at once, and what comes until its end is done by the child. -/
theorem await {child : Child} (hc : child.reaped = false) (line : Line) :
    Moves h (.forked child.pid) (child.await line.life) fun _ q' => q' = .spent := by
  rw [Child.await, hc, if_neg (by decide)]
  refine .bind (m := fun _ q' => q' = .awaited child.pid) (.emit (.wait _) rfl) ?_
  rintro - q' - rfl
  refine .bind (.of_does line.life_does rfl (fun _ he => .live _ he)
    fun hp => parental_rule.life _ line hp) ?_
  rintro status q' - rfl
  refine .bind (m := fun _ q' => q' = .spent) (.emit (.waited _) rfl) ?_
  rintro - q' - rfl
  refine .bind (m := fun _ q' => q' = .spent) (.liftExcept rfl _ fun _ => rfl) ?_
  rintro status q' - rfl
  exact .pure rfl

theorem spawn (line : Line) : Moves h .free line.spawn fun _ q' => q' = .spent := by
  refine .bind .fork ?_
  intro r q' hr hq'
  match r with
  | .error (.childless e) =>
    obtain rfl : q' = .spent := hq'
    refine .bind (.log rfl _ _ _) ?_
    rintro - q' - rfl
    refine .bind (.write rfl _ _) ?_
    rintro - q' - rfl
    exact .pure rfl
  | .ok (.parent child) =>
    obtain ⟨rfl, hc⟩ : q' = .forked child.pid ∧ child.reaped = false := hq'
    refine .bind (m := fun _ q' => q' = .forked child.pid) (.emit (.debug _ rfl) rfl) ?_
    rintro - q' - rfl
    refine .bind (.await hc line) ?_
    rintro ⟨child', code⟩ q' - rfl
    refine .bind (m := fun _ q' => q' = .spent) (.liftExcept rfl _ fun _ => rfl) ?_
    rintro code q' - rfl
    refine .bind (.log rfl _ _ _) ?_
    rintro - q' - rfl
    exact .pure rfl
  | .ok .child => exact hq'.elim
  | .error .interrupted | .error (.system _) | .error (.reaped _) | .error (.status _)
  | .error (.launch _) | .error (.unencodable _) | .error (.tooShort _) | .error .terminator
  | .error (.load _) => exact hq'.elim

/-- Reading a line makes the next command possible. -/
theorem read {limit : Int} (hl : 2 ≤ limit) (hq : q.isIdle = true) :
    Moves h q (Line.read limit) fun _ q' => q' = .free := by
  rw [Line.read, if_neg (by omega)]
  refine .bind (m := fun _ q' => q' = .free) ?_ ?_
  · intro hp
    refine ⟨parental_rule.takeInput _ _ _ hp, .free, ?_, ?_⟩
    · rw [takeInput_apply]
      exact .cons (.read _ _ hq) (.nil _)
    · cases (takeInput .shell (.lineWithin (limit - 1).toNat) h).ending <;> rfl
  · rintro raw q' - rfl
    split
    · refine .bind (.log rfl _ _ _) ?_
      rintro - q' - rfl
      exact .pure rfl
    · dsimp only
      split
      · refine .bind (.log rfl _ _ _) ?_
        rintro - q' - rfl
        exact .pure rfl
      · exact .pure rfl

theorem dispatch (config : Config) (line : Line) :
    Moves h .free (Session.dispatch config line) fun _ q' => q' = .spent := by
  refine .bind (m := fun _ q' => q' = .free) ?_ ?_
  · unfold Session.showCommand
    split
    · exact .write rfl _ _
    · exact .pure rfl
  rintro - q' - rfl
  refine .bind (.spawn line) ?_
  rintro outcome q' - rfl
  refine .bind (m := fun _ q' => q' = .spent) ?_ ?_
  · unfold Session.showStatus
    split
    · exact .write rfl _ _
    · exact .pure rfl
  rintro - q' - rfl
  exact .pure rfl

theorem round (config : Config) (hq : q.isIdle = true) :
    Moves h q (Session.round config) fun _ q' => q'.isIdle = true := by
  refine .bind (.write hq _ _) ?_
  rintro - q' - rfl
  refine .bind (.read config.two_le_lineLimit hq) ?_
  rintro reading q' - rfl
  cases reading with
  | endOfStream => exact .pure rfl
  | line line =>
    refine .bind (.dispatch config line) ?_
    rintro outcome q' - rfl
    exact .pure rfl

theorem rounds (config : Config) (report : Report) (hq : q.isIdle = true) :
    Moves h q (Session.rounds config report) fun _ q' => q'.isIdle = true := by
  -- a round with a command shortens the input, and its phase is idle again
  induction hk : h.input.length using Nat.strong_induction_on generalizing h q report with
  | _ k ih =>
    rw [Session.rounds_eq]
    refine .bind (.round config hq) ?_
    intro o q' ho hq'
    cases o with
    | none => exact .pure hq'
    | some outcome => exact ih _ (hk ▸ Session.length_input_round ho) _ hq' rfl

theorem run (session : Session) :
    Moves h .free session.run fun _ q' => q'.isIdle = true := by
  have hbanner : Moves h .free (Session.showBanner session.config) fun _ q' => q' = .free := by
    unfold Session.showBanner
    split
    · exact .pure rfl
    · exact .write rfl _ _
  cases hr : session.running with
  | true =>
    rw [Session.run_eq hr]
    refine .bind hbanner ?_
    rintro - q' - rfl
    refine .bind (.rounds session.config {} rfl) ?_
    intro report q' _ hq'
    refine .bind (.log hq' _ _ _) ?_
    rintro - q' - rfl
    exact .pure hq'
  | false =>
    rw [Session.run_eq_of_not_running hr]
    refine .bind hbanner ?_
    rintro - q' - rfl
    refine .bind (.log rfl _ _ _) ?_
    rintro - q' - rfl
    exact .pure rfl

end Action.Moves

/-- **A run has one child at a time**, whatever the settings, the input and the programs are, and
however the run ends: it waits for the child that it just made, with the options 0, before it does
anything else, and without a child it only says so. -/
theorem Session.run_serial (session : Session) {host : Host} (hp : host.Parental) :
    (session.run host).trace.Serial := by
  obtain ⟨-, q, hrun, hq⟩ := Moves.run session hp
  refine .of_run hrun ?_
  cases hr : (session.run host).ending with
  | value a =>
    rw [hr] at hq
    exact Phase.isSettled_of_isIdle hq
  | fault e =>
    rw [hr] at hq
    exact hq
  | departure d =>
    rw [hr] at hq
    exact hq

/-- The wait for the first child fails, and the run ends with that. -/
theorem Session.run_serial_of_failing_wait :
    ∃ host : Host, host.Parental ∧
      (Session.run { config := { echo := false } } host).ending = .fault (.system .noSuchFile) ∧
      [.fork 100, .wait 100 0, .waited 100] ⊆
        (Session.run { config := { echo := false } } host).trace ∧
      (Session.run { config := { echo := false } } host).trace.Serial := by
  have hp : Host.Parental {
      input := .ofBytes [0x63, 0x0A]
      programs := [⟨[0x63], .ok { ending := .error .noSuchFile }⟩] } :=
    ⟨by decide, by decide⟩
  refine ⟨_, hp, ?_, ?_, run_serial _ hp⟩
  · rw [run_eq rfl, rounds_eq]
    rfl
  · rw [run_eq rfl, rounds_eq]
    decide

end LineShell
