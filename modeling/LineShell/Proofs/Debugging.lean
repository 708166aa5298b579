import LineShell.Proofs.Exits
import LineShell.Proofs.Statuses

/-!
# Debugging only adds to the log

With `-d` before the other arguments a run tells of all that it does.  It does the same as without:
records are put in between what it writes to standard error, and that is all.

* `Options.debugging`, `Options.ofArguments_debugText`: what `-d` asks for, before any arguments.
* `Event.isDebugging`, `Trace.logged_warning`: without `-d` the records for debugging are left out.
* `Trace.Annotated`: a trace, and the same with records for debugging in between.
* `Invocation.run_debugText`: a run with `-d` and the run without.
-/

namespace LineShell

open LineShell.Action

/-! ## Arguments -/

namespace Options

def debugText : Text := .ofString "-d"

def debugging (o : Options) : Options := { o with debug := true }

/-- What follows does not look at it. -/
theorem bind_debugging {x : Except Stop Options} {f : Options → Except Stop α} {g : α → α}
    (hf : ∀ o, f o.debugging = (f o).map g) : x.map debugging >>= f = (x >>= f).map g := by
  cases x with
  | error stop => rfl
  | ok o => exact hf o

theorem give_debugging (o : Options) (f : Flag) (value : Text) :
    o.debugging.give f value = (o.give f value).map debugging := by
  unfold give
  cases f with
  | lineLimit =>
    dsimp only
    split
    · rfl
    · cases integer? value <;> rfl
  | _ => rfl

theorem act_debugging (o : Options) (f : Flag) :
    o.debugging.act f = (o.act f).map debugging := by
  cases f <;> rfl

theorem foldlM_act_debugging (flags : List Flag) (o : Options) :
    flags.foldlM act o.debugging = (flags.foldlM act o).map debugging := by
  induction flags generalizing o with
  | nil => rfl
  | cons f flags ih =>
    rw [List.foldlM_cons, List.foldlM_cons, act_debugging]
    exact bind_debugging ih

theorem actWith_debugging (o : Options) (f : Flag) (short : Bool) (attached : Option Text) :
    o.debugging.actWith f short attached = (o.actWith f short attached).map debugging := by
  cases attached with
  | none => exact act_debugging o f
  | some value =>
    rw [actWith, actWith]
    split
    · cases cluster f value with
      | error stop => rfl
      | ok flags => exact foldlM_act_debugging flags o
    · rfl

/-- Words are followed in the same way when debugging is already asked for. -/
theorem follow_debugging (o : Options) (rest : List Text) (words : List (Text × Word)) :
    follow o.debugging rest words = (follow o rest words).map (Prod.map debugging id) := by
  fun_induction follow o rest words with
  | case1 o rest => rfl
  | case2 _ _ _ _ ih | case3 _ _ _ _ ih | case4 _ _ _ _ ih => exact ih
  | case5 o rest t f short hf value words ih =>
    rw [follow.eq_def]
    dsimp only
    rw [if_pos hf, give_debugging]
    exact bind_debugging ih
  | case6 o rest t f short hf value words ih =>
    rw [follow.eq_def]
    dsimp only
    rw [if_pos hf, give_debugging]
    exact bind_debugging ih
  | case7 o rest t f short words hf hno =>
    rw [follow.eq_def]
    dsimp only
    rw [if_pos hf]
    split
    · rename_i hnone
      cases hnone
    · exact (hno _ _ rfl).elim
    · rfl
  | case8 o rest t f short attached words hf ih =>
    rw [follow.eq_def]
    dsimp only
    rw [if_neg hf, actWith_debugging]
    exact bind_debugging ih

theorem ofText_debugText : Word.ofText debugText = .ok (.flag .debug true none) := by
  with_unfolding_all exact rfl

/-- **Before any arguments, `-d` asks for debugging and for nothing else.** -/
theorem ofArguments_debugText (ts : List Text) :
    ofArguments (debugText :: ts) = (ofArguments ts).map debugging := by
  have hne : debugText ≠ Word.separatorText := by decide
  rw [ofArguments, ofArguments, Word.ofArguments, if_neg hne, ofText_debugText]
  cases Word.ofArguments ts with
  | error a => rfl
  | ok words =>
    have hwords : follow {} [] ((debugText, .flag .debug true none) :: words) =
        (follow {} [] words).map (Prod.map debugging id) := by
      rw [← follow_debugging, follow.eq_def]
      rfl
    change (follow {} [] ((debugText, .flag .debug true none) :: words) >>= _) =
      Except.map debugging (follow {} [] words >>= _)
    rw [hwords]
    rcases follow {} [] words with stop | ⟨o, rest⟩
    · rfl
    · cases rest <;> rfl

end Options

/-! ## Records -/

def Event.isDebugging : Event → Bool
  | .log r => r.level = .debug
  | _ => false

namespace Trace

theorem logged_log (least : Level) (r : Record) (t : Trace) : logged least (.log r :: t) =
    (if least = .debug || r.level = .warning then [.write .shell .errors r.line.spell] else []) ++
      logged least t := rfl

/-- Without debugging the log is as if the records for debugging were not there. -/
theorem logged_warning (t : Trace) :
    t.logged .warning = logged .debug (t.filter (!·.isDebugging)) := by
  induction t with
  | nil => rfl
  | cons e t ih =>
    cases e with
    | log r =>
      rw [logged_log, ih]
      cases hr : r.level with
      | debug =>
        rw [List.filter_cons_of_neg (by simp [Event.isDebugging, hr])]
        rfl
      | warning =>
        rw [List.filter_cons_of_pos (by simp [Event.isDebugging, hr]), logged_log]
        rfl
    | _ => exact congrArg (_ :: ·) ih

/-- `Annotated t u`: the trace `u` is `t` with lines of the log in between that only debugging
shows. -/
inductive Annotated : Trace → Trace → Prop
  | nil : Annotated [] []
  | same (e : Event) {t u : Trace} : Annotated t u → Annotated (e :: t) (e :: u)
  | record {r : Record} {t u : Trace} : r.level = .debug → Annotated t u →
      Annotated t (.write .shell .errors r.line.spell :: u)

namespace Annotated

variable {t u : Trace}

theorem refl (t : Trace) : Annotated t t := by
  induction t with
  | nil => exact .nil
  | cons e _ ih => exact .same e ih

/-- **Debugging puts lines in between, and changes nothing else.** -/
theorem logged (t : Trace) : Annotated (t.logged .warning) (t.logged .debug) := by
  induction t with
  | nil => exact .nil
  | cons e t ih =>
    cases e with
    | log r =>
      rw [logged_log, logged_log]
      cases hr : r.level with
      | debug => exact .record hr ih
      | warning => exact .same _ ih
    | _ => exact .same _ ih

/-- Nothing is left out or moved. -/
theorem sublist (h : Annotated t u) : t.Sublist u := by
  induction h with
  | nil => exact .slnil
  | same e _ ih => exact ih.cons_cons e
  | record _ _ ih => exact ih.cons _

/-- But for what the shell tells, the traces are the same. -/
theorem filter_eq (h : Annotated t u) :
    u.filter (!·.isTold) = t.filter (!·.isTold) := by
  induction h with
  | nil => rfl
  | same e _ ih => rw [List.filter_cons, List.filter_cons, ih]
  | record _ _ ih => exact ih

theorem written_eq (h : Annotated t u) : written .output u = written .output t := by
  induction h with
  | nil => rfl
  | same e _ ih => exact congrArg (_ ++ ·) ih
  | record _ _ ih => exact ih

end Annotated

end Trace

/-! ## Runs -/

namespace Invocation

variable {i : Invocation} {o : Options}

def debugging (i : Invocation) : Invocation :=
  { i with arguments := Options.debugText :: i.arguments }

theorem serve_debugging (i : Invocation) (o : Options) :
    i.debugging.serve o.debugging = i.serve o := rfl

/-- **The run with `-d` is the same run**, with all of its log shown. -/
theorem run_of_debugging (ho : Options.ofArguments i.arguments = .ok o) (h : Host) :
    i.debugging.run h =
      { i.serve o h with trace := (i.serve o h).trace.logged .debug } := by
  have ho' : Options.ofArguments i.debugging.arguments = .ok o.debugging := by
    rw [debugging, Options.ofArguments_debugText, ho]
    rfl
  rw [run_eq ho', serve_debugging]
  rfl

/-- **Debugging only adds to the log.**

With `-d` before arguments that are not followed, a run is the same.  Before others it asks for
debugging and for nothing else.  Then the run ends in the same way and leaves the same host.  What
it does is, record for record, what the run without does, and only the records for debugging are
written as well; so it reads the same, makes, replaces and waits for the same children, and writes
the same to standard output, and on standard error nothing is lost, moved or split. -/
theorem run_debugText (i : Invocation) (host : Host) :
    (∀ stop, Options.ofArguments i.arguments = .error stop →
      Options.ofArguments i.debugging.arguments = .error stop ∧
      i.debugging.run host = i.run host) ∧
    ∀ o, Options.ofArguments i.arguments = .ok o →
      Options.ofArguments i.debugging.arguments = .ok { o with debug := true } ∧
      (o.debug = true → i.debugging.run host = i.run host) ∧
      (i.debugging.run host).ending = (i.run host).ending ∧
      (i.debugging.run host).host = (i.run host).host ∧
      (∃ t : Trace, (i.debugging.run host).trace = t.logged .debug ∧
        (o.debug = false →
          (i.run host).trace = Trace.logged .debug (t.filter (!·.isDebugging)))) ∧
      Trace.Annotated (i.run host).trace (i.debugging.run host).trace ∧
      (i.run host).trace.Sublist (i.debugging.run host).trace ∧
      (i.debugging.run host).trace.filter (!·.isTold) = (i.run host).trace.filter (!·.isTold) ∧
      (i.debugging.run host).trace.written .output = (i.run host).trace.written .output := by
  constructor
  · intro stop ho
    have ho' : Options.ofArguments i.debugging.arguments = .error stop := by
      rw [debugging, Options.ofArguments_debugText, ho]
      rfl
    exact ⟨ho', by rw [run_of_stop ho', run_of_stop ho]⟩
  · intro o ho
    have hrun := run_eq ho host
    have hrun' := run_of_debugging ho host
    have hannotated : Trace.Annotated (i.run host).trace (i.debugging.run host).trace := by
      rw [hrun, hrun']
      cases o.debug with
      | true => exact .refl _
      | false => exact .logged _
    refine ⟨?_, ?_, ?_, ?_, ⟨(i.serve o host).trace, ?_, ?_⟩, hannotated, hannotated.sublist,
      hannotated.filter_eq, hannotated.written_eq⟩
    · rw [debugging, Options.ofArguments_debugText, ho]
      rfl
    · intro hd
      rw [hrun, hrun', hd]
      rfl
    · rw [hrun, hrun']
    · rw [hrun, hrun']
    · rw [hrun']
    · intro hd
      rw [hrun, hd]
      exact Trace.logged_warning _

/-- A command that is no UTF-8, and no child for it: with `-d` the refusal is told of in the log as
well, the byte spelled out. -/
theorem run_debugText_of_no_utf8 : ∃ (i : Invocation) (o : Options) (host : Host) (r : Record),
    host.input = [.byte 0xFF, .byte 0x0A, .interrupt] ∧ host.forks = [.failure (.ofNumber 11)] ∧
    Options.ofArguments i.arguments = .ok o ∧ o.debug = false ∧
    r.level = .debug ∧ r.text = .ofString "fork failed for " ++
      Text.quoted (.ofBytes [0xFF]) ++ .ofString ": " ++ (SystemError.ofNumber 11).message ∧
    .write .shell .errors r.line.spell ∈ (i.debugging.run host).trace ∧
    (i.debugging.run host).ending = .value 130 ∧ (i.run host).ending = .value 130 ∧
    Trace.Annotated (i.run host).trace (i.debugging.run host).trace := by
  let i : Invocation := {
    arguments := [.ofString "--no-echo"]
    environment := fun _ => none
    files := fun _ => .error .noSuchFile
    defaultFile := Config.fileIn (.ofString "/h") }
  let host : Host := {
    input := [.byte 0xFF, .byte 0x0A, .interrupt]
    forks := [.failure (.ofNumber 11)] }
  let o : Options := { noEcho := true }
  let config : Config := { echo := false }
  have ho : Options.ofArguments i.arguments = .ok o := by with_unfolding_all exact rfl
  have hload : Config.load (i.sources o) = .ok config := by with_unfolding_all exact rfl
  have hr : Session.Reaches { config } host 0 _ host := .start rfl rfl
  let r : Record := ⟨"labsh.shell.supervisor", .debug, .ofString "fork failed for " ++
    Text.quoted (.ofBytes [0xFF]) ++ .ofString ": " ++ (SystemError.ofNumber 11).message⟩
  have hround : (Session.round config host).ending = .value (some { command := _ }) := rfl
  have hlog : .log r ∈ (Session.round config host).trace := List.mem_of_getElem? (i := 3) rfl
  obtain ⟨-, hruns⟩ := run_debugText i host
  obtain ⟨ho', -, hending, -, -, hannotated, -⟩ := hruns o ho
  -- the second prompt is interrupted
  have hinterrupted := (hr.next hround).run_of_unread rfl
  have hrun := run_of_settings ho rfl hload host
  have hrun' := run_of_settings (o := o.debugging) ho' rfl hload host
  rw [hinterrupted] at hrun hrun'
  have hcode : (i.run host).ending = .value 130 := by rw [hrun]; rfl
  have hwritten : .write .shell .errors r.line.spell ∈ (i.debugging.run host).trace := by
    rw [hrun']
    refine List.mem_append_right _ (List.mem_flatMap.mpr ⟨.log r, ?_, List.mem_singleton_self _⟩)
    simp only [List.mem_append]
    exact Or.inl (Or.inl (Or.inr hlog))
  exact ⟨i, o, host, r, rfl, rfl, ho, rfl, rfl, rfl, hwritten, hending.trans hcode, hcode,
    hannotated⟩

end Invocation

end LineShell
