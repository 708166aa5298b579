import LineShell.Line.Read
import LineShell.Child

/-!
# Input only gets shorter

Nothing that the shell or a child does puts anything back into the input.

* `Action.Consumes x`: the action leaves no more input than it finds.  All parts of the shell have
  this property, and sequences of them too (`Action.Consumes.bind`).
* `Line.length_input_read`: reading a line leaves **less** input than it finds.
-/

namespace LineShell

namespace Action

/-- The action leaves no more input than it finds. -/
def Consumes (x : Action α) : Prop :=
  ∀ host, (x host).host.input.length ≤ host.input.length

theorem Consumes.pure (a : α) : Consumes (Pure.pure a : Action α) := fun _ => Nat.le_refl _

theorem Consumes.bind {x : Action α} {f : α → Action β} (hx : x.Consumes)
    (hf : ∀ a, (f a).Consumes) : (x >>= f).Consumes := by
  intro host
  change (Action.bind x f host).host.input.length ≤ _
  unfold Action.bind
  have h := hx host
  dsimp only
  split
  · exact Nat.le_trans (hf _ _) h
  · exact h
  · exact h

theorem consumes_emits (t : Trace) : (emits t).Consumes := fun _ => Nat.le_refl _

theorem consumes_emit (e : Event) : (emit e).Consumes := fun _ => Nat.le_refl _

theorem consumes_host : host.Consumes := fun _ => Nat.le_refl _

theorem consumes_raise (f : Fault) : (raise f : Action α).Consumes := fun _ => Nat.le_refl _

theorem consumes_depart (d : Departure) : (depart d : Action α).Consumes := fun _ => Nat.le_refl _

theorem consumes_liftExcept (toFault : ε → Fault) (e : Except ε α) :
    (liftExcept toFault e).Consumes := by
  cases e with
  | ok a => exact .pure a
  | error e => exact consumes_raise _

theorem Consumes.attempt {x : Action α} (hx : x.Consumes) : x.attempt.Consumes := hx

theorem Consumes.departing {x : Action Empty} (hx : x.Consumes) : x.departing.Consumes := hx

theorem consumes_buffer (s : Stream) (bs : Bytes) : (buffer s bs).Consumes := by
  intro host; cases s <;> exact Nat.le_refl _

theorem consumes_flush (a : Actor) (s : Stream) : (flush a s).Consumes := by
  intro host; cases s <;> exact Nat.le_refl _

theorem consumes_write (a : Actor) (s : Stream) (t : Text) : (write a s t).Consumes :=
  .bind (consumes_liftExcept _ _) fun _ => .bind (consumes_buffer _ _) fun _ => consumes_flush _ _

theorem consumes_takeInput (a : Actor) (q : Quota) : (takeInput a q).Consumes := by
  intro h
  rw [takeInput_apply]
  have := Input.length_take q h.input
  dsimp only
  omega

theorem consumes_nextReply : nextReply.Consumes := by
  intro host
  unfold nextReply
  split <;> exact Nat.le_refl _

theorem consumes_fork : fork.Consumes := by
  refine .bind (consumes_flush _ _) fun _ => .bind (consumes_flush _ _) fun _ =>
    .bind consumes_nextReply fun reply => ?_
  cases reply with
  | error e => exact .bind (consumes_emit _) fun _ => consumes_raise _
  | ok pid => exact .bind (consumes_emit _) fun _ => .pure _

theorem consumes_exec (path : Bytes) : (exec path).Consumes := by
  refine .bind (consumes_emit _) fun _ => .bind consumes_host fun host => ?_
  split
  · exact consumes_depart _
  · exact consumes_raise _

end Action

open LineShell.Action

theorem Child.consumes_await (child : Child) {life : Action (Except SystemError Int)}
    (h : life.Consumes) : (child.await life).Consumes := by
  unfold Child.await
  split
  · exact consumes_raise _
  · exact .bind (consumes_emit _) fun _ => .bind h fun _ => .bind (consumes_emit _) fun _ =>
      .bind (consumes_liftExcept _ _) fun _ => .pure _

theorem Image.consumes_run (image : Image) : image.run.Consumes := by
  have h : (do
      emits (Event.writes .child .output image.output)
      emits (Event.writes .child .errors image.errors)
      return image.ending : Action (Except SystemError Int)).Consumes :=
    .bind (consumes_emits _) fun _ => .bind (consumes_emits _) fun _ => .pure _
  unfold Image.run
  cases image.reads with
  | none => exact h
  | some q =>
    exact .bind (consumes_takeInput _ _) fun _ => .bind (consumes_emit _) fun _ => h

namespace Line

theorem consumes_become (line : Line) : line.become.Consumes := by
  refine .bind (.attempt (.bind (.attempt (consumes_exec _)) fun r => ?_)) fun _ =>
    .bind (consumes_emit _) fun _ => consumes_depart _
  split
  · split
    · exact consumes_write _ _ _
    · exact .pure _
  · exact .pure _

theorem consumes_life (line : Line) : line.life.Consumes := by
  refine .bind (.departing line.consumes_become) fun d => ?_
  cases d with
  | replaced image => exact image.consumes_run
  | exited code => exact .pure _

/-- Running a command leaves no more input than it finds. -/
theorem consumes_spawn (line : Line) : line.spawn.Consumes := by
  refine .bind (.attempt consumes_fork) fun r => ?_
  split
  · exact .bind (consumes_emit _) fun _ => .bind (consumes_write _ _ _) fun _ => .pure _
  · exact consumes_raise _
  · exact .bind line.consumes_become fun e => nomatch e
  · exact .bind (consumes_emit _) fun _ => .bind (Child.consumes_await _ line.consumes_life)
      fun _ => .bind (consumes_liftExcept _ _) fun _ => .bind (consumes_emit _) fun _ => .pure _

end Line

/-! ## Reading a line -/

/-- A line that is read is gone from the input. -/
theorem Line.length_input_read {limit : Int} {h : Host} {line : Line}
    (hr : (Line.read limit h).ending = .value (.line line)) :
    (Line.read limit h).host.input.length < h.input.length := by
  unfold Line.read at hr ⊢
  split at hr
  · cases hr
  · rename_i hl
    rw [if_neg hl]
    obtain ⟨raw, htake, hr, hhost⟩ := bind_eq_value hr
    rw [hhost]
    rw [takeInput_apply] at htake hr ⊢
    have hlen := Input.length_take (.lineWithin (limit - 1).toNat) h.input
    have hraw : (h.input.take (.lineWithin (limit - 1).toNat)).bytes = raw := by
      dsimp only at htake
      split at htake
      · cases htake
      · cases htake
      · exact Ending.value.inj htake
    split at hr
    · obtain ⟨_, _, hr, _⟩ := bind_eq_value hr
      cases hr
    · rename_i hne
      rw [if_neg hne]
      have : raw.length ≠ 0 := by simpa using hne
      refine Nat.lt_of_le_of_lt (m := (h.input.take (.lineWithin (limit - 1).toNat)).rest.length)
        ?_ (by rw [hraw] at hlen; omega)
      dsimp only
      split <;> exact Nat.le_refl _

end LineShell
