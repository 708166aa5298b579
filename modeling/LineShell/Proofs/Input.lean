import LineShell.Host.Event
import Mathlib.Data.List.Basic

/-!
# What readers meet

A reader gets bytes and then something stops it.  What it **meets** are the bytes together with the
mark that stopped it, if a mark did.  What a reader does depends on nothing behind what it meets.

* `Input.Taken.met`, `Trace.met`: what one reader meets, and what all readers of a trace meet.
* `Input.ended`: the input with its end written out, so that running out of input meets a mark too.
* `Input.take_eq_of_met`: a reader gets the same from every input that starts with what it met.
* `Trace.Draws i t j`: the reads of `t`, made in order on the input `i`, leave `j`.
* `Trace.Draws.taken`, `Trace.Draws.met`: the reads of a trace lose, repeat and reorder nothing.
-/

namespace LineShell

namespace Input

def Stop.mark : Stop → Input
  | .quota | .terminator => []
  | .endOfFile => [.endOfFile]
  | .interrupt => [.interrupt]
  | .failure e => [.failure e]

def Taken.met (t : Taken) : Input := ofBytes t.bytes ++ t.stop.mark

/-- The input with its end written out as a mark. -/
def ended (input : Input) : Input := input ++ [.endOfFile]

/-! ## Marks at the front -/

def Item.stop? : Item → Option Stop
  | .byte _ => none
  | .endOfFile => some .endOfFile
  | .interrupt => some .interrupt
  | .failure e => some (.failure e)

theorem Item.byte_of_stop? {item : Item} (h : item.stop? = none) : ∃ b, item = .byte b := by
  cases item with
  | byte b => exact ⟨b, rfl⟩
  | endOfFile | interrupt | failure => cases h

theorem Item.mark_of_stop? {item : Item} {stop : Stop} (h : item.stop? = some stop) :
    stop.mark = [item] := by
  cases item with
  | byte b => cases h
  | endOfFile | interrupt | failure =>
    cases h
    rfl

theorem take_mark {q : Quota} (hq : q.isMet = false) {item : Item} {stop : Stop}
    (hs : item.stop? = some stop) (rest : Input) : take q (item :: rest) = ⟨[], stop, rest⟩ := by
  cases item with
  | byte b => cases hs
  | endOfFile | interrupt | failure =>
    cases hs
    simp [take, takeOnto, hq]

theorem take_nil_of_not_isMet {q : Quota} (h : q.isMet = false) :
    take q [] = ⟨[], .endOfFile, []⟩ := by rw [take_nil, h]; rfl

/-! ## What is met and what is left -/

/-- **What a reader meets and what it leaves are together what was there**, unless it ran out of
input; then it met the end as well. -/
theorem met_append_rest (q : Quota) (input : Input) :
    (take q input).met ++ (take q input).rest = input ∨
      (take q input).met = input.ended ∧ (take q input).rest = [] := by
  induction input generalizing q with
  | nil =>
    cases hq : q.isMet with
    | true =>
      left
      rw [take_of_isMet hq]
      rfl
    | false =>
      right
      rw [take_nil_of_not_isMet hq]
      exact ⟨rfl, rfl⟩
  | cons item rest ih =>
    cases hq : q.isMet with
    | true =>
      left
      rw [take_of_isMet hq]
      rfl
    | false =>
      cases item with
      | byte b =>
        rw [take_byte hq]
        split
        · left; rfl
        · rcases ih q.afterByte with h | ⟨h, h'⟩
          · exact Or.inl (congrArg (Item.byte b :: ·) h)
          · exact Or.inr ⟨congrArg (Item.byte b :: ·) h, h'⟩
      | endOfFile | interrupt | failure =>
        left
        rw [take_mark hq rfl]
        rfl

theorem rest_suffix (q : Quota) (input : Input) : (take q input).rest <:+ input := by
  rcases met_append_rest q input with h | ⟨-, h⟩
  · exact ⟨_, h⟩
  · exact h ▸ List.nil_suffix

/-- The mark that stops a reader was there, or it is the end. -/
theorem mem_ended_of_mem_mark {q : Quota} {input : Input} {item : Item}
    (h : item ∈ (take q input).stop.mark) : item ∈ input.ended := by
  have hm : item ∈ (take q input).met := List.mem_append_right _ h
  rcases met_append_rest q input with he | ⟨he, -⟩
  · rw [← he, ended]
    exact List.mem_append_left _ (List.mem_append_left _ hm)
  · exact he ▸ hm

theorem prefix_rest_of_met_append {q : Quota} {input m : Input}
    (h : (take q input).met ++ m <+: input.ended) : m <+: (take q input).rest.ended := by
  rcases met_append_rest q input with he | ⟨he, hr⟩
  · have : input.ended = (take q input).met ++ (take q input).rest.ended := by
      rw [ended, ended, ← List.append_assoc, he]
    rw [this, List.prefix_append_right_inj] at h
    exact h
  · rw [he] at h
    have hm : m = [] := by
      have := h.length_le
      rw [List.length_append] at this
      exact List.length_eq_zero_iff.mp (by omega)
    exact hm ▸ List.nil_prefix

/-- It makes no difference to a reader whether the end of the input is written out. -/
theorem take_ended (q : Quota) (input : Input) :
    (take q input.ended).bytes = (take q input).bytes ∧
      (take q input.ended).stop = (take q input).stop := by
  induction input generalizing q with
  | nil =>
    cases hq : q.isMet with
    | true =>
      rw [take_of_isMet hq, take_of_isMet hq]
      exact ⟨rfl, rfl⟩
    | false =>
      rw [take_nil_of_not_isMet hq, ended, List.nil_append, take_mark hq rfl]
      exact ⟨rfl, rfl⟩
  | cons item rest ih =>
    have hcons : ended (item :: rest) = item :: ended rest := rfl
    rw [hcons]
    cases hq : q.isMet with
    | true =>
      rw [take_of_isMet hq, take_of_isMet hq]
      exact ⟨rfl, rfl⟩
    | false =>
      cases item with
      | byte b =>
        obtain ⟨hb, hs⟩ := ih q.afterByte
        rw [take_byte hq, take_byte hq]
        split
        · exact ⟨rfl, rfl⟩
        · exact ⟨congrArg (b :: ·) hb, hs⟩
      | endOfFile | interrupt | failure =>
        rw [take_mark hq rfl, take_mark hq rfl]
        exact ⟨rfl, rfl⟩

theorem take_eq_of_met_prefix {q : Quota} {input input' : Input}
    (h : (take q input).met <+: input') :
    (take q input').bytes = (take q input).bytes ∧
      (take q input').stop = (take q input).stop := by
  induction input generalizing q input' with
  | nil =>
    cases hq : q.isMet with
    | true =>
      rw [take_of_isMet hq, take_of_isMet hq]
      exact ⟨rfl, rfl⟩
    | false =>
      rw [take_nil_of_not_isMet hq] at h ⊢
      obtain ⟨rest', rfl⟩ := h
      have hcons : Taken.met ⟨[], .endOfFile, []⟩ ++ rest' = .endOfFile :: rest' := rfl
      rw [hcons, take_mark hq rfl]
      exact ⟨rfl, rfl⟩
  | cons item rest ih =>
    cases hq : q.isMet with
    | true =>
      rw [take_of_isMet hq, take_of_isMet hq]
      exact ⟨rfl, rfl⟩
    | false =>
      cases hs : item.stop? with
      | some stop =>
        rw [take_mark hq hs] at h ⊢
        have hmet : Taken.met ⟨[], stop, rest⟩ = [item] := Item.mark_of_stop? hs
        rw [hmet] at h
        obtain ⟨rest', rfl⟩ := h
        rw [List.singleton_append, take_mark hq hs]
        exact ⟨rfl, rfl⟩
      | none =>
        obtain ⟨b, rfl⟩ := Item.byte_of_stop? hs
        rw [take_byte hq] at h ⊢
        by_cases hb : (q.byLine && b == Line.terminator) = true
        · rw [if_pos hb] at h ⊢
          obtain ⟨rest', rfl⟩ := h
          have hcons : Taken.met ⟨[b], .terminator, rest⟩ ++ rest' = .byte b :: rest' := rfl
          rw [hcons, take_byte hq, if_pos hb]
          exact ⟨rfl, rfl⟩
        · rw [if_neg hb] at h ⊢
          obtain ⟨rest', rfl⟩ := h
          obtain ⟨hbytes, hs⟩ := ih (List.prefix_append (take q.afterByte rest).met rest')
          have hcons : Taken.met { take q.afterByte rest with
              bytes := b :: (take q.afterByte rest).bytes } ++ rest' =
            .byte b :: ((take q.afterByte rest).met ++ rest') := rfl
          rw [hcons, take_byte hq, if_neg hb]
          exact ⟨congrArg (b :: ·) hbytes, hs⟩

/-- **A reader gets the same from every input that starts with what it met.** -/
theorem take_eq_of_met {q : Quota} {input input' : Input}
    (h : (take q input).met <+: input'.ended) :
    (take q input').bytes = (take q input).bytes ∧
      (take q input').stop = (take q input).stop := by
  obtain ⟨hb, hs⟩ := take_eq_of_met_prefix h
  obtain ⟨hb', hs'⟩ := take_ended q input'
  exact ⟨hb'.symm.trans hb, hs'.symm.trans hs⟩

end Input

/-! ## Traces of reads -/

def Event.isRead : Event → Bool
  | .read _ _ _ => true
  | _ => false

namespace Trace

def met (t : Trace) : Input :=
  t.flatMap fun
    | .read _ bytes stop => Input.ofBytes bytes ++ stop.mark
    | _ => []

theorem met_append (t u : Trace) : met (t ++ u) = met t ++ met u := List.flatMap_append

theorem met_cons_of_not_isRead {e : Event} (h : e.isRead = false) (t : Trace) :
    met (e :: t) = met t := by
  cases e with
  | read a bytes stop => cases h
  | _ => rfl

theorem taken_filter_isRead (t : Trace) : taken (t.filter Event.isRead) = taken t := by
  induction t with
  | nil => rfl
  | cons e t ih =>
    cases e with
    | read a bytes stop => exact congrArg (bytes ++ ·) ih
    | _ => exact ih

theorem prefix_taken_of_find? {t : Trace} {a : Actor} {bytes : Bytes} {stop : Input.Stop}
    (h : t.find? Event.isRead = some (.read a bytes stop)) : bytes <+: taken t := by
  induction t with
  | nil => cases h
  | cons e t ih =>
    cases e with
    | read a' bytes' stop' =>
      rw [List.find?_cons_of_pos rfl, Option.some.injEq, Event.read.injEq] at h
      exact ⟨taken t, h.2.1 ▸ rfl⟩
    | _ => exact ih h

/-- `Draws i t j`: the reads of `t` are those of readers that take, one after the other, what they
want from the input `i`, and that leave `j`. -/
inductive Draws : Input → Trace → Input → Prop
  | nil (i : Input) : Draws i [] i
  | read (a : Actor) (q : Quota) {i j : Input} {t : Trace} : Draws (i.take q).rest t j →
      Draws i (.read a (i.take q).bytes (i.take q).stop :: t) j
  | other {e : Event} {i j : Input} {t : Trace} : e.isRead = false → Draws i t j →
      Draws i (e :: t) j

namespace Draws

theorem append {i j k : Input} {t u : Trace} (h : Draws i t j) (g : Draws j u k) :
    Draws i (t ++ u) k := by
  induction h with
  | nil => exact g
  | read a q _ ih => exact .read a q (ih g)
  | other he _ ih => exact .other he (ih g)

/-- At every point of a trace something is left, and the rest of the trace draws from that. -/
theorem split {t u : Trace} {i k : Input} (h : Draws i (t ++ u) k) :
    ∃ j, Draws i t j ∧ Draws j u k := by
  induction t generalizing i with
  | nil => exact ⟨i, .nil i, h⟩
  | cons e t ih =>
    cases h with
    | read a q h =>
      obtain ⟨j, h1, h2⟩ := ih h
      exact ⟨j, .read a q h1, h2⟩
    | other he h =>
      obtain ⟨j, h1, h2⟩ := ih h
      exact ⟨j, .other he h1, h2⟩

theorem of_not_isRead {t : Trace} (h : ∀ e ∈ t, e.isRead = false) (i : Input) : Draws i t i := by
  induction t with
  | nil => exact .nil i
  | cons e t ih => exact .other (h e (by simp)) (ih fun e he => h e (by simp [he]))

/-- **Nothing is lost, repeated or reordered**: the bytes that were taken, in the order in which
they were, and the bytes that are left are the bytes that were there. -/
theorem taken {i j : Input} {t : Trace} (h : Draws i t j) : t.taken ++ j.bytes = i.bytes := by
  induction h with
  | nil => rfl
  | @read a q i j t _ ih =>
    rw [← Input.bytes_take q i, ← ih, ← List.append_assoc]
    rfl
  | @other e i j t he _ ih =>
    rw [← ih]
    cases e with
    | read a bytes stop => cases he
    | _ => rfl

theorem met {i j : Input} {t : Trace} (h : Draws i t j) :
    ∃ k, t.met ++ j = i ++ List.replicate k .endOfFile ∧ (k = 0 ∨ j = []) := by
  induction h with
  | nil i => exact ⟨0, by simp [Trace.met], Or.inl rfl⟩
  | @read a q i j t _ ih =>
    obtain ⟨k, hk, hj⟩ := ih
    have hm : Trace.met (.read a (i.take q).bytes (i.take q).stop :: t) ++ j =
        (i.take q).met ++ (t.met ++ j) := List.append_assoc _ _ _
    rw [hm, hk]
    rcases Input.met_append_rest q i with he | ⟨he, hr⟩
    · exact ⟨k, by rw [← List.append_assoc, he], hj⟩
    · refine ⟨k + 1, ?_, Or.inr ?_⟩
      · rw [he, hr, Input.ended, List.replicate_succ, List.append_assoc]
        rfl
      · rcases hj with rfl | hj
        · rw [hr, List.replicate_zero, List.append_nil] at hk
          exact (List.append_eq_nil_iff.mp hk).2
        · exact hj
  | @other e i j t he _ ih => rwa [met_cons_of_not_isRead he]

theorem prefix_of_met_append {i j m : Input} {t : Trace} (h : Draws i t j)
    (hm : t.met ++ m <+: i.ended) : m <+: j.ended := by
  induction h with
  | nil => exact hm
  | @read a q i j t _ ih =>
    refine ih (Input.prefix_rest_of_met_append (q := q) ?_)
    rw [← List.append_assoc]
    exact hm
  | @other e i j t he _ ih =>
    rw [met_cons_of_not_isRead he] at hm
    exact ih hm

end Draws

end Trace

end LineShell
