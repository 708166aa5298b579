import LineShell.Proofs.Command
import LineShell.Proofs.SharedInput

/-!
# Lines that fit the limit

The limit of a line counts its terminator.  A line that is shorter than the limit is read whole,
with its terminator; but one that is just as long is cut in front of it, and then the terminator is
read as a line of its own.

* `Input.take_terminated`, `Input.take_full`: what a reader of lines takes of a line that is shorter
  than its quota, and of one that fills it.
* `Line.read_of_shorter`, `Line.read_of_filled`, `Line.read_of_terminator`: the line that is read,
  what is left, and the records.
* `Session.Reaches.next_of_filled`: after a line that fills the limit there is a prompt that an
  empty command answers.
* `Session.line_fits`: which lines are read whole, and what becomes of the others.
* `Session.full_line_splits`: a line of five bytes does not fit a limit of five bytes.
-/

namespace LineShell

open LineShell.Action

/-! ## Taking a line -/

namespace Input

variable {p : Bytes}

theorem take_terminated {n : Nat} (hp : Line.terminator ∉ p) (hn : p.length < n) (rest : Input) :
    take (.lineWithin n) (ofBytes p ++ .byte Line.terminator :: rest) =
      ⟨p ++ [Line.terminator], .terminator, rest⟩ := by
  induction p generalizing n with
  | nil =>
    obtain ⟨m, rfl⟩ := Nat.exists_eq_succ_of_ne_zero hn.ne'
    exact take_byte rfl Line.terminator rest
  | cons b p ih =>
    obtain ⟨m, rfl⟩ := Nat.exists_eq_succ_of_ne_zero (Nat.ne_zero_of_lt hn)
    rw [List.mem_cons, not_or] at hp
    have hcons : ofBytes (b :: p) = .byte b :: ofBytes p := rfl
    have hafter : (Quota.lineWithin (m + 1)).afterByte = .lineWithin m := rfl
    have ih := ih hp.2 (Nat.lt_of_succ_lt_succ hn)
    rw [hcons, List.cons_append, take_byte rfl, hafter, ih,
      if_neg (by simp [Quota.lineWithin, Ne.symm hp.1])]
    rfl

/-- A line that fills the quota is taken without its terminator, and with nothing behind it. -/
theorem take_full (hp : Line.terminator ∉ p) (rest : Input) :
    take (.lineWithin p.length) (ofBytes p ++ rest) = ⟨p, .quota, rest⟩ := by
  induction p with
  | nil => exact take_of_isMet rfl rest
  | cons b p ih =>
    rw [List.mem_cons, not_or] at hp
    have hcons : ofBytes (b :: p) = .byte b :: ofBytes p := rfl
    have hafter : (Quota.lineWithin (p.length + 1)).afterByte = .lineWithin p.length := rfl
    rw [hcons, List.cons_append, List.length_cons, take_byte rfl, hafter, ih hp.2,
      if_neg (by simp [Quota.lineWithin, Ne.symm hp.1])]

end Input

/-! ## Reading a line -/

namespace Line

variable {limit : Int} {p : Bytes} {rest : Input} {h : Host}

/-- A line that is shorter than the limit, its terminator included, is read whole. -/
theorem read_of_shorter (hp : terminator ∉ p) (hlt : p.length + 1 < limit)
    (hi : h.input = .ofBytes p ++ .byte terminator :: rest) :
    Line.read limit h = ⟨.value (.line ⟨p, false, hp⟩), { h with input := rest },
      [.read .shell (p ++ [terminator]) .terminator]⟩ := by
  have hroom : p.length < room limit := by rw [room]; omega
  have htake := Input.take_terminated hp hroom rest
  rw [← hi] at htake
  have hf : (h.input.take (.lineWithin (room limit))).stop.fault? = none := by rw [htake]; rfl
  have hb : (h.input.take (.lineWithin (room limit))).bytes ≠ [] := by rw [htake]; simp
  have hcut : isCut limit (p ++ [terminator]) = false := by simp [isCut]
  have hline : ofRaw (p ++ [terminator]) false = ⟨p, false, hp⟩ := by
    rw [ofRaw, mk.injEq]
    exact ⟨bytes_ofRaw_append hp false, rfl⟩
  rw [read_of_bytes (by omega) hf hb, htake]
  dsimp only
  rw [hcut, hline]
  rfl

/-- A line that with its terminator is as long as the limit is cut in front of the terminator. -/
theorem read_of_filled (hl : 2 ≤ limit) (hp : terminator ∉ p) (heq : p.length + 1 = limit)
    (hi : h.input = .ofBytes p ++ rest) :
    Line.read limit h = ⟨.value (.line ⟨p, true, hp⟩), { h with input := rest },
      [.read .shell p .quota, .log (truncationRecord p.length)]⟩ := by
  have hroom : room limit = p.length := by rw [room]; omega
  have htake := Input.take_full hp rest
  rw [← hi, ← hroom] at htake
  have hf : (h.input.take (.lineWithin (room limit))).stop.fault? = none := by rw [htake]; rfl
  have hb : (h.input.take (.lineWithin (room limit))).bytes ≠ [] := by
    rw [htake]
    exact List.ne_nil_of_length_pos (by dsimp only; omega)
  have hcut : isCut limit p = true := by simp [isCut, hp, hroom]
  have hline : ofRaw p true = ⟨p, true, hp⟩ := by
    rw [ofRaw, mk.injEq]
    exact ⟨bytes_ofRaw_of_notMem hp true, rfl⟩
  rw [read_of_bytes hl hf hb, htake]
  dsimp only
  rw [hcut, hline]
  rfl

theorem read_of_terminator (hl : 2 ≤ limit) (hi : h.input = .byte terminator :: rest) :
    Line.read limit h = ⟨.value (.line ⟨[], false, List.not_mem_nil⟩), { h with input := rest },
      [.read .shell [terminator] .terminator]⟩ :=
  read_of_shorter (p := []) List.not_mem_nil (by simp; omega) hi

end Line

/-! ## Prompts -/

namespace Session

variable {session : Session} {host h : Host} {n : Nat} {t : Trace} {p : Bytes} {rest : Input}

/-- **Behind a line that fills the limit there is an empty command**: unless the child takes the
terminator that was left, the next prompt is answered by nothing else. -/
theorem Reaches.next_of_filled (hprompt : session.config.prompt.Encodable)
    (hr : session.Reaches host n t h)
    (hi : (ask session.config h).host.input = .byte Line.terminator :: rest) {outcome : Outcome}
    (ho : (round session.config h).ending = .value (some outcome))
    (hleft : (round session.config h).host.input = (ask session.config h).host.input) :
    ∃ t' h', session.Reaches host (n + 1) t' h' ∧
      (ask session.config h').ending = .value (.line ⟨[], false, List.not_mem_nil⟩) ∧
      (ask session.config h').host.input = rest := by
  refine ⟨_, _, hr.next ho, ?_⟩
  have hinput : ((round session.config h).host.setPending .output []).input =
      .byte Line.terminator :: rest := (Host.input_setPending _ _ _).trans (hleft.trans hi)
  rw [ask_apply hprompt, Line.read_of_terminator session.config.two_le_lineLimit hinput]
  exact ⟨rfl, rfl⟩

/-- **A line that is shorter than the limit is read whole, and one that is as long as the limit is
not**, its terminator included in both cases.

Of a line that is as long as the limit the bytes are read and called truncated, and the terminator
is left; read next, it is an empty line.  So at a prompt such a line is two commands, the second of
them empty, unless the child of the first takes the terminator. -/
theorem line_fits {p : Bytes} (hp : Line.terminator ∉ p) (rest : Input) :
    (∀ (limit : Int) (host : Host), 2 ≤ limit →
      host.input = .ofBytes p ++ .byte Line.terminator :: rest →
      (p.length + 1 < limit → Line.read limit host =
        ⟨.value (.line ⟨p, false, hp⟩), { host with input := rest },
          [.read .shell (p ++ [Line.terminator]) .terminator]⟩) ∧
      (p.length + 1 = limit →
        Line.read limit host = ⟨.value (.line ⟨p, true, hp⟩),
          { host with input := .byte Line.terminator :: rest },
          [.read .shell p .quota, .log (Line.truncationRecord p.length)]⟩ ∧
        Line.read limit { host with input := .byte Line.terminator :: rest } =
          ⟨.value (.line ⟨[], false, List.not_mem_nil⟩), { host with input := rest },
            [.read .shell [Line.terminator] .terminator]⟩)) ∧
    ∀ (session : Session) (host h : Host) (n : Nat) (t : Trace),
      session.config.prompt.Encodable → session.Reaches host n t h →
      h.input = .ofBytes p ++ .byte Line.terminator :: rest →
      (p.length + 1 < session.config.lineLimit →
        (ask session.config h).ending = .value (.line ⟨p, false, hp⟩) ∧
        (ask session.config h).host.input = rest) ∧
      (p.length + 1 = session.config.lineLimit →
        (ask session.config h).ending = .value (.line ⟨p, true, hp⟩) ∧
        (ask session.config h).host.input = .byte Line.terminator :: rest ∧
        ∀ outcome, (round session.config h).ending = .value (some outcome) →
          (round session.config h).host.input = (ask session.config h).host.input →
          ∃ t' h', session.Reaches host (n + 1) t' h' ∧
            (ask session.config h').ending = .value (.line ⟨[], false, List.not_mem_nil⟩) ∧
            (ask session.config h').host.input = rest) := by
  constructor
  · intro limit host hl hi
    refine ⟨fun hlt => Line.read_of_shorter hp hlt hi, ?_⟩
    intro heq
    exact ⟨Line.read_of_filled hl hp heq hi, Line.read_of_terminator hl rfl⟩
  intro session host h n t hprompt hr hi
  rw [← Host.input_setPending h .output []] at hi
  constructor
  · intro hlt
    rw [ask_apply hprompt, Line.read_of_shorter hp hlt hi]
    exact ⟨rfl, rfl⟩
  · intro heq
    have hask : (ask session.config h).ending = .value (.line ⟨p, true, hp⟩) ∧
        (ask session.config h).host.input = .byte Line.terminator :: rest := by
      rw [ask_apply hprompt, Line.read_of_filled session.config.two_le_lineLimit hp heq hi]
      exact ⟨rfl, rfl⟩
    refine ⟨hask.1, hask.2, ?_⟩
    intro outcome ho hleft
    exact hr.next_of_filled hprompt hask.2 ho hleft

/-- With a limit of four bytes, `ab` and its terminator are one command.  `abc` and its terminator
are two, for no child can be made that could take the terminator. -/
theorem line_fits_of_limit_four : ∃ (session : Session) (host h : Host) (t : Trace),
    Line.terminator ∉ [0x61, 0x62] ∧ Line.terminator ∉ [0x61, 0x62, 0x63] ∧
    session.config.lineLimit = 4 ∧ session.config.prompt.Encodable ∧
    session.Reaches host 0 t h ∧
    h.input = .ofBytes [0x61, 0x62, 0x63, 0x0A, 0x64] ∧
    (Line.read 4 { input := .ofBytes [0x61, 0x62, 0x0A] }).host.input = [] ∧
    ∃ t' h', session.Reaches host 1 t' h' ∧
      (ask session.config h').ending = .value (.line ⟨[], false, List.not_mem_nil⟩) ∧
      (ask session.config h').host.input = .ofBytes [0x64] := by
  let session : Session := { config := { lineLimit := 4, echo := false } }
  let host : Host := {
    input := .ofBytes [0x61, 0x62, 0x63, 0x0A, 0x64]
    forks := [.failure (.ofNumber 11)] }
  have hprompt : session.config.prompt.Encodable := Text.encodable_ofString _
  have hp : Line.terminator ∉ [0x61, 0x62] := by decide
  have hp' : Line.terminator ∉ [0x61, 0x62, 0x63] := by decide
  have hr : session.Reaches host 0 _ _ := .start rfl rfl
  have hshort := ((line_fits hp []).1 4 { input := .ofBytes [0x61, 0x62, 0x0A] } (by decide)
    rfl).1 (by decide)
  obtain ⟨-, -, hsecond⟩ := ((line_fits hp' (Input.ofBytes [0x64])).2 session host _ 0 _ hprompt hr
    rfl).2 rfl
  have ho : (round session.config (showBanner session.config host).host).ending =
    .value (some { command := _ }) := rfl
  have hleft : (round session.config (showBanner session.config host).host).host.input =
    [.byte 0x0A, .byte 0x64] := rfl
  have hask : (ask session.config (showBanner session.config host).host).host.input =
    [.byte 0x0A, .byte 0x64] := rfl
  exact ⟨session, host, _, _, hp, hp', rfl, hprompt, hr, rfl, congrArg (·.host.input) hshort,
    hsecond _ ho (hleft.trans hask.symm)⟩

/-- **A line of five bytes does not fit a limit of five bytes**, though the limit counts the
terminator: of `abcd` and its terminator the bytes are called truncated, and the terminator is left
for an empty line. -/
theorem full_line_splits : ∃ (host : Host) (first second : Line),
    Line.terminator ∉ Text.bytes "abcd" ∧ ((Text.bytes "abcd").length + 1 : Int) ≤ 5 ∧
    host.input = .ofBytes (Text.bytes "abcd\n") ∧
    (Line.read 5 host).ending = .value (.line first) ∧ first.bytes = Text.bytes "abcd" ∧
    first.truncated = true ∧ (Line.read 5 host).host.input = [.byte Line.terminator] ∧
    (Line.read 5 (Line.read 5 host).host).ending = .value (.line second) ∧ second.bytes = [] := by
  have hp : Line.terminator ∉ Text.bytes "abcd" := by decide
  let host : Host := { input := .ofBytes (Text.bytes "abcd\n") }
  have hi : host.input = Input.ofBytes (Text.bytes "abcd") ++ [.byte Line.terminator] := rfl
  have hfilled : Line.read 5 host = _ := Line.read_of_filled (by decide) hp rfl hi
  refine ⟨host, ⟨_, true, hp⟩, ⟨[], false, List.not_mem_nil⟩, hp, by decide, rfl,
    congrArg Result.ending hfilled, rfl, rfl, congrArg (·.host.input) hfilled, ?_, rfl⟩
  rw [hfilled]
  exact congrArg Result.ending (Line.read_of_terminator (by decide) rfl)

end Session

end LineShell
