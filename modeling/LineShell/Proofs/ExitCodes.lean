import LineShell.Proofs.Command
import LineShell.Proofs.Numerals

/-!
# Wait statuses and what is told of them

A wait status is read bit by bit.  Only the lowest seven bits and, if they are zero, the next whole
byte reach the outcome of a command; the outcome and its status line say no less and no more.

* `WaitStatus.Fits`, `WaitStatus.signal`, `WaitStatus.detail`: the parts of a status, as bits.
* `WaitStatus.exitCode_eq`: the exit code from these parts.
* `Outcome.killedLine`, `Outcome.exitLine`, `Outcome.lineOf`: the status lines; the line of a code
  tells the code (`Outcome.lineOf_injective`).
* `Line.Resolved`: the outcomes that a command comes to.
* `Line.spawn_resolves`: from the wait status to the outcome and its status line.
-/

namespace LineShell

/-! ## The bits of a status -/

namespace WaitStatus

variable {status : Int}

def Fits (status : Int) : Prop := -0x80000000 ≤ status ∧ status < 0x80000000

instance (status : Int) : Decidable (Fits status) :=
  inferInstanceAs (Decidable (_ ∧ _))

/-- The lowest seven bits in two's complement: the signal that killed the process, or zero if it
exited. -/
def signal (status : Int) : BitVec 7 := (BitVec.ofInt 32 status).extractLsb' 0 7

/-- The bits 8 to 15 in two's complement: the exit code of a process that exited. -/
def detail (status : Int) : BitVec 8 := (BitVec.ofInt 32 status).extractLsb' 8 8

theorem toNat_signal (status : Int) : (signal status).toNat = word status % 0x80 := by
  rw [signal, BitVec.extractLsb'_toNat, BitVec.toNat_ofInt]
  rfl

theorem toNat_detail (status : Int) : (detail status).toNat = word status / 0x100 % 0x100 := by
  rw [detail, BitVec.extractLsb'_toNat, BitVec.toNat_ofInt, Nat.shiftRight_eq_div_pow]
  rfl

theorem signal_eq_zero_iff : signal status = 0 ↔ word status % 0x80 = 0 := by
  rw [← toNat_signal, ← BitVec.toNat_inj]
  rfl

theorem signal_eq_allOnes_iff : signal status = .allOnes 7 ↔ word status % 0x80 = 0x7F := by
  rw [← toNat_signal, ← BitVec.toNat_inj]
  rfl

/-- The exit code of a C integer whose lowest seven bits are `signal` and whose next byte is
`detail`. -/
def codeOf (signal : BitVec 7) (detail : BitVec 8) : Int :=
  if signal = 0 then detail.toNat else -signal.toNat

theorem out_of_range_iff :
    (status < -0x80000000 || 0x80000000 ≤ status) = true ↔ ¬ Fits status := by
  simp only [Bool.or_eq_true, decide_eq_true_eq, Fits]
  omega

theorem exitCode_of_not_fits (h : ¬ Fits status) : exitCode status = .error .tooLarge :=
  if_pos (out_of_range_iff.mpr h)

/-- **Of a status only the lowest seven bits and the next whole byte count.** -/
theorem exitCode_of_fits (h : Fits status) (hs : signal status ≠ .allOnes 7) :
    exitCode status = .ok (codeOf (signal status) (detail status)) := by
  rw [exitCode, if_neg (mt out_of_range_iff.mp (not_not_intro h)), codeOf, toNat_signal,
    toNat_detail]
  dsimp only
  by_cases hzero : signal status = 0
  · rw [if_pos (signal_eq_zero_iff.mp hzero), if_pos hzero]
  · rw [if_neg (mt signal_eq_zero_iff.mpr hzero), if_neg hzero,
      if_pos (mt signal_eq_allOnes_iff.mpr hs)]

/-- A process that is stopped or going on has not ended. -/
theorem exitCode_of_allOnes (h : Fits status) (hs : signal status = .allOnes 7) :
    ∃ e, e ≠ .tooLarge ∧ exitCode status = .error e := by
  have hlow := signal_eq_allOnes_iff.mp hs
  rw [exitCode, if_neg (mt out_of_range_iff.mp (not_not_intro h))]
  dsimp only
  rw [hlow, if_neg (by decide), if_neg (by decide)]
  split
  · exact ⟨.stopped _, nofun, rfl⟩
  · exact ⟨.undefined status, nofun, rfl⟩

theorem exitCode_eq_ok_iff {code : Int} : exitCode status = .ok code ↔
    Fits status ∧ signal status ≠ .allOnes 7 ∧ code = codeOf (signal status) (detail status) := by
  constructor
  · intro hcode
    by_cases h : Fits status
    · by_cases hs : signal status = .allOnes 7
      · obtain ⟨e, -, he⟩ := exitCode_of_allOnes h hs
        cases he.symm.trans hcode
      · exact ⟨h, hs, Except.ok.inj (hcode.symm.trans (exitCode_of_fits h hs))⟩
    · cases (exitCode_of_not_fits h).symm.trans hcode
  · rintro ⟨h, hs, rfl⟩
    exact exitCode_of_fits h hs

theorem exitCode_eq_tooLarge_iff : exitCode status = .error .tooLarge ↔ ¬ Fits status := by
  refine ⟨?_, exitCode_of_not_fits⟩
  intro he h
  by_cases hs : signal status = .allOnes 7
  · obtain ⟨e, hne, he'⟩ := exitCode_of_allOnes h hs
    exact hne (Except.error.inj (he'.symm.trans he))
  · cases he.symm.trans (exitCode_of_fits h hs)

theorem exitCode_eq_error_iff : (∃ e, e ≠ .tooLarge ∧ exitCode status = .error e) ↔
    Fits status ∧ signal status = .allOnes 7 := by
  constructor
  · rintro ⟨e, hne, he⟩
    have h : Fits status := by
      by_contra h
      exact hne (Except.error.inj (he.symm.trans (exitCode_of_not_fits h)))
    refine ⟨h, ?_⟩
    by_contra hs
    cases he.symm.trans (exitCode_of_fits h hs)
  · rintro ⟨h, hs⟩
    exact exitCode_of_allOnes h hs

variable {s : BitVec 7} {d : BitVec 8}

theorem codeOf_nonneg_iff : 0 ≤ codeOf s d ↔ s = 0 := by
  unfold codeOf
  split
  · simpa
  · rename_i hs
    have hpos : s.toNat ≠ 0 := fun h => hs (BitVec.toNat_inj.mp h)
    simp only [hs, iff_false]
    omega

/-- The signals are those from 1 to 126, and the exit codes are those of one byte. -/
theorem codeOf_bounds (hs : s ≠ .allOnes 7) : -126 ≤ codeOf s d ∧ codeOf s d ≤ 255 := by
  have hd := d.isLt
  have hlt := s.isLt
  have hne : s.toNat ≠ 127 := fun h => hs (BitVec.toNat_inj.mp h)
  unfold codeOf
  split <;> omega

end WaitStatus

/-! ## Status lines -/

namespace Outcome

def killedLine (k : Nat) : Text := .ofString "[killed by signal " ++ .decimal k ++ .ofString "]\n"

def exitLine (e : Nat) : Text := .ofString "[exit " ++ .decimal e ++ .ofString "]\n"

def lineOf (code : Int) : Text := if code < 0 then killedLine code.natAbs else exitLine code.natAbs

theorem statusLine?_of_code (command : Text) (pid code : Int) :
    statusLine? { command, pid, code } = some (lineOf code) := by
  have hlines : statusLine? { command, pid, code } = some
      (if code < 0 then .ofString "[killed by signal " ++ .ofInt (-code) ++ .ofString "]\n"
      else .ofString "[exit " ++ .ofInt code ++ .ofString "]\n") := rfl
  rw [hlines, lineOf]
  by_cases h : code < 0
  · rw [if_pos h, if_pos h, Text.ofInt, if_neg (by omega), Int.natAbs_neg]
    rfl
  · rw [if_neg h, if_neg h, Text.ofInt, if_neg h]
    rfl

theorem killedLine_injective : Function.Injective killedLine := fun _ _ h =>
  Text.decimal_injective (List.append_cancel_left (List.append_cancel_right h))

theorem exitLine_injective : Function.Injective exitLine := fun _ _ h =>
  Text.decimal_injective (List.append_cancel_left (List.append_cancel_right h))

/-- The second letters differ. -/
theorem killedLine_ne_exitLine (k e : Nat) : killedLine k ≠ exitLine e := by
  intro h
  have hletter := congrArg (fun t : Text => t[1]?) h
  cases hletter

/-- **The status line tells the exit code.** -/
theorem lineOf_injective : Function.Injective lineOf := by
  intro code code' h
  unfold lineOf at h
  split at h
  · split at h
    · have := killedLine_injective h
      omega
    · cases killedLine_ne_exitLine _ _ h
  · split at h
    · cases killedLine_ne_exitLine _ _ h.symm
    · have := exitLine_injective h
      omega

theorem lineOf_eq_killedLine_iff {code : Int} {k : Nat} (hk : 1 ≤ k) :
    lineOf code = killedLine k ↔ code = -k := by
  have hline : lineOf (-k) = killedLine k := by
    rw [lineOf, if_pos (by omega), Int.natAbs_neg, Int.natAbs_natCast]
  rw [← hline, lineOf_injective.eq_iff]

theorem lineOf_eq_exitLine_iff {code : Int} {e : Nat} : lineOf code = exitLine e ↔ code = e := by
  have hline : lineOf e = exitLine e := by
    rw [lineOf, if_neg (by omega), Int.natAbs_natCast]
  rw [← hline, lineOf_injective.eq_iff]

theorem lineOf_ne_none (code : Int) : lineOf code ≠ .ofString "[exit None]\n" := by
  have hnone : Text.ofString "[exit None]\n" =
      .ofString "[exit " ++ .ofString "None" ++ .ofString "]\n" := by decide
  rw [hnone, lineOf]
  split
  · intro h
    have hletter := congrArg (fun t : Text => t[1]?) h
    cases hletter
  · intro h
    have hword := List.append_cancel_left (List.append_cancel_right h)
    have hdigit : CodePoint.isDigit (.ofChar 'N') = true :=
      Text.isDigit_of_mem_decimal (n := code.natAbs) (hword ▸ by decide)
    cases hdigit

end Outcome

/-! ## Commands -/

namespace Line

variable {line : Line} {h : Host} {outcome : Outcome}

/-- The outcomes that a command comes to: without a child, or with the exit code of one. -/
inductive Resolved (line : Line) (h : Host) : Outcome → Prop
  | refused {e : SystemError} : h.answer = .error e → Resolved line h { command := line.text }
  | ended {pid code : Int} : h.answer = .ok pid → -126 ≤ code → code ≤ 255 →
      Resolved line h { command := line.text, pid, code }

theorem resolved_of_spawn (ho : (line.spawn h).ending = .value outcome) :
    Resolved line h outcome := by
  have hs := line.spawn_spawned h
  generalize line.spawn h = r at hs ho
  cases hs with
  | refused ha =>
    obtain rfl := Ending.value.inj ho
    exact .refused ha
  | ended ha _ _ hcode =>
    obtain rfl := Ending.value.inj ho
    obtain ⟨-, hs, rfl⟩ := WaitStatus.exitCode_eq_ok_iff.mp hcode
    obtain ⟨hlow, hhigh⟩ := WaitStatus.codeOf_bounds hs
    exact .ended ha hlow hhigh
  | _ => cases ho

theorem ending_of_status {pid status : Int} (ha : h.answer = .ok pid) (hpid : pid ≠ 0)
    (hl : (line.life h.forked).ending = .value (.ok status)) :
    (line.spawn h).ending = match WaitStatus.exitCode status with
      | .ok code => .value { command := line.text, pid, code }
      | .error e => .fault (.status e) := by
  have hlife : line.life h.forked =
      ⟨.value (.ok status), (line.life h.forked).host, (line.life h.forked).trace⟩ := by
    rw [← hl]
  have hfresh : ({ pid } : Child).reaped = false := rfl
  have hwait := Child.await_of_status hfresh hlife
  cases hcode : WaitStatus.exitCode status with
  | ok code =>
    rw [hcode] at hwait
    rw [spawn_of_await_code ha hpid hwait]
  | error e =>
    rw [hcode] at hwait
    rw [spawn_of_await_undecided ha hpid hwait]

namespace Resolved

theorem pid_eq_none_iff (ho : Resolved line h outcome) :
    outcome.pid = none ↔ outcome.code = none := by
  cases ho with
  | refused => exact Iff.rfl
  | ended => exact ⟨nofun, nofun⟩

theorem code_eq_none_iff (ho : Resolved line h outcome) :
    outcome.code = none ↔ ∃ e, h.answer = .error e := by
  cases ho with
  | refused ha => exact ⟨fun _ => ⟨_, ha⟩, fun _ => rfl⟩
  | ended ha =>
    refine ⟨nofun, ?_⟩
    rintro ⟨e, he⟩
    cases he.symm.trans ha

theorem succeeded (ho : Resolved line h outcome) (hs : outcome.succeeded = true) :
    outcome.started = true ∧ outcome.killed = false := by
  cases ho with
  | refused => cases hs
  | @ended pid code =>
    have hcode : code = 0 := Option.some.inj (eq_of_beq hs)
    subst hcode
    exact ⟨rfl, rfl⟩

theorem statusLine?_eq_none_iff (ho : Resolved line h outcome) :
    outcome.statusLine? = none ↔ outcome.started = false := by
  cases ho with
  | refused => exact ⟨fun _ => rfl, fun _ => rfl⟩
  | ended =>
    rw [Outcome.statusLine?_of_code]
    exact ⟨nofun, nofun⟩

/-- A child that was killed is told of by its signal. -/
theorem killed_iff (ho : Resolved line h outcome) : outcome.killed = true ↔
    ∃ k : Nat, 1 ≤ k ∧ outcome.statusLine? = some (Outcome.killedLine k) := by
  cases ho with
  | refused =>
    refine ⟨nofun, ?_⟩
    rintro ⟨k, -, hline⟩
    cases hline
  | @ended pid code =>
    have hkilled : Outcome.killed { command := line.text, pid, code } = true ↔ code < 0 :=
      decide_eq_true_iff
    rw [hkilled, Outcome.statusLine?_of_code]
    simp only [Option.some.injEq]
    constructor
    · intro hneg
      exact ⟨code.natAbs, by omega, if_pos hneg⟩
    · rintro ⟨k, hk, hline⟩
      have := (Outcome.lineOf_eq_killedLine_iff hk).mp hline
      omega

/-- Any other child is told of by its exit code, which is one byte. -/
theorem exited_iff (ho : Resolved line h outcome) :
    outcome.started = true ∧ outcome.killed = false ↔
      ∃ e : Nat, e ≤ 255 ∧ outcome.statusLine? = some (Outcome.exitLine e) := by
  cases ho with
  | refused =>
    constructor
    · rintro ⟨hs, -⟩
      cases hs
    · rintro ⟨e, -, hline⟩
      cases hline
  | @ended pid code _ hlow hhigh =>
    have hkilled : Outcome.killed { command := line.text, pid, code } = false ↔ ¬ code < 0 :=
      decide_eq_false_iff_not
    rw [hkilled, Outcome.statusLine?_of_code]
    simp only [Option.some.injEq]
    constructor
    · rintro ⟨-, hnonneg⟩
      exact ⟨code.natAbs, by omega, if_neg hnonneg⟩
    · rintro ⟨e, -, hline⟩
      have := Outcome.lineOf_eq_exitLine_iff.mp hline
      exact ⟨rfl, by omega⟩

theorem statusLine?_ne_none (ho : Resolved line h outcome) :
    outcome.statusLine? ≠ some (.ofString "[exit None]\n") := by
  cases ho with
  | refused => exact nofun
  | ended =>
    rw [Outcome.statusLine?_of_code]
    exact fun hline => Outcome.lineOf_ne_none _ (Option.some.inj hline)

/-- Of two commands with children the same is told iff they have the same exit code. -/
theorem statusLine?_eq_iff {line' : Line} {h' : Host} {outcome' : Outcome}
    (ho : Resolved line h outcome) (ho' : Resolved line' h' outcome')
    (hs : outcome.started = true) (hs' : outcome'.started = true) :
    outcome.statusLine? = outcome'.statusLine? ↔ outcome.code = outcome'.code := by
  cases ho with
  | refused => cases hs
  | ended =>
    cases ho' with
    | refused => cases hs'
    | ended =>
      rw [Outcome.statusLine?_of_code, Outcome.statusLine?_of_code]
      simp only [Option.some.injEq, Outcome.lineOf_injective.eq_iff]

end Resolved

/-- **The outcome of a command and its status line say what the wait status says**, and nothing
else.

Suppose that a child was made and that the wait for it comes back with a status.  A status that is
no C integer is refused as too large, and one whose lowest seven bits are all set is refused as that
of a process that has not ended.  With any other status the command comes to an outcome: if the
seven bits are zero the code is the byte above the lowest one, and otherwise it is what the bits
make, negated.  No other bit makes a difference.

Of the outcomes that a command comes to, only that of a failed fork has neither a pid nor a code.
One that succeeded was started and not killed.  The status line is missing just where no child was
made; it tells the signal of a child that was killed and the exit code of any other, and it tells
the two apart, as well as any two codes. -/
theorem spawn_resolves (line : Line) (h : Host) :
    (∀ pid status, h.answer = .ok pid → pid ≠ 0 →
      (line.life h.forked).ending = .value (.ok status) →
      ((line.spawn h).ending = .fault (.status .tooLarge) ↔ ¬ WaitStatus.Fits status) ∧
      ((∃ e, e ≠ .tooLarge ∧ (line.spawn h).ending = .fault (.status e)) ↔
        WaitStatus.Fits status ∧ WaitStatus.signal status = .allOnes 7) ∧
      (WaitStatus.Fits status → WaitStatus.signal status ≠ .allOnes 7 → ∃ code,
        (line.spawn h).ending = .value { command := line.text, pid, code := some code } ∧
        -126 ≤ code ∧ code ≤ 255 ∧ (0 ≤ code ↔ WaitStatus.signal status = 0) ∧
        (WaitStatus.signal status = 0 → code = (WaitStatus.detail status).toNat) ∧
        (WaitStatus.signal status ≠ 0 → code = -(WaitStatus.signal status).toNat) ∧
        ∀ status', WaitStatus.Fits status' →
          WaitStatus.signal status' = WaitStatus.signal status →
          (WaitStatus.signal status = 0 →
            WaitStatus.detail status' = WaitStatus.detail status) →
          WaitStatus.exitCode status' = .ok code)) ∧
    ∀ outcome, (line.spawn h).ending = .value outcome →
      (outcome.pid = none ↔ outcome.code = none) ∧
      (outcome.code = none ↔ ∃ e, h.answer = .error e) ∧
      (outcome.succeeded = true → outcome.started = true ∧ outcome.killed = false) ∧
      (outcome.statusLine? = none ↔ outcome.started = false) ∧
      (outcome.killed = true ↔
        ∃ k : Nat, 1 ≤ k ∧ outcome.statusLine? = some (Outcome.killedLine k)) ∧
      (outcome.started = true ∧ outcome.killed = false ↔
        ∃ e : Nat, e ≤ 255 ∧ outcome.statusLine? = some (Outcome.exitLine e)) ∧
      outcome.statusLine? ≠ some (.ofString "[exit None]\n") ∧
      ∀ (line' : Line) (h' : Host) (outcome' : Outcome),
        (line'.spawn h').ending = .value outcome' →
        outcome.started = true → outcome'.started = true →
        (outcome.statusLine? = outcome'.statusLine? ↔ outcome.code = outcome'.code) := by
  constructor
  · intro pid status ha hpid hl
    have hending := ending_of_status ha hpid hl
    refine ⟨?_, ?_, ?_⟩
    · rw [← WaitStatus.exitCode_eq_tooLarge_iff, hending]
      cases WaitStatus.exitCode status <;> simp
    · rw [← WaitStatus.exitCode_eq_error_iff, hending]
      cases WaitStatus.exitCode status <;> simp
    · intro hfits hs
      rw [WaitStatus.exitCode_of_fits hfits hs] at hending
      obtain ⟨hlow, hhigh⟩ := WaitStatus.codeOf_bounds (d := WaitStatus.detail status) hs
      refine ⟨_, hending, hlow, hhigh, WaitStatus.codeOf_nonneg_iff, fun hzero => if_pos hzero,
        fun hzero => if_neg hzero, ?_⟩
      intro status' hfits' hsignal hdetail
      have hcode : WaitStatus.codeOf (WaitStatus.signal status') (WaitStatus.detail status') =
          WaitStatus.codeOf (WaitStatus.signal status) (WaitStatus.detail status) := by
        rw [hsignal]
        by_cases hzero : WaitStatus.signal status = 0
        · rw [hdetail hzero]
        · rw [WaitStatus.codeOf, WaitStatus.codeOf, if_neg hzero, if_neg hzero]
      rw [WaitStatus.exitCode_of_fits hfits' (hsignal ▸ hs), hcode]
  · intro outcome ho
    have hr := resolved_of_spawn ho
    exact ⟨hr.pid_eq_none_iff, hr.code_eq_none_iff, hr.succeeded, hr.statusLine?_eq_none_iff,
      hr.killed_iff, hr.exited_iff, hr.statusLine?_ne_none,
      fun line' h' outcome' ho' hs hs' => hr.statusLine?_eq_iff (resolved_of_spawn ho') hs hs'⟩

/-- A negative status whose lowest bits are those of a signal with a dump of the core: the child was
killed by that signal, whatever the higher bits are. -/
theorem spawn_resolves_of_negative : ∃ (line : Line) (h : Host) (outcome : Outcome),
    h.answer = .ok 7 ∧ (line.life h.forked).ending = .value (.ok (-0x7FFFFF75)) ∧
    WaitStatus.Fits (-0x7FFFFF75) ∧ WaitStatus.signal (-0x7FFFFF75) ≠ .allOnes 7 ∧
    (line.spawn h).ending = .value outcome ∧ outcome.code = some (-11) ∧
    WaitStatus.exitCode 0x0B = .ok (-11) ∧ outcome.started = true ∧
    (∃ k : Nat, 1 ≤ k ∧ outcome.statusLine? = some (Outcome.killedLine k)) ∧
    outcome.statusLine? = some (.ofString "[killed by signal 11]\n") := by
  let line : Line := ⟨[0x61], false, by decide⟩
  let h : Host := {
    programs := [⟨[0x61], .ok { ending := .ok (-0x7FFFFF75) }⟩]
    forks := [.pid 7] }
  have hfits : WaitStatus.Fits (-0x7FFFFF75) := by decide
  have hsignal : WaitStatus.signal (-0x7FFFFF75) ≠ .allOnes 7 := by decide
  obtain ⟨hstatus, htold⟩ := spawn_resolves line h
  obtain ⟨code, hending, -, -, -, -, hcode, hrest⟩ :=
    (hstatus 7 (-0x7FFFFF75) rfl (by decide) rfl).2.2 hfits hsignal
  obtain rfl : code = -11 := hcode (by decide)
  obtain ⟨-, -, -, -, hkilled, -⟩ := htold _ hending
  exact ⟨line, h, _, rfl, rfl, hfits, hsignal, hending, rfl,
    hrest 0x0B (by decide) (by decide) nofun, rfl, hkilled.mp rfl, rfl⟩

end Line

end LineShell
