import LineShell.Proofs.Display

/-!
# Every input comes to its end

A session reads until its input ends, and it reads lines byte for byte.  Neither goes on for ever:
a line takes no more single reads than there are items left, or than the limit allows; and a prompt
that is followed by another one takes at least one byte away.

* `Input.Pulls`: the single reads of one line, with their number; `Input.pulls`,
  `Input.Pulls.unique`: they come to what `Input.take` says, and to nothing else.
* `Trace.takenBy`: the bytes that the reads of one reader took.
* `Session.StopsAt`: the prompt that no other one follows.
* `Session.run_finishes`: there is such a prompt, and all commands before it are paid for with bytes
  that the shell itself read.
-/

namespace LineShell

open LineShell.Action

/-! ## Byte for byte -/

namespace Input

/-- `Pulls limit data input n t`: a reader that has `data` reads single bytes from the input until
it has as many as the limit allows, or a terminator, or meets a mark.  It reads `n` times, and `t`
is what it comes to. -/
inductive Pulls (limit : Nat) : Bytes → Input → Nat → Taken → Prop
  | full {data : Bytes} (input : Input) : limit ≤ data.length →
      Pulls limit data input 0 ⟨data, .quota, input⟩
  | ended {data : Bytes} : data.length < limit → Pulls limit data [] 1 ⟨data, .endOfFile, []⟩
  | mark {data : Bytes} {item : Item} {stop : Stop} (rest : Input) : data.length < limit →
      item.stop? = some stop → Pulls limit data (item :: rest) 1 ⟨data, stop, rest⟩
  | terminator {data : Bytes} (rest : Input) : data.length < limit →
      Pulls limit data (.byte Line.terminator :: rest) 1
        ⟨data ++ [Line.terminator], .terminator, rest⟩
  | byte {data : Bytes} {b : UInt8} {rest : Input} {n : Nat} {t : Taken} : data.length < limit →
      b ≠ Line.terminator → Pulls limit (data ++ [b]) rest n t →
      Pulls limit data (.byte b :: rest) (n + 1) t

theorem isMet_lineWithin {n : Nat} (hn : 0 < n) : (Quota.lineWithin n).isMet = false := by
  obtain ⟨m, rfl⟩ := Nat.exists_eq_succ_of_ne_zero hn.ne'
  rfl

theorem take_lineWithin_terminator {n : Nat} (hn : 0 < n) (rest : Input) :
    take (.lineWithin n) (.byte Line.terminator :: rest) =
      ⟨[Line.terminator], .terminator, rest⟩ := by
  rw [take_byte (isMet_lineWithin hn)]
  rfl

theorem take_lineWithin_byte {n : Nat} (hn : 0 < n) {b : UInt8} (hb : b ≠ Line.terminator)
    (rest : Input) : take (.lineWithin n) (.byte b :: rest) =
      { take (.lineWithin (n - 1)) rest with
        bytes := b :: (take (.lineWithin (n - 1)) rest).bytes } := by
  have hstop : ((Quota.lineWithin n).byLine && b == Line.terminator) = false := by
    rw [beq_eq_false_iff_ne.mpr hb, Bool.and_false]
  rw [take_byte (isMet_lineWithin hn), hstop]
  rfl

/-- **Byte for byte a reader comes to what it takes**, in as many reads as it meets items. -/
theorem pulls (limit : Nat) (data : Bytes) (input : Input) :
    Pulls limit data input (input.take (.lineWithin (limit - data.length))).met.length
      { input.take (.lineWithin (limit - data.length)) with
        bytes := data ++ (input.take (.lineWithin (limit - data.length))).bytes } := by
  induction input generalizing data with
  | nil =>
    rcases Nat.lt_or_ge data.length limit with hlimit | hlimit
    · rw [take_nil_of_not_isMet (isMet_lineWithin (Nat.sub_pos_of_lt hlimit)), List.append_nil]
      exact .ended hlimit
    · rw [Nat.sub_eq_zero_of_le hlimit, take_of_isMet rfl, List.append_nil]
      exact .full _ hlimit
  | cons item rest ih =>
    rcases Nat.lt_or_ge data.length limit with hlimit | hlimit
    · have hroom := Nat.sub_pos_of_lt hlimit
      cases hs : item.stop? with
      | some stop =>
        rw [take_mark (isMet_lineWithin hroom) hs, Taken.met, Item.mark_of_stop? hs,
          List.append_nil]
        exact .mark rest hlimit hs
      | none =>
        obtain ⟨b, rfl⟩ := Item.byte_of_stop? hs
        by_cases hb : b = Line.terminator
        · rw [hb, take_lineWithin_terminator hroom]
          exact .terminator rest hlimit
        · have hleft : limit - data.length - 1 = limit - (data ++ [b]).length := by
            rw [List.length_append, List.length_singleton, Nat.sub_sub]
          rw [take_lineWithin_byte hroom hb, hleft]
          have hrest := ih (data ++ [b])
          rw [List.append_assoc] at hrest
          exact .byte hlimit hb hrest
    · rw [Nat.sub_eq_zero_of_le hlimit, take_of_isMet rfl, List.append_nil]
      exact .full _ hlimit

theorem Pulls.unique {limit : Nat} {data : Bytes} {input : Input} {n n' : Nat} {t t' : Taken}
    (h : Pulls limit data input n t) (h' : Pulls limit data input n' t') : n' = n ∧ t' = t := by
  induction h generalizing n' with
  | full input hlimit =>
    cases h' with
    | full => exact ⟨rfl, rfl⟩
    | ended hlimit' | mark _ hlimit' | terminator _ hlimit' | byte hlimit' =>
      exact absurd hlimit (Nat.not_le_of_lt hlimit')
  | ended hlimit =>
    cases h' with
    | full _ hlimit' => exact absurd hlimit' (Nat.not_le_of_lt hlimit)
    | ended => exact ⟨rfl, rfl⟩
  | mark rest hlimit hs =>
    cases h' with
    | full _ hlimit' => exact absurd hlimit' (Nat.not_le_of_lt hlimit)
    | mark _ _ hs' => exact ⟨rfl, by rw [Option.some.inj (hs'.symm.trans hs)]⟩
    | terminator | byte => cases hs
  | terminator rest hlimit =>
    cases h' with
    | full _ hlimit' => exact absurd hlimit' (Nat.not_le_of_lt hlimit)
    | mark _ _ hs' => cases hs'
    | terminator => exact ⟨rfl, rfl⟩
    | byte _ hb => exact absurd rfl hb
  | byte hlimit hb _ ih =>
    cases h' with
    | full _ hlimit' => exact absurd hlimit' (Nat.not_le_of_lt hlimit)
    | mark _ _ hs' => cases hs'
    | terminator => exact absurd rfl hb
    | byte _ _ hrest =>
      obtain ⟨rfl, rfl⟩ := ih hrest
      exact ⟨rfl, rfl⟩

theorem length_met_take (q : Quota) (input : Input) :
    (take q input).met.length ≤ input.length + 1 := by
  rcases met_append_rest q input with h | ⟨h, -⟩
  · have hlength := congrArg List.length h
    rw [List.length_append] at hlength
    omega
  · rw [h, ended, List.length_append, List.length_singleton]

theorem length_met_lineWithin (n : Nat) (input : Input) :
    (take (.lineWithin n) input).met.length ≤ n := by
  rw [Taken.met, List.length_append, ofBytes, List.length_map]
  rcases take_lineWithin n input with ⟨v, ht, -, hv⟩ | ⟨-, -, hlength, hquota⟩
  · rw [ht, List.length_append]
    exact hv
  · cases hs : (take (.lineWithin n) input).stop with
    | quota | terminator => exact hlength
    | endOfFile | interrupt | failure =>
      have hne : (take (.lineWithin n) input).bytes.length ≠ n := by
        intro hfull
        cases hs.symm.trans (hquota.mpr hfull)
      exact Nat.lt_of_le_of_ne hlength hne

end Input

/-! ## Who took what -/

namespace Trace

def takenBy (actor : Actor) (t : Trace) : Bytes :=
  t.flatMap fun
    | .read a bytes _ => if a = actor then bytes else []
    | _ => []

theorem takenBy_append (actor : Actor) (t u : Trace) :
    takenBy actor (t ++ u) = takenBy actor t ++ takenBy actor u := List.flatMap_append

theorem takenBy_filter_isRead (actor : Actor) (t : Trace) :
    takenBy actor (t.filter Event.isRead) = takenBy actor t := by
  induction t with
  | nil => rfl
  | cons e t ih =>
    cases e with
    | read a bytes stop => exact congrArg (_ ++ ·) ih
    | _ => exact ih

theorem length_takenBy_le (actor : Actor) (t : Trace) :
    (takenBy actor t).length ≤ (taken t).length := by
  induction t with
  | nil => exact Nat.le_refl _
  | cons e t ih =>
    cases e with
    | read a bytes stop =>
      have hcons : takenBy actor (.read a bytes stop :: t) =
        (if a = actor then bytes else []) ++ takenBy actor t := rfl
      have htaken : taken (.read a bytes stop :: t) = bytes ++ taken t := rfl
      rw [hcons, htaken, List.length_append, List.length_append]
      split
      · omega
      · rw [List.length_nil]
        omega
    | _ => exact ih

end Trace

/-- A line is read with one read, and behind that there is no more than the log. -/
theorem Line.read_takes {limit : Int} (hl : 2 ≤ limit) (h : Host) : ∃ logs,
    (Line.read limit h).trace = .read .shell (h.input.take (.lineWithin (room limit))).bytes
      (h.input.take (.lineWithin (room limit))).stop :: logs ∧
    ∀ e ∈ logs, ∃ r, e = .log r := by
  cases hf : (h.input.take (.lineWithin (room limit))).stop.fault? with
  | some f =>
    rw [read_of_fault hl hf]
    exact ⟨[], rfl, nofun⟩
  | none =>
    by_cases hb : (h.input.take (.lineWithin (room limit))).bytes = []
    · rw [read_of_empty hl hf hb, hb]
      exact ⟨_, rfl, List.forall_mem_singleton.mpr ⟨_, rfl⟩⟩
    · rw [read_of_bytes hl hf hb]
      refine ⟨_, rfl, ?_⟩
      split
      · exact List.forall_mem_singleton.mpr ⟨_, rfl⟩
      · exact nofun

theorem Line.ne_nil_of_mem_read {limit : Int} {h : Host} {line : Line}
    (hr : (Line.read limit h).ending = .value (.line line)) {raw : Bytes} {stop : Input.Stop}
    (hmem : .read .shell raw stop ∈ (Line.read limit h).trace) : raw ≠ [] := by
  obtain ⟨hl, -, hb⟩ := bytes_of_line hr
  obtain ⟨logs, htrace, hlogs⟩ := read_takes hl h
  rw [htrace] at hmem
  rcases List.mem_cons.mp hmem with hread | hlog
  · cases hread
    exact hb
  · obtain ⟨_, hlog⟩ := hlogs _ hlog
    cases hlog

/-- **Reading a line comes to its end**, however long the limit allows it to be. -/
theorem Line.read_pulls {limit : Int} (hl : 2 ≤ limit) (h : Host) : ∃ n t logs,
    Input.Pulls (room limit) [] h.input n t ∧
    (∀ n' t', Input.Pulls (room limit) [] h.input n' t' → n' = n ∧ t' = t) ∧
    n ≤ room limit ∧ n ≤ h.input.length + 1 ∧
    (Line.read limit h).trace = .read .shell t.bytes t.stop :: logs ∧
    (∀ e ∈ logs, e.isRead = false) ∧ (Line.read limit h).host.input = t.rest := by
  have hpulls := Input.pulls (room limit) [] h.input
  obtain ⟨logs, htrace, hlogs⟩ := read_takes hl h
  have hreads : ∀ e ∈ logs, e.isRead = false := by
    intro e he
    obtain ⟨r, rfl⟩ := hlogs e he
    rfl
  refine ⟨_, _, logs, hpulls, fun n' t' => hpulls.unique, Input.length_met_lineWithin _ _,
    Input.length_met_take _ _, htrace, hreads, ?_⟩
  rw [host_read hl]
  rfl

namespace Session

variable {session : Session} {config : Config} {host h : Host} {n : Nat} {t : Trace} {line : Line}

/-- **For each command the shell takes something away**, in one read. -/
theorem ask_takes (hl : (ask config h).ending = .value (.line line)) :
    ∃ raw stop, raw ≠ [] ∧ (ask config h).trace.filter Event.isRead = [.read .shell raw stop] ∧
      raw ++ (ask config h).host.input.bytes = h.input.bytes := by
  obtain ⟨raw, stop, -, hreads, htaken⟩ := ask_of_line hl
  have hdraws : (ask config h).trace.Draws h.input (ask config h).host.input :=
    draws_rule.bind (draws_rule.write h _ _ _) fun _ _ => draws_rule.read _ _
  refine ⟨raw, stop, ?_, hreads, htaken ▸ hdraws.taken⟩
  obtain ⟨_, hwrite, hread, -⟩ := bind_eq_value hl
  obtain ⟨bytes, hw⟩ := write_of_value hwrite
  rw [hw] at hread
  have hmem : .read .shell raw stop ∈ (ask config h).trace.filter Event.isRead := by
    rw [hreads]
    exact List.mem_singleton_self _
  rw [ask, bind_of_value hw] at hmem
  rcases List.mem_append.mp (List.mem_filter.mp hmem).1 with hwrites | hmem
  · cases Event.eq_of_mem_writes hwrites
  · exact Line.ne_nil_of_mem_read hread hmem

theorem takenBy_ask (hl : (ask config h).ending = .value (.line line)) :
    1 ≤ ((ask config h).trace.takenBy .shell).length := by
  obtain ⟨raw, stop, hraw, hreads, -⟩ := ask_takes hl
  rw [← Trace.takenBy_filter_isRead, hreads]
  have htaken : Trace.takenBy .shell [.read .shell raw stop] = raw := List.append_nil raw
  rw [htaken]
  exact List.length_pos_of_ne_nil hraw

theorem line_of_round {outcome : Outcome} (ho : (round config h).ending = .value (some outcome)) :
    ∃ line, (ask config h).ending = .value (.line line) := by
  rw [round_eq] at ho
  obtain ⟨reading, hask, ho, -⟩ := bind_eq_value ho
  cases reading with
  | endOfStream => cases ho
  | line line => exact ⟨line, hask⟩

/-- **The commands up to a prompt are paid for with bytes that the shell itself read.** -/
theorem Reaches.le_takenBy (hr : session.Reaches host n t h) :
    n ≤ (t.takenBy .shell).length := by
  induction hr with
  | start => exact Nat.zero_le _
  | @next n t h outcome _ ho ih =>
    obtain ⟨line, hl⟩ := line_of_round ho
    have hround : ∃ v, (round session.config h).trace = (ask session.config h).trace ++ v := by
      rw [round_eq]
      exact trace_bind _ _ h
    obtain ⟨v, hv⟩ := hround
    have hask := takenBy_ask hl
    rw [hv, Trace.takenBy_append, Trace.takenBy_append, List.length_append,
      List.length_append]
    omega

/-- A prompt is reached in one way only. -/
theorem Reaches.unique {t' : Trace} {h' : Host} (hr : session.Reaches host n t h)
    (hr' : session.Reaches host n t' h') : t' = t ∧ h' = h := by
  induction hr generalizing t' h' with
  | start =>
    cases hr'
    exact ⟨rfl, rfl⟩
  | next _ _ ih =>
    cases hr' with
    | next hr' =>
      obtain ⟨rfl, rfl⟩ := ih hr'
      exact ⟨rfl, rfl⟩

theorem Reaches.of_le {m : Nat} (hr : session.Reaches host n t h) (hm : m ≤ n) :
    ∃ t' h', session.Reaches host m t' h' := by
  induction hr with
  | start hrun hb =>
    obtain rfl := Nat.le_zero.mp hm
    exact ⟨_, _, .start hrun hb⟩
  | @next n t h outcome hr ho ih =>
    rcases Nat.lt_or_eq_of_le hm with hlt | rfl
    · exact ih (Nat.le_of_lt_succ hlt)
    · exact ⟨_, _, hr.next ho⟩

/-! ## The last prompt -/

/-- A run comes to its prompt number `n`, and no other one follows. -/
structure StopsAt (session : Session) (host : Host) (n : Nat) (t : Trace) (h : Host) : Prop where
  reaches : session.Reaches host n t h
  silent : ∀ outcome, (round session.config h).ending ≠ .value (some outcome)

namespace StopsAt

theorem le {m : Nat} {t' : Trace} {h' : Host} (hs : session.StopsAt host n t h)
    (hr : session.Reaches host m t' h') : m ≤ n := by
  by_contra hm
  obtain ⟨_, _, hr⟩ := hr.of_le (Nat.lt_of_not_le hm)
  cases hr with
  | next hr ho =>
    obtain ⟨-, rfl⟩ := hs.reaches.unique hr
    exact hs.silent _ ho

/-- **The run ends as the last round does**, and nothing is done behind that but a word to the
log. -/
theorem run (hs : session.StopsAt host n t h) : ∃ last, session.run host =
    let r := round session.config h
    ⟨r.ending.map fun _ => ({ session with running := false }, ⟨n, last⟩), r.host,
      t ++ (r.trace ++ closing (r.ending.map fun _ => ⟨n, last⟩))⟩ := by
  obtain ⟨hr, hsilent⟩ := hs
  obtain ⟨last, hrun⟩ := hr.run
  refine ⟨last, ?_⟩
  rw [hrun, rest, rounds_eq, bind_assoc]
  rcases hround : round session.config h with ⟨ending, left, u⟩
  cases ending with
  | value o =>
    cases o with
    | some outcome => exact absurd (congrArg Result.ending hround) (hsilent outcome)
    | none =>
      rw [bind_of_value hround]
      rfl
  | fault f =>
    rw [bind_of_fault hround]
    exact congrArg (Result.mk _ _ <| t ++ ·) (List.append_nil u).symm
  | departure d =>
    rw [bind_of_departure hround]
    exact congrArg (Result.mk _ _ <| t ++ ·) (List.append_nil u).symm

end StopsAt

/-- **From every prompt a run comes to the last one**: each prompt but that finds less input than
the one before it. -/
theorem Reaches.stops (hr : session.Reaches host n t h) :
    ∃ m t' h', session.StopsAt host m t' h' := by
  induction hk : h.input.length using Nat.strong_induction_on generalizing n t h with
  | _ k ih =>
    by_cases ho : ∃ outcome, (round session.config h).ending = .value (some outcome)
    · obtain ⟨outcome, ho⟩ := ho
      exact ih _ (hk ▸ length_input_round ho) (hr.next ho) rfl
    · exact ⟨n, t, h, hr, not_exists.mp ho⟩

/-! ## The end of the input -/

/-- A prompt that cannot be shown has no line behind it. -/
theorem encodable_of_ask (hl : (ask config h).ending = .value (.line line)) :
    config.prompt.Encodable := by
  by_contra hprompt
  obtain ⟨_, hwrite, -⟩ := bind_eq_value hl
  obtain ⟨place, hfault⟩ := write_of_not_encodable hprompt .shell .output
  rw [hfault] at hwrite
  cases hwrite

/-- Where an end of file is met before any byte, a prompt that is shown has no command. -/
theorem round_of_endOfFile (hprompt : config.prompt.Encodable)
    (hend : h.input.head?.getD .endOfFile = .endOfFile) :
    (round config h).ending = .value none ∧ (round config h).host.input = h.input.tail := by
  have hl := config.two_le_lineLimit
  have htake : (h.setPending .output []).input.take
      (.lineWithin (Line.room config.lineLimit)) = ⟨[], .endOfFile, h.input.tail⟩ := by
    have hmet := Input.isMet_lineWithin (Line.room_pos hl)
    rw [h.input_setPending]
    cases hi : h.input with
    | nil => exact Input.take_nil_of_not_isMet hmet
    | cons item more =>
      rw [hi] at hend
      obtain rfl : item = .endOfFile := hend
      exact Input.take_mark hmet rfl more
  have hf : ((h.setPending .output []).input.take
      (.lineWithin (Line.room config.lineLimit))).stop.fault? = none := by
    rw [htake]
    rfl
  have hask := ask_apply hprompt h
  rw [Line.read_of_empty hl hf (by rw [htake]), htake] at hask
  rw [round_eq, bind_of_value hask]
  exact ⟨rfl, rfl⟩

/-- Where an end of file is met before any byte, the prompt is the last, whatever comes behind. -/
theorem Reaches.stopsAt_of_endOfFile (hr : session.Reaches host n t h)
    (hend : h.input.head?.getD .endOfFile = .endOfFile) : session.StopsAt host n t h := by
  refine ⟨hr, ?_⟩
  intro outcome ho
  obtain ⟨line, hl⟩ := line_of_round ho
  obtain ⟨hnone, -⟩ := round_of_endOfFile (encodable_of_ask hl) hend
  cases hnone.symm.trans ho

theorem length_takenBy_run (session : Session) (host : Host) (actor : Actor) :
    ((session.run host).trace.takenBy actor).length ≤ host.input.bytes.length := by
  have hdraws : (session.run host).trace.Draws host.input (session.run host).host.input :=
    draws_rule.run host session
  have htaken := congrArg List.length hdraws.taken
  have hle := Trace.length_takenBy_le actor (session.run host).trace
  rw [List.length_append] at htaken
  omega

theorem Reaches.le_takenBy_run (hr : session.Reaches host n t h) :
    n ≤ ((session.run host).trace.takenBy .shell).length := by
  obtain ⟨last, hrun⟩ := hr.run
  have hle := hr.le_takenBy
  rw [hrun, Trace.takenBy_append, List.length_append]
  omega

theorem commands_le {session' : Session} {report : Report}
    (hv : (session.run host).ending = .value (session', report)) :
    report.commands ≤ ((session.run host).trace.takenBy .shell).length := by
  cases hrunning : session.running with
  | true =>
    obtain ⟨t, h, hr, -⟩ := (run_of_value hv).2 hrunning
    exact hr.le_takenBy_run
  | false =>
    rw [run_eq_of_not_running hrunning] at hv
    obtain ⟨_, -, hv, -⟩ := bind_eq_value hv
    obtain ⟨_, -, hv, -⟩ := bind_eq_value hv
    cases hv
    exact Nat.zero_le _

/-- **A session ends on every input.**

A line is read in single reads, and there are no more of them than there are items left, and no more
than the limit allows, however large it is.  For each command the shell takes at least one byte from
the input, in a read of its own.  So there are no more prompts with a command than bytes that the
shell took, and these are no more than there were; a session that runs and can show its banner has a
last prompt, and its run is what was done up to there and the round behind that.

Where the next item is an end of file no other prompt follows in any case; and if that prompt can be
shown the run comes to its end there, and all that comes behind is left. -/
theorem run_finishes (session : Session) (host : Host) :
    (∀ limit : Int, 2 ≤ limit → ∀ h : Host, ∃ n t logs,
      Input.Pulls (limit - 1).toNat [] h.input n t ∧
      (∀ n' t', Input.Pulls (limit - 1).toNat [] h.input n' t' → n' = n ∧ t' = t) ∧
      n ≤ (limit - 1).toNat ∧ n ≤ h.input.length + 1 ∧
      (Line.read limit h).trace = .read .shell t.bytes t.stop :: logs ∧
      (∀ e ∈ logs, e.isRead = false) ∧ (Line.read limit h).host.input = t.rest) ∧
    (∀ n t h line, session.Reaches host n t h →
      (ask session.config h).ending = .value (.line line) →
      n ≤ (t.takenBy .shell).length ∧
      ∃ raw stop, raw ≠ [] ∧
        (ask session.config h).trace.filter Event.isRead = [.read .shell raw stop] ∧
        raw ++ (ask session.config h).host.input.bytes = h.input.bytes) ∧
    (session.running = true → (showBanner session.config host).ending = .value () →
      ∃ n t h last, session.StopsAt host n t h ∧
        (∀ m t' h', session.Reaches host m t' h' → m ≤ n) ∧
        n ≤ ((session.run host).trace.takenBy .shell).length ∧
        session.run host =
          let r := round session.config h
          ⟨r.ending.map fun _ => ({ session with running := false }, ⟨n, last⟩), r.host,
            t ++ (r.trace ++ closing (r.ending.map fun _ => ⟨n, last⟩))⟩) ∧
    (∀ session' report, (session.run host).ending = .value (session', report) →
      report.commands ≤ ((session.run host).trace.takenBy .shell).length) ∧
    ((session.run host).trace.takenBy .shell).length ≤ host.input.bytes.length ∧
    ∀ n t h, session.Reaches host n t h → h.input.head?.getD .endOfFile = .endOfFile →
      (∀ m t' h', session.Reaches host m t' h' → m ≤ n) ∧
      (session.config.prompt.Encodable → ∃ last,
        (session.run host).ending = .value ({ session with running := false }, ⟨n, last⟩) ∧
        (session.run host).host.input = h.input.tail) := by
  refine ⟨fun limit hl h => Line.read_pulls hl h, ?_, ?_, fun _ _ => commands_le,
    length_takenBy_run session host .shell, ?_⟩
  · intro n t h line hr hl
    exact ⟨hr.le_takenBy, ask_takes hl⟩
  · intro hrunning hbanner
    obtain ⟨n, t, h, hs⟩ := (Reaches.start hrunning hbanner).stops
    obtain ⟨last, hrun⟩ := hs.run
    exact ⟨n, t, h, last, hs, fun m t' h' => hs.le, hs.reaches.le_takenBy_run, hrun⟩
  · intro n t h hr hend
    have hs := hr.stopsAt_of_endOfFile hend
    refine ⟨fun m t' h' => hs.le, ?_⟩
    intro hprompt
    obtain ⟨hnone, hleft⟩ := round_of_endOfFile hprompt hend
    obtain ⟨last, hrun⟩ := hs.run
    refine ⟨last, ?_, ?_⟩
    · rw [hrun]
      dsimp only
      rw [hnone]
      rfl
    · rw [hrun]
      exact hleft

/-- Behind an end of file there is one more line, and it is not read. -/
theorem run_finishes_of_endOfFile : ∃ (session : Session) (host : Host),
    host.input = Input.ofBytes [0x61, 0x0A] ++ [.endOfFile, .byte 0x62, .byte 0x0A] ∧
    Program.launch? host.programs [0x61] = .ok {} ∧
    (∃ last, (session.run host).ending = .value ({ session with running := false }, ⟨1, last⟩)) ∧
    (session.run host).host.input = [.byte 0x62, .byte 0x0A] ∧
    1 ≤ ((session.run host).trace.takenBy .shell).length ∧
    ((session.run host).trace.takenBy .shell).length ≤ 4 := by
  let session : Session := { config := { prompt := [], banner := [], echo := false } }
  let host : Host := {
    input := Input.ofBytes [0x61, 0x0A] ++ [.endOfFile, .byte 0x62, .byte 0x0A]
    programs := [⟨[0x61], .ok {}⟩] }
  let h : Host := { host with input := [.endOfFile, .byte 0x62, .byte 0x0A], nextPid := 101 }
  have hr : session.Reaches host 0 _ host := .start rfl rfl
  have hround : ∃ command t, round session.config host =
    ⟨.value (some ⟨command, some 100, some 0⟩), h, t⟩ := ⟨_, _, rfl⟩
  obtain ⟨_, _, hround⟩ := hround
  have hnext := hr.next (congrArg Result.ending hround)
  rw [hround] at hnext
  obtain ⟨-, -, -, hcommands, htaken, hend⟩ := run_finishes session host
  obtain ⟨-, hlast⟩ := hend 1 _ _ hnext rfl
  obtain ⟨last, hending, hinput⟩ := hlast (Text.encodable_ofChars [])
  exact ⟨session, host, rfl, rfl, ⟨last, hending⟩, hinput, hcommands _ _ hending, htaken⟩

end Session

end LineShell
