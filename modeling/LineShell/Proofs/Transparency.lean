import LineShell.Proofs.Command
import LineShell.Proofs.Layers
import LineShell.Proofs.Serial
import LineShell.Proofs.SharedInput

/-!
# Bytes pass through unchanged

A command is bytes, whether they are UTF-8 or not.  On its way to the system and back to the screen
it becomes text and bytes again, and other text stands around it; all the same it arrives as it was
typed.

* `Text.isEscape_of_surrogate`, `Text.encode_append`: what decoding makes of bytes, and what
  encoding makes of pieces.
* `Line.Tries`: what a child does for a command.
* `Session.Verbatim`: the bytes of a line are what is executed, echoed and reported.
* `Config.validated_of_environment`: a text setting that the environment gives is what it says.
* `Session.verbatim_bytes`: bytes pass through text unchanged, those of a command and those of a
  prompt or a banner.
-/

namespace LineShell

open LineShell.Action

/-! ## Text -/

namespace Text

/-- Decoding makes no surrogates but escapes. -/
theorem isEscape_of_surrogate {bs : Bytes} {c : CodePoint} (hc : c ∈ ofBytes bs)
    (hs : c.isSurrogate = true) : 0xDC80 ≤ c ∧ c ≤ 0xDCFF := by
  have he := encodable_ofBytes bs c hc
  rw [Utf8.isEncodable, hs, Bool.not_true, Bool.or_false, Utf8.isEscape, Bool.and_eq_true,
    decide_eq_true_iff, decide_eq_true_iff] at he
  exact he

theorem encode_eq_ok_iff {t : Text} {bs : Bytes} :
    t.encode = .ok bs ↔ t.Encodable ∧ t.coded = bs := by
  by_cases ht : t.Encodable
  · rw [encode_eq_ok ht, Except.ok.injEq]
    exact (and_iff_right ht).symm
  · obtain ⟨place, hplace⟩ := encode_eq_error ht
    rw [hplace]
    exact ⟨nofun, fun h => absurd h.1 ht⟩

/-- **Texts can be encoded together iff each can**, and then the bytes of the one come before the
bytes of the other. -/
theorem encode_append {t u : Text} {bs : Bytes} : (t ++ u).encode = .ok bs ↔
    ∃ a b, t.encode = .ok a ∧ u.encode = .ok b ∧ bs = a ++ b := by
  simp only [encode_eq_ok_iff, encodable_append, coded_append]
  constructor
  · rintro ⟨⟨ht, hu⟩, rfl⟩
    exact ⟨_, _, ⟨ht, rfl⟩, ⟨hu, rfl⟩, rfl⟩
  · rintro ⟨a, b, ⟨ht, rfl⟩, ⟨hu, rfl⟩, rfl⟩
    exact ⟨⟨ht, hu⟩, rfl⟩

end Text

theorem Text.isEmpty_ofBytes (bs : Bytes) : (Text.ofBytes bs).isEmpty = bs.isEmpty := by
  have hcoded := Text.coded_ofBytes bs
  cases ht : Text.ofBytes bs with
  | nil =>
    rw [ht] at hcoded
    rw [← hcoded]
    rfl
  | cons c t =>
    have hne : bs ≠ [] := by
      rintro rfl
      rw [Text.ofBytes, Utf8.decodeOnto] at ht
      cases ht
    simpa using hne

/-! ## Children -/

namespace Event

def isExec : Event → Bool
  | .exec _ _ => true
  | _ => false

def isChildWrite : Event → Bool
  | .write .child _ _ => true
  | _ => false

theorem isOfChild_of_isExec {e : Event} (he : e.isExec = true) : e.isOfChild = true := by
  cases e <;> first | rfl | cases he

theorem isOfChild_of_isChildWrite {e : Event} (he : e.isChildWrite = true) :
    e.isOfChild = true := by
  cases e with
  | write a s bytes => cases a <;> first | rfl | cases he
  | _ => cases he

end Event

theorem Image.eq_of_mem_taking {image : Image} {input : Input} {e : Event}
    (he : e ∈ image.taking input) : ∃ bytes stop, e = .read .child bytes stop := by
  unfold taking at he
  split at he
  · exact ⟨_, _, List.mem_singleton.mp he⟩
  · cases he

theorem Image.eq_of_mem_shown {image : Image} {got : Option Bytes} {e : Event}
    (he : e ∈ image.shown got) : ∃ s bytes, e = .write .child s bytes := by
  unfold shown at he
  rcases List.mem_append.mp he with he | he
  · obtain ⟨bytes, -, rfl⟩ := List.mem_map.mp he
    exact ⟨_, _, rfl⟩
  · rcases List.mem_append.mp he with he | he
    · exact ⟨_, _, Event.eq_of_mem_writes he⟩
    · exact ⟨_, _, Event.eq_of_mem_writes he⟩

theorem LaunchError.eq_of_mem_report {line : Line} {e : LaunchError} {event : Event}
    (he : event ∈ e.report line) : ∃ bytes, event = .write .child .errors bytes := by
  unfold report at he
  split at he
  · split at he
    · exact ⟨_, Event.eq_of_mem_writes he⟩
    · cases he
  · cases he

namespace Line

variable {line : Line} {h : Host} {t : Trace}

/-- What a child does for a command: it asks once for the program at the bytes of the line, and
without one it reports that and exits. -/
inductive Tries (line : Line) (h : Host) : Trace → Prop
  | failed {e : LaunchError} : Program.launch? h.programs line.bytes = .error e →
      Tries line h (.exec line.bytes [line.bytes] :: (e.report line ++ [.exit failureCode]))
  | ran {image : Image} {s : Trace} : Program.launch? h.programs line.bytes = .ok image →
      (∀ e ∈ s, e.isOfChild = true ∧ e.isExec = false) →
      Tries line h (.exec line.bytes [line.bytes] :: s)

namespace Tries

theorem behind_exec (ht : Tries line h t) : ∃ s, t = .exec line.bytes [line.bytes] :: s ∧
    ∀ e ∈ s, e.isOfChild = true ∧ e.isExec = false := by
  cases ht with
  | failed hl =>
    refine ⟨_, rfl, ?_⟩
    intro event he
    rcases List.mem_append.mp he with he | he
    · obtain ⟨bytes, rfl⟩ := LaunchError.eq_of_mem_report he
      exact ⟨rfl, rfl⟩
    · rw [List.mem_singleton.mp he]
      exact ⟨rfl, rfl⟩
  | ran _ hs => exact ⟨_, rfl, hs⟩

theorem filter_isOfChild (ht : Tries line h t) : t.filter Event.isOfChild = t := by
  obtain ⟨s, rfl, hs⟩ := ht.behind_exec
  exact List.filter_eq_self.mpr (List.forall_mem_cons.mpr ⟨rfl, fun e he => (hs e he).1⟩)

theorem filter_isExec (ht : Tries line h t) :
    t.filter Event.isExec = [.exec line.bytes [line.bytes]] := by
  obtain ⟨s, rfl, hs⟩ := ht.behind_exec
  rw [List.filter_cons_of_pos rfl, List.filter_eq_nil_iff.mpr fun e he => by simp [(hs e he).2]]

theorem filter_isChildWrite (ht : Tries line h t) {e : LaunchError}
    (hl : Program.launch? h.programs line.bytes = .error e) :
    t.filter Event.isChildWrite = e.report line := by
  cases ht with
  | @failed e' hl' =>
    obtain rfl := Except.error.inj (hl.symm.trans hl')
    have hreport : (e.report line).filter Event.isChildWrite = e.report line := by
      refine List.filter_eq_self.mpr ?_
      intro event he
      obtain ⟨bytes, rfl⟩ := LaunchError.eq_of_mem_report he
      rfl
    rw [List.filter_cons_of_neg (by simp [Event.isChildWrite]), List.filter_append, hreport,
      List.filter_cons_of_neg (by simp [Event.isChildWrite]), List.filter_nil, List.append_nil]
  | ran hl' _ => cases hl.symm.trans hl'

end Tries

theorem Lived.tries {r : Result (Except SystemError Int)} (hl : Lived line h r) :
    Tries line h r.trace := by
  have htaking : ∀ {image : Image} {input : Input}, ∀ e ∈ image.taking input,
      e.isOfChild = true ∧ e.isExec = false := by
    intro image input e he
    obtain ⟨bytes, stop, rfl⟩ := Image.eq_of_mem_taking he
    exact ⟨rfl, rfl⟩
  cases hl with
  | failed hl => exact .failed hl
  | stopped hl _ => exact .ran hl htaking
  | ran hl _ =>
    refine .ran hl ?_
    intro e he
    rcases List.mem_append.mp he with he | he
    · exact htaking e he
    · obtain ⟨s, bytes, rfl⟩ := Image.eq_of_mem_shown he
      exact ⟨rfl, rfl⟩

theorem become_tries (hq : h.Quiet) : Tries line h (line.become h).trace := by
  cases hl : Program.launch? h.programs line.bytes with
  | error e =>
    rw [become_of_error line hq hl]
    exact .failed hl
  | ok image =>
    rw [become_of_ok line hl]
    exact .ran hl nofun

/-! ### Around the child -/

theorem filter_shellWrites (ht : ∀ e ∈ t, ∃ s bytes, e = .write .shell s bytes) :
    t.filter Event.isOfChild = [] := by
  refine List.filter_eq_nil_iff.mpr ?_
  intro e he
  obtain ⟨s, bytes, rfl⟩ := ht e he
  exact Bool.false_ne_true

theorem filter_pendingWrites (h : Host) : h.pendingWrites.filter Event.isOfChild = [] :=
  h.filter_pendingWrites fun _ _ => Bool.false_ne_true

/-- Of what a child may do, nothing is done for a command but by its child. -/
theorem filter_spawn_of_pid {pid : Int} (ha : h.answer = .ok pid) :
    Tries line h.forked ((line.spawn h).trace.filter Event.isOfChild) := by
  have hstart : ∀ pid t, (line.starting h pid ++ t).filter Event.isOfChild =
      t.filter Event.isOfChild := by
    intro pid t
    rw [starting, List.filter_append, List.filter_append, filter_pendingWrites]
    rfl
  have hspawned := spawn_spawned line h
  generalize line.spawn h = r at hspawned
  cases hspawned with
  | refused ha' | unsaid ha' => cases ha.symm.trans ha'
  | departed _ hb =>
    have ht : Tries line h.forked _ := become_tries h.quiet_forked
    rw [hb] at ht
    rw [List.filter_append, filter_pendingWrites, List.nil_append,
      List.filter_cons_of_neg (by decide), ht.filter_isOfChild]
    exact ht
  | stopped _ _ hl =>
    have ht := hl.tries
    rw [hstart, ht.filter_isOfChild]
    exact ht
  | lost _ _ hl | undecided _ _ hl | ended _ _ hl =>
    have ht := hl.tries
    rw [hstart, List.filter_append, ht.filter_isOfChild]
    simpa [Event.isOfChild] using ht

theorem filter_spawn_of_refusal {e : SystemError} (ha : h.answer = .error e) :
    (line.spawn h).trace.filter Event.isOfChild = [] := by
  have hrefusing : ∀ e, (line.refusing h e).filter Event.isOfChild = [] := by
    intro e
    rw [refusing, List.filter_append, filter_pendingWrites]
    rfl
  have hspawned := spawn_spawned line h
  generalize line.spawn h = r at hspawned
  cases hspawned with
  | refused =>
    rw [List.filter_append, hrefusing, List.nil_append]
    exact Event.filter_writes_of_neg Bool.false_ne_true
  | unsaid => exact hrefusing _
  | departed ha' | stopped ha' | lost ha' | undecided ha' | ended ha' => cases ha.symm.trans ha'

end Line

/-! ## Lines -/

namespace Session

variable {config : Config} {line : Line} {h : Host}

/-- The bytes of a line go where they belong, and none of them is in the way. -/
structure Verbatim (config : Config) (line : Line) (h : Host) : Prop where
  /-- They are the path of a program and its only argument, once for each child. -/
  executed : (dispatch config line h).trace.filter Event.isExec =
    match h.answer with
    | .ok _ => [.exec line.bytes [line.bytes]]
    | .error _ => []
  /-- They are echoed, before anything else is done. -/
  echoed : config.echo = true → ∃ u, (dispatch config line h).trace = .write .shell .output
    (h.pendingOutput ++ (echoLead.coded ++ line.bytes ++ [Line.terminator])) :: u
  /-- A child that gets no program names them in its report. -/
  reported : ∀ pid e reason, h.answer = .ok pid → Program.launch? h.programs line.bytes = .error e →
    e.reason? = some reason → reason.Encodable →
    (dispatch config line h).trace.filter Event.isChildWrite =
      [.write .child .errors (Text.coded (.ofString "exec failed: ") ++ line.bytes ++
        Text.coded (.ofString ": ") ++ reason.coded ++ [Line.terminator])]
  /-- They can be encoded; if anything cannot, it is why there is no child. -/
  encoded : ∀ place, (dispatch config line h).ending = .fault (.unencodable place) →
    ∃ e, h.answer = .error e ∧ ¬ e.message.Encodable

/-- What a child may do is done by nothing else for a line. -/
theorem filter_dispatch : (dispatch config line h).trace.filter Event.isOfChild =
    (line.spawn (echoed config h)).trace.filter Event.isOfChild := by
  have hecho : (echo config line h).filter Event.isOfChild = [] := by
    unfold echo
    split <;> rfl
  rcases hs : line.spawn (echoed config h) with ⟨ending, left, t⟩
  cases ending with
  | value outcome =>
    obtain ⟨left', u, hd, -, hu⟩ := dispatch_of_value hs
    have hnil : u.filter Event.isOfChild = [] := Line.filter_shellWrites fun e he => ⟨_, hu e he⟩
    rw [hd, List.filter_append, List.filter_append, hecho, hnil, List.append_nil, List.nil_append]
  | fault f => rw [dispatch_of_fault hs, List.filter_append, hecho, List.nil_append]
  | departure d => rw [dispatch_of_departure hs, List.filter_append, hecho, List.nil_append]

theorem filter_filter_isOfChild {p : Event → Bool} (hp : ∀ e, p e = true → e.isOfChild = true)
    (t : Trace) : (t.filter Event.isOfChild).filter p = t.filter p := by
  rw [List.filter_filter]
  refine List.filter_congr ?_
  intro e _
  cases hpe : p e with
  | true =>
    rw [hp e hpe]
    rfl
  | false => rfl

/-- A line is dispatched without a text that cannot be encoded, unless that is the refusal of its
child. -/
theorem answer_of_unencodable {place : Utf8.Unencodable}
    (hf : (dispatch config line h).ending = .fault (.unencodable place)) :
    ∃ e, h.answer = .error e ∧ ¬ e.message.Encodable := by
  have hspawned := Line.spawn_spawned line (echoed config h)
  rcases hs : line.spawn (echoed config h) with ⟨ending, left, t⟩
  rw [hs] at hspawned
  cases ending with
  | value outcome =>
    obtain ⟨_, _, hd, -⟩ := dispatch_of_value hs
    rw [hd] at hf
    cases hf
  | departure d =>
    rw [dispatch_of_departure hs] at hf
    cases hf
  | fault f =>
    rw [dispatch_of_fault hs] at hf
    obtain rfl := Ending.fault.inj hf
    cases hspawned with
    | unsaid ha he => exact ⟨_, (answer_echoed config h).symm.trans ha, he⟩
    | stopped _ _ hl =>
      obtain ⟨q, hstop, -⟩ := hl.of_fault
      rcases Input.Stop.of_fault? hstop with ⟨-, hf⟩ | ⟨e, -, hf⟩ <;> cases hf

/-- **The bytes of a line arrive as they are**, whatever they are and whatever the host answers. -/
theorem dispatch_verbatim (config : Config) (line : Line) (h : Host) : Verbatim config line h where
  executed := by
    rw [← filter_filter_isOfChild (fun _ => Event.isOfChild_of_isExec), filter_dispatch,
      ← answer_echoed config]
    cases ha : (echoed config h).answer with
    | ok pid => exact (Line.filter_spawn_of_pid ha).filter_isExec
    | error e =>
      rw [Line.filter_spawn_of_refusal ha]
      rfl
  echoed he := by
    have hecho := showCommand_apply config line h
    rw [echo, if_pos he] at hecho
    rw [dispatch, bind_of_value hecho]
    exact ⟨_, rfl⟩
  reported pid e reason ha hl hreason hr := by
    rw [← answer_echoed config] at ha
    rw [← programs_echoed config, ← Host.programs_forked] at hl
    rw [← filter_filter_isOfChild (fun _ => Event.isOfChild_of_isChildWrite), filter_dispatch,
      (Line.filter_spawn_of_pid ha).filter_isChildWrite hl, LaunchError.report, hreason]
    dsimp only
    rw [if_pos hr, Event.writes_of_ne_nil (by simp)]
  encoded _ := answer_of_unencodable

end Session

/-! ## Prompts and banners -/

namespace Config

open Json (Members)

theorem last?_withoutNulls {key : Text} {given : Members}
    (h : ∀ m ∈ given, m.1 = key → m.2.isNull = true) : (withoutNulls given).last? key = none := by
  have hfind : (withoutNulls given).reverse.find? (·.1 == key) = none := by
    refine List.find?_eq_none.mpr ?_
    intro m hm hkey
    obtain ⟨hmem, hnull⟩ := List.mem_filter.mp (List.mem_reverse.mp hm)
    rw [h m hmem (beq_iff_eq.mp hkey)] at hnull
    cases hnull
  rw [Members.last?, Members.get?, hfind]
  rfl

/-- Settings are those of the layers, the last layer first. -/
theorem ofLayer_of_load {s : Sources} {config : Config} (hload : load s = .ok config) :
    ∃ inFile : Members, ofLayer (layerOf ((inFile.putAll (layerMembers
      (environmentLayer s.environment))).putAll (withoutNulls s.given))) = .ok config := by
  obtain ⟨path, -, hload⟩ := Json.ok_of_bind hload
  obtain ⟨members, hgather, hload⟩ := Json.ok_of_bind hload
  obtain ⟨inFile, -, hgather⟩ := Json.ok_of_bind hgather
  obtain rfl := Except.ok.inj hgather
  refine ⟨inFile, ?_⟩
  generalize ofLayer _ = settings at hload
  cases settings with
  | ok config' => exact congrArg _ (Except.ok.inj hload)
  | error rs => cases hload

/-- **A setting that the environment gives is what it takes that text for**, unless something else
is given for the run. -/
theorem validated_of_environment {s : Sources} {config : Config} {field : Field} {bs : Bytes}
    (hload : load s = .ok config) (henv : s.environment (variableOf field) = some bs)
    (hgiven : ∀ m ∈ s.given, m.1 = field.key → m.2.isNull = true) :
    validated field (.string (.ofBytes bs)) = .ok (config.value field) := by
  obtain ⟨inFile, hok⟩ := ofLayer_of_load hload
  have hlayer : layerOf ((inFile.putAll (layerMembers (environmentLayer s.environment))).putAll
      (withoutNulls s.given)) field = some (.string (.ofBytes bs)) := by
    rw [layerOf, Members.get?_putAll, Members.get?_putAll, last?_layerMembers,
      last?_withoutNulls hgiven, environmentLayer, henv]
    rfl
  have hsettled := ofLayer_eq_ok_iff.mp hok field
  rw [settled, hlayer] at hsettled
  dsimp only at hsettled
  cases hv : validated field (.string (.ofBytes bs)) with
  | ok v =>
    rw [hv] at hsettled
    exact congrArg _ (Except.ok.inj hsettled)
  | error issue =>
    rw [hv] at hsettled
    cases hsettled

end Config

namespace Session

def bannerWrite (bs : Bytes) (host : Host) : Trace :=
  if bs.isEmpty then []
  else [.write .shell .output (host.pendingOutput ++ (bs ++ [Line.terminator]))]

theorem showBanner_apply {config : Config} {bs : Bytes} (hb : config.banner = .ofBytes bs)
    (host : Host) : ∃ left, showBanner config host = ⟨.value (), left, bannerWrite bs host⟩ := by
  have hbanner : config.banner.Encodable := hb ▸ Text.encodable_ofBytes bs
  rw [showBanner_flushes hbanner, hb, Text.isEmpty_ofBytes, Text.coded_ofBytes, bannerWrite,
    Event.writes_of_ne_nil (by simp)]
  split <;> exact ⟨_, rfl⟩

theorem prefix_banner {session : Session} {bs : Bytes} (hb : session.config.banner = .ofBytes bs)
    (host : Host) : bannerWrite bs host <+: (session.run host).trace := by
  obtain ⟨left, hshow⟩ := showBanner_apply hb host
  cases hr : session.running with
  | true =>
    rw [run_eq hr, bind_of_value hshow]
    exact List.prefix_append _ _
  | false =>
    rw [run_eq_of_not_running hr, bind_of_value hshow]
    exact List.prefix_append _ _

/-- Before its first prompt a run writes its banner and nothing else. -/
theorem Reaches.eq_banner {session : Session} {host h : Host} {n : Nat} {t : Trace} {bs : Bytes}
    (hb : session.config.banner = .ofBytes bs) (hr : session.Reaches host n t h) (hn : n = 0) :
    t = bannerWrite bs host := by
  cases hr with
  | start =>
    obtain ⟨left, hshow⟩ := showBanner_apply hb host
    rw [hshow]
  | next => cases hn

/-- At each prompt of a run the prompt is written, behind all that waited. -/
theorem Reaches.prefix_prompt {session : Session} {host h : Host} {n : Nat} {t : Trace}
    {bs : Bytes} (hp : session.config.prompt = .ofBytes bs) (hr : session.Reaches host n t h) :
    t ++ Event.writes .shell .output (h.pendingOutput ++ bs) <+: (session.run host).trace := by
  obtain ⟨last, hrun⟩ := hr.run
  have ht : session.config.prompt.Encodable := hp ▸ Text.encodable_ofBytes bs
  have hw := write_flushes ht .shell .output h
  rw [hp, Text.coded_ofBytes] at hw
  rw [hrun, rest, rounds_eq, round]
  simp only [bind_assoc]
  rw [hp, bind_of_value hw]
  dsimp only
  rw [← List.append_assoc]
  exact List.prefix_append _ _

/-- **Bytes pass through text unchanged.**  Any bytes are decoded to a text without surrogates but
escapes, and that text is encoded to the same bytes; and texts are encoded piece by piece.

So the bytes of a command are what is executed, echoed and reported, whatever they are; and the
bytes that the environment gives for the prompt and for the banner, if nothing else is given for the
run, are what a run writes at each of its prompts and before the first. -/
theorem verbatim_bytes :
    (∀ bs, (∀ c ∈ Text.ofBytes bs, c.isSurrogate = true → 0xDC80 ≤ c ∧ c ≤ 0xDCFF) ∧
      (Text.ofBytes bs).encode = .ok bs) ∧
    (∀ (t u : Text) (bs : Bytes), (t ++ u).encode = .ok bs ↔
      ∃ a b, t.encode = .ok a ∧ u.encode = .ok b ∧ bs = a ++ b) ∧
    (∀ config line h, Verbatim config line h) ∧
    ∀ (s : Sources) (session : Session) (bs : Bytes), Config.load s = .ok session.config →
      (s.environment "LABSH_PROMPT" = some bs →
        (∀ m ∈ s.given, m.1 = Field.prompt.key → m.2.isNull = true) →
        ∀ host n t h, session.Reaches host n t h →
          t ++ Event.writes .shell .output (h.pendingOutput ++ bs) <+: (session.run host).trace) ∧
      (s.environment "LABSH_BANNER" = some bs →
        (∀ m ∈ s.given, m.1 = Field.banner.key → m.2.isNull = true) →
        ∀ host, bannerWrite bs host <+: (session.run host).trace ∧
          ∀ t h, session.Reaches host 0 t h → t = bannerWrite bs host) := by
  refine ⟨?_, fun t u bs => Text.encode_append, dispatch_verbatim, ?_⟩
  · intro bs
    exact ⟨fun c => Text.isEscape_of_surrogate,
      Text.encode_eq_ok_iff.mpr ⟨Text.encodable_ofBytes bs, Text.coded_ofBytes bs⟩⟩
  intro s session bs hload
  constructor
  · intro henv hgiven
    have hv : Config.validated .prompt _ = _ :=
      Config.validated_of_environment hload henv hgiven
    have hp : session.config.prompt = .ofBytes bs :=
      (Json.Value.string.inj (Except.ok.inj hv)).symm
    intro host n t h hr
    exact hr.prefix_prompt hp
  · intro henv hgiven
    have hv : Config.validated .banner _ = _ :=
      Config.validated_of_environment hload henv hgiven
    have hb : session.config.banner = .ofBytes bs :=
      (Json.Value.string.inj (Except.ok.inj hv)).symm
    intro host
    exact ⟨prefix_banner hb host, fun t h hr => hr.eq_banner hb rfl⟩

/-- Nothing here is UTF-8: a prompt, a banner that spells a surrogate, and a command that breaks off
within a code point. -/
theorem verbatim_bytes_of_no_utf8 : ∃ (s : Sources) (session : Session) (host h : Host) (t : Trace)
    (line : Line), Config.load s = .ok session.config ∧
    s.environment "LABSH_PROMPT" = some [0xFF, 0x24] ∧
    s.environment "LABSH_BANNER" = some [0xED, 0xA0, 0x80] ∧
    (∀ m ∈ s.given, m.1 = Field.prompt.key → m.2.isNull = true) ∧
    (∀ m ∈ s.given, m.1 = Field.banner.key → m.2.isNull = true) ∧
    session.Reaches host 0 t h ∧ line.bytes = [0x61, 0xE2, 0x82] ∧
    t = [.write .shell .output [0xED, 0xA0, 0x80, 0x0A]] ∧
    t ++ [.write .shell .output [0xFF, 0x24]] <+: (session.run host).trace ∧
    (dispatch session.config line h).trace.filter Event.isExec =
      [.exec [0x61, 0xE2, 0x82] [[0x61, 0xE2, 0x82]]] ∧
    (dispatch session.config line h).trace.filter Event.isChildWrite =
      [.write .child .errors (Text.coded (.ofString "exec failed: ") ++ [0x61, 0xE2, 0x82] ++
        Text.coded (.ofString ": ") ++ (SystemError.reasonOf 2).coded ++ [Line.terminator])] := by
  let s : Sources := {
    environment := fun name =>
      if name = "LABSH_PROMPT" then some [0xFF, 0x24]
      else if name = "LABSH_BANNER" then some [0xED, 0xA0, 0x80] else none
    files := fun _ => .error .noSuchFile
    defaultFile := Config.fileIn []
    given := [(Field.prompt.key, .null)] }
  let session : Session := { config := {
    prompt := .ofBytes [0xFF, 0x24], banner := .ofBytes [0xED, 0xA0, 0x80] } }
  let line : Line := ⟨[0x61, 0xE2, 0x82], true, by decide⟩
  let host : Host := {}
  obtain ⟨-, -, hverbatim, hshown⟩ := verbatim_bytes
  have hload : Config.load s = .ok session.config := rfl
  have hprompt : ∀ m ∈ s.given, m.1 = Field.prompt.key → m.2.isNull = true :=
    List.forall_mem_singleton.mpr fun _ => rfl
  have hbanner : ∀ m ∈ s.given, m.1 = Field.banner.key → m.2.isNull = true :=
    List.forall_mem_singleton.mpr fun _ => rfl
  have hencodable : session.config.banner.Encodable := Text.encodable_ofBytes _
  have hshow := showBanner_shows hencodable (show host.Quiet from ⟨rfl, rfl⟩)
  have hr : session.Reaches host 0 _ _ := .start rfl hshow.ending
  rw [hshow.host] at hr
  have hexec := (hverbatim session.config line host).executed
  have hreport := (hverbatim session.config line host).reported 100 (.refused .noSuchFile)
    (SystemError.reasonOf 2) rfl rfl rfl (Text.encodable_ofString _)
  have hfirst := ((hshown s session [0xED, 0xA0, 0x80] hload).2 rfl hbanner host).2 _ _ hr
  have hasked := (hshown s session [0xFF, 0x24] hload).1 rfl hprompt host 0 _ _ hr
  exact ⟨s, session, host, host, _, line, hload, rfl, rfl, hprompt, hbanner, hr, rfl, hfirst,
    hasked, hexec, hreport⟩

end Session

end LineShell
