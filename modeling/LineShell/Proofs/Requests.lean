import LineShell.Invocation
import LineShell.Proofs.Layers
import LineShell.Proofs.Numerals

/-!
# Arguments as requests

Arguments of which each asks for one thing, with its value behind an equals sign, are understood
whatever the values look like.  They come down to the last value for each setting.

* `Request`: one thing that is asked for; `Request.argument`, how it is written.
* `Request.word_argument`: what part the argument plays.
* `Options.ofArguments_requests`: the options are those of a fold over the requests.
* `Options.latest`: what is asked for last, setting by setting.
* `Options.asked_eq_of_latest`: of the requests only that counts, and which flags occur.
* `Invocation.winner_asked`: what is asked for goes before the other layers.
* `Invocation.requests_fold`: so requests may be put in another order.
-/

namespace LineShell

open Json (Value)

/-! ## Requests -/

/-- One thing that is asked for on the command line.  A value may be any text but the separator; a
limit is written as a numeral, perhaps behind a hyphen. -/
inductive Request
  | prompt (value : Text) (ne_separator : value ≠ Word.separatorText)
  | banner (value : Text) (ne_separator : value ≠ Word.separatorText)
  | lineLimit (negative : Bool) (digits : Text) (isNumeral : digits.IsNumeral)
      (length_le : digits.length ≤ Text.digitLimit)
  | noEcho
  | reportStatus
  | debug (short : Bool)
deriving DecidableEq

namespace Request

def flag : Request → Flag
  | .prompt .. => .prompt
  | .banner .. => .banner
  | .lineLimit .. => .lineLimit
  | .noEcho => .noEcho
  | .reportStatus => .reportStatus
  | .debug _ => .debug

def spelling : Request → Text
  | .prompt .. => .ofString "--prompt"
  | .banner .. => .ofString "--banner"
  | .lineLimit .. => .ofString "--max-line-length"
  | .noEcho => .ofString "--no-echo"
  | .reportStatus => .ofString "--report-status"
  | .debug true => .ofString "-d"
  | .debug false => .ofString "--debug"

def attached : Request → Option Text
  | .prompt value _ | .banner value _ => some value
  | .lineLimit negative digits .. => some (Text.hyphenated negative digits)
  | _ => none

def argument (r : Request) : Text :=
  match r.attached with
  | some value => r.spelling ++ .equals :: value
  | none => r.spelling

def word (r : Request) : Word := .flag r.flag (Word.isShort r.spelling) r.attached

def layer : Request → Config.Layer
  | .prompt value _, .prompt => some (.string value)
  | .banner value _, .banner => some (.string value)
  | .lineLimit negative digits .., .lineLimit =>
    some (.int (Text.signed negative (Text.digitsValue digits)))
  | .noEcho, .echo => some (.bool false)
  | .reportStatus, .reportStatus => some (.bool true)
  | _, _ => none

end Request

/-! ## The part that an argument plays -/

theorem Text.cut?_append {c : CodePoint} {t : Text} (h : c ∉ t) (u : Text) :
    cut? c (t ++ c :: u) = some (t, u) := by
  have hne : ∀ a ∈ t, decide (a ≠ c) = true :=
    fun a ha => decide_eq_true (ne_of_mem_of_not_mem ha h)
  rw [cut?, if_pos (by simp), List.takeWhile_append_of_pos hne, List.dropWhile_append_of_pos hne]
  simp

namespace Flag

theorem ofSpelling?_of_equals {t : Text} (h : .equals ∈ t) : ofSpelling? t = none := by
  have htable : ∀ entry ∈ table, CodePoint.equals ∉ entry.1 := by decide
  rw [ofSpelling?, Option.map_eq_none_iff, List.find?_eq_none]
  intro entry hentry heq
  exact htable entry hentry (beq_iff_eq.mp heq ▸ h)

end Flag

namespace Request

variable (r : Request)

theorem ofSpelling?_spelling : Flag.ofSpelling? r.spelling = some r.flag := by
  cases r with
  | debug short => cases short <;> rfl
  | _ => rfl

theorem equals_notMem_spelling : .equals ∉ r.spelling := by
  intro h
  have hnone := Flag.ofSpelling?_of_equals h
  rw [ofSpelling?_spelling] at hnone
  cases hnone

theorem head?_argument : r.argument.head? = some .hyphen := by
  cases r with
  | debug short => cases short <;> rfl
  | _ => rfl

theorem argument_ne_separator : r.argument ≠ Word.separatorText := by
  cases r with
  | debug short => cases short <;> decide
  | noEcho | reportStatus => decide
  | prompt | banner | lineLimit => nofun

theorem spelled?_argument : Word.spelled? r.argument = some (r.spelling, r.flag, r.attached) := by
  unfold argument Word.spelled?
  cases r.attached with
  | none =>
    dsimp only
    rw [ofSpelling?_spelling]
  | some value =>
    dsimp only
    rw [Flag.ofSpelling?_of_equals (by simp)]
    dsimp only
    rw [Text.cut?_append r.equals_notMem_spelling]
    dsimp only
    rw [ofSpelling?_spelling]
    rfl

/-- **An argument is understood as its request**, whatever the value looks like. -/
theorem word_argument : Word.ofText r.argument = .ok r.word := by
  rw [Word.ofText, if_neg (not_not_intro r.head?_argument)]
  dsimp only
  rw [spelled?_argument]
  rfl

theorem words_arguments (rs : List Request) :
    Word.ofArguments (rs.map argument) = .ok (rs.map fun r => (r.argument, r.word)) := by
  induction rs with
  | nil => rfl
  | cons r rs ih =>
    rw [List.map_cons, Word.ofArguments, if_neg r.argument_ne_separator, word_argument, ih]
    rfl

end Request

/-! ## What is asked for -/

namespace Options

def ask (o : Options) : Request → Options
  | .prompt value _ => { o with prompt := some (.string value) }
  | .banner value _ => { o with banner := some (.string value) }
  | .lineLimit negative digits .. =>
    { o with lineLimit := some (.int (Text.signed negative (Text.digitsValue digits))) }
  | .noEcho => { o with noEcho := true }
  | .reportStatus => { o with reportStatus := true }
  | .debug _ => { o with debug := true }

def asked (rs : List Request) : Options := rs.foldl ask {}

/-- A numeral behind one hyphen is not the separator. -/
theorem hyphenated_ne_separator {ds : Text} (hds : ds.IsNumeral) (negative : Bool) :
    Text.hyphenated negative ds ≠ Word.separatorText := by
  have hhyphen : CodePoint.hyphen ∉ ds := hds.notMem (by decide)
  intro h
  cases negative with
  | false =>
    rw [show ds = Word.separatorText from h] at hhyphen
    exact hhyphen (.head _)
  | true =>
    rw [show ds = [.hyphen] from (List.cons.inj h).2] at hhyphen
    exact hhyphen (.head _)

theorem give_attached (o : Options) {r : Request} {value : Text} (h : r.attached = some value) :
    o.give r.flag value = .ok (o.ask r) := by
  cases r with
  | prompt value hv | banner value hv =>
    cases h
    simp only [Request.flag, give, if_neg hv]
    rfl
  | lineLimit negative digits hds hlength =>
    cases h
    simp only [Request.flag, give, if_neg (hyphenated_ne_separator hds negative),
      integer?_hyphenated hds hlength]
    rfl
  | noEcho | reportStatus | debug => cases h

theorem act_of_no_value (o : Options) {r : Request} (h : r.attached = none) :
    o.act r.flag = .ok (o.ask r) := by
  cases r with
  | prompt | banner | lineLimit => cases h
  | noEcho | reportStatus | debug => rfl

theorem takesValue_flag (r : Request) : r.flag.takesValue = r.attached.isSome := by
  cases r <;> rfl

/-- **Each argument does what it asks for**, and takes none of the arguments behind it. -/
theorem follow_cons (o : Options) (r : Request) (rest : List Text) (words : List (Text × Word)) :
    follow o rest ((r.argument, r.word) :: words) = follow (o.ask r) rest words := by
  rw [Request.word, follow.eq_def]
  dsimp only
  rw [takesValue_flag]
  cases h : r.attached with
  | some value =>
    change (o.give r.flag value >>= fun o => follow o rest words) = _
    rw [give_attached o h]
    rfl
  | none =>
    change (o.act r.flag >>= fun o => follow o rest words) = _
    rw [act_of_no_value o h]
    rfl

theorem follow_requests (o : Options) (rs : List Request) :
    follow o [] (rs.map fun r => (r.argument, r.word)) = .ok (rs.foldl ask o, []) := by
  induction rs generalizing o with
  | nil => rfl
  | cons r rs ih => rw [List.map_cons, follow_cons, ih, List.foldl_cons]

/-- **Requests are understood, and the options are what they ask for.** -/
theorem ofArguments_requests (rs : List Request) :
    ofArguments (rs.map Request.argument) = .ok (asked rs) := by
  rw [ofArguments, Request.words_arguments]
  show (follow {} [] _ >>= fun _ => _) = _
  rw [follow_requests]
  rfl

/-! ## What is asked for last -/

/-- What is asked for last, setting by setting. -/
def latest (rs : List Request) : Config.Layer := fun field =>
  (rs.filterMap fun r => r.layer field).getLast?

theorem latest_concat (rs : List Request) (r : Request) (field : Field) :
    latest (rs ++ [r]) field = (r.layer field).or (latest rs field) := by
  rw [latest, latest, List.filterMap_append, List.getLast?_append]
  cases h : r.layer field <;> simp [h]

theorem layer_ask (o : Options) (r : Request) (field : Field) :
    (o.ask r).layer field = (r.layer field).or (o.layer field) := by
  cases r <;> cases field <;> rfl

/-- **Of the requests for a setting the last one counts.** -/
theorem layer_asked (rs : List Request) : (asked rs).layer = latest rs := by
  funext field
  induction rs using List.reverseRecOn with
  | nil => cases field <;> rfl
  | append_singleton rs r ih =>
    rw [latest_concat, ← ih, asked, List.foldl_append, ← asked]
    exact layer_ask _ _ _

def Occurs (rs : List Request) (f : Flag) : Prop := ∃ r ∈ rs, r.flag = f

instance (rs : List Request) (f : Flag) : Decidable (Occurs rs f) :=
  inferInstanceAs (Decidable (∃ r ∈ rs, r.flag = f))

theorem occurs_concat {rs : List Request} {r : Request} {f : Flag} :
    Occurs (rs ++ [r]) f ↔ Occurs rs f ∨ r.flag = f := by
  simp [Occurs, or_and_right, exists_or]

theorem debug_asked (rs : List Request) : (asked rs).debug = true ↔ Occurs rs .debug := by
  induction rs using List.reverseRecOn with
  | nil => exact ⟨nofun, nofun⟩
  | append_singleton rs r ih =>
    rw [occurs_concat, ← ih, asked, List.foldl_append, ← asked]
    cases r <;> simp [ask, Request.flag]

/-- Options are what they say about the settings, and whether records are shown. -/
theorem eq_of_layer {o o' : Options} (hl : o.layer = o'.layer) (hd : o.debug = o'.debug) :
    o = o' := by
  have hprompt : o.prompt = o'.prompt := congrFun hl .prompt
  have hbanner : o.banner = o'.banner := congrFun hl .banner
  have hlimit : o.lineLimit = o'.lineLimit := congrFun hl .lineLimit
  have hecho := congrFun hl .echo
  have hstatus := congrFun hl .reportStatus
  have hno : o.noEcho = o'.noEcho := by
    cases hn : o.noEcho <;> cases hn' : o'.noEcho <;> simp [layer, hn, hn'] at hecho ⊢
  have hreport : o.reportStatus = o'.reportStatus := by
    cases hr : o.reportStatus <;> cases hr' : o'.reportStatus <;>
      simp [layer, hr, hr'] at hstatus ⊢
  cases o
  cases o'
  simp only [Options.mk.injEq]
  exact ⟨hd, hprompt, hbanner, hlimit, hno, hreport⟩

/-! ### Settings that one flag asks for -/

def flagOf : Field → Flag
  | .prompt => .prompt
  | .banner => .banner
  | .lineLimit => .lineLimit
  | .echo => .noEcho
  | .reportStatus => .reportStatus

theorem layer_of_ne_flag {r : Request} {field : Field} (h : r.flag ≠ flagOf field) :
    r.layer field = none := by
  cases r <;> cases field <;> first | rfl | exact absurd rfl h

theorem latest_filter (rs : List Request) (field : Field) :
    latest (rs.filter fun r => r.flag = flagOf field) field = latest rs field := by
  induction rs using List.reverseRecOn with
  | nil => rfl
  | append_singleton rs r ih =>
    rw [List.filter_append, latest_concat, ← ih]
    by_cases hf : r.flag = flagOf field
    · rw [List.filter_cons_of_pos (by simpa using hf), List.filter_nil, latest_concat]
    · rw [List.filter_cons_of_neg (by simpa using hf), List.filter_nil, List.append_nil,
        layer_of_ne_flag hf, Option.none_or]

theorem latest_switch {field : Field} {f : Flag} {v : Value}
    (h : ∀ r : Request, r.layer field = if r.flag = f then some v else none) (rs : List Request) :
    latest rs field = if Occurs rs f then some v else none := by
  induction rs using List.reverseRecOn with
  | nil => rfl
  | append_singleton rs r ih =>
    rw [latest_concat, h, ih]
    by_cases hr : r.flag = f <;> simp [occurs_concat, hr]

theorem latest_echo (rs : List Request) :
    latest rs .echo = if Occurs rs .noEcho then some (.bool false) else none :=
  latest_switch (fun r => by cases r <;> rfl) rs

theorem latest_reportStatus (rs : List Request) :
    latest rs .reportStatus = if Occurs rs .reportStatus then some (.bool true) else none :=
  latest_switch (fun r => by cases r <;> rfl) rs

theorem asked_eq_of_latest {rs rs' : List Request}
    (hl : ∀ field, (flagOf field).takesValue = true → latest rs field = latest rs' field)
    (ho : ∀ f : Flag, f.takesValue = false → (Occurs rs f ↔ Occurs rs' f)) :
    asked rs = asked rs' := by
  refine eq_of_layer ?_ ?_
  · rw [layer_asked, layer_asked]
    funext field
    cases field with
    | prompt | banner | lineLimit => exact hl _ rfl
    | echo => simp only [latest_echo, ho .noEcho rfl]
    | reportStatus => simp only [latest_reportStatus, ho .reportStatus rfl]
  · rw [Bool.eq_iff_iff, debug_asked, debug_asked]
    exact ho .debug rfl

/-- Requests for different settings may change places. -/
theorem asked_eq_of_perm {rs rs' : List Request} (hp : rs.Perm rs')
    (h : ∀ f : Flag, f.takesValue = true →
      rs.filter (fun r => r.flag = f) = rs'.filter fun r => r.flag = f) :
    asked rs = asked rs' := by
  refine asked_eq_of_latest ?_ ?_
  · intro field hf
    rw [← latest_filter rs, ← latest_filter rs', h _ hf]
  · intro f _
    simp only [Occurs, hp.mem_iff]

theorem exists_of_latest {rs : List Request} {field : Field} {v : Value}
    (h : latest rs field = some v) : ∃ r ∈ rs, r.layer field = some v :=
  List.mem_filterMap.mp (List.mem_of_getLast? h)

end Options

/-! ## Settings -/

theorem Request.isNull_of_layer {r : Request} {field : Field} {v : Value}
    (h : r.layer field = some v) : v.isNull = false := by
  cases r <;> cases field <;> cases h <;> rfl

namespace Config

theorem ok_of_mapError {ε ε' α : Type} {x : Except ε α} {f : ε → ε'} {a : α}
    (h : x.mapError f = .ok a) : x = .ok a := by
  cases x with
  | ok b => exact congrArg _ (Except.ok.inj h)
  | error e => cases h

theorem settled_or_some {upper lower : Layer} {field : Field} {v a : Value}
    (hv : upper field = some v)
    (h : settled (fun field => (upper field).or (lower field)) field = .ok a) :
    validated field v = .ok a := by
  rw [settled, hv, Option.some_or] at h
  exact ok_of_mapError h

theorem settled_or_none {upper lower : Layer} {field : Field} (hv : upper field = none) :
    settled (fun field => (upper field).or (lower field)) field = settled lower field := by
  rw [settled, settled, hv, Option.none_or]

end Config

namespace Invocation

open Options Config

variable (i : Invocation)

theorem given_asked (rs : List Request) :
    (i.sources (asked rs)).given = layerMembers (latest rs) := by
  rw [← layer_asked]
  rfl

theorem withoutNulls_latest (rs : List Request) :
    withoutNulls (layerMembers (latest rs)) = layerMembers (latest rs) := by
  refine List.filter_eq_self.mpr ?_
  intro m hm
  obtain ⟨field, -, hfield⟩ := List.mem_filterMap.mp hm
  obtain ⟨v, hv, rfl⟩ := Option.map_eq_some_iff.mp hfield
  obtain ⟨r, -, hr⟩ := exists_of_latest hv
  simp [Request.isNull_of_layer hr]

theorem readable_sources {o : Options} {file : Text} (h : Readable (i.sources o) file)
    (o' : Options) : Readable (i.sources o') file := by
  cases h with
  | missing hfile he => exact .missing hfile he
  | object hfile ht hms => exact .object hfile ht hms

/-- What is asked for goes before what counts without it, and leaves the rest in force. -/
theorem winner_asked (rs : List Request) (file : Text) :
    winner (i.sources (asked rs)) file =
      fun field => (latest rs field).or (winner (i.sources {}) file field) := by
  funext field
  rw [winner, given_asked, withoutNulls_latest, last?_layerMembers]
  rfl

/-! ## Runs -/

def runOf (rs : List Request) : Action Nat :=
  { i with arguments := rs.map Request.argument }.run

theorem runOf_eq (rs : List Request) : i.runOf rs =
    (i.serve (asked rs)).logging (if (asked rs).debug then .debug else .warning) := by
  rw [runOf, run, ofArguments_requests]
  rfl

/-- **Requests fold to the last one for each setting, in whatever order they stand.**  Arguments of
which each asks for one thing are always understood.  What they give for the run is the last value
for each setting that takes one; that nothing is echoed iff `--no-echo` is among them, and nothing
about it otherwise; that statuses are told iff `--report-status` is, and nothing about it otherwise.
So requests with the same last values and the same flags come to the same run, and so do requests
that only change places with requests of other flags.

A setting that is asked for is what it takes that value for.  Any other is what it is without the
requests: what the environment says, or else what the file says, or else its default. -/
theorem requests_fold (rs : List Request) :
    (∃ o, Options.ofArguments (rs.map Request.argument) = .ok o ∧ o.layer = latest rs ∧
      (i.sources o).given = layerMembers (latest rs) ∧
      o.layer .echo = (if Occurs rs .noEcho then some (.bool false) else none) ∧
      o.layer .reportStatus = (if Occurs rs .reportStatus then some (.bool true) else none) ∧
      (o.debug = true ↔ Occurs rs .debug) ∧
      (∀ path, location (i.sources {}) = .ok path → Readable (i.sources {}) path.toText →
        load (i.sources o) = (ofLayer fun field =>
          (latest rs field).or (winner (i.sources {}) path.toText field)).mapError
            fun rejections => .bad (.rejected rejections)) ∧
      ∀ config, load (i.sources o) = .ok config → ∃ path,
        location (i.sources {}) = .ok path ∧ ∀ field,
          (∀ v, latest rs field = some v → validated field v = .ok (config.value field)) ∧
          (latest rs field = none →
            settled (winner (i.sources {}) path.toText) field = .ok (config.value field))) ∧
    (∀ rs' : List Request,
      (∀ field, (flagOf field).takesValue = true → latest rs field = latest rs' field) →
      (∀ f : Flag, f.takesValue = false → (Occurs rs f ↔ Occurs rs' f)) →
      i.runOf rs = i.runOf rs') ∧
    ∀ rs' : List Request, rs.Perm rs' →
      (∀ f : Flag, f.takesValue = true →
        rs.filter (fun r => r.flag = f) = rs'.filter fun r => r.flag = f) →
      i.runOf rs = i.runOf rs' := by
  have hload : ∀ path, location (i.sources {}) = .ok path → Readable (i.sources {}) path.toText →
      load (i.sources (asked rs)) = (ofLayer fun field =>
        (latest rs field).or (winner (i.sources {}) path.toText field)).mapError
          fun rejections => .bad (.rejected rejections) := by
    intro path hpath hfile
    rw [load_eq (s := i.sources (asked rs)) hpath (i.readable_sources hfile _), winner_asked]
  refine ⟨⟨asked rs, ofArguments_requests rs, layer_asked rs, i.given_asked rs, ?_, ?_,
    debug_asked rs, hload, ?_⟩, ?_, ?_⟩
  · rw [layer_asked, latest_echo]
  · rw [layer_asked, latest_reportStatus]
  · intro config hconfig
    obtain ⟨path, hpath, hfile⟩ := readable_of_load hconfig
    rw [hload path hpath (i.readable_sources hfile _)] at hconfig
    refine ⟨path, hpath, ?_⟩
    intro field
    have hsettled := ofLayer_eq_ok_iff.mp (ok_of_mapError hconfig) field
    exact ⟨fun v hv => settled_or_some hv hsettled, fun hv => settled_or_none hv ▸ hsettled⟩
  · intro rs' hl ho
    rw [runOf_eq, runOf_eq, asked_eq_of_latest hl ho]
  · intro rs' hp h
    rw [runOf_eq, runOf_eq, asked_eq_of_perm hp h]

/-- A value that looks like a flag, an empty one, and limits given twice, the first of them
negative: the last values count in either order, and the switch of the environment stays in
force. -/
theorem requests_fold_of_reordered : ∃ (i : Invocation) (rs rs' : List Request) (config : Config),
    rs.map Request.argument = [.ofString "--prompt=a", .ofString "--no-echo",
      .ofString "--max-line-length=-5", .ofString "--banner=", .ofString "--prompt=-x=y z",
      .ofString "--max-line-length=080"] ∧
    rs'.map Request.argument = [.ofString "--banner=", .ofString "--prompt=a",
      .ofString "--max-line-length=-5", .ofString "--max-line-length=080",
      .ofString "--prompt=-x=y z", .ofString "--no-echo"] ∧
    rs.Perm rs' ∧ (∀ f : Flag, f.takesValue = true →
      rs.filter (fun r => r.flag = f) = rs'.filter fun r => r.flag = f) ∧
    i.runOf rs = i.runOf rs' ∧
    load (i.sources (asked rs)) = .ok config ∧ config.prompt = .ofString "-x=y z" ∧
    config.banner = [] ∧ config.lineLimit = 80 ∧ config.echo = false ∧
    config.reportStatus = true := by
  let first : Request := .prompt (.ofString "a") (by decide)
  let last : Request := .prompt (.ofString "-x=y z") (by decide)
  let short : Request := .lineLimit true (.ofString "5") ⟨nofun, List.all_eq_true.mp rfl⟩
    (Nat.le_of_ble_eq_true rfl)
  let long : Request := .lineLimit false (.ofString "080") ⟨nofun, List.all_eq_true.mp rfl⟩
    (Nat.le_of_ble_eq_true rfl)
  let rs : List Request := [first, .noEcho, short, .banner [] nofun, last, long]
  let rs' : List Request := [.banner [] nofun, first, short, long, last, .noEcho]
  let i : Invocation := {
    environment := fun name =>
      if name = "LABSH_ECHO" ∨ name = "LABSH_REPORT_STATUS" then some (Text.bytes "on") else none
    files := fun _ => .error .noSuchFile
    defaultFile := fileIn [] }
  have hperm : rs.Perm rs' := by decide
  have hfilter : ∀ f : Flag, f.takesValue = true →
      rs.filter (fun r => r.flag = f) = rs'.filter fun r => r.flag = f := by
    intro f _
    cases f <;> rfl
  obtain ⟨⟨o, ho, -, -, -, -, -, hload, -⟩, -, hrun⟩ := requests_fold i rs
  let config : Config := {
    prompt := .ofString "-x=y z", banner := [], lineLimit := 80, echo := false
    reportStatus := true }
  have hlayer : ofLayer (fun field => (latest rs field).or
      (winner (i.sources {}) i.defaultFile.toText field)) = .ok config := by
    refine ofLayer_eq_ok_iff.mpr ?_
    intro field
    cases field <;> with_unfolding_all exact rfl
  have hconfig : load (i.sources (asked rs)) = .ok config := by
    rw [← Except.ok.inj (ho.symm.trans (ofArguments_requests rs)),
      hload i.defaultFile rfl (.missing rfl rfl), hlayer]
    rfl
  exact ⟨i, rs, rs', config, rfl, rfl, hperm, hfilter, hrun rs' hperm hfilter, hconfig, rfl, rfl,
    rfl, rfl, rfl⟩

end Invocation

end LineShell
