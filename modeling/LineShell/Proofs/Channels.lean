import LineShell.Proofs.Decoding
import LineShell.Proofs.Documents
import LineShell.Proofs.Transparency

/-!
# Three ways to give the same settings

A configuration can be written to a file, set in the environment, or given for one run.  Each way
alone gives back that configuration, whatever the layers below it say.

* `Config.texts`: the texts by which the environment gives a configuration.
* `Config.Portable`: a configuration that can be given in all three ways.
* `Config.validated_value`, `Config.validated_texts`: values and texts are accepted as they stand.
* `Config.channels_agree`: the same is loaded from each layer.
-/

namespace LineShell

theorem CodePoint.not_isHigh_of_isSurrogate {c : CodePoint} (h : c.isSurrogate = false) :
    ¬ Json.IsHigh c.val := by
  rw [Bool.eq_false_iff, Ne, isSurrogate_iff] at h
  intro hc
  have := hc.1
  have := hc.2
  omega

theorem Text.not_isHigh_of_mem_ofBytes {bytes : Bytes} {c : CodePoint} (hc : c ∈ ofBytes bytes) :
    ¬ Json.IsHigh c.val := by
  by_cases hs : c.isSurrogate = true
  · have hescape : 0xDC80 ≤ c.val := (isEscape_of_surrogate hc hs).1
    intro hhigh
    have := hhigh.2
    omega
  · exact CodePoint.not_isHigh_of_isSurrogate (Bool.eq_false_iff.mpr hs)

theorem Text.sound_ofString (s : String) : Json.Sound (ofString s) := by
  intro c hc
  obtain ⟨d, -, rfl⟩ := List.mem_map.mp hc
  exact CodePoint.isSurrogate_ofChar d

namespace Config

open Json (Value Members)

/-! ## Texts of settings -/

def switchWord (b : Bool) : Text := .ofString (if b then "true" else "false")

/-- The texts by which the environment gives a configuration. -/
def texts (config : Config) : Field → Text
  | .prompt => config.prompt
  | .banner => config.banner
  | .lineLimit => .ofInt config.lineLimit
  | .echo => switchWord config.echo
  | .reportStatus => switchWord config.reportStatus

/-- A configuration that can be given in all ways: its texts were bytes once, and its limit is not
too long to be read. -/
structure Portable (config : Config) : Prop where
  prompt : ∃ bytes, config.prompt = .ofBytes bytes
  banner : ∃ bytes, config.banner = .ofBytes bytes
  lineLimit : (Text.ofInt config.lineLimit).length ≤ Text.digitLimit

variable {config : Config}

theorem exists_lineLimit (config : Config) :
    ∃ n : Nat, 0 < n ∧ config.lineLimit = n ∧ Text.ofInt config.lineLimit = .decimal n := by
  have htwo := config.two_le_lineLimit
  obtain ⟨n, hn⟩ := Int.eq_ofNat_of_zero_le (show 0 ≤ config.lineLimit by omega)
  refine ⟨n, by omega, hn, ?_⟩
  rw [Text.ofInt, hn, if_neg (by omega)]
  rfl

theorem validated_lineLimit {v : Value} (h : integer v = .ok config.lineLimit) :
    validated .lineLimit v = .ok (config.value .lineLimit) := by
  show (limit v).map _ = _
  rw [limit, h]
  dsimp only
  rw [dif_pos config.two_le_lineLimit]
  rfl

theorem validated_value (config : Config) (field : Field) :
    validated field (config.value field) = .ok (config.value field) := by
  cases field with
  | lineLimit => exact validated_lineLimit rfl
  | prompt | banner | echo | reportStatus => rfl

theorem switch_switchWord (b : Bool) : switch (.string (switchWord b)) = .ok b := by
  cases b <;> with_unfolding_all exact rfl

/-- **The texts of a configuration are taken for its settings.** -/
theorem validated_texts (hc : config.Portable) (field : Field) :
    validated field (.string (config.texts field)) = .ok (config.value field) := by
  cases field with
  | prompt | banner => rfl
  | echo | reportStatus =>
    show (switch (.string (switchWord _))).map _ = _
    rw [switch_switchWord]
    rfl
  | lineLimit =>
    obtain ⟨n, hn, hlimit, htext⟩ := exists_lineLimit config
    have hlength := hc.lineLimit
    rw [htext] at hlength
    refine validated_lineLimit ?_
    rw [texts, htext, integer, Integer.ofText_decimal hn hlength, hlimit]

theorem sound_texts_lineLimit (config : Config) : Json.Sound (config.texts .lineLimit) := by
  obtain ⟨n, -, -, htext⟩ := exists_lineLimit config
  intro c hmem
  rw [texts, htext] at hmem
  exact CodePoint.isSurrogate_of_isDigit (Text.isDigit_of_mem_decimal hmem)

theorem ofBytes_coded_texts (hc : config.Portable) (field : Field) :
    Text.ofBytes (config.texts field).coded = config.texts field := by
  have hsound : ∀ t : Text, Json.Sound t → Text.ofBytes t.coded = t := by
    intro t ht
    rw [Text.coded_eq_utf8 ht, Text.ofBytes_utf8 ht]
  cases field with
  | prompt =>
    obtain ⟨bytes, h⟩ := hc.prompt
    rw [texts, h, Text.coded_ofBytes]
  | banner =>
    obtain ⟨bytes, h⟩ := hc.banner
    rw [texts, h, Text.coded_ofBytes]
  | lineLimit => exact hsound _ (sound_texts_lineLimit config)
  | echo | reportStatus => exact hsound _ (Text.sound_ofString _)

/-! ## Files -/

/-- A portable configuration can be written to a file. -/
theorem exists_document (hc : config.Portable) :
    ∃ t, Json.Document (layerMembers fun field => some (config.value field)) t := by
  refine Json.exists_document nofun ?_
  intro m hm
  obtain ⟨field, -, hfield⟩ := List.mem_filterMap.mp hm
  obtain rfl : (field.key, config.value field) = m := Option.some.inj hfield
  constructor
  · have hkey : Json.Sound field.key := by cases field <;> exact Text.sound_ofString _
    exact fun c hc => CodePoint.not_isHigh_of_isSurrogate (hkey c hc)
  · intro rest
    have hquoted : ∀ {t : Text}, (∃ bytes, t = .ofBytes bytes) →
        ∃ s, Json.Forms (.string t) s rest := by
      rintro _ ⟨bytes, rfl⟩
      obtain ⟨s, hs⟩ := Json.exists_quoted (fun c => Text.not_isHigh_of_mem_ofBytes) rest
      exact ⟨_, .string hs⟩
    cases field with
    | prompt => exact hquoted hc.prompt
    | banner => exact hquoted hc.banner
    | echo | reportStatus => exact ⟨_, .switch⟩
    | lineLimit =>
      obtain ⟨n, hn, hlimit, htext⟩ := exists_lineLimit config
      have hlength := hc.lineLimit
      rw [htext] at hlength
      rw [value, hlimit]
      exact ⟨_, .natural hn hlength⟩

theorem quoted_key (field : Field) (rest : Text) :
    Json.Quoted field.key (field.key ++ .quote :: rest) rest := by
  refine .of_plain (fun c hc => ?_) rest
  have hall : field.key.all
      (fun c => decide (Json.Plain c ∧ c ≠ .quote ∧ c ≠ .backslash)) = true := by
    cases field <;> with_unfolding_all exact rfl
  exact of_decide_eq_true (List.all_eq_true.mp hall c hc)

theorem member_key (field : Field) {v : Value} {form rest : Text} (h : Json.Forms v form rest) :
    Json.Member (field.key, v) (.quote :: (field.key ++ .quote :: .colon :: .space :: form)) rest :=
  .mk (quoted_key field _) .nil (.cons rfl .nil) h .nil

/-- A file that holds a document gives its members, and in the way they are written. -/
theorem written_of_document {s : Sources} {file t : Text} {ms : Members}
    (ht : Json.Document ms t) (hfile : s.files file = .ok t.utf8) :
    Readable s file ∧ written s file = ms := by
  refine ⟨.object hfile (Text.ofUtf8_utf8 ht.sound) (ht.unixLines.ofText s.room), ?_⟩
  rw [written, hfile]
  dsimp only
  rw [Text.ofBytes_utf8 ht.sound, ht.unixLines.written]

/-! ## The layers -/

variable {s : Sources} {path : Path}

/-- The configuration is loaded if each setting takes its winner for it. -/
theorem load_of_winner (hpath : location s = .ok path) (hfile : Readable s path.toText)
    (h : ∀ field, ∃ v, winner s path.toText field = some v ∧
      validated field v = .ok (config.value field)) : load s = .ok config := by
  have hlayer : ofLayer (winner s path.toText) = .ok config := by
    refine ofLayer_eq_ok_iff.mpr ?_
    intro field
    obtain ⟨v, hv, hvalid⟩ := h field
    rw [settled, hv]
    dsimp only
    rw [hvalid]
    rfl
  rw [load_eq hpath hfile, hlayer]
  rfl

/-- If no file is named, its place is the one known from the start. -/
theorem location_of_unset (h : s.environment fileVariable = none) :
    location s = .ok s.defaultFile := by
  rw [location, h]
  rfl

/-- **The three ways to give a configuration agree.**  Take a configuration whose texts were bytes
once and whose limit is not too long to be read.  It can be written to a file; the place of the file
is known at least if the environment names none.

In whatever way the configuration is written to the file, it is loaded if nothing is given for it
elsewhere.  It is loaded if its texts are in the environment, whatever the file says, provided that
there is none or that it holds an object; and if it is given for the run, whatever the environment
and such a file say. -/
theorem channels_agree (hc : config.Portable) :
    (∃ t, Json.Document (layerMembers fun field => some (config.value field)) t) ∧
    (∀ s, s.environment fileVariable = none → location s = .ok s.defaultFile) ∧
    ∀ s path, location s = .ok path →
      (∀ ms t, Json.Document ms t → (∀ field, ms.last? field.key = some (config.value field)) →
        s.files path.toText = .ok t.utf8 →
        (∀ field, s.environment (variableOf field) = none) →
        (∀ field, ∀ m ∈ s.given, m.1 = Field.key field → m.2.isNull = true) →
        load s = .ok config) ∧
      (Readable s path.toText →
        (∀ field, s.environment (variableOf field) = some (config.texts field).coded) →
        (∀ field, ∀ m ∈ s.given, m.1 = Field.key field → m.2.isNull = true) →
        load s = .ok config) ∧
      (Readable s path.toText →
        (∀ field, (withoutNulls s.given).last? field.key = some (config.value field)) →
        load s = .ok config) := by
  refine ⟨exists_document hc, fun s => location_of_unset, fun s path hpath => ⟨?_, ?_, ?_⟩⟩
  · intro ms t ht hms hfile henv hgiven
    obtain ⟨hreadable, hwritten⟩ := written_of_document ht hfile
    refine load_of_winner hpath hreadable ?_
    intro field
    refine ⟨_, ?_, validated_value config field⟩
    rw [winner, last?_withoutNulls (hgiven field), environmentLayer, henv, hwritten]
    exact hms field
  · intro hreadable henv hgiven
    refine load_of_winner hpath hreadable ?_
    intro field
    refine ⟨_, ?_, validated_texts hc field⟩
    rw [winner, last?_withoutNulls (hgiven field), environmentLayer, henv, Option.map_some,
      ofBytes_coded_texts hc]
    rfl
  · intro hreadable hgiven
    refine load_of_winner hpath hreadable ?_
    intro field
    refine ⟨_, ?_, validated_value config field⟩
    rw [winner, hgiven]
    rfl

/-- The prompt is an undecodable byte, a quote and an astral character twice; the file escapes all
but the last.  The banner is a tab and a line feed.  The environment wins over a file in which
nothing is valid, and what is given for the run wins over an environment in which nothing is. -/
theorem channels_agree_of_escapes : ∃ (config : Config) (t t' : Text) (s s' s'' : Sources),
    config.prompt = [0xDCFF, .quote, 0x1F600, 0x1F600] ∧ config.banner = [.tab, .lineFeed] ∧
    t = .ofString ("\x7b\"prompt\": \"\\udcFF\\\"\\uD83d\\uDE00😀\",\r\n" ++
      "\"banner\": \"\\t\\u000a\",\"max_line_length\": 80,\r\n" ++
      "\"echo\": false,\"report_status\": true\x7d\n") ∧
    t' = .ofString "\x7b\"prompt\": true,\"echo\": 7\x7d" ∧
    s.files = (fun _ => .ok t.utf8) ∧ load s = .ok config ∧
    s'.files = (fun _ => .ok t'.utf8) ∧ load s' = .ok config ∧ s''.files = s'.files ∧
    s''.environment "LABSH_MAX_LINE" = some (Text.bytes "!") ∧ load s'' = .ok config := by
  let config : Config := {
    prompt := [0xDCFF, .quote, 0x1F600, 0x1F600], banner := [.tab, .lineFeed]
    lineLimit := 80, echo := false, reportStatus := true }
  have hc : config.Portable := {
    prompt := ⟨[0xFF, 0x22, 0xF0, 0x9F, 0x98, 0x80, 0xF0, 0x9F, 0x98, 0x80], by
      with_unfolding_all exact rfl⟩
    banner := ⟨[0x09, 0x0A], by with_unfolding_all exact rfl⟩
    lineLimit := by decide }
  have hprompt : ∀ rest, Json.Quoted config.prompt
      (Json.numbered (.ofString "dcFF") ++ .backslash :: .quote :: (Json.numbered (.ofString "D83d")
        ++ (Json.numbered (.ofString "DE00") ++ 0x1F600 :: .quote :: rest))) rest := by
    intro rest
    refine .cons (.number ⟨by decide, rfl⟩ (by decide)) ?_
    refine .cons (.mark (.inl rfl)) ?_
    refine .cons (.pair (n := 0xD83D) (m := 0xDE00) ⟨by decide, rfl⟩ ⟨by decide, rfl⟩
      (by decide) (by decide) rfl) ?_
    exact .cons (.raw (by decide) (by decide) (by decide) rfl) .nil
  have hbanner : ∀ rest, Json.Quoted config.banner
      (.backslash :: .ofChar 't' :: (Json.numbered (.ofString "000a") ++ .quote :: rest)) rest := by
    intro rest
    refine .cons (.control (by decide)) ?_
    exact .cons (.number ⟨by decide, rfl⟩ (by decide)) .nil
  have hline : ∀ rest, Json.Blanks (.carriageReturn :: .lineFeed :: rest) rest :=
    fun _ => .cons rfl (.cons rfl .nil)
  obtain ⟨t, ht, htext⟩ : ∃ t, Json.Document
      (layerMembers fun field => some (config.value field)) t ∧
      t = .ofString ("\x7b\"prompt\": \"\\udcFF\\\"\\uD83d\\uDE00😀\",\r\n" ++
        "\"banner\": \"\\t\\u000a\",\"max_line_length\": 80,\r\n" ++
        "\"echo\": false,\"report_status\": true\x7d\n") := by
    have hstatus : Json.Listed _ _ [.lineFeed] := .last
      (member_key .reportStatus (.switch (b := true)))
    have hecho := hstatus.cons (member_key .echo (.switch (b := false))) .nil
    have hlimit := hecho.cons
      (member_key .lineLimit (.natural (n := 80) (by decide) (by decide))) (hline _)
    have hbanner := hlimit.cons (member_key .banner (.string (hbanner _))) .nil
    have hprompt := hbanner.cons (member_key .prompt (.string (hprompt _))) (hline _)
    exact ⟨_, .mk .nil .nil hprompt (.cons rfl .nil), by decide +kernel⟩
  obtain ⟨t', ht', htext'⟩ : ∃ t, Json.Document
      [(Field.prompt.key, .bool true), (Field.echo.key, .int (7 : Nat))] t ∧
      t = .ofString "\x7b\"prompt\": true,\"echo\": 7\x7d" := by
    have hecho : Json.Listed _ _ [] := .last
      (member_key .echo (.natural (n := 7) (by decide) (by decide)))
    have hprompt := hecho.cons (member_key .prompt (.switch (b := true))) .nil
    exact ⟨_, .mk .nil .nil hprompt .nil, by decide +kernel⟩
  let s : Sources := {
    environment := fun _ => none
    files := fun _ => .ok t.utf8
    defaultFile := fileIn []
    given := [] }
  let s' : Sources := {
    environment := fun name => (Field.all.find? fun field => variableOf field = name).map
      fun field => (config.texts field).coded
    files := fun _ => .ok t'.utf8
    defaultFile := fileIn []
    given := [] }
  let s'' : Sources := {
    environment := fun name => if name = fileVariable then none else some (Text.bytes "!")
    files := fun _ => .ok t'.utf8
    defaultFile := fileIn []
    given := layerMembers fun field => some (config.value field) }
  obtain ⟨-, hunset, hload⟩ := channels_agree hc
  have hs : load s = .ok config := by
    refine (hload s _ (hunset s rfl)).1 _ t ht ?_ rfl (fun _ => rfl) nofun
    exact last?_layerMembers _
  have hs' : load s' = .ok config := by
    refine (hload s' _ (hunset s' rfl)).2.1 (written_of_document ht' rfl).1 ?_ nofun
    intro field
    cases field <;> rfl
  have hs'' : load s'' = .ok config := by
    refine (hload s'' _ (hunset s'' rfl)).2.2 (written_of_document ht' rfl).1 ?_
    intro field
    cases field <;> rfl
  exact ⟨config, t, t', s, s', s'', rfl, rfl, htext, htext', rfl, hs, rfl, hs', rfl, rfl, hs''⟩

end Config

end LineShell
