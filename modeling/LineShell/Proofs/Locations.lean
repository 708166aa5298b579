import LineShell.Proofs.Escapes
import Mathlib.Data.List.Induction
import Mathlib.Logic.Function.Basic

/-!
# Where the file is

The place of the file that the environment gives is brought into normal form, and only a tilde in
front of it is looked up.

* `Path.IsComponent`, `Path.Normal`: what may be between slashes; a path of such components.
* `Path.ofText_toText`: a normal path is read back from its name.
* `Path.homePath`: the home directory of a user as a path.
* `Text.trim_append`: what is around a text does not count if it is trimmed.
* `Config.location_settles`: where the file is, and when nobody knows.
-/

namespace LineShell

/-! ## Pieces -/

namespace Text

variable {c : CodePoint}

theorem pieces_append_cons (c : CodePoint) (t u : Text) :
    pieces c (t ++ c :: u) = pieces c t ++ pieces c u :=
  List.splitOnP_append_cons t u (beq_self_eq_true c)

theorem notMem_of_mem_pieces {t part : Text} (h : part ∈ pieces c t) : c ∉ part := by
  induction t generalizing part with
  | nil =>
    rw [List.mem_singleton.mp h]
    exact List.not_mem_nil
  | cons d t ih =>
    rw [pieces, List.splitOn_cons_eq_if_modifyHead] at h
    split at h
    · rcases List.mem_cons.mp h with rfl | h
      · exact List.not_mem_nil
      · exact ih h
    · rename_i hd
      cases hp : t.splitOn c with
      | nil =>
        rw [hp] at h
        cases h
      | cons first rest =>
        rw [hp, List.modifyHead_cons] at h
        rcases List.mem_cons.mp h with rfl | h
        · have hfirst : c ∉ first := ih (show first ∈ t.splitOn c from hp ▸ .head _)
          have hne : c ≠ d := fun hcd => hd (beq_iff_eq.mpr hcd.symm)
          exact List.not_mem_cons_of_ne_of_not_mem hne hfirst
        · exact ih (show part ∈ t.splitOn c from hp ▸ .tail _ h)

/-! ## Blanks around a text -/

variable {p : CodePoint → Bool}

theorem trim_append {l r : Text} (hl : ∀ c ∈ l, p c = true) (hr : ∀ c ∈ r, p c = true)
    (t : Text) : (l ++ t ++ r).trim p = t.trim p := by
  rw [trim, trim, List.append_assoc, List.dropWhile_append_of_pos hl, List.dropWhile_append]
  split
  · rename_i hempty
    rw [List.isEmpty_iff.mp hempty, List.dropWhile_eq_nil_iff.mpr hr]
  · rw [List.reverse_append, List.dropWhile_append_of_pos fun c hc => hr c (List.mem_reverse.mp hc)]

theorem trim_eq_nil {t : Text} (h : ∀ c ∈ t, p c = true) : t.trim p = [] := by
  rw [trim, List.dropWhile_eq_nil_iff.mpr h]
  rfl

end Text

/-! ## Normal forms -/

namespace Path

/-- A text that may stand between slashes: there is something, no slash, and more than a dot. -/
structure IsComponent (part : Text) : Prop where
  ne_nil : part ≠ []
  ne_dot : part ≠ [.dot]
  slash_notMem : .slash ∉ part

/-- A path of components. -/
def Normal (p : Path) : Prop := ∀ part ∈ p.parts, IsComponent part

theorem normal_ofText (t : Text) : (ofText t).Normal := by
  intro part hpart
  obtain ⟨hpiece, hkept⟩ := List.mem_filter.mp hpart
  simp only [ne_eq, decide_not, Bool.and_eq_true, Bool.not_eq_eq_eq_not, Bool.not_true,
    decide_eq_false_iff_not] at hkept
  exact ⟨hkept.1, hkept.2, Text.notMem_of_mem_pieces hpiece⟩

theorem Normal.append {p : Path} (hp : p.Normal) {parts : List Text}
    (h : ∀ part ∈ parts, IsComponent part) : (p.append parts).Normal := by
  intro part hpart
  rcases List.mem_append.mp hpart with hpart | hpart
  · exact hp part hpart
  · exact h part hpart

theorem parts_append_slash (t u : Text) :
    (ofText (t ++ .slash :: u)).parts = (ofText t).parts ++ (ofText u).parts := by
  rw [ofText, Text.pieces_append_cons, List.filter_append]
  rfl

theorem parts_join {parts : List Text} (h : ∀ part ∈ parts, IsComponent part) :
    (ofText (Text.join [.slash] parts)).parts = parts := by
  by_cases hne : parts = []
  · subst hne
    rfl
  · have hpieces : Text.pieces .slash (Text.join [.slash] parts) = parts :=
      List.splitOn_intercalate _ (fun part hpart => (h part hpart).slash_notMem) hne
    rw [ofText, hpieces]
    refine List.filter_eq_self.mpr ?_
    intro part hpart
    simp [(h part hpart).ne_nil, (h part hpart).ne_dot]

theorem parts_root (root : Root) (t : Text) :
    (ofText (root.toText ++ t)).parts = (ofText t).parts := by
  cases root with
  | none => rfl
  | one => exact parts_append_slash [] t
  | two => exact (parts_append_slash [] (.slash :: t)).trans (parts_append_slash [] t)

theorem rootOf_append (root : Root) {t : Text} (ht : t.head? ≠ some .slash) :
    rootOf (root.toText ++ t) = root := by
  have htake : t.takeWhile (· = .slash) = [] := by
    cases t with
    | nil => rfl
    | cons c t => exact List.takeWhile_cons_of_neg (by simpa using ht)
  cases root <;> simp [rootOf, Root.toText, htake]

/-- Joined components start with no slash. -/
theorem exists_join_cons {part : Text} (h : IsComponent part) (parts : List Text) :
    ∃ c t, c ≠ .slash ∧ Text.join [.slash] (part :: parts) = c :: t := by
  obtain ⟨c, part', rfl⟩ := List.exists_cons_of_ne_nil h.ne_nil
  have hc : c ≠ .slash := fun hc => h.slash_notMem (hc ▸ .head _)
  cases parts <;> exact ⟨c, _, hc, rfl⟩

theorem head?_join_ne {parts : List Text} (h : ∀ part ∈ parts, IsComponent part) :
    (Text.join [.slash] parts).head? ≠ some .slash := by
  cases parts with
  | nil => nofun
  | cons part parts =>
    obtain ⟨c, t, hc, ht⟩ := exists_join_cons (h part (.head _)) parts
    rw [ht]
    exact fun heq => hc (Option.some.inj heq)

theorem toText_eq {p : Path} (hp : p.Normal) : p.toText =
    if p = ⟨.none, []⟩ then [.dot] else p.root.toText ++ Text.join [.slash] p.parts := by
  obtain ⟨root, parts⟩ := p
  unfold toText
  dsimp only
  split
  · rename_i hempty
    obtain ⟨hroot, hjoin⟩ := List.append_eq_nil_iff.mp hempty
    have hnone : root = .none := by cases root <;> first | rfl | cases hroot
    have hparts : parts = [] := by
      cases parts with
      | nil => rfl
      | cons part parts =>
        obtain ⟨c, t, -, ht⟩ := exists_join_cons (hp part (.head _)) parts
        cases ht.symm.trans hjoin
    rw [if_pos (by rw [hnone, hparts])]
  · rename_i hne
    refine (if_neg ?_).symm
    rintro ⟨⟩
    exact hne rfl

/-- **A normal path is read back from its name.** -/
theorem ofText_toText {p : Path} (hp : p.Normal) : ofText p.toText = p := by
  rw [toText_eq hp]
  split
  · rename_i hnone
    rw [hnone]
    rfl
  · have hroot := rootOf_append p.root (head?_join_ne hp)
    have hparts := (parts_root p.root (Text.join [.slash] p.parts)).trans (parts_join hp)
    exact (Path.mk.injEq ..).mpr ⟨hroot, hparts⟩

theorem getLast?_pieces_root (root : Root) (t : Text) :
    (Text.pieces .slash (root.toText ++ t)).getLast? = (Text.pieces .slash t).getLast? := by
  have hslash : ∀ t : Text,
      (Text.pieces .slash (.slash :: t)).getLast? = (Text.pieces .slash t).getLast? := by
    intro t
    rw [show CodePoint.slash :: t = [] ++ .slash :: t from rfl, Text.pieces_append_cons]
    exact List.getLast?_append_of_ne_nil _ (List.splitOn_ne_nil _ _)
  cases root with
  | none => rfl
  | one => exact hslash t
  | two => exact (hslash (.slash :: t)).trans (hslash t)

/-- No slash follows the last component. -/
theorem getLast?_toText_ne {p : Path} (hp : p.Normal) (hne : p.parts ≠ []) :
    p.toText.getLast? ≠ some .slash := by
  intro hlast
  obtain ⟨t, ht⟩ := List.getLast?_eq_some_iff.mp hlast
  have hname : p.toText = p.root.toText ++ Text.join [.slash] p.parts := by
    rw [toText_eq hp, if_neg fun h => hne (congrArg Path.parts h)]
  have hpieces : Text.pieces .slash (Text.join [.slash] p.parts) = p.parts :=
    List.splitOn_intercalate _ (fun part hpart => (hp part hpart).slash_notMem) hne
  have hempty : p.parts.getLast? = some [] := by
    rw [← hpieces, ← getLast?_pieces_root p.root, ← hname, ht, Text.pieces_append_cons]
    exact List.getLast?_concat
  exact (hp [] (List.mem_of_getLast? hempty)).ne_nil rfl

structure NormalForm (p : Path) : Prop where
  isComponent : ∀ part ∈ p.parts, IsComponent part
  ofText_toText : ofText p.toText = p
  toText_eq : p.toText =
    if p = ⟨.none, []⟩ then [.dot] else p.root.toText ++ Text.join [.slash] p.parts
  getLast?_ne : p.parts ≠ [] → p.toText.getLast? ≠ some .slash

theorem Normal.normalForm {p : Path} (hp : p.Normal) : p.NormalForm :=
  ⟨hp, ofText_toText hp, toText_eq hp, getLast?_toText_ne hp⟩

/-! ## Home directories -/

def homePath (home : Text) : Path :=
  if home.all (· = .slash) then ⟨.one, []⟩ else ofText home

theorem homeDirectory_concat_slash (t : Text) :
    homeDirectory (t ++ [.slash]) = homeDirectory t := by
  rw [homeDirectory, List.reverse_concat, List.dropWhile_cons_of_pos (by decide)]
  rfl

theorem homeDirectory_concat (t : Text) {c : CodePoint} (hc : c ≠ .slash) :
    homeDirectory (t ++ [c]) = t ++ [c] := by
  rw [homeDirectory, List.reverse_concat, List.dropWhile_cons_of_neg (by simpa using hc),
    List.reverse_cons, List.reverse_reverse]
  cases t <;> rfl

theorem homePath_concat_slash (t : Text) : homePath (t ++ [.slash]) = homePath t := by
  by_cases hall : t.all (· = .slash) = true
  · rw [homePath, homePath, if_pos hall, if_pos (by rw [List.all_append, hall]; rfl)]
  · have htake : (t ++ [CodePoint.slash]).takeWhile (· = .slash) = t.takeWhile (· = .slash) := by
      rw [List.takeWhile_append, if_neg]
      intro hlength
      have hself := (List.takeWhile_prefix _).eq_of_length hlength
      exact hall (List.all_eq_true.mpr (List.takeWhile_eq_self_iff.mp hself))
    have hroot : rootOf (t ++ [.slash]) = rootOf t := by rw [rootOf, rootOf, htake]
    have hparts : (ofText (t ++ [.slash])).parts = (ofText t).parts :=
      (parts_append_slash t []).trans (List.append_nil _)
    have hall' : ¬ (t ++ [CodePoint.slash]).all (· = .slash) = true := by
      intro h
      rw [List.all_append, Bool.and_eq_true] at h
      exact hall h.1
    rw [homePath, homePath, if_neg hall, if_neg hall']
    exact (Path.mk.injEq ..).mpr ⟨hroot, hparts⟩

/-- Slashes at the end of a home directory do not matter, and slashes only are the root. -/
theorem ofText_homeDirectory (home : Text) : ofText (homeDirectory home) = homePath home := by
  induction home using List.reverseRecOn with
  | nil => rfl
  | append_singleton t c ih =>
    by_cases hc : c = .slash
    · rw [hc, homeDirectory_concat_slash, homePath_concat_slash, ih]
    · rw [homeDirectory_concat t hc, homePath, if_neg (by simp [hc])]

theorem head?_homeDirectory {home : Text} :
    (homeDirectory home).head? = some .tilde ↔ home.head? = some .tilde := by
  induction home using List.reverseRecOn with
  | nil => exact ⟨nofun, nofun⟩
  | append_singleton t c ih =>
    by_cases hc : c = .slash
    · rw [hc, homeDirectory_concat_slash, ih]
      cases t with
      | nil => exact ⟨nofun, nofun⟩
      | cons d t => exact Iff.rfl
    · rw [homeDirectory_concat t hc]

theorem normal_homePath (home : Text) : (homePath home).Normal := by
  rw [← ofText_homeDirectory]
  exact normal_ofText _

/-! ## A tilde in front -/

/-- A text that starts with a slash names an absolute path, and any other a relative one. -/
theorem rootOf_eq_none_iff {t : Text} : rootOf t = .none ↔ t.head? ≠ some .slash := by
  cases t with
  | nil => exact ⟨nofun, fun _ => rfl⟩
  | cons c t =>
    by_cases hc : c = .slash
    · refine ⟨?_, fun h => absurd (congrArg some hc) h⟩
      rw [rootOf, List.takeWhile_cons_of_pos (by simpa using hc), List.length_cons]
      split
      · rename_i hzero
        cases hzero
      · nofun
      · nofun
    · have htake : (c :: t).takeWhile (· = .slash) = [] :=
        List.takeWhile_cons_of_neg (by simpa using hc)
      simp [rootOf, htake, hc]

variable {homes : Text → Option Text} {p : Path}

theorem expandHome?_of_no_tilde
    (h : p.root ≠ .none ∨ ∀ name rest, p.parts ≠ (.tilde :: name) :: rest) :
    p.expandHome? homes = some p := by
  unfold expandHome?
  split
  · rename_i c name rest hroot hparts
    refine if_pos ?_
    rintro rfl
    rcases h with h | h
    · exact h hroot
    · exact h _ _ hparts
  · rfl

/-- **A tilde stands for the home directory of the user whose name follows it.** -/
theorem expandHome?_of_tilde {name : Text} {rest : List Text} (hroot : p.root = .none)
    (hparts : p.parts = (.tilde :: name) :: rest) {path : Path}
    (h : p.expandHome? homes = some path) :
    ∃ home, homes name = some home ∧ path = (homePath home).append rest := by
  obtain ⟨root, parts⟩ := p
  cases hroot
  cases hparts
  unfold expandHome? at h
  dsimp only at h
  rw [if_neg (not_not_intro rfl)] at h
  cases hhome : homes name with
  | none =>
    rw [hhome] at h
    cases h
  | some home =>
    rw [hhome, Option.map_some] at h
    dsimp only at h
    split at h
    · cases h
    · rw [ofText_homeDirectory] at h
      exact ⟨home, rfl, (Option.some.inj h).symm⟩

theorem normal_expandHome? (hp : p.Normal) {path : Path} (h : p.expandHome? homes = some path) :
    path.Normal := by
  by_cases htilde : p.root ≠ .none ∨ ∀ name rest, p.parts ≠ (.tilde :: name) :: rest
  · rw [expandHome?_of_no_tilde htilde] at h
    exact Option.some.inj h ▸ hp
  · simp only [not_or, not_not, not_forall] at htilde
    obtain ⟨hroot, name, rest, hparts⟩ := htilde
    obtain ⟨home, -, rfl⟩ := expandHome?_of_tilde hroot hparts h
    refine (normal_homePath home).append ?_
    intro part hpart
    exact hp part (hparts ▸ .tail _ hpart)

end Path

/-! ## The place of the file -/

namespace Sources

def setVariable (s : Sources) (name : String) (value : Option Bytes) : Sources :=
  { s with environment := Function.update s.environment name value }

variable (s : Sources) (value : Option Bytes)

@[simp]
theorem setVariable_self (name : String) : (s.setVariable name value).environment name = value := by
  simp [setVariable]

@[simp]
theorem setVariable_of_ne {name other : String} (h : other ≠ name) :
    (s.setVariable name value).environment other = s.environment other := by
  simp [setVariable, h]

end Sources

namespace Config

variable {s : Sources}

def textOf (value : Option Bytes) : Text := (value.map Text.ofBytes).getD []

theorem placed_setVariable (s : Sources) (value : Option Bytes) :
    placed (s.setVariable fileVariable value).environment =
      (textOf value).trim CodePoint.isBlank := by
  simp [placed, textOf]

theorem placed_setHome (s : Sources) (value : Option Bytes) :
    placed (s.setVariable "HOME" value).environment = placed s.environment := by
  simp [placed, fileVariable]

theorem homeOf_setVariable (s : Sources) (value : Option Bytes) :
    homeOf (s.setVariable fileVariable value) = homeOf s := by
  have hhome : (s.setVariable fileVariable value).environment "HOME" = s.environment "HOME" :=
    s.setVariable_of_ne value (by decide)
  funext name
  unfold homeOf
  rw [hhome]
  rfl

theorem location_congr {s s' : Sources} (hd : s'.defaultFile = s.defaultFile)
    (hp : placed s'.environment = placed s.environment) (hh : homeOf s' = homeOf s) :
    location s' = location s := by
  rw [location_eq, location_eq, hd, hp, hh]

theorem location_of_blank {value : Option Bytes} (h : ∀ c ∈ textOf value, c.isBlank = true) :
    location (s.setVariable fileVariable value) = .ok s.defaultFile := by
  rw [location_eq, placed_setVariable, Text.trim_eq_nil h]
  rfl

variable {place : Text} {path : Path}

theorem location_of_placed (hplace : placed s.environment = place) (hne : place ≠ []) :
    location s = .ok path ↔ (Path.ofText place).expandHome? (homeOf s) = some path := by
  rw [location_eq, hplace]
  cases place with
  | nil => exact absurd rfl hne
  | cons c file =>
    dsimp only
    cases (Path.ofText (c :: file)).expandHome? (homeOf s) with
    | some path' => simp
    | none => exact ⟨nofun, nofun⟩

theorem location_of_no_tilde (hplace : placed s.environment = place) (hne : place ≠ [])
    (h : place.head? = some .slash ∨
      ∀ name rest, (Path.ofText place).parts ≠ (.tilde :: name) :: rest) :
    location s = .ok (Path.ofText place) := by
  refine (location_of_placed hplace hne).mpr (Path.expandHome?_of_no_tilde (h.imp_left ?_))
  intro hslash hroot
  exact Path.rootOf_eq_none_iff.mp hroot hslash

theorem homeless_ofText_iff : (Path.ofText place).Homeless (homeOf s) ↔
    place.head? ≠ some .slash ∧ ∃ name rest, (Path.ofText place).parts = (.tilde :: name) :: rest ∧
      ∀ home, homeOf s name = some home → home.head? = some .tilde := by
  simp only [Path.Homeless, Path.head?_homeDirectory]
  exact and_congr_left' Path.rootOf_eq_none_iff

/-- **The file is at a normal path, and only a tilde in front is looked up.**  A variable of blanks
is as good as none, and blanks around its text do not matter.

Suppose that some text is left.  Wherever the file is then, its path and the name of that path are
in normal form.  If the text starts with a slash, or its first component does not start with a
tilde, the path is the normal form of the text, whatever the home is.  Otherwise it starts at a home
directory: that of the user whose name follows the tilde, or the home of the environment if there is
no name; and the remaining components follow.  The place is unknown just if the text is relative,
its first component starts with a tilde, and the home directory is not known or starts with a tilde
itself. -/
theorem location_settles (s : Sources) :
    (∀ value, (∀ c ∈ textOf value, c.isBlank = true) →
      location (s.setVariable fileVariable value) = .ok s.defaultFile) ∧
    (∀ value value' before after, textOf value' = before ++ textOf value ++ after →
      (∀ c ∈ before, c.isBlank = true) → (∀ c ∈ after, c.isBlank = true) →
      location (s.setVariable fileVariable value') =
        location (s.setVariable fileVariable value)) ∧
    ∀ place, placed s.environment = place → place ≠ [] →
      (∀ path, location s = .ok path → path.NormalForm) ∧
      ((place.head? = some .slash ∨
          ∀ name rest, (Path.ofText place).parts ≠ (.tilde :: name) :: rest) →
        location s = .ok (Path.ofText place) ∧
        ∀ home, location (s.setVariable "HOME" home) = .ok (Path.ofText place)) ∧
      (∀ name rest path, place.head? ≠ some .slash →
        (Path.ofText place).parts = (.tilde :: name) :: rest → location s = .ok path →
        (∃ home, homeOf s name = some home ∧ path = (Path.homePath home).append rest) ∧
        ∀ home, name = [] → s.environment "HOME" = some home →
          path = (Path.homePath (.ofBytes home)).append rest) ∧
      ∀ e, location s = .error e ↔ e = .homeless ∧ place.head? ≠ some .slash ∧
        ∃ name rest, (Path.ofText place).parts = (.tilde :: name) :: rest ∧
          ∀ home, homeOf s name = some home → home.head? = some .tilde := by
  refine ⟨fun value => location_of_blank, ?_, ?_⟩
  · intro value value' before after htext hbefore hafter
    refine location_congr rfl ?_ ?_
    · rw [placed_setVariable, placed_setVariable, htext, Text.trim_append hbefore hafter]
    · rw [homeOf_setVariable, homeOf_setVariable]
  · intro place hplace hne
    refine ⟨?_, ?_, ?_, ?_⟩
    · intro path hpath
      have hexpand := (location_of_placed hplace hne).mp hpath
      exact (Path.normal_expandHome? (Path.normal_ofText place) hexpand).normalForm
    · intro h
      refine ⟨location_of_no_tilde hplace hne h, ?_⟩
      intro home
      exact location_of_no_tilde ((placed_setHome s home).trans hplace) hne h
    · intro name rest path hrelative hparts hpath
      have hexpand := (location_of_placed hplace hne).mp hpath
      obtain ⟨home, hhome, rfl⟩ :=
        Path.expandHome?_of_tilde (Path.rootOf_eq_none_iff.mpr hrelative) hparts hexpand
      refine ⟨⟨home, hhome, rfl⟩, ?_⟩
      rintro home' rfl henv
      have hown : homeOf s [] = some (.ofBytes home') := by
        unfold homeOf
        rw [henv]
      rw [Option.some.inj (hhome.symm.trans hown)]
    · intro e
      rw [location_eq_error_iff, hplace, homeless_ofText_iff]

/-- Blanks, dots and slashes around a tilde, and a home that is no normal path itself. -/
theorem location_settles_of_dots : ∃ (s : Sources) (path : Path),
    s.environment fileVariable = some (Text.bytes " .//~/./a/../b/ \n") ∧
    s.environment "HOME" = some (Text.bytes "x/./y//") ∧
    placed s.environment = .ofString ".//~/./a/../b/" ∧ location s = .ok path ∧
    path = (Path.homePath (.ofBytes (Text.bytes "x/./y//"))).append
      [.ofString "a", .ofString "..", .ofString "b"] ∧
    path.NormalForm ∧ path.toText = .ofString "x/y/a/../b" := by
  let s : Sources := {
    environment := fun name =>
      if name = fileVariable then some (Text.bytes " .//~/./a/../b/ \n")
      else if name = "HOME" then some (Text.bytes "x/./y//") else none
    files := fun _ => .error .noSuchFile
    defaultFile := fileIn []
    given := [] }
  let path : Path :=
    ⟨.none, [.ofString "x", .ofString "y", .ofString "a", .ofString "..", .ofString "b"]⟩
  have hplace : placed s.environment = .ofString ".//~/./a/../b/" := by
    with_unfolding_all exact rfl
  have hpath : location s = .ok path := by
    with_unfolding_all exact rfl
  obtain ⟨hnormal, -, hhome, -⟩ := (location_settles s).2.2 _ hplace (by decide)
  have hstart := (hhome [] _ path (by decide) rfl hpath).2 _ rfl rfl
  exact ⟨s, path, rfl, rfl, hplace, hpath, hstart, hnormal path hpath, rfl⟩

end Config

end LineShell
