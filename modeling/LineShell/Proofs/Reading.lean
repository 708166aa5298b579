import LineShell.Line.Read
import LineShell.Proofs.Input
import Mathlib.Data.List.TakeWhile

/-!
# Lines from the input

One read of a line takes bytes up to a terminator, up to the limit, or up to a mark.  Reading line
after line therefore cuts the input into pieces, and nothing is lost.

* `Input.take_lineWithin`: the three ways in which a line stops.
* `Line.read_of_fault`, `Line.read_of_empty`, `Line.read_of_bytes`: all that one read does;
  `Line.read_of_line`: what it takes for a line.
* `Line.physical`, `Line.pieces`: bytes cut after each terminator, and each of these lines cut into
  pieces of some length.
* `Line.Reads`: reading line after line until the end of the stream.
* `Line.reads_pieces`: the lines that are read are the pieces.
-/

namespace LineShell

open LineShell.Action

/-! ## One line -/

def Input.Stop.fault? : Input.Stop → Option Fault
  | .interrupt => some .interrupted
  | .failure e => some (.system e)
  | _ => none

theorem Action.takeInput_of_fault {a : Actor} {q : Quota} {h : Host} {f : Fault}
    (hf : (h.input.take q).stop.fault? = some f) :
    takeInput a q h = ⟨.fault f, { h with input := (h.input.take q).rest },
      [.read a (h.input.take q).bytes (h.input.take q).stop]⟩ := by
  rw [takeInput_apply]
  generalize Input.take q h.input = taken at hf ⊢
  obtain ⟨bytes, stop, rest⟩ := taken
  cases stop with
  | interrupt => cases hf; rfl
  | failure e => cases hf; rfl
  | _ => cases hf

theorem Action.takeInput_of_value {a : Actor} {q : Quota} {h : Host}
    (hf : (h.input.take q).stop.fault? = none) :
    takeInput a q h = ⟨.value (h.input.take q).bytes, { h with input := (h.input.take q).rest },
      [.read a (h.input.take q).bytes (h.input.take q).stop]⟩ := by
  rw [takeInput_apply]
  generalize Input.take q h.input = taken at hf ⊢
  obtain ⟨bytes, stop, rest⟩ := taken
  cases stop with
  | interrupt => cases hf
  | failure e => cases hf
  | _ => rfl

/-- No read of the input is interrupted or fails. -/
def Input.Undisturbed (input : Input) : Prop :=
  ∀ item ∈ input, item = .endOfFile ∨ ∃ b, item = .byte b

theorem Input.undisturbed_ofBytes (bs : Bytes) : (ofBytes bs).Undisturbed := by
  intro item h
  obtain ⟨b, -, rfl⟩ := List.mem_map.mp h
  exact Or.inr ⟨b, rfl⟩

theorem Input.Undisturbed.rest {input : Input} (h : input.Undisturbed) (q : Quota) :
    (take q input).rest.Undisturbed := fun item hi => h item ((rest_suffix q input).subset hi)

theorem Input.Undisturbed.fault? {input : Input} (h : input.Undisturbed) (q : Quota) :
    (take q input).stop.fault? = none := by
  have hmark : ∀ item ∈ (take q input).stop.mark, item = .endOfFile ∨ ∃ b, item = .byte b := by
    intro item hi
    rcases List.mem_append.mp (mem_ended_of_mem_mark hi) with hi | hi
    · exact h item hi
    · exact Or.inl (List.mem_singleton.mp hi)
  cases hs : (take q input).stop with
  | interrupt =>
    have := hmark .interrupt (by rw [hs]; exact List.mem_singleton_self _)
    simp at this
  | failure e =>
    have := hmark (.failure e) (by rw [hs]; exact List.mem_singleton_self _)
    simp at this
  | _ => rfl

/-- **A line stops at a terminator, at its limit, or at a mark.**  Only in the first case does it
hold a terminator, and then as its last byte; only in the second is it as long as the limit. -/
theorem Input.take_lineWithin (n : Nat) (input : Input) :
    (∃ v, take (.lineWithin n) input =
        ⟨v ++ [Line.terminator], .terminator, (take (.lineWithin n) input).rest⟩ ∧
      Line.terminator ∉ v ∧ v.length < n) ∨
    (take (.lineWithin n) input).stop ≠ .terminator ∧
      Line.terminator ∉ (take (.lineWithin n) input).bytes ∧
      (take (.lineWithin n) input).bytes.length ≤ n ∧
      ((take (.lineWithin n) input).stop = .quota ↔
        (take (.lineWithin n) input).bytes.length = n) := by
  induction input generalizing n with
  | nil =>
    cases n with
    | zero => right; simp [take_nil, Quota.lineWithin, Quota.isMet]
    | succ n => right; simp [take_nil, Quota.lineWithin, Quota.isMet]
  | cons item rest ih =>
    cases n with
    | zero => right; rw [take_of_isMet rfl]; simp
    | succ n =>
      have hq : (Quota.lineWithin (n + 1)).isMet = false := rfl
      cases item with
      | byte b =>
        rw [take_byte hq]
        by_cases hb : b = Line.terminator
        · left
          refine ⟨[], ?_, by simp, by simp⟩
          rw [if_pos (by simp [Quota.lineWithin, hb]), hb]
          rfl
        · rw [if_neg (by simp [Quota.lineWithin, hb])]
          have ha : (Quota.lineWithin (n + 1)).afterByte = .lineWithin n := rfl
          rw [ha]
          rcases ih n with ⟨v, hv, hmem, hlen⟩ | ⟨hs, hmem, hlen, hquota⟩
          · left
            refine ⟨b :: v, ?_, ?_, by simp; omega⟩
            · rw [hv]
              rfl
            · rw [List.mem_cons, not_or]
              exact ⟨Ne.symm hb, hmem⟩
          · right
            refine ⟨hs, ?_, by simp; omega, by simp [hquota]⟩
            rw [List.mem_cons, not_or]
            exact ⟨Ne.symm hb, hmem⟩
      | endOfFile | interrupt | failure =>
        right
        rw [take_mark hq rfl]
        simp

namespace Line

/-- The bytes that a read of a line may take; its terminator counts. -/
def room (limit : Int) : Nat := (limit - 1).toNat

theorem room_pos {limit : Int} (hl : 2 ≤ limit) : 0 < room limit := by rw [room]; omega

def endRecord : Record := ⟨"labsh.shell.reader", .debug, .ofString "end of stream"⟩

def truncationRecord (length : Nat) : Record :=
  ⟨"labsh.shell.reader", .warning,
    .ofString "command line truncated to " ++ .decimal length ++ .ofString " bytes"⟩

def isCut (limit : Int) (raw : Bytes) : Bool := !raw.contains terminator && room limit ≤ raw.length

section

variable {limit : Int} {h : Host}

/-- An interrupted or failing read of a line loses what it took. -/
theorem read_of_fault (hl : 2 ≤ limit) {f : Fault}
    (hf : (h.input.take (.lineWithin (room limit))).stop.fault? = some f) :
    Line.read limit h =
      ⟨.fault f, { h with input := (h.input.take (.lineWithin (room limit))).rest },
        [.read .shell (h.input.take (.lineWithin (room limit))).bytes
          (h.input.take (.lineWithin (room limit))).stop]⟩ := by
  rw [Line.read, if_neg (by omega)]
  have := takeInput_of_fault (a := .shell) hf
  rw [bind_apply, room] at *
  rw [this]

/-- No byte before an end of file is the end of the stream. -/
theorem read_of_empty (hl : 2 ≤ limit)
    (hf : (h.input.take (.lineWithin (room limit))).stop.fault? = none)
    (hb : (h.input.take (.lineWithin (room limit))).bytes = []) :
    Line.read limit h =
      ⟨.value .endOfStream, { h with input := (h.input.take (.lineWithin (room limit))).rest },
        [.read .shell [] (h.input.take (.lineWithin (room limit))).stop, .log endRecord]⟩ := by
  have ht := takeInput_of_value (a := .shell) hf
  rw [Line.read, if_neg (by omega), bind_apply]
  rw [room] at ht hb ⊢
  rw [ht, hb]
  rfl

/-- All other reads give a line: the bytes before the terminator, if there is one. -/
theorem read_of_bytes (hl : 2 ≤ limit)
    (hf : (h.input.take (.lineWithin (room limit))).stop.fault? = none)
    (hb : (h.input.take (.lineWithin (room limit))).bytes ≠ []) :
    Line.read limit h =
      ⟨.value (.line (ofRaw (h.input.take (.lineWithin (room limit))).bytes
          (isCut limit (h.input.take (.lineWithin (room limit))).bytes))),
        { h with input := (h.input.take (.lineWithin (room limit))).rest },
        .read .shell (h.input.take (.lineWithin (room limit))).bytes
          (h.input.take (.lineWithin (room limit))).stop ::
        if isCut limit (h.input.take (.lineWithin (room limit))).bytes then
          [.log (truncationRecord (h.input.take (.lineWithin (room limit))).bytes.length)]
        else []⟩ := by
  have ht := takeInput_of_value (a := .shell) hf
  rw [Line.read, if_neg (by omega), bind_apply]
  unfold isCut
  rw [room] at ht hb ⊢
  rw [ht]
  dsimp only
  rw [if_neg (by simpa using hb)]
  generalize (h.input.take (.lineWithin (limit - 1).toNat)).bytes = raw
  generalize (!raw.contains terminator && decide ((limit - 1).toNat ≤ raw.length)) = cut
  cases cut <;> rfl

end

/-! ## Lines without their terminators -/

theorem bytes_ofRaw (raw : Bytes) (cut : Bool) :
    (ofRaw raw cut).bytes = raw.takeWhile (· != terminator) := rfl

theorem ne_terminator_of_notMem {bs : Bytes} (h : terminator ∉ bs) :
    ∀ b ∈ bs, (b != terminator) = true := by
  intro b hb
  rw [bne_iff_ne]
  rintro rfl
  exact h hb

theorem bytes_ofRaw_append {v : Bytes} (h : terminator ∉ v) (cut : Bool) :
    (ofRaw (v ++ [terminator]) cut).bytes = v := by
  rw [bytes_ofRaw, List.takeWhile_append_of_pos (ne_terminator_of_notMem h),
    List.takeWhile_cons_of_neg (by simp), List.append_nil]

theorem bytes_ofRaw_of_notMem {raw : Bytes} (h : terminator ∉ raw) (cut : Bool) :
    (ofRaw raw cut).bytes = raw := by
  rw [bytes_ofRaw, List.takeWhile_eq_self_iff]
  exact ne_terminator_of_notMem h

/-- What the shell takes from the input for a line, by what stops it. -/
def IsTaken (limit : Int) (line : Line) (raw : Bytes) : Input.Stop → Prop
  | .terminator => raw = line.bytes ++ [terminator]
  | .quota => raw = line.bytes ∧ line.length = room limit
  | .endOfFile => raw = line.bytes
  | _ => False

theorem bytes_of_line {limit : Int} {h : Host} {line : Line}
    (hr : (Line.read limit h).ending = .value (.line line)) : 2 ≤ limit ∧
      (h.input.take (.lineWithin (room limit))).stop.fault? = none ∧
      (h.input.take (.lineWithin (room limit))).bytes ≠ [] := by
  have hl : 2 ≤ limit := by
    by_contra hl
    rw [Line.read, if_pos (by omega)] at hr
    cases hr
  have hf : (h.input.take (.lineWithin (room limit))).stop.fault? = none := by
    cases hf : (h.input.take (.lineWithin (room limit))).stop.fault? with
    | none => rfl
    | some f =>
      rw [read_of_fault hl hf] at hr
      cases hr
  refine ⟨hl, hf, ?_⟩
  intro hb
  rw [read_of_empty hl hf hb] at hr
  cases hr

/-- **A line is read for no more than its bytes and its terminator**: the shell takes these, and
leaves what comes behind them. -/
theorem read_of_line {limit : Int} {h : Host} {line : Line}
    (hr : (Line.read limit h).ending = .value (.line line)) :
    ∃ raw stop logs, (Line.read limit h).trace = .read .shell raw stop :: logs ∧
      (∀ e ∈ logs, e.isRead = false) ∧ IsTaken limit line raw stop := by
  obtain ⟨hl, hf, hb⟩ := bytes_of_line hr
  rw [read_of_bytes hl hf hb] at hr ⊢
  obtain rfl := Reading.line.inj (Ending.value.inj hr)
  refine ⟨_, _, _, rfl, ?_, ?_⟩
  · intro e he
    split at he
    · rw [List.mem_singleton.mp he]
      rfl
    · cases he
  · rcases Input.take_lineWithin (room limit) h.input with ⟨v, ht, hv, -⟩ | ⟨hs, hmem, -, hq⟩
    · rw [ht]
      show v ++ [terminator] = _ ++ [terminator]
      rw [bytes_ofRaw_append hv]
    · have hraw := bytes_ofRaw_of_notMem hmem
        (isCut limit (h.input.take (.lineWithin (room limit))).bytes)
      cases hstop : (h.input.take (.lineWithin (room limit))).stop with
      | quota => exact ⟨hraw.symm, by rw [length, hraw]; exact hq.mp hstop⟩
      | terminator => exact absurd hstop hs
      | endOfFile => exact hraw.symm
      | interrupt =>
        rw [hstop] at hf
        cases hf
      | failure e =>
        rw [hstop] at hf
        cases hf

/-! ## Cutting bytes -/

/-- The physical lines of some bytes: there is a cut after each terminator, and the last line may
lack one. -/
def physical : Bytes → List Bytes
  | [] => []
  | b :: bs =>
    if b = terminator then [b] :: physical bs
    else match physical bs with
      | [] => [[b]]
      | l :: ls => (b :: l) :: ls

def chunks (n : Nat) : Bytes → List Bytes
  | [] => []
  | b :: bs => (b :: bs.take (n - 1)) :: chunks n (bs.drop (n - 1))
termination_by bs => bs.length
decreasing_by simp only [List.length_drop, List.length_cons]; omega

/-- The physical lines of some bytes, each in pieces of `n` bytes. -/
def pieces (n : Nat) (bytes : Bytes) : List Bytes := (physical bytes).flatMap (chunks n)

def unterminated (piece : Bytes) : Bytes :=
  if piece.getLast? = some terminator then piece.dropLast else piece

theorem chunks_nil (n : Nat) : chunks n [] = [] := by rw [chunks]

theorem chunks_eq {n : Nat} (hn : 0 < n) {l : Bytes} (hl : l ≠ []) :
    chunks n l = l.take n :: chunks n (l.drop n) := by
  obtain ⟨b, bs, rfl⟩ := List.exists_cons_of_ne_nil hl
  obtain ⟨m, rfl⟩ := Nat.exists_eq_succ_of_ne_zero hn.ne'
  rw [chunks]
  rfl

theorem physical_cons_terminator (bs : Bytes) :
    physical (terminator :: bs) = [terminator] :: physical bs := by rw [physical, if_pos rfl]

theorem physical_cons_of_nil {b : UInt8} {bs : Bytes} (hb : b ≠ terminator)
    (h : physical bs = []) : physical (b :: bs) = [[b]] := by rw [physical, if_neg hb, h]

theorem physical_cons_of_cons {b : UInt8} {bs l : Bytes} {ls : List Bytes} (hb : b ≠ terminator)
    (h : physical bs = l :: ls) : physical (b :: bs) = (b :: l) :: ls := by
  rw [physical, if_neg hb, h]

theorem flatten_physical (bs : Bytes) : (physical bs).flatten = bs := by
  induction bs with
  | nil => rfl
  | cons b bs ih =>
    by_cases hb : b = terminator
    · rw [hb, physical_cons_terminator, List.flatten_cons, ih]
      rfl
    · cases hp : physical bs with
      | nil =>
        rw [hp] at ih
        rw [physical_cons_of_nil hb hp, ← ih]
        rfl
      | cons l ls =>
        rw [hp, List.flatten_cons] at ih
        rw [physical_cons_of_cons hb hp, List.flatten_cons, List.cons_append, ih]

theorem physical_eq_nil {bs : Bytes} (h : physical bs = []) : bs = [] := by
  rw [← flatten_physical bs, h]
  rfl

theorem ne_nil_of_mem_physical {bs l : Bytes} (h : l ∈ physical bs) : l ≠ [] := by
  induction bs generalizing l with
  | nil => cases h
  | cons b bs ih =>
    by_cases hb : b = terminator
    · rw [hb, physical_cons_terminator] at h
      rcases List.mem_cons.mp h with rfl | h
      · exact List.cons_ne_nil _ _
      · exact ih h
    · cases hp : physical bs with
      | nil =>
        rw [physical_cons_of_nil hb hp, List.mem_singleton] at h
        exact h ▸ List.cons_ne_nil _ _
      | cons l' ls' =>
        rw [physical_cons_of_cons hb hp] at h
        rcases List.mem_cons.mp h with rfl | h
        · exact List.cons_ne_nil _ _
        · exact ih (hp ▸ List.mem_cons_of_mem l' h)

theorem physical_flatten_tail {bs l : Bytes} {ls : List Bytes} (h : physical bs = l :: ls) :
    physical ls.flatten = ls := by
  induction bs generalizing l with
  | nil => cases h
  | cons b bs ih =>
    by_cases hb : b = terminator
    · rw [hb, physical_cons_terminator] at h
      obtain ⟨-, rfl⟩ := List.cons.inj h
      rw [flatten_physical]
    · cases hp : physical bs with
      | nil =>
        rw [physical_cons_of_nil hb hp] at h
        obtain ⟨-, rfl⟩ := List.cons.inj h
        rfl
      | cons l' ls' =>
        rw [physical_cons_of_cons hb hp] at h
        obtain ⟨-, rfl⟩ := List.cons.inj h
        exact ih hp

/-- What follows some bytes within the first line is the rest of that line and then what follows
it. -/
theorem physical_drop {bs l : Bytes} {ls : List Bytes} (h : physical bs = l :: ls) {m : Nat}
    (hm : m < l.length) : physical (bs.drop m) = l.drop m :: ls := by
  induction m generalizing bs l with
  | zero => exact h
  | succ m ih =>
    cases bs with
    | nil => cases h
    | cons b bs =>
      by_cases hb : b = terminator
      · rw [hb, physical_cons_terminator] at h
        obtain ⟨rfl, -⟩ := List.cons.inj h
        simp at hm
      · cases hp : physical bs with
        | nil =>
          rw [physical_cons_of_nil hb hp] at h
          obtain ⟨rfl, -⟩ := List.cons.inj h
          simp at hm
        | cons l' ls' =>
          rw [physical_cons_of_cons hb hp] at h
          obtain ⟨rfl, rfl⟩ := List.cons.inj h
          exact ih hp (by simpa using hm)

theorem eq_nil_of_notMem {bs l : Bytes} {ls : List Bytes} (h : physical bs = l :: ls)
    (hl : terminator ∉ l) : ls = [] := by
  induction bs generalizing l with
  | nil => cases h
  | cons b bs ih =>
    by_cases hb : b = terminator
    · rw [hb, physical_cons_terminator] at h
      obtain ⟨rfl, -⟩ := List.cons.inj h
      simp at hl
    · cases hp : physical bs with
      | nil =>
        rw [physical_cons_of_nil hb hp] at h
        exact (List.cons.inj h).2.symm
      | cons l' ls' =>
        rw [physical_cons_of_cons hb hp] at h
        obtain ⟨rfl, rfl⟩ := List.cons.inj h
        exact ih hp fun hm => hl (List.mem_cons_of_mem b hm)

/-- **The first read gets as much of the first line as its limit allows.** -/
theorem take_ofBytes {n : Nat} {bs l : Bytes} {ls : List Bytes} (h : physical bs = l :: ls) :
    (Input.take (.lineWithin n) (.ofBytes bs)).bytes = l.take n ∧
      (Input.take (.lineWithin n) (.ofBytes bs)).rest = .ofBytes (bs.drop (l.take n).length) := by
  induction bs generalizing l n with
  | nil => cases h
  | cons b bs ih =>
    cases n with
    | zero =>
      rw [Input.take_of_isMet rfl]
      exact ⟨rfl, rfl⟩
    | succ n =>
      have ht := Input.take_byte (q := .lineWithin (n + 1)) rfl b (Input.ofBytes bs)
      have hcons : Input.ofBytes (b :: bs) = .byte b :: Input.ofBytes bs := rfl
      rw [hcons, ht]
      by_cases hb : b = terminator
      · rw [hb, physical_cons_terminator] at h
        obtain ⟨rfl, -⟩ := List.cons.inj h
        rw [if_pos (by simp [Quota.lineWithin, hb]), hb]
        simp
      · rw [if_neg (by simp [Quota.lineWithin, hb])]
        have ha : (Quota.lineWithin (n + 1)).afterByte = .lineWithin n := rfl
        rw [ha]
        cases hp : physical bs with
        | nil =>
          rw [physical_cons_of_nil hb hp] at h
          obtain ⟨rfl, -⟩ := List.cons.inj h
          obtain rfl := physical_eq_nil hp
          have hnil : Input.take (.lineWithin n) (Input.ofBytes []) = ⟨[], _, []⟩ :=
            Input.take_nil _
          rw [hnil]
          simp [Input.ofBytes]
        | cons l' ls' =>
          rw [physical_cons_of_cons hb hp] at h
          obtain ⟨rfl, rfl⟩ := List.cons.inj h
          obtain ⟨h1, h2⟩ := ih (n := n) hp
          exact ⟨congrArg (b :: ·) h1, h2⟩

def front (n : Nat) (bs : Bytes) : Bytes := (Input.take (.lineWithin n) (.ofBytes bs)).bytes

theorem pieces_nil (n : Nat) : pieces n [] = [] := rfl

/-- **The first piece is what the first read gets**, and the others are the pieces of what it
leaves. -/
theorem pieces_eq_cons {n : Nat} (hn : 0 < n) {bs : Bytes} (hbs : bs ≠ []) :
    pieces n bs = front n bs :: pieces n (bs.drop (front n bs).length) := by
  obtain ⟨l, ls, hp⟩ := List.exists_cons_of_ne_nil fun h => hbs (physical_eq_nil h)
  have hflat : bs = l ++ ls.flatten := by rw [← List.flatten_cons, ← hp, flatten_physical]
  have hl : l ≠ [] := ne_nil_of_mem_physical (by rw [hp]; exact List.mem_cons_self)
  rw [front, (take_ofBytes hp).1, pieces, hp, List.flatMap_cons, chunks_eq hn hl, List.cons_append]
  congr 1
  rcases Nat.lt_or_ge n l.length with h | h
  · rw [List.length_take, Nat.min_eq_left h.le, pieces, physical_drop hp h, List.flatMap_cons]
  · rw [List.take_of_length_le h, List.drop_of_length_le h, hflat, List.drop_left, pieces,
      physical_flatten_tail hp, chunks_nil, List.nil_append]

theorem pieces_induction {n : Nat} (hn : 0 < n) {P : Bytes → Prop} (nil : P [])
    (cons : ∀ bs, bs ≠ [] → front n bs ≠ [] → P (bs.drop (front n bs).length) → P bs)
    (bs : Bytes) : P bs := by
  induction hk : bs.length using Nat.strong_induction_on generalizing bs with
  | _ k ih =>
    by_cases hbs : bs = []
    · exact hbs ▸ nil
    · obtain ⟨l, ls, hp⟩ := List.exists_cons_of_ne_nil fun h => hbs (physical_eq_nil h)
      have hl : l ≠ [] := ne_nil_of_mem_physical (by rw [hp]; exact List.mem_cons_self)
      have hf : (front n bs).length ≠ 0 := by
        rw [front, (take_ofBytes hp).1, List.length_take]
        have := List.length_pos_iff.mpr hl
        omega
      refine cons bs hbs (fun h => hf (by rw [h]; rfl)) (ih _ ?_ _ rfl)
      have := List.length_pos_iff.mpr hbs
      rw [List.length_drop]
      omega

/-! ## Reading to the end -/

/-- Reading line after line from a host gives some lines, then the end of the stream, and leaves a
host. -/
inductive Reads (limit : Int) : Host → List Line → Host → Prop
  | done {h : Host} : (Line.read limit h).ending = .value .endOfStream →
      Reads limit h [] (Line.read limit h).host
  | more {h left : Host} {line : Line} {lines : List Line} :
      (Line.read limit h).ending = .value (.line line) →
      Reads limit (Line.read limit h).host lines left → Reads limit h (line :: lines) left

def ofPiece (limit : Int) (piece : Bytes) : Line := ofRaw piece (isCut limit piece)

/-- The bytes that were typed for a line, as far as the line tells. -/
def typed (line : Line) : Bytes := line.bytes ++ if line.truncated then [] else [terminator]

/-- The last piece of some bytes is unterminated, and there would have been room for more. -/
def EndsShort (n : Nat) (bs : Bytes) : Prop :=
  ∃ piece, (pieces n bs).getLast? = some piece ∧ terminator ∉ piece ∧ piece.length < n

/-- **Reading line after line ends, and the lines are the pieces of the input.** -/
theorem reads_ofBytes {limit : Int} (hl : 2 ≤ limit) (host : Host) (bs : Bytes) :
    Reads limit { host with input := .ofBytes bs } ((pieces (room limit) bs).map (ofPiece limit))
      { host with input := [] } := by
  have hn := room_pos hl
  induction bs using pieces_induction hn with
  | nil =>
    have hread := read_of_empty (h := { host with input := .ofBytes [] }) hl
      ((Input.undisturbed_ofBytes []).fault? _) rfl
    have hdone := Reads.done (congrArg Result.ending hread)
    rw [hread] at hdone
    exact hdone
  | cons bs hbs hf ih =>
    have hread := read_of_bytes (h := { host with input := .ofBytes bs }) hl
      ((Input.undisturbed_ofBytes bs).fault? _) hf
    obtain ⟨l, ls, hp⟩ := List.exists_cons_of_ne_nil fun h => hbs (physical_eq_nil h)
    rw [pieces_eq_cons hn hbs, List.map_cons]
    refine .more (congrArg Result.ending hread) ?_
    rw [hread]
    dsimp only
    rw [(take_ofBytes hp).2, ← (take_ofBytes hp).1]
    exact ih

/-! ### What a piece tells -/

/-- A piece holds a terminator only as its last byte, and it is no longer than the limit allows. -/
def IsPiece (n : Nat) (piece : Bytes) : Prop :=
  (∃ v, piece = v ++ [terminator] ∧ terminator ∉ v ∧ v.length < n) ∨
    terminator ∉ piece ∧ piece.length ≤ n

theorem isPiece_take (n : Nat) (input : Input) :
    IsPiece n (input.take (.lineWithin n)).bytes := by
  rcases Input.take_lineWithin n input with ⟨v, h, hv⟩ | ⟨-, h, h', -⟩
  · exact Or.inl ⟨v, by rw [h], hv⟩
  · exact Or.inr ⟨h, h'⟩

theorem isPiece_front (n : Nat) (bs : Bytes) : IsPiece n (front n bs) := isPiece_take n _

theorem isPiece_of_mem {n : Nat} (hn : 0 < n) {bs : Bytes} :
    ∀ piece ∈ pieces n bs, IsPiece n piece := by
  induction bs using pieces_induction hn with
  | nil => intro piece h; cases h
  | cons bs hbs _ ih =>
    rw [pieces_eq_cons hn hbs]
    exact List.forall_mem_cons.mpr ⟨isPiece_front n bs, ih⟩

theorem IsPiece.bytes_ofPiece {limit : Int} {piece : Bytes} (h : IsPiece (room limit) piece) :
    (ofPiece limit piece).bytes = unterminated piece := by
  rcases h with ⟨v, rfl, hv, -⟩ | ⟨hp, -⟩
  · rw [ofPiece, bytes_ofRaw_append hv, unterminated, if_pos (by simp), List.dropLast_concat]
  · rw [ofPiece, bytes_ofRaw_of_notMem hp, unterminated,
      if_neg fun hg => hp (List.mem_of_getLast? hg)]

theorem IsPiece.truncated_ofPiece {limit : Int} {piece : Bytes} (h : IsPiece (room limit) piece) :
    (ofPiece limit piece).truncated = decide (piece.length = room limit ∧ terminator ∉ piece) := by
  change isCut limit piece = _
  rw [isCut, Bool.eq_iff_iff, Bool.and_eq_true, Bool.not_eq_true', decide_eq_true_iff,
    decide_eq_true_iff]
  rcases h with ⟨v, rfl, -, -⟩ | ⟨hp, hlen⟩
  · simp
  · have hc : piece.contains terminator = false := by simpa using hp
    rw [hc]
    constructor
    · rintro ⟨-, h⟩
      exact ⟨by omega, hp⟩
    · rintro ⟨h, -⟩
      exact ⟨rfl, by omega⟩

/-- A line tells all that was typed for it, unless the input ended before its terminator. -/
theorem IsPiece.typed_ofPiece {limit : Int} {piece : Bytes} (h : IsPiece (room limit) piece) :
    typed (ofPiece limit piece) =
      piece ++ if terminator ∉ piece ∧ piece.length < room limit then [terminator] else [] := by
  rw [typed, h.bytes_ofPiece, h.truncated_ofPiece]
  rcases h with ⟨v, rfl, -, -⟩ | ⟨hp, hlen⟩
  · simp [unterminated]
  · rw [unterminated, if_neg fun hg => hp (List.mem_of_getLast? hg)]
    rcases Nat.lt_or_ge piece.length (room limit) with h | h
    · simp [hp, h, h.ne]
    · simp [hp, Nat.le_antisymm hlen h]

/-! ### What all pieces tell -/

theorem front_append_drop (n : Nat) (bs : Bytes) :
    front n bs ++ bs.drop (front n bs).length = bs := by
  cases hp : physical bs with
  | nil =>
    obtain rfl := physical_eq_nil hp
    rw [front, List.drop_nil, List.append_nil]
    rfl
  | cons l ls =>
    have hflat : bs = l ++ ls.flatten := by rw [← List.flatten_cons, ← hp, flatten_physical]
    have hpre : l.take n <+: bs := (List.take_prefix n l).trans ⟨_, hflat.symm⟩
    rw [front, (take_ofBytes hp).1]
    exact List.prefix_iff_eq_append.mp hpre

theorem drop_front_eq_nil {n : Nat} {bs : Bytes} (h : terminator ∉ front n bs)
    (hlt : (front n bs).length < n) : bs.drop (front n bs).length = [] := by
  cases hp : physical bs with
  | nil =>
    obtain rfl := physical_eq_nil hp
    exact List.drop_nil
  | cons l ls =>
    have hflat : bs = l ++ ls.flatten := by rw [← List.flatten_cons, ← hp, flatten_physical]
    rw [front, (take_ofBytes hp).1] at h hlt ⊢
    have hl : l.take n = l := List.take_of_length_le (by rw [List.length_take] at hlt; omega)
    rw [hl] at h ⊢
    rw [hflat, eq_nil_of_notMem hp h]
    simp

theorem not_endsShort_nil (n : Nat) : ¬ EndsShort n [] := by
  rintro ⟨piece, h, -⟩
  cases h

theorem endsShort_of_drop_eq_nil {n : Nat} (hn : 0 < n) {bs : Bytes} (hbs : bs ≠ [])
    (hr : bs.drop (front n bs).length = []) :
    EndsShort n bs ↔ terminator ∉ front n bs ∧ (front n bs).length < n := by
  rw [EndsShort, pieces_eq_cons hn hbs, hr, pieces_nil]
  simp

theorem endsShort_of_drop_ne_nil {n : Nat} (hn : 0 < n) {bs : Bytes} (hbs : bs ≠ [])
    (hr : bs.drop (front n bs).length ≠ []) :
    EndsShort n bs ↔ EndsShort n (bs.drop (front n bs).length) := by
  rw [EndsShort, EndsShort, pieces_eq_cons hn hbs, pieces_eq_cons hn hr, List.getLast?_cons_cons]

/-- **The lines tell all that was typed**, and a terminator too many exactly if the input ends in a
line that is neither terminated nor full. -/
theorem typed_pieces {limit : Int} (hl : 2 ≤ limit) (bs : Bytes) :
    (EndsShort (room limit) bs →
      ((pieces (room limit) bs).map (ofPiece limit)).flatMap typed = bs ++ [terminator]) ∧
    (¬ EndsShort (room limit) bs →
      ((pieces (room limit) bs).map (ofPiece limit)).flatMap typed = bs) := by
  have hn := room_pos hl
  induction bs using pieces_induction hn with
  | nil => exact ⟨fun h => absurd h (not_endsShort_nil _), fun _ => rfl⟩
  | cons bs hbs _ ih =>
    have happ := front_append_drop (room limit) bs
    rw [pieces_eq_cons hn hbs, List.map_cons, List.flatMap_cons,
      (isPiece_front (room limit) bs).typed_ofPiece]
    by_cases hr : bs.drop (front (room limit) bs).length = []
    · rw [hr, List.append_nil] at happ
      rw [endsShort_of_drop_eq_nil hn hbs hr, hr, pieces_nil, List.map_nil, List.flatMap_nil,
        List.append_nil]
      exact ⟨fun h => by rw [if_pos h, happ], fun h => by rw [if_neg h, happ, List.append_nil]⟩
    · have hfull : ¬ (terminator ∉ front (room limit) bs ∧
          (front (room limit) bs).length < room limit) := fun h => hr (drop_front_eq_nil h.1 h.2)
      rw [endsShort_of_drop_ne_nil hn hbs hr, if_neg hfull, List.append_nil]
      refine ⟨fun h => ?_, fun h => ?_⟩
      · rw [ih.1 h, ← List.append_assoc, happ]
      · rw [ih.2 h, happ]

/-- At the end of the input every read gives the end of the stream, and changes nothing. -/
theorem read_exhausted {limit : Int} (hl : 2 ≤ limit) (host : Host) :
    (Line.read limit { host with input := [] }).ending = .value .endOfStream ∧
      (Line.read limit { host with input := [] }).host = { host with input := [] } := by
  have hread := read_of_empty (h := { host with input := [] }) hl
    ((Input.undisturbed_ofBytes []).fault? _) rfl
  rw [hread]
  exact ⟨rfl, rfl⟩

/-- **Reading line after line cuts the input into pieces, and loses nothing of it.**  The lines end
with the input.  They are the pieces of the physical lines without terminators, and a line is
truncated if its piece is full and unterminated.  Typed again, the lines are the input, but for a
terminator after a last piece that is short. -/
theorem reads_pieces {limit : Int} (hl : 2 ≤ limit) (host : Host) (bs : Bytes) :
    ∃ lines, Reads limit { host with input := .ofBytes bs } lines { host with input := [] } ∧
      lines.map Line.bytes = (pieces (limit - 1).toNat bs).map unterminated ∧
      lines.map Line.truncated = (pieces (limit - 1).toNat bs).map
        (fun piece => decide (piece.length = (limit - 1).toNat ∧ terminator ∉ piece)) ∧
      (∀ line ∈ lines, terminator ∉ line.bytes ∧ line.length ≤ (limit - 1).toNat) ∧
      (EndsShort (limit - 1).toNat bs → lines.flatMap typed = bs ++ [terminator]) ∧
      (¬ EndsShort (limit - 1).toNat bs → lines.flatMap typed = bs) ∧
      ∀ limit', 2 ≤ limit' →
        (Line.read limit' { host with input := [] }).ending = .value .endOfStream ∧
        (Line.read limit' { host with input := [] }).host = { host with input := [] } := by
  have hn : 0 < room limit := by rw [room]; omega
  have hpieces : ∀ piece ∈ pieces (room limit) bs, IsPiece (room limit) piece := isPiece_of_mem hn
  refine ⟨_, reads_ofBytes hl host bs, ?_, ?_, ?_, (typed_pieces hl bs).1, (typed_pieces hl bs).2,
    fun limit' hl' => read_exhausted hl' host⟩
  · rw [List.map_map]
    exact List.map_congr_left fun p hp => (hpieces p hp).bytes_ofPiece
  · rw [List.map_map]
    exact List.map_congr_left fun p hp => (hpieces p hp).truncated_ofPiece
  · intro line hline
    obtain ⟨p, hp, rfl⟩ := List.mem_map.mp hline
    refine ⟨(ofPiece limit p).terminator_not_mem, ?_⟩
    rw [length, (hpieces p hp).bytes_ofPiece, unterminated]
    change _ ≤ room limit
    rcases hpieces p hp with ⟨v, rfl, -, hv⟩ | ⟨-, hv⟩
    · simp; omega
    · split
      · rw [List.length_dropLast]; omega
      · exact hv

/-- With a limit of four bytes, the input `a\nbcde` is three lines: the limit cuts `bcd` from its
rest, and the end of the input makes up for the terminator of that. -/
theorem reads_pieces_of_limit_four : (2 : Int) ≤ 4 ∧ ∃ lines,
    Reads 4 { input := .ofBytes [0x61, 0x0A, 0x62, 0x63, 0x64, 0x65] } lines { input := [] } ∧
      lines.map Line.bytes = [[0x61], [0x62, 0x63, 0x64], [0x65]] ∧
      lines.map Line.truncated = [false, true, false] ∧
      lines.flatMap typed = [0x61, 0x0A, 0x62, 0x63, 0x64, 0x65, 0x0A] := by
  have hp : pieces 3 [0x61, 0x0A, 0x62, 0x63, 0x64, 0x65] =
      [[0x61, 0x0A], [0x62, 0x63, 0x64], [0x65]] := by
    simp [pieces, physical, chunks, terminator]
  have hs : EndsShort 3 [0x61, 0x0A, 0x62, 0x63, 0x64, 0x65] :=
    ⟨[0x65], by rw [hp]; rfl, by decide, by decide⟩
  obtain ⟨lines, hr, hb, ht, -, hshort, -⟩ := reads_pieces (show (2 : Int) ≤ 4 by decide) {}
    [0x61, 0x0A, 0x62, 0x63, 0x64, 0x65]
  refine ⟨by decide, lines, hr, hb.trans ?_, ht.trans ?_, hshort hs⟩
  · rw [show ((4 : Int) - 1).toNat = 3 from rfl, hp]
    decide
  · rw [show ((4 : Int) - 1).toNat = 3 from rfl, hp]
    decide

end Line

end LineShell
