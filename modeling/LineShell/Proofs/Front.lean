import LineShell.Proofs.Exhaustion
import Mathlib.Logic.Relation

/-!
# What settles a line

A line is settled by what comes first: a terminator, the limit, or a mark.  All that comes up to
there is the **front** of the input, and one read of a line depends on nothing else.

* `Script`: an input in the parts in which it arrives; `Script.pulled`, single reads of it.
  `Script.items_of_divided`: it makes no difference where bytes that arrive together are divided.
* `Input.Settles`, `Input.IsFront`: the shortest beginning of an input that settles a line.
* `Input.isFront_met`, `Input.IsFront.unique`: it is what a reader of lines meets.
* `Line.read_of_stopped`, `Line.read_of_endOfFile`, `Line.read_of_front`: all that one read of a
  line comes to, read off the front.  `Line.read_of_same_front`: nothing else makes a difference.
* `Line.read_front`: all this together, for every script and every limit.
-/

namespace LineShell

open LineShell.Action

/-! ## Scripts -/

/-- A part of what there is to read: some bytes that arrive together, or a mark. -/
inductive Chunk
  | bytes (first : UInt8) (others : Bytes)
  | endOfFile
  | interrupt
  | failure (error : SystemError)

def Chunk.items : Chunk → Input
  | bytes b bs => .ofBytes (b :: bs)
  | endOfFile => [.endOfFile]
  | interrupt => [.interrupt]
  | failure e => [.failure e]

abbrev Script := List Chunk

namespace Script

def items (s : Script) : Input := s.flatMap Chunk.items

/-- A single read: what it meets, and what is left then. -/
def pull : Script → Input.Item × Script
  | [] => (.endOfFile, [])
  | .bytes b [] :: s => (.byte b, s)
  | .bytes b (c :: bs) :: s => (.byte b, .bytes c bs :: s)
  | .endOfFile :: s => (.endOfFile, s)
  | .interrupt :: s => (.interrupt, s)
  | .failure e :: s => (.failure e, s)

def pulled : Nat → Script → Input × Script
  | 0, s => ([], s)
  | k + 1, s => (s.pull.1 :: (pulled k s.pull.2).1, (pulled k s.pull.2).2)

/-- One chunk becomes two. -/
inductive Divided : Script → Script → Prop
  | intro (s t : Script) (b c : UInt8) (bs cs : Bytes) :
      Divided (s ++ .bytes b (bs ++ c :: cs) :: t) (s ++ .bytes b bs :: .bytes c cs :: t)

variable {s s' : Script}

/-- Dividing bytes that arrive together, and joining them, changes nothing that is met. -/
theorem items_of_divided (h : Relation.EqvGen Divided s s') : s.items = s'.items := by
  induction h with
  | rel _ _ h =>
    obtain ⟨s, t, b, c, bs, cs⟩ := h
    simp [items, Chunk.items, Input.ofBytes]
  | refl => rfl
  | symm _ _ _ ih => exact ih.symm
  | trans _ _ _ _ _ ih ih' => exact ih.trans ih'

/-- A single read takes the first item away; at the end it meets an end of file. -/
theorem pull_eq (s : Script) :
    s.pull.1 = s.items.head?.getD .endOfFile ∧ s.pull.2.items = s.items.tail := by
  cases s with
  | nil => exact ⟨rfl, rfl⟩
  | cons chunk s =>
    cases chunk with
    | bytes b bs => cases bs <;> exact ⟨rfl, rfl⟩
    | endOfFile | interrupt | failure => exact ⟨rfl, rfl⟩

theorem pull_of_items {item : Input.Item} {rest : Input} (h : s.items = item :: rest) :
    s.pull.1 = item ∧ s.pull.2.items = rest := by
  obtain ⟨h1, h2⟩ := s.pull_eq
  rw [h] at h1 h2
  exact ⟨h1, h2⟩

/-- **Reads that meet the beginning of an input leave the rest of it.** -/
theorem pulled_of_start {p : Input} (h : p <+: s.items.ended) :
    (s.pulled p.length).1 = p ∧ (s.pulled p.length).2.items = s.items.drop p.length := by
  induction p generalizing s with
  | nil => exact ⟨rfl, rfl⟩
  | cons item p ih =>
    cases hs : s.items with
    | nil =>
      -- all that is met at the end of the input is one end of file
      rw [hs, Input.ended, List.nil_append] at h
      obtain ⟨rfl, hp⟩ := List.cons_prefix_cons.mp h
      obtain rfl := List.prefix_nil.mp hp
      obtain ⟨h1, h2⟩ := s.pull_eq
      rw [hs] at h1 h2
      exact ⟨congrArg ([·]) h1, h2⟩
    | cons item' rest =>
      obtain ⟨h1, h2⟩ := pull_of_items hs
      rw [hs, Input.ended, List.cons_append] at h
      obtain ⟨rfl, hp⟩ := List.cons_prefix_cons.mp h
      obtain ⟨ih1, ih2⟩ := ih (s := s.pull.2) (h2 ▸ hp)
      rw [h2] at ih2
      refine ⟨?_, ih2⟩
      rw [List.length_cons, pulled, h1, ih1]

end Script

/-! ## Fronts -/

namespace Input

/-- A line ends with the item: it is a terminator or a mark. -/
def Item.endsLine : Item → Bool
  | .byte b => b == Line.terminator
  | _ => true

/-- Behind `p` there is nothing more to read for a line of at most `n` bytes. -/
def Settles (n : Nat) (p : Input) : Prop :=
  p.getLast?.any Item.endsLine = true ∨ n ≤ p.bytes.length

instance (n : Nat) (p : Input) : Decidable (Settles n p) :=
  inferInstanceAs (Decidable (_ ∨ _))

/-- `p` is the shortest beginning of the input that settles a line of at most `n` bytes.  The end of
the input counts as a mark. -/
structure IsFront (n : Nat) (input p : Input) : Prop where
  start : p <+: input.ended
  settles : Settles n p
  shortest : ∀ q, q <+: p → Settles n q → q = p

variable {n : Nat} {input p : Input}

theorem not_settles_nil (n : Nat) : ¬ Settles (n + 1) [] := by
  rintro (h | h)
  · cases h
  · exact Nat.not_succ_le_zero n h

theorem settles_cons_byte {b : UInt8} (hb : b ≠ Line.terminator) :
    Settles (n + 1) (.byte b :: p) ↔ Settles n p := by
  have hbytes : bytes (.byte b :: p) = b :: bytes p := rfl
  have hlast : (Item.byte b :: p).getLast?.any Item.endsLine = p.getLast?.any Item.endsLine := by
    cases p with
    | nil => exact beq_eq_false_iff_ne.mpr hb
    | cons item p => rw [List.getLast?_cons_cons]
  rw [Settles, Settles, hlast, hbytes, List.length_cons, Nat.succ_le_succ_iff]

theorem IsFront.singleton {item : Item} (hi : item.endsLine = true) (h : [item] <+: input.ended) :
    IsFront (n + 1) input [item] where
  start := h
  settles := Or.inl hi
  shortest := by
    intro q hq hs
    rcases List.prefix_cons_iff.mp hq with rfl | ⟨t, rfl, ht⟩
    · exact absurd hs (not_settles_nil n)
    · rw [List.prefix_nil.mp ht]

theorem IsFront.cons_byte {b : UInt8} (hb : b ≠ Line.terminator) (h : IsFront n input p) :
    IsFront (n + 1) (.byte b :: input) (.byte b :: p) where
  start := List.cons_prefix_cons.mpr ⟨rfl, h.start⟩
  settles := (settles_cons_byte hb).mpr h.settles
  shortest := by
    intro q hq hs
    rcases List.prefix_cons_iff.mp hq with rfl | ⟨t, rfl, ht⟩
    · exact absurd hs (not_settles_nil n)
    · rw [h.shortest t ht ((settles_cons_byte hb).mp hs)]

/-- There is only one front: of two beginnings that settle a line one is the beginning of the
other. -/
theorem IsFront.unique {q : Input} (h : IsFront n input p) (hq : IsFront n input q) : q = p := by
  rcases List.prefix_or_prefix_of_prefix h.start hq.start with hle | hle
  · exact (hq.shortest p hle h.settles).symm
  · exact h.shortest q hle hq.settles

/-- **What a reader of lines meets is the front of the input.** -/
theorem isFront_met (n : Nat) (input : Input) :
    IsFront n input (take (.lineWithin n) input).met := by
  induction input generalizing n with
  | nil =>
    cases n with
    | zero => exact ⟨List.nil_prefix, Or.inr (Nat.le_refl _), fun q hq _ => List.prefix_nil.mp hq⟩
    | succ n => exact .singleton rfl (List.prefix_refl _)
  | cons item rest ih =>
    cases n with
    | zero =>
      rw [take_of_isMet rfl]
      exact ⟨List.nil_prefix, Or.inr (Nat.le_refl _), fun q hq _ => List.prefix_nil.mp hq⟩
    | succ n =>
      have hstart : [item] <+: ended (item :: rest) := ⟨ended rest, rfl⟩
      cases hs : item.stop? with
      | some stop =>
        have hi : item.endsLine = true := by
          cases item with
          | byte b => cases hs
          | endOfFile | interrupt | failure => rfl
        rw [take_mark rfl hs, Taken.met, Item.mark_of_stop? hs]
        exact .singleton hi hstart
      | none =>
        obtain ⟨b, rfl⟩ := Item.byte_of_stop? hs
        by_cases hb : b = Line.terminator
        · subst hb
          rw [take_lineWithin_terminator (Nat.succ_pos n)]
          exact .singleton rfl hstart
        · rw [take_lineWithin_byte (Nat.succ_pos n) hb]
          exact (ih n).cons_byte hb

/-- The third byte of four settles a line of at most three; a reader leaves the others. -/
example : let p : Input := [.byte 0x61, .byte 0x62, .byte 0x63]
    (take (.lineWithin 3) (p ++ [.byte 0x64, .interrupt])).met = p ∧ Settles 3 p ∧
      ¬ Settles 3 (List.take 2 p) ∧ Settles 4 (ofBytes [0x61, 0x0A]) := by decide

/-! ### What a front tells -/

theorem bytes_ofBytes (bs : Bytes) : (ofBytes bs).bytes = bs := by
  induction bs with
  | nil => rfl
  | cons b bs ih => exact congrArg (b :: ·) ih

theorem bytes_mark (stop : Stop) : stop.mark.bytes = [] := by cases stop <;> rfl

theorem bytes_met (t : Taken) : t.met.bytes = t.bytes := by
  rw [Taken.met, bytes, List.filterMap_append]
  have hbytes := bytes_ofBytes t.bytes
  have hmark := bytes_mark t.stop
  rw [bytes] at hbytes hmark
  rw [hbytes, hmark, List.append_nil]

/-- The mark that stops a reader is the last that it meets. -/
theorem getLast?_met_iff {t : Taken} {item : Item} {stop : Stop} (hs : item.stop? = some stop) :
    t.met.getLast? = some item ↔ t.stop = stop := by
  obtain ⟨bytes, stop', rest⟩ := t
  have hbyte : ∀ bs : Bytes, (ofBytes bs).getLast? ≠ some item := by
    intro bs h
    obtain ⟨b, -, rfl⟩ := List.mem_map.mp (List.mem_of_getLast? h)
    cases hs
  cases item with
  | byte b => cases hs
  | endOfFile | interrupt | failure =>
    cases hs
    cases stop' with
    | quota | terminator => simpa [Taken.met, Stop.mark] using hbyte bytes
    | endOfFile | interrupt | failure => simp [Taken.met, Stop.mark]

theorem IsFront.take_eq (h : IsFront n input p) : p = (take (.lineWithin n) input).met ∧
    take (.lineWithin n) input =
      ⟨p.bytes, (take (.lineWithin n) input).stop, input.drop p.length⟩ := by
  obtain rfl := (isFront_met n input).unique h
  refine ⟨rfl, ?_⟩
  have hrest : (take (.lineWithin n) input).rest =
      input.drop (take (.lineWithin n) input).met.length := by
    rcases met_append_rest (.lineWithin n) input with he | ⟨he, hr⟩
    · have hdrop := congrArg (List.drop (take (.lineWithin n) input).met.length) he
      rwa [List.drop_left] at hdrop
    · rw [he, hr, ended, List.drop_of_length_le (by simp)]
  rw [bytes_met, ← hrest]

/-- A reader that gets nothing stops neither at its limit nor at a terminator. -/
theorem stop_of_nil (hn : 0 < n) (hb : (take (.lineWithin n) input).bytes = []) :
    (take (.lineWithin n) input).stop ≠ .quota ∧
      (take (.lineWithin n) input).stop ≠ .terminator := by
  rcases take_lineWithin n input with ⟨v, ht, -⟩ | ⟨hs, -, -, hquota⟩
  · rw [ht] at hb
    exact absurd hb (List.append_ne_nil_of_right_ne_nil _ (List.cons_ne_nil _ _))
  · refine ⟨fun h => ?_, hs⟩
    have hlength := hquota.mp h
    rw [hb] at hlength
    exact absurd hlength hn.ne

end Input

/-! ## One read of a line -/

namespace Line

variable {limit : Int} {h : Host} {p : Input}

/-- A read that is interrupted or fails is the last of the line, and what came before it is lost. -/
theorem read_of_stopped (hl : 2 ≤ limit) (hp : Input.IsFront (room limit) h.input p)
    {item : Input.Item} {stop : Input.Stop} {f : Fault} (hs : item.stop? = some stop)
    (hf : stop.fault? = some f) (hlast : p.getLast? = some item) : Line.read limit h =
      ⟨.fault f, { h with input := h.input.drop p.length }, [.read .shell p.bytes stop]⟩ := by
  obtain ⟨hmet, htake⟩ := hp.take_eq
  rw [hmet, Input.getLast?_met_iff hs] at hlast
  rw [hlast] at htake
  rw [read_of_fault hl (by rw [htake]; exact hf), htake]

/-- An end of file before any byte is the end of the stream. -/
theorem read_of_endOfFile (hl : 2 ≤ limit) (hp : Input.IsFront (room limit) h.input p)
    (hb : p.bytes = []) (hlast : p.getLast? = some .endOfFile) : Line.read limit h =
      ⟨.value .endOfStream, { h with input := h.input.drop p.length },
        [.read .shell [] .endOfFile, .log endRecord]⟩ := by
  obtain ⟨hmet, htake⟩ := hp.take_eq
  have hstop : Input.Item.endOfFile.stop? = some .endOfFile := rfl
  rw [hmet, Input.getLast?_met_iff hstop] at hlast
  rw [hlast, hb] at htake
  rw [read_of_empty hl (by rw [htake]; rfl) (by rw [htake]), htake]

theorem of_ofBytes? {bs : Bytes} {cut : Bool} {line : Line}
    (h : Line.ofBytes? bs cut = some line) : line.bytes = bs ∧ line.truncated = cut := by
  unfold Line.ofBytes? at h
  split at h
  · cases h
  · obtain rfl := Option.some.inj h
    exact ⟨rfl, rfl⟩

theorem IsPiece.ofBytes? {piece : Bytes} (h : IsPiece (room limit) piece) :
    Line.ofBytes? (unterminated piece)
      (decide (piece.length = room limit ∧ terminator ∉ piece)) = some (ofPiece limit piece) := by
  have hbytes := h.bytes_ofPiece
  have hcut := h.truncated_ofPiece
  generalize ofPiece limit piece = line at hbytes hcut
  obtain ⟨bytes, truncated, hmem⟩ := line
  subst hbytes hcut
  exact dif_neg hmem

/-- Any other front is a line: its bytes, without the terminator. -/
theorem read_of_front (hl : 2 ≤ limit) (hp : Input.IsFront (room limit) h.input p)
    (hinterrupt : p.getLast? ≠ some .interrupt) (hfailure : ∀ e, p.getLast? ≠ some (.failure e))
    (hend : ¬ (p.bytes = [] ∧ p.getLast? = some .endOfFile)) : ∃ line,
    Line.ofBytes? (unterminated p.bytes)
      (decide (p.bytes.length = room limit ∧ terminator ∉ p.bytes)) = some line ∧
    Line.read limit h = ⟨.value (.line line), { h with input := h.input.drop p.length },
      .read .shell p.bytes (h.input.take (.lineWithin (room limit))).stop ::
        if line.truncated then [.log (truncationRecord p.bytes.length)] else []⟩ := by
  obtain ⟨hmet, htake⟩ := hp.take_eq
  have hroom := room_pos hl
  have hpiece : IsPiece (room limit) p.bytes := by
    have hpiece := isPiece_take (room limit) h.input
    rwa [htake] at hpiece
  have hf : (h.input.take (.lineWithin (room limit))).stop.fault? = none := by
    cases hs : (h.input.take (.lineWithin (room limit))).stop with
    | interrupt => exact absurd (hmet ▸ (Input.getLast?_met_iff rfl).mpr hs) hinterrupt
    | failure e => exact absurd (hmet ▸ (Input.getLast?_met_iff rfl).mpr hs) (hfailure e)
    | quota | terminator | endOfFile => rfl
  have hb : p.bytes ≠ [] := by
    intro hb
    have htaken : (h.input.take (.lineWithin (room limit))).bytes = [] := by
      rw [htake]
      exact hb
    have hstop := Input.stop_of_nil hroom htaken
    refine hend ⟨hb, hmet ▸ (Input.getLast?_met_iff rfl).mpr ?_⟩
    cases hs : (h.input.take (.lineWithin (room limit))).stop with
    | quota => exact absurd hs hstop.1
    | terminator => exact absurd hs hstop.2
    | endOfFile => rfl
    | interrupt | failure =>
      rw [hs] at hf
      cases hf
  refine ⟨ofPiece limit p.bytes, hpiece.ofBytes?, ?_⟩
  rw [read_of_bytes hl hf (by rw [htake]; exact hb), htake]
  rfl

/-- The stream ends only at an end of file in front of which there is no byte. -/
theorem read_eq_endOfStream_iff (hl : 2 ≤ limit) (hp : Input.IsFront (room limit) h.input p) :
    (Line.read limit h).ending = .value .endOfStream ↔
      p.bytes = [] ∧ p.getLast? = some .endOfFile := by
  constructor
  · intro hvalue
    by_contra hend
    by_cases hinterrupt : p.getLast? = some .interrupt
    · rw [read_of_stopped hl hp rfl rfl hinterrupt] at hvalue
      cases hvalue
    by_cases hfailure : ∃ e, p.getLast? = some (.failure e)
    · obtain ⟨e, hfailure⟩ := hfailure
      rw [read_of_stopped hl hp rfl rfl hfailure] at hvalue
      cases hvalue
    obtain ⟨line, -, hread⟩ := read_of_front hl hp hinterrupt (not_exists.mp hfailure) hend
    rw [hread] at hvalue
    cases hvalue
  · rintro ⟨hb, hlast⟩
    rw [read_of_endOfFile hl hp hb hlast]

/-- What comes behind the front makes no difference, nor does the rest of the host. -/
theorem read_of_same_front (hl : 2 ≤ limit) (hp : Input.IsFront (room limit) h.input p) {h' : Host}
    (hp' : p <+: h'.input.ended) : (Line.read limit h').ending = (Line.read limit h).ending ∧
      (Line.read limit h').trace = (Line.read limit h).trace := by
  obtain ⟨hmet, -⟩ := hp.take_eq
  obtain ⟨hbytes, hstop⟩ := Input.take_eq_of_met (hmet ▸ hp')
  cases hf : (h.input.take (.lineWithin (room limit))).stop.fault? with
  | some f =>
    rw [read_of_fault hl hf, read_of_fault hl (hstop ▸ hf), hbytes, hstop]
    exact ⟨rfl, rfl⟩
  | none =>
    by_cases hb : (h.input.take (.lineWithin (room limit))).bytes = []
    · rw [read_of_empty hl hf hb, read_of_empty hl (hstop ▸ hf) (hbytes ▸ hb), hstop]
      exact ⟨rfl, rfl⟩
    · rw [read_of_bytes hl hf hb, read_of_bytes hl (hstop ▸ hf) (hbytes ▸ hb), hbytes, hstop]
      exact ⟨rfl, rfl⟩

/-- **One read of a line comes to what the front of the input says.**

The shell makes a single read for each item of the front, the last of them at the terminator, at the
limit or at a mark, and leaves all that comes behind.  A front that ends in an interrupt or a
failing read is that fault.  One without a byte, up to an end of file, is the end of the stream, and
nothing else is.  Any other front is a line, which the bytes without their terminator can always
make up; it is truncated, and there is a record of that, if the bytes fill the limit and hold no
terminator.

All this is the same for every input that begins with the front, and however the bytes that arrive
together are divided.  With a limit that is too short nothing is read. -/
theorem read_front (script : Script) (host : Host) (limit : Int) :
    let h : Host := { host with input := script.items }
    (2 ≤ limit → ∃ (p : Input) (rest : Script) (stop : Input.Stop),
      let left : Host := { host with input := rest.items }
      Input.IsFront (limit - 1).toNat script.items p ∧
      (∀ q, Input.IsFront (limit - 1).toNat script.items q → q = p) ∧
      script.pulled p.length = (p, rest) ∧
      Input.Pulls (limit - 1).toNat [] script.items p.length ⟨p.bytes, stop, rest.items⟩ ∧
      (p.getLast? = some .interrupt → Line.read limit h =
        ⟨.fault .interrupted, left, [.read .shell p.bytes .interrupt]⟩) ∧
      (∀ e, p.getLast? = some (.failure e) → Line.read limit h =
        ⟨.fault (.system e), left, [.read .shell p.bytes (.failure e)]⟩) ∧
      ((Line.read limit h).ending = .value .endOfStream ↔
        p.bytes = [] ∧ p.getLast? = some .endOfFile) ∧
      (p.bytes = [] → p.getLast? = some .endOfFile → Line.read limit h =
        ⟨.value .endOfStream, left, [.read .shell [] .endOfFile, .log endRecord]⟩) ∧
      (p.getLast? ≠ some .interrupt → (∀ e, p.getLast? ≠ some (.failure e)) →
        ¬ (p.bytes = [] ∧ p.getLast? = some .endOfFile) → ∃ line,
        Line.ofBytes? (unterminated p.bytes)
          (decide (p.bytes.length = (limit - 1).toNat ∧ terminator ∉ p.bytes)) = some line ∧
        Line.read limit h = ⟨.value (.line line), left, .read .shell p.bytes stop ::
          if line.truncated then [.log (truncationRecord p.bytes.length)] else []⟩) ∧
      ∀ h' : Host, p <+: h'.input.ended →
        (Line.read limit h').ending = (Line.read limit h).ending ∧
        (Line.read limit h').trace = (Line.read limit h).trace) ∧
    (limit < 2 → Line.read limit h = ⟨.fault (.tooShort limit), h, []⟩ ∧
      (Fault.tooShort limit).message =
        .ofString "max_length must be at least 2, got " ++ .ofInt limit) ∧
    ∀ script', Relation.EqvGen Script.Divided script script' →
      Line.read limit { host with input := script'.items } = Line.read limit h := by
  intro h
  refine ⟨?_, ?_, ?_⟩
  · intro hl
    have hp : Input.IsFront (room limit) h.input _ := Input.isFront_met (room limit) script.items
    generalize hmet : (script.items.take (.lineWithin (room limit))).met = p at hp
    obtain ⟨-, htake⟩ := hp.take_eq
    obtain ⟨hpulled, hrest⟩ := Script.pulled_of_start hp.start
    have hpulls := Input.pulls (room limit) [] script.items
    rw [List.length_nil, Nat.sub_zero, hmet, htake] at hpulls
    refine ⟨p, (script.pulled p.length).2, (h.input.take (.lineWithin (room limit))).stop, ?_⟩
    dsimp only
    rw [hrest]
    exact ⟨hp, fun q => hp.unique, Prod.ext hpulled rfl, hpulls, read_of_stopped hl hp rfl rfl,
      fun e => read_of_stopped hl hp rfl rfl, read_eq_endOfStream_iff hl hp,
      read_of_endOfFile hl hp, read_of_front hl hp, fun h' => read_of_same_front hl hp⟩
  · intro hl
    refine ⟨?_, rfl⟩
    rw [Line.read, if_pos hl]
    rfl
  · intro script' hdivided
    exact congrArg (fun input => Line.read limit { host with input })
      (Script.items_of_divided hdivided).symm

/-- With a limit of four bytes, the front of `ab` and `c\n` is `abc`: the limit comes before the
terminator, which is left for the next read, and the interrupt behind it too. -/
theorem read_front_of_cut : ∃ (script whole : Script) (line : Line),
    script = [.bytes 0x61 [0x62], .bytes 0x63 [0x0A], .interrupt] ∧
    whole = [.bytes 0x61 [0x62, 0x63, 0x0A], .interrupt] ∧
    (2 : Int) ≤ 4 ∧ Relation.EqvGen Script.Divided script whole ∧
    (Line.read 4 { input := script.items }).ending = .value (.line line) ∧
    line.bytes = [0x61, 0x62, 0x63] ∧ line.truncated = true ∧
    (Line.read 4 { input := script.items }).host = { input := [.byte 0x0A, .interrupt] } ∧
    Line.read 4 { input := whole.items } = Line.read 4 { input := script.items } := by
  let script : Script := [.bytes 0x61 [0x62], .bytes 0x63 [0x0A], .interrupt]
  let whole : Script := [.bytes 0x61 [0x62, 0x63, 0x0A], .interrupt]
  have hdivided : Relation.EqvGen Script.Divided script whole :=
    .symm _ _ (.rel _ _ (.intro [] [.interrupt] 0x61 0x63 [0x62] [0x0A]))
  have hfront : Input.IsFront 3 script.items [.byte 0x61, .byte 0x62, .byte 0x63] :=
    Input.isFront_met 3 script.items
  obtain ⟨hlong, -, hsame⟩ := read_front script {} 4
  obtain ⟨p, rest, stop, -, hunique, hpulled, -, -, -, -, -, hline, -⟩ := hlong (by decide)
  obtain rfl := hunique _ hfront
  obtain ⟨line, hmade, hread⟩ := hline (by decide) (fun e => by simp) (by decide)
  obtain ⟨hbytes, hcut⟩ := of_ofBytes? hmade
  refine ⟨script, whole, line, rfl, rfl, by decide, hdivided, ?_, hbytes, hcut, ?_,
    hsame whole hdivided⟩
  · rw [hread]
  · rw [hread, ← (Prod.mk.inj hpulled).2]
    rfl

end Line

end LineShell
