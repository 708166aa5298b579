import LineShell.Host.SystemError
import LineShell.Line

/-!
# Standard input

The shell and its children read **one** input, each a byte at a time, so what one takes the other
never sees.  The input is a list of what the single reads will meet.

* `Input.Item`: a byte, or a mark: an end of file, an interrupt, a failing read.
* `Quota`: how much a reader wants.
* `Input.take`: what a reader gets, why it stopped, and what is left.  Together with what it gets,
  what is left makes up what was there (`Input.bytes_take`).
-/

namespace LineShell

/-- What one read of one byte meets.  After an end of file there may be more to read. -/
inductive Input.Item
  | byte (b : UInt8)
  | endOfFile
  | interrupt
  | failure (error : SystemError)
deriving DecidableEq, Repr

/-- What is left to read.  When it is empty, every further read meets an end of file. -/
abbrev Input := List Input.Item

/-- How much a reader wants: no more than `limit` bytes, if there is a limit, and nothing past a
line terminator, if it reads `byLine`.  An end of file stops every reader. -/
structure Quota where
  limit : Option Nat := none
  byLine : Bool := false
deriving DecidableEq, Repr

namespace Quota

def all : Quota := {}

/-- One line, however long. -/
def line : Quota := { byLine := true }

def count (n : Nat) : Quota := { limit := some n }

/-- One line of so many bytes at most, its terminator included. -/
def lineWithin (n : Nat) : Quota := { limit := some n, byLine := true }

def isMet (q : Quota) : Bool := q.limit == some 0

def afterByte (q : Quota) : Quota := { q with limit := q.limit.map (· - 1) }

end Quota

namespace Input

def ofBytes (bs : Bytes) : Input := bs.map .byte

def bytes (input : Input) : Bytes :=
  input.filterMap fun
    | .byte b => some b
    | _ => none

inductive Stop
  | quota
  | terminator
  | endOfFile
  | interrupt
  | failure (error : SystemError)
deriving DecidableEq, Repr

/-- What a reader got, why it stopped, and what it left. -/
structure Taken where
  bytes : Bytes
  stop : Stop
  rest : Input
deriving DecidableEq, Repr

/-- Reads onto `acc`, which is in reverse. -/
def takeOnto (acc : Bytes) (q : Quota) : Input → Taken
  | [] => ⟨acc.reverse, if q.isMet then .quota else .endOfFile, []⟩
  | item :: rest =>
    if q.isMet then ⟨acc.reverse, .quota, item :: rest⟩
    else match item with
      | .byte b =>
        if q.byLine && b == Line.terminator then ⟨(b :: acc).reverse, .terminator, rest⟩
        else takeOnto (b :: acc) q.afterByte rest
      | .endOfFile => ⟨acc.reverse, .endOfFile, rest⟩
      | .interrupt => ⟨acc.reverse, .interrupt, rest⟩
      | .failure e => ⟨acc.reverse, .failure e, rest⟩

def take (q : Quota) (input : Input) : Taken := takeOnto [] q input

/-! ### Laws of taking -/

theorem takeOnto_eq (acc : Bytes) (q : Quota) (input : Input) :
    takeOnto acc q input =
      { take q input with bytes := acc.reverse ++ (take q input).bytes } := by
  unfold take
  induction input generalizing acc q with
  | nil => simp [takeOnto]
  | cons item rest ih =>
    unfold takeOnto
    split
    · simp
    · cases item with
      | byte b =>
        dsimp only
        split
        · simp
        · rw [ih (b :: acc), ih [b]]
          simp
      | endOfFile | interrupt | failure => simp

theorem take_nil (q : Quota) : take q [] = ⟨[], if q.isMet then .quota else .endOfFile, []⟩ := rfl

/-- A reader that wants nothing leaves all. -/
theorem take_of_isMet {q : Quota} (h : q.isMet = true) (input : Input) :
    take q input = ⟨[], .quota, input⟩ := by
  cases input <;> simp [take, takeOnto, h]

/-- A reader that wants something takes a byte, and then it stops at a terminator or goes on. -/
theorem take_byte {q : Quota} (h : q.isMet = false) (b : UInt8) (rest : Input) :
    take q (.byte b :: rest) =
      if q.byLine && b == Line.terminator then ⟨[b], .terminator, rest⟩
      else { take q.afterByte rest with bytes := b :: (take q.afterByte rest).bytes } := by
  rw [take, takeOnto]
  simp only [h, Bool.false_eq_true, if_false]
  split
  · rfl
  · rw [takeOnto_eq]
    rfl

/-- What a reader gets and what it leaves are together what was there. -/
theorem bytes_take (q : Quota) (input : Input) :
    (take q input).bytes ++ (take q input).rest.bytes = input.bytes := by
  induction input generalizing q with
  | nil => simp [take_nil, bytes]
  | cons item rest ih =>
    cases hq : q.isMet with
    | true => simp [take_of_isMet hq]
    | false =>
      cases item with
      | byte b =>
        rw [take_byte hq]
        split
        · simp [bytes]
        · have := ih q.afterByte
          simp only [bytes, List.filterMap_cons] at this ⊢
          simp [this]
      | endOfFile | interrupt | failure => simp [take, takeOnto, hq, bytes]

theorem length_takeOnto (acc : Bytes) (q : Quota) (input : Input) :
    (takeOnto acc q input).bytes.length + (takeOnto acc q input).rest.length ≤
      acc.length + input.length := by
  induction input generalizing acc q with
  | nil => simp [takeOnto]
  | cons item rest ih =>
    unfold takeOnto
    split
    · simp
    · cases item with
      | byte b =>
        have h := ih (b :: acc) q.afterByte
        simp only [List.length_cons] at h ⊢
        split
        · simp only [List.length_reverse, List.length_cons]; omega
        · omega
      | endOfFile | interrupt | failure =>
        simp only [List.length_reverse, List.length_cons]; omega

/-- Every byte that a reader gets is gone from the input. -/
theorem length_take (q : Quota) (input : Input) :
    (take q input).bytes.length + (take q input).rest.length ≤ input.length := by
  simpa [take] using length_takeOnto [] q input

end Input

end LineShell
