import ChainBoard.Board.Content
import ChainBoard.Board.Slot

/-!
# Boards

A board shows one line for each slot. It starts empty, and each slot keeps what was last put into
it. The base of links is fixed when the board is made and stands in front of the target of every
link that the board holds.

## Main definitions

* `Board`: a base for links and the contents of the slots
* `Board.blank`: the board without contents
* `Board.put`: takes a content into a slot
* `Board.putAll`: takes several contents in, one after the other
* `Board.render`: the lines of a board

## Main results

* `Board.get_put`: a slot holds what was last put into it
* `Board.linkBase_putAll`: the base never changes
-/

namespace ChainBoard

/-- A base for links, and what each slot holds. -/
structure Board where
  linkBase : String
  get : Slot → Option Content

namespace Board

/-- The board without contents. -/
def blank (linkBase : String) : Board :=
  ⟨linkBase, fun _ => none⟩

/-- The content, with the base of the board's links, goes into the slot; what was there is gone. -/
def put (board : Board) (slot : Slot) (content : Content) : Board :=
  { board with
    get := fun s => if s = slot then some (content.linkedTo board.linkBase) else board.get s }

/-- Takes contents in from the first to the last. -/
def putAll (board : Board) (entries : List (Slot × Content)) : Board :=
  entries.foldl (fun board entry => board.put entry.1 entry.2) board

/-- The width of the column of names. -/
def nameWidth : Nat := 20

/-- The line of a slot: its name in the column, a space, its content or a dash, a line feed. -/
def line (board : Board) (slot : Slot) : String :=
  slot.fit .left nameWidth none ++ " " ++ ((board.get slot).map Content.render).getD "-" ++ "\n"

/-- The lines of all slots, in the order of the slots. -/
def render (board : Board) : String :=
  String.join (Slot.all.map board.line)

theorem get_put (board : Board) (slot s : Slot) (content : Content) :
    (board.put slot content).get s =
      if s = slot then some (content.linkedTo board.linkBase) else board.get s := rfl

@[simp] theorem get_put_self (board : Board) (slot : Slot) (content : Content) :
    (board.put slot content).get slot = some (content.linkedTo board.linkBase) := by
  simp [get_put]

theorem get_put_of_ne (board : Board) {slot s : Slot} (h : s ≠ slot) (content : Content) :
    (board.put slot content).get s = board.get s := by
  simp [get_put, h]

@[simp] theorem linkBase_put (board : Board) (slot : Slot) (content : Content) :
    (board.put slot content).linkBase = board.linkBase := rfl

@[simp] theorem putAll_nil (board : Board) : board.putAll [] = board := rfl

@[simp] theorem putAll_cons (board : Board) (entry : Slot × Content)
    (entries : List (Slot × Content)) :
    board.putAll (entry :: entries) = (board.put entry.1 entry.2).putAll entries := rfl

theorem putAll_append (board : Board) (first second : List (Slot × Content)) :
    board.putAll (first ++ second) = (board.putAll first).putAll second := by
  simp [putAll, List.foldl_append]

/-- The base of links never changes. -/
@[simp] theorem linkBase_putAll (board : Board) (entries : List (Slot × Content)) :
    (board.putAll entries).linkBase = board.linkBase := by
  induction entries generalizing board with
  | nil => rfl
  | cons entry entries ih => simp [ih]

end Board

end ChainBoard
