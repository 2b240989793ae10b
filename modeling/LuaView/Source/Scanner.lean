import LuaView.Source.Position

/-!
# Scanners

A scanner is a source with a position in it.  It does not keep the characters that follow: whatever
it looks at, it cuts out of the source by the byte offset of its position.  A cut that does not fall
between two characters of the source is an error that nothing recovers from, and so is a round of a
loop that does not move the scanner on.
-/

namespace LuaView

structure Scanner where
  source : List Char
  pos : Position := {}

namespace Scanner

/-- Why a scan breaks down. -/
inductive Crash where
  /-- An offset lies within a character or behind the source, or in front of the other one. -/
  | badCut (start stop : Nat)
  /-- A loop would go round forever. -/
  | stuck
deriving DecidableEq, Repr

/-- The number of bytes of the source. -/
def size (scanner : Scanner) : Nat :=
  scanner.source.foldr (fun c size => c.utf8Size + size) 0

/-- The number of bytes in front of which the scanner stands. -/
def remaining (scanner : Scanner) : Nat :=
  scanner.size - scanner.pos.byte

/-! ## Cuts -/

/-- What stands behind the first bytes of a text. -/
def cutFront? : Nat → List Char → Option (List Char)
  | 0, cs => some cs
  | _ + 1, [] => none
  | n + 1, c :: cs =>
      if c.utf8Size ≤ n + 1 then cutFront? (n + 1 - c.utf8Size) cs else none

/-- The first bytes of a text. -/
def cutBack? : Nat → List Char → Option (List Char)
  | 0, _ => some []
  | _ + 1, [] => none
  | n + 1, c :: cs =>
      if c.utf8Size ≤ n + 1 then (cutBack? (n + 1 - c.utf8Size) cs).map (c :: ·) else none

/-- What stands in the source between two offsets. -/
def cut (scanner : Scanner) (start stop : Nat) : Except Crash (List Char) :=
  if start ≤ stop then
    match (cutFront? start scanner.source).bind (cutBack? (stop - start)) with
    | some cs => .ok cs
    | none => .error (.badCut start stop)
  else .error (.badCut start stop)

/-- What stands behind the position. -/
def behind (scanner : Scanner) : Except Crash (List Char) :=
  scanner.cut scanner.pos.byte scanner.size

/-- The character with `n` others between the position and it. -/
def charAt (scanner : Scanner) (n : Nat) : Except Crash (Option Char) := do
  return (← scanner.behind)[n]?

end Scanner

/-- What a scanner does: it ends somewhere else in the source, or breaks down. -/
abbrev Scan := StateT Scanner (Except Scanner.Crash)

namespace Scan

open Scanner (Crash)

/-! ## Operations -/

def position : Scan Position := do
  return (← get).pos

def isEof : Scan Bool := do
  let scanner ← get
  return decide (scanner.size ≤ scanner.pos.byte)

def peekNth (n : Nat) : Scan (Option Char) := do
  (← get).charAt n

def peek : Scan (Option Char) :=
  peekNth 0

/-- The next character, which is passed. -/
def advance : Scan (Option Char) := do
  match ← peek with
  | some c =>
      modify fun scanner => { scanner with pos := scanner.pos.after c }
      return some c
  | none => return none

/-- Pass the next character if it is the expected one, and say whether it was. -/
def eat (expected : Char) : Scan Bool := do
  if (← peek) = some expected then
    let _ ← advance
    return true
  else return false

/-- What stands between two offsets. -/
def slice (start stop : Nat) : Scan (List Char) := do
  (← get).cut start stop

/-! ## Repetition -/

/-- What a round of a loop decides. -/
inductive Round (α β : Type) where
  | again (value : α)
  | done (value : β)

/-- Repeat a round until it is done. -/
def loop {α β : Type} (round : α → Scan (Round α β)) (value : α) : Scan β := fun scanner =>
  match round value scanner with
  | .error crash => .error crash
  | .ok (.done result, next) => .ok (result, next)
  | .ok (.again result, next) =>
      if next.remaining < scanner.remaining then loop round result next else .error .stuck
termination_by scanner => scanner.remaining

/-- Pass all characters up to the first one that is not of a class. -/
def advanceWhile (cls : Char → Bool) : Scan Unit :=
  loop (fun () => do
    match ← peek with
    | some c =>
        if cls c then
          let _ ← advance
          return .again ()
        else return .done ()
    | none => return .done ()) ()

/-- Pass a number of characters, or all if there are fewer. -/
def advanceTimes : Nat → Scan Unit
  | 0 => return ()
  | n + 1 => do
      let _ ← advance
      advanceTimes n

/-- One of the operations, with what it is asked for. -/
inductive Move where
  | advance
  | eat (expected : Char)
  | advanceWhile (cls : Char → Bool)
  | peekNth (n : Nat)

/-- One operation, for what it does to the scanner. -/
def move : Move → Scan Unit
  | .advance => do
      let _ ← advance
  | .eat expected => do
      let _ ← eat expected
  | .advanceWhile cls => advanceWhile cls
  | .peekNth n => do
      let _ ← peekNth n

/-- Operations one after the other. -/
def moves : List Move → Scan Unit
  | [] => return ()
  | first :: more => do
      move first
      moves more

end Scan
end LuaView
