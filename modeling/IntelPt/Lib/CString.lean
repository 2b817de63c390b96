import Mathlib.Data.List.Basic
import Mathlib.Tactic.Common

/-! Text files read with fgets, and C strings taken apart with strtok and strstr. A string is the
list of its characters in front of the terminating zero. -/
namespace IntelPt.CString

def cString (buffer : List Char) : List Char := buffer.takeWhile (· ≠ '\x00')

/-- At most `room` characters, up to and with the first newline, and the rest of the file. -/
def fgets : Nat → List Char → List Char × List Char
  | _, [] => ([], [])
  | 0, file => ([], file)
  | room + 1, c :: file =>
    if c = '\n' then ([c], file) else (c :: (fgets room file).1, (fgets room file).2)

theorem fgets_append (room : Nat) (file : List Char) :
    (fgets room file).1 ++ (fgets room file).2 = file := by
  induction file generalizing room with
  | nil => cases room <;> rfl
  | cons c file ih =>
    cases room with
    | zero => rfl
    | succ room =>
      simp only [fgets]
      split
      · rfl
      · rw [List.cons_append, ih]

theorem fgets_rest_lt (room : Nat) (c : Char) (file : List Char) :
    (fgets (room + 1) (c :: file)).2.length < (c :: file).length := by
  have happ := congrArg List.length (fgets_append (room + 1) (c :: file))
  have hpos : 0 < (fgets (room + 1) (c :: file)).1.length := by
    simp only [fgets]
    split <;> exact Nat.succ_pos _
  rw [List.length_append] at happ
  omega

/-- What fgets returns, of at most `room + 1` characters each, until it returns NULL. -/
def readLines (room : Nat) : List Char → List (List Char)
  | [] => []
  | c :: file =>
    (fgets (room + 1) (c :: file)).1 :: readLines room (fgets (room + 1) (c :: file)).2
termination_by file => file.length
decreasing_by exact fgets_rest_lt room c file

def strtok (delimiters s : List Char) : Option (List Char) × List Char :=
  match s.dropWhile (· ∈ delimiters) with
  | [] => (none, [])
  | c :: cs =>
    (some ((c :: cs).takeWhile (· ∉ delimiters)), ((c :: cs).dropWhile (· ∉ delimiters)).drop 1)

def strstr (s sub : List Char) : Bool := s.tails.any fun t => sub.isPrefixOf t

end IntelPt.CString
