/-! The syntax of a printf format: bytes that stand for themselves and directives, each a
percent sign, flags, an optional width, an optional precision, length modifiers and a
verb. -/
namespace BytecodeVm.Printf

def ascii (c : Char) : UInt8 := c.toNat.toUInt8

inductive Count
  | digits (ds : List UInt8)
  | star
deriving DecidableEq

structure Directive where
  flags : List UInt8
  width : Count
  precision : Option Count
  modifiers : List UInt8
  verb : UInt8
deriving DecidableEq

inductive Piece
  | literal (b : UInt8)
  | directive (d : Directive) (written : List UInt8)
  | unfinished (written : List UInt8)
deriving DecidableEq

def isFlag (b : UInt8) : Bool :=
  [ascii '-', ascii '+', ascii ' ', ascii '#', ascii '0'].contains b

def isDigit (b : UInt8) : Bool := decide (ascii '0' ≤ b) && decide (b ≤ ascii '9')

def isModifier (b : UInt8) : Bool :=
  [ascii 'l', ascii 'z', ascii 'j', ascii 't', ascii 'q', ascii 'h'].contains b

def scanCount : List UInt8 → Count × List UInt8
  | [] => (.digits [], [])
  | b :: rest =>
    if b = ascii '*' then (.star, rest)
    else (.digits ((b :: rest).takeWhile isDigit), (b :: rest).dropWhile isDigit)

def scanPrecision : List UInt8 → Option Count × List UInt8
  | [] => (none, [])
  | b :: rest =>
    if b = ascii '.' then
      let (count, rest) := scanCount rest
      (some count, rest)
    else (none, b :: rest)

/-- Reads what follows a percent sign; `none` when the format ends before the verb. -/
def scan (format : List UInt8) : Option (Directive × List UInt8) :=
  let flags := format.takeWhile isFlag
  let (width, rest) := scanCount (format.dropWhile isFlag)
  let (precision, rest) := scanPrecision rest
  let modifiers := rest.takeWhile isModifier
  match rest.dropWhile isModifier with
  | [] => none
  | verb :: rest => some (⟨flags, width, precision, modifiers, verb⟩, rest)

theorem length_dropWhile_le (p : UInt8 → Bool) (l : List UInt8) :
    (l.dropWhile p).length ≤ l.length :=
  (List.dropWhile_sublist p).length_le

theorem length_scanCount_le (l : List UInt8) : (scanCount l).2.length ≤ l.length := by
  cases l with
  | nil => simp [scanCount]
  | cons b rest =>
    simp only [scanCount]
    split
    · simp
    · exact length_dropWhile_le _ _

theorem length_scanPrecision_le (l : List UInt8) : (scanPrecision l).2.length ≤ l.length := by
  cases l with
  | nil => simp [scanPrecision]
  | cons b rest =>
    simp only [scanPrecision]
    split
    · have := length_scanCount_le rest
      simp only [List.length_cons]
      omega
    · simp

theorem length_lt_of_scan {format rest : List UInt8} {d : Directive}
    (h : scan format = some (d, rest)) : rest.length < format.length := by
  simp only [scan] at h
  split at h
  · simp at h
  · rename_i verb tail left
    simp only [Option.some.injEq, Prod.mk.injEq] at h
    obtain ⟨_, rfl⟩ := h
    have flags := length_dropWhile_le isFlag format
    have width := length_scanCount_le (format.dropWhile isFlag)
    have precision := length_scanPrecision_le (scanCount (format.dropWhile isFlag)).2
    have modifiers := length_dropWhile_le isModifier
      (scanPrecision (scanCount (format.dropWhile isFlag)).2).2
    rw [left, List.length_cons] at modifiers
    omega

def pieces : List UInt8 → List Piece
  | [] => []
  | b :: format =>
    if b = ascii '%' then
      match _h : scan format with
      | none => [.unfinished (b :: format)]
      | some (d, rest) =>
        .directive d (b :: format.take (format.length - rest.length)) :: pieces rest
    else .literal b :: pieces format
termination_by format => format.length
decreasing_by
  · have := length_lt_of_scan _h
    simp only [List.length_cons]
    omega
  · simp

end BytecodeVm.Printf
