import BytecodeVm.Text.Printable

/-! The values and the words of TOML: blanks and comments, strings, numbers, dates and names. Each
reader takes the characters that are left and answers with what it read and the rest; it answers
`none` when the text is not TOML. -/
namespace BytecodeVm.Toml

inductive Value
  | text (s : String)
  | integer (n : Int)
  /-- A number with a fraction or an exponent; only its kind matters here. -/
  | float
  | moment
  | boolean (b : Bool)
  | array (items : List Value)
  | table (entries : List (String × Value))
  /-- An array of tables, built by headers one after the other. -/
  | tables (items : List (List (String × Value)))

abbrev Table := List (String × Value)

abbrev Key := List String

def isBare (c : Char) : Bool := c.isAlphanum || c == '_' || c == '-'

def quotedChar (c : Char) : List Char :=
  if c = Quoted.doubleQuote ∨ c = Quoted.backslash then [Quoted.backslash, c]
  else match c.toNat with
    | 8 => [Quoted.backslash, 'b']
    | 9 => [Quoted.backslash, 't']
    | 10 => [Quoted.backslash, 'n']
    | 12 => [Quoted.backslash, 'f']
    | 13 => [Quoted.backslash, 'r']
    | n =>
      if n < 32 ∨ n = 127 then
        Quoted.backslash :: 'u' :: (Numeral.padLeft '0' 4 (Numeral.hex n)).toList
      else [c]

def nameText (name : String) : String :=
  if !name.isEmpty && name.toList.all isBare then name
  else
    String.ofList
      (Quoted.doubleQuote :: name.toList.flatMap quotedChar ++ [Quoted.doubleQuote])

def keyText (key : Key) : String := ".".intercalate (key.map nameText)

open Quoted (backslash doubleQuote singleQuote)

def isBlank (c : Char) : Bool := c == ' ' || c == '\t'

def isNewline (c : Char) : Bool := c == '\n' || c == '\r'

/-- Control characters may not stand anywhere, nor a carriage return without a line feed. -/
def wellFormed : List Char → Bool
  | [] => true
  | c :: rest =>
    (if c = '\r' then rest.head? == some '\n'
      else c == '\t' || c == '\n' || (decide (32 ≤ c.toNat) && c.toNat != 127)) && wellFormed rest

def skipBlanks (cs : List Char) : List Char := cs.dropWhile isBlank

def skipComment (cs : List Char) : List Char := cs.dropWhile fun c => !isNewline c

/-- Skips blanks, comments and line ends; `fuel` bounds the number of comments. -/
def skipSpace : (fuel : Nat) → List Char → List Char
  | 0, cs => cs
  | fuel + 1, cs =>
    match cs.dropWhile fun c => isBlank c || isNewline c with
    | '#' :: rest => skipSpace fuel (skipComment rest)
    | rest => rest

/-! Strings. -/

def codePoint (count : Nat) (cs : List Char) : Option (Char × List Char) := do
  let ds := cs.take count
  if ds.length < count then none
  let n := Numeral.value 16 (← ds.mapM (Numeral.digit? 16))
  if n.isValidChar then some (Char.ofNat n, cs.drop count) else none

def escape : List Char → Option (Char × List Char)
  | 'b' :: rest => some (Char.ofNat 8, rest)
  | 't' :: rest => some ('\t', rest)
  | 'n' :: rest => some ('\n', rest)
  | 'f' :: rest => some (Char.ofNat 12, rest)
  | 'r' :: rest => some ('\r', rest)
  | 'e' :: rest => some (Char.ofNat 27, rest)
  | 'x' :: rest => codePoint 2 rest
  | 'u' :: rest => codePoint 4 rest
  | 'U' :: rest => codePoint 8 rest
  | c :: rest => if c = doubleQuote ∨ c = backslash then some (c, rest) else none
  | [] => none

def basicString : (fuel : Nat) → (read : List Char) → List Char → Option (String × List Char)
  | 0, _, _ => none
  | _, _, [] => none
  | fuel + 1, read, c :: rest =>
    if isNewline c then none
    else if c = doubleQuote then some (String.ofList read.reverse, rest)
    else if c = backslash then do
      let (c, rest) ← escape rest
      basicString fuel (c :: read) rest
    else basicString fuel (c :: read) rest

def literalString (cs : List Char) : Option (String × List Char) :=
  match cs.dropWhile fun c => c != singleQuote && !isNewline c with
  | [] => none
  | c :: rest =>
    if c = singleQuote then some (String.ofList (cs.takeWhile (· != singleQuote)), rest) else none

/-- A line end right after the opening marks does not count. -/
def skipFirstNewline : List Char → List Char
  | '\n' :: rest => rest
  | '\r' :: '\n' :: rest => rest
  | cs => cs

/-- The rest of a string of several lines. Up to two marks may stand before the three that
close it, and up to three right behind an escaped backslash. With escapes, a backslash at the
end of a line joins it with the next text. -/
def longString (mark : Char) (escapes : Bool) :
    (fuel : Nat) → (afterBackslash : Bool) → (read : List Char) → List Char →
      Option (String × List Char)
  | 0, _, _, _ => none
  | _, _, _, [] => none
  | fuel + 1, afterBackslash, read, c :: rest =>
    if c = mark then
      let marks := (c :: rest).takeWhile (· == mark)
      let after := (c :: rest).drop marks.length
      if marks.length < 3 then longString mark escapes fuel false (marks ++ read) after
      else if marks.length ≤ (if afterBackslash then 6 else 5) then
        some (String.ofList (marks.drop 3 ++ read).reverse, after)
      else none
    else if escapes && c == backslash then
      let space := rest.takeWhile fun c => isBlank c || isNewline c
      if space.isEmpty then do
        let escaped := rest.head? == some backslash
        let (c, rest) ← escape rest
        longString mark escapes fuel escaped (c :: read) rest
      else if space.contains '\n' then
        longString mark escapes fuel false read (rest.drop space.length)
      else none
    else longString mark escapes fuel false (c :: read) rest

def stringValue (mark : Char) (cs : List Char) : Option (String × List Char) :=
  let escapes := mark == doubleQuote
  match cs with
  | _ :: b :: c :: rest =>
    if b = mark ∧ c = mark then
      longString mark escapes (cs.length + 1) false [] (skipFirstNewline rest)
    else if escapes then basicString cs.length [] (b :: c :: rest)
    else literalString (b :: c :: rest)
  | _ :: rest => if escapes then basicString cs.length [] rest else literalString rest
  | [] => none

/-! Numbers and dates. -/

def isDecimal (c : Char) : Bool := c.isDigit

def isOctal (c : Char) : Bool := decide ('0' ≤ c) && decide (c ≤ '7')

def isBinary (c : Char) : Bool := c == '0' || c == '1'

def isHex (c : Char) : Bool := (Numeral.digit? 16 c).isSome

/-- Underscores stand between digits only. -/
def underscoresOk (cs : List Char) : Bool :=
  let rec go (digit : Bool) : List Char → Bool
    | [] => digit
    | c :: rest => if c = '_' then digit && go false rest else go (isHex c) rest
  go false cs

def digitsValue (base : Nat) (cs : List Char) : Nat :=
  Numeral.value base ((cs.filter (· != '_')).map fun c => (Numeral.digit? 16 c).getD 0)

def inRange (n : Int) : Option Int :=
  if -9223372036854775808 ≤ n ∧ n ≤ 9223372036854775807 then some n else none

def decimalInteger (sign ds : List Char) : Option Value :=
  if !underscoresOk ds || (ds.length > 1 && ds.head? == some '0') then none
  else
    let n : Int := digitsValue 10 ds
    (inRange (if sign = ['-'] then -n else n)).map .integer

def basedInteger (base : Nat) (isDigit : Char → Bool) (cs : List Char) :
    Option (Value × List Char) :=
  let ds := cs.takeWhile fun c => isDigit c || c == '_'
  if (ds.head?.map isDigit).getD false && underscoresOk ds then
    (inRange (digitsValue base ds)).map fun n => (.integer n, cs.drop ds.length)
  else none

def powerOfTen : Nat → Nat
  | 0 => 1
  | n + 1 => 10 * powerOfTen n

/-- Whether a decimal number is too great for a double: it reaches half a step past the
greatest one. -/
def overflows (mantissa : Nat) (exponent : Int) : Bool :=
  let limit := (1 <<< 1024) - (1 <<< 970)
  let size : Int := (Numeral.positional 10 mantissa).length + exponent
  if mantissa = 0 ∨ size < 300 then false
  else if 400 < size then true
  else if 0 ≤ exponent then decide (limit ≤ mantissa * powerOfTen exponent.toNat)
  else decide (limit * powerOfTen exponent.natAbs ≤ mantissa)

def allDigits (cs : List Char) : Bool := !cs.isEmpty && (cs.filter (· != '_')).all isDecimal

def floatOk (cs : List Char) : Bool :=
  let whole := cs.takeWhile fun c => isDecimal c || c == '_'
  let rest := cs.drop whole.length
  let (fraction, rest) : Option (List Char) × List Char := match rest with
    | '.' :: rest =>
      let ds := rest.takeWhile fun c => isDecimal c || c == '_'
      (some ds, rest.drop ds.length)
    | rest => (none, rest)
  let part (ds : List Char) : Bool := allDigits ds && underscoresOk ds
  let (power, ok) : Int × Bool := match rest with
    | [] => (0, true)
    | e :: rest =>
      let negative := rest.head? == some '-'
      let ds := match rest with
        | '-' :: ds | '+' :: ds => ds
        | ds => ds
      let size : Int := digitsValue 10 ds
      (if negative then -size else size, (e == 'e' || e == 'E') && part ds)
  let fractionDigits := (fraction.getD []).filter (· != '_')
  part whole && (whole.length ≤ 1 || whole.head? != some '0') &&
    (fraction.map fun ds => part ds && (ds.head?.map isDecimal).getD false).getD true && ok &&
    !overflows (digitsValue 10 (whole ++ fractionDigits)) (power - fractionDigits.length)

def decimalNumber (sign cs : List Char) : Option (Value × List Char) :=
  let whole := cs.takeWhile fun c => isDecimal c || c == '_'
  match cs.drop whole.length with
  | c :: rest =>
    if c = '.' ∨ c = 'e' ∨ c = 'E' then
      let run := cs.takeWhile fun c => isDecimal c || "_.-+eE".toList.contains c
      if floatOk run then some (.float, cs.drop run.length) else none
    else (decimalInteger sign whole).map fun v => (v, c :: rest)
  | [] => (decimalInteger sign whole).map fun v => (v, [])

def twoDigits? : List Char → Option (Nat × List Char)
  | a :: b :: rest =>
    if isDecimal a && isDecimal b then some ((a.toNat - 48) * 10 + (b.toNat - 48), rest) else none
  | _ => none

def expect (c : Char) : List Char → Option (List Char)
  | d :: rest => if c = d then some rest else none
  | [] => none

def daysIn (year month : Nat) : Nat :=
  match month with
  | 4 | 6 | 9 | 11 => 30
  | 2 => if year % 4 = 0 ∧ (year % 100 ≠ 0 ∨ year % 400 = 0) then 29 else 28
  | _ => 31

def date? (cs : List Char) : Option (List Char) := do
  let (century, cs) ← twoDigits? cs
  let (year, cs) ← twoDigits? cs
  let cs ← expect '-' cs
  let (month, cs) ← twoDigits? cs
  let cs ← expect '-' cs
  let (day, cs) ← twoDigits? cs
  if 1 ≤ month ∧ month ≤ 12 ∧ 1 ≤ day ∧ day ≤ daysIn (century * 100 + year) month then some cs
  else none

def time? (cs : List Char) : Option (List Char) := do
  let (hour, cs) ← twoDigits? cs
  let cs ← expect ':' cs
  let (minute, cs) ← twoDigits? cs
  if 23 < hour ∨ 59 < minute then none
  match cs with
  | ':' :: cs => do
    let (second, cs) ← twoDigits? cs
    if 59 < second then none
    match cs with
    | '.' :: cs =>
      let ds := cs.takeWhile isDecimal
      if ds.isEmpty then none else some (cs.drop ds.length)
    | cs => some cs
  | cs => some cs

def offsetOk : List Char → Bool
  | [] => true
  | ['Z'] => true
  | sign :: cs =>
    (sign == '+' || sign == '-') && (do
      let (hour, cs) ← twoDigits? cs
      let cs ← expect ':' cs
      let (minute, cs) ← twoDigits? cs
      return decide (hour ≤ 24) && decide (minute ≤ 60) && cs.isEmpty).getD false

def momentOk (cs : List Char) : Bool :=
  match date? cs with
  | some [] => true
  | some (c :: rest) => c == 'T' && ((time? rest).map offsetOk).getD false
  | none => ((time? cs).map List.isEmpty).getD false

def dropTrailingBlanks (cs : List Char) : List Char :=
  (cs.reverse.dropWhile isBlank).reverse

/-- A date or a time, in any letter case and with a blank or a `T` in the middle. -/
def moment (cs : List Char) : Option (Value × List Char) :=
  let run := cs.takeWhile fun c => isDecimal c || "-:Tt .Zz+".toList.contains c
  let upper := (dropTrailingBlanks run).map fun c =>
    if c = 't' ∨ c = ' ' then 'T' else if c = 'z' then 'Z' else c
  if momentOk upper then some (.moment, cs.drop run.length) else none

def specialFloat : List Char → Option (Value × List Char)
  | 'i' :: 'n' :: 'f' :: rest => some (.float, rest)
  | 'n' :: 'a' :: 'n' :: rest => some (.float, rest)
  | _ => none

def signedNumber (sign : Char) (cs : List Char) : Option (Value × List Char) :=
  match specialFloat cs with
  | some result => some result
  | none => if (cs.head?.map isDecimal).getD false then decimalNumber [sign] cs else none

def numberOrMoment (cs : List Char) : Option (Value × List Char) :=
  match cs with
  | '0' :: 'x' :: rest => basedInteger 16 isHex rest
  | '0' :: 'o' :: rest => basedInteger 8 isOctal rest
  | '0' :: 'b' :: rest => basedInteger 2 isBinary rest
  | cs =>
    let ds := cs.takeWhile isDecimal
    match cs.drop ds.length with
    | '-' :: _ | ':' :: _ => if ds.length < 2 then none else moment cs
    | _ => decimalNumber [] cs

/-! Names. -/

def name? (cs : List Char) : Option (String × List Char) :=
  match cs with
  | [] => none
  | c :: rest =>
    if c = doubleQuote then basicString cs.length [] rest
    else if c = singleQuote then literalString rest
    else
      let bare := cs.takeWhile isBare
      if bare.isEmpty then none else some (String.ofList bare, cs.drop bare.length)

def key? : (fuel : Nat) → List Char → Option (Key × List Char)
  | 0, _ => none
  | fuel + 1, cs => do
    let (name, cs) ← name? (skipBlanks cs)
    match skipBlanks cs with
    | '.' :: rest => do
      let (names, rest) ← key? fuel rest
      return (name :: names, rest)
    | rest => return ([name], rest)

end BytecodeVm.Toml
