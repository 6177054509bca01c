import BytecodeVm.Bytes
import BytecodeVm.Toml.Builder
import BytecodeVm.Toml.Lexeme

/-! Documents: lines that are headers or definitions, and the values behind them. -/
namespace BytecodeVm.Toml

open Quoted (doubleQuote singleQuote)

def openBrace : Char := Char.ofNat 123
def closeBrace : Char := Char.ofNat 125

def boolean : List Char → Option (Value × List Char)
  | 't' :: 'r' :: 'u' :: 'e' :: rest => some (.boolean true, rest)
  | 'f' :: 'a' :: 'l' :: 's' :: 'e' :: rest => some (.boolean false, rest)
  | _ => none

def scalar (cs : List Char) : Option (Value × List Char) :=
  match cs with
  | [] => none
  | c :: rest =>
    if isDecimal c then numberOrMoment cs
    else if c = '+' ∨ c = '-' then signedNumber c rest
    else if c = doubleQuote ∨ c = singleQuote then
      (stringValue c cs).map fun (s, rest) => (.text s, rest)
    else if c = 'i' ∨ c = 'n' then specialFloat cs
    else boolean cs

mutual

/-- The value of the name `name` in the context of the builder; `fuel` bounds how deep and
how long it is. -/
def value (fuel : Nat) (b : Builder) (name : String) (inArray : Bool) (cs : List Char) :
    Option (Value × Builder × List Char) :=
  match fuel with
  | 0 => none
  | fuel + 1 =>
    match skipBlanks cs with
    | [] => none
    | c :: rest =>
      if c = '[' then do
        let b := b.setArray (b.kindKey name) true
        let (items, b, rest) ← arrayItems fuel b name rest
        return (.array items, b, rest)
      else if c = openBrace then do
        let outer := b.context
        let key := outer ++ [name]
        let b ← (b.addImplicit key).enter key inArray
        let (entries, b, rest) ← inlineEntries fuel b [] rest
        return (.table entries, { b with context := outer }, rest)
      else do
        let (v, rest) ← scalar (c :: rest)
        return (v, b, rest)

def arrayItems (fuel : Nat) (b : Builder) (name : String) (cs : List Char) :
    Option (List Value × Builder × List Char) :=
  match fuel with
  | 0 => none
  | fuel + 1 =>
    match skipSpace cs.length cs with
    | ']' :: rest => some ([], b, rest)
    | cs => do
      let (v, b, rest) ← value fuel b name true cs
      match skipSpace rest.length rest with
      | ',' :: rest => do
        let (vs, b, rest) ← arrayItems fuel b name rest
        return (v :: vs, b, rest)
      | ']' :: rest => return ([v], b, rest)
      | _ => none

def inlineEntries (fuel : Nat) (b : Builder) (entries : Table) (cs : List Char) :
    Option (Table × Builder × List Char) :=
  match fuel with
  | 0 => none
  | fuel + 1 =>
    match skipSpace cs.length cs with
    | [] => none
    | c :: rest =>
      if c = closeBrace then some (entries, b, rest)
      else do
        let (key, v, b, rest) ← definition fuel b (c :: rest)
        let entries ← Builder.place v key entries
        match skipSpace rest.length rest with
        | ',' :: rest => inlineEntries fuel b entries rest
        | c :: rest => if c = closeBrace then some (entries, b, rest) else none
        | [] => none

/-- A key and its value, defined in the context of the builder, which stays as it is. -/
def definition (fuel : Nat) (b : Builder) (cs : List Char) :
    Option (Key × Value × Builder × List Char) :=
  match fuel with
  | 0 => none
  | fuel + 1 => do
    let outer := b.context
    let (key, rest) ← key? cs.length cs
    let name ← key.getLast?
    let b ← b.enterDotted key.dropLast
    let b := b.note (b.context ++ [name])
    let rest ← expect '=' rest
    let (v, b, rest) ← value fuel b name false rest
    let b ← b.define name v
    let isArray := match v with
      | .array _ => true
      | _ => false
    let b := b.setArray (b.kindKey name) isArray
    return (key, v, { b with context := outer }, rest)

end

def lineEnd (cs : List Char) : Option (List Char) :=
  match skipBlanks cs with
  | [] => some []
  | '#' :: rest => some (skipComment rest)
  | c :: rest => if isNewline c then some rest else none

def header (b : Builder) (cs : List Char) : Option (Builder × List Char) := do
  let (inArray, cs) := match cs with
    | '[' :: rest => (true, rest)
    | cs => (false, cs)
  let (key, rest) ← key? cs.length cs
  let rest ← expect ']' rest
  let rest ← if inArray then expect ']' rest else some rest
  let b ← b.enter key inArray
  return ((b.note key).setArray key false, rest)

def lines : (fuel : Nat) → Builder → List Char → Option Builder
  | 0, _, _ => none
  | fuel + 1, b, cs =>
    match skipSpace cs.length cs with
    | [] => some b
    | '[' :: rest => do
      let (b, rest) ← header b rest
      lines fuel b (← lineEnd rest)
    | cs => do
      let (_, _, b, rest) ← definition (cs.length + 1) b cs
      lines fuel b (← lineEnd rest)

structure Document where
  root : Table
  order : List Key

def orderMarks : List (List UInt8) := [[0xef, 0xbb, 0xbf], [0xff, 0xfe], [0xfe, 0xff]]

/-- The text in a file, behind its mark of the byte order; `none` when it is not UTF-8. -/
def fileText (file : Bytes) : Option String :=
  let mark := orderMarks.find? fun mark => (file.slice 0 mark.length).toList == mark
  String.fromUTF8? (file.drop (mark.getD []).length)

def parse (file : Bytes) : Option Document := do
  let cs := (← fileText file).toList
  if wellFormed cs then
    (lines (cs.length + 1) .empty cs).map fun b => ⟨b.root, b.order⟩
  else none

end BytecodeVm.Toml
