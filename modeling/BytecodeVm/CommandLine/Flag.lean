import BytecodeVm.Text.Printable

/-! Flags: words of the command line that begin with one or two dashes. A flag has its value
behind an equals sign or in the next word; a switch stands alone or has its value behind an
equals sign. The first word that is no flag ends them. Numbers are decimal, or in the base that
their first characters name, with underscores between digits. -/
namespace BytecodeVm.CommandLine

inductive NumberError
  | malformed
  | outOfRange
deriving DecidableEq

def NumberError.message : NumberError → String
  | .malformed => "parse error"
  | .outOfRange => "value out of range"

namespace Number

def baseOf? (c : Char) : Option Nat :=
  if c = 'b' ∨ c = 'B' then some 2
  else if c = 'o' ∨ c = 'O' then some 8
  else if c = 'x' ∨ c = 'X' then some 16
  else none

/-- The base of a number and its digits. A leading zero alone means base eight. -/
def split : List Char → Nat × List Char
  | '0' :: mark :: c :: rest =>
    match baseOf? mark with
    | some base => (base, c :: rest)
    | none => (8, mark :: c :: rest)
  | '0' :: rest => (8, rest)
  | cs => (10, cs)

/-- Each underscore stands between two digits; the mark of a base counts as a digit. -/
def underscoresOk (cs : List Char) : Bool :=
  let isDigit (hex : Bool) (c : Char) : Bool :=
    c.isDigit || (hex && (Numeral.digit? 16 c).isSome)
  let rec go (hex afterDigit afterUnderscore : Bool) : List Char → Bool
    | [] => !afterUnderscore
    | c :: rest =>
      if isDigit hex c then go hex true false rest
      else if c = '_' then afterDigit && go hex false true rest
      else !afterUnderscore && go hex false false rest
  match cs with
  | '0' :: mark :: rest =>
    match baseOf? mark with
    | some base => go (base == 16) true false rest
    | none => go false false false cs
  | cs => go false false false cs

def scan (base limit : Nat) : (n : Nat) → List Char → Except NumberError Nat
  | n, [] => .ok n
  | n, c :: rest =>
    if c = '_' then scan base limit n rest
    else match Numeral.digit? base c with
      | none => .error .malformed
      | some d =>
        if limit < n * base + d then .error .outOfRange
        else scan base limit (n * base + d) rest

def natural (cs : List Char) : Except NumberError Nat :=
  if cs.isEmpty then .error .malformed
  else
    let (base, digits) := split cs
    match scan base 18446744073709551615 0 digits with
    | .error e => .error e
    | .ok n => if digits.contains '_' && !underscoresOk cs then .error .malformed else .ok n

def integer (cs : List Char) : Except NumberError Int :=
  let (negative, digits) := match cs with
    | '-' :: rest => (true, rest)
    | '+' :: rest => (false, rest)
    | cs => (false, cs)
  match natural digits with
  | .error e => .error e
  | .ok n =>
    if negative then
      if 9223372036854775808 < n then .error .outOfRange else .ok (-(n : Int))
    else if 9223372036854775807 < n then .error .outOfRange
    else .ok n

end Number

inductive Action (α : Type)
  | switch (set : Bool → α → α)
  | text (set : String → α → α)
  | integer (set : Int → α → α)
  | natural (set : Nat → α → α)

abbrev Flags (α : Type) := List (String × Action α)

inductive FlagError
  | help
  | malformed (word : String)
  | undefined (name : String)
  | valueMissing (name : String)
  | badSwitch (name value : String)
  | badValue (name value : String) (reason : NumberError)
deriving DecidableEq

def FlagError.message : FlagError → Option String
  | .help => none
  | .malformed word => some ("bad flag syntax: " ++ word)
  | .undefined name => some ("flag provided but not defined: -" ++ name)
  | .valueMissing name => some ("flag needs an argument: -" ++ name)
  | .badSwitch name value =>
    some ("invalid boolean value " ++ Quoted.text value ++ " for -" ++ name ++ ": " ++
      NumberError.malformed.message)
  | .badValue name value reason =>
    some ("invalid value " ++ Quoted.text value ++ " for flag -" ++ name ++ ": " ++ reason.message)

inductive Word
  | operand
  | endOfFlags
  | malformed
  | flag (name : String) (value : Option String)
deriving DecidableEq

namespace Word

def named : List Char → Word
  | [] => .malformed
  | c :: rest =>
    if c = '-' ∨ c = '=' then .malformed
    else
      let name := String.ofList (c :: rest.takeWhile (· != '='))
      match rest.dropWhile (· != '=') with
      | [] => .flag name none
      | _ :: value => .flag name (some (String.ofList value))

def ofText (text : String) : Word :=
  match text.toList with
  | ['-', '-'] => .endOfFlags
  | '-' :: '-' :: rest => named rest
  | '-' :: c :: rest => named (c :: rest)
  | _ => .operand

end Word

def switchValue? (text : String) : Option Bool :=
  if ["1", "t", "T", "TRUE", "true", "True"].contains text then some true
  else if ["0", "f", "F", "FALSE", "false", "False"].contains text then some false
  else none

def Action.apply {α : Type} (action : Action α) (name value : String) (options : α) :
    Except FlagError α :=
  match action with
  | .switch set =>
    match switchValue? value with
    | some b => .ok (set b options)
    | none => .error (.badSwitch name value)
  | .text set => .ok (set value options)
  | .integer set =>
    match Number.integer value.toList with
    | .ok n => .ok (set n options)
    | .error e => .error (.badValue name value e)
  | .natural set =>
    match Number.natural value.toList with
    | .ok n => .ok (set n options)
    | .error e => .error (.badValue name value e)

def parseFlags {α : Type} (flags : Flags α) (options : α) :
    (words : List String) → Except FlagError (α × List String)
  | [] => .ok (options, [])
  | word :: words =>
    match Word.ofText word with
    | .operand => .ok (options, word :: words)
    | .endOfFlags => .ok (options, words)
    | .malformed => .error (.malformed word)
    | .flag name value =>
      match flags.lookup name, value, words with
      | none, _, _ => .error (if name = "help" ∨ name = "h" then .help else .undefined name)
      | some (.switch set), none, words => parseFlags flags (set true options) words
      | some action, some value, words => do
        parseFlags flags (← action.apply name value options) words
      | some action, none, value :: words => do
        parseFlags flags (← action.apply name value options) words
      | some _, none, [] => .error (.valueMissing name)

end BytecodeVm.CommandLine
