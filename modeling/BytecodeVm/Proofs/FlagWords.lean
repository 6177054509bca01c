import BytecodeVm.CommandLine.Flag
import BytecodeVm.Proofs.Numerals
import Mathlib

/-! What the words of a command line say. Up to the first word that is no flag they give flags, each
a name and the text of a value, and in the end a flag stands for the last text that it was given. A
text that is read as a number of 64 bits denotes that number, and every number of 64 bits can be
written so. -/
namespace BytecodeVm

/-! ## The last word -/

/-- All that is said about a value can be read, and the value is what the last of it makes it, or
the old one if nothing is said. -/
structure Settled {β γ : Type} (reads : γ → β → Prop) (said : List γ) (old new : β) : Prop where
  legible : ∀ g ∈ said, ∃ b, reads g b
  decided : match said.getLast? with
    | some last => reads last new
    | none => new = old

namespace Settled

variable {α β γ σ : Type} {reads : γ → β → Prop} {old mid new : β} {said later : List γ}

theorem unsaid (same : new = old) : Settled reads [] old new := ⟨nofun, same⟩

theorem once {g : γ} (read : reads g new) : Settled reads [g] old new where
  legible := by
    rw [List.forall_mem_singleton]
    exact ⟨new, read⟩
  decided := read

theorem append (h : Settled reads said old mid) (h' : Settled reads later mid new) :
    Settled reads (said ++ later) old new where
  legible := List.forall_mem_append.mpr ⟨h.legible, h'.legible⟩
  decided := by
    have decided := h'.decided
    rw [List.getLast?_append]
    cases last : later.getLast? with
    | some g => simpa [last] using decided
    | none =>
      rw [last] at decided
      rw [Option.none_or, decided]
      exact h.decided

theorem foldlM (field : σ → β) {step : σ → α → Option σ} {about : α → List γ}
    (one : ∀ s a s', step s a = some s' → Settled reads (about a) (field s) (field s'))
    {entries : List α} {s s' : σ} (h : entries.foldlM step s = some s') :
    Settled reads (entries.flatMap about) (field s) (field s') := by
  induction entries generalizing s with
  | nil =>
    cases h
    exact .unsaid rfl
  | cons a rest ih =>
    rw [List.foldlM_cons] at h
    obtain ⟨t, first, others⟩ := Option.bind_eq_some_iff.mp h
    rw [List.flatMap_cons]
    exact (one s a t first).append (ih others)

end Settled

namespace CommandLine

/-! ## Numbers -/

namespace Number

theorem scan_eq_ok {base limit n m : Nat} {cs : List Char} (h : scan base limit n cs = .ok m) :
    m = (cs.filterMap (Numeral.digit? base)).foldl (fun n d => base * n + d) n ∧
      (n ≤ limit → m ≤ limit) := by
  induction cs generalizing n with
  | nil =>
    cases h
    exact ⟨rfl, id⟩
  | cons c rest ih =>
    rw [scan] at h
    split at h
    · rename_i underscore
      rw [underscore, List.filterMap_cons_none rfl]
      exact ih h
    · split at h
      · cases h
      · rename_i d digit
        rw [List.filterMap_cons_some digit, List.foldl_cons]
        split at h
        · cases h
        · rename_i within
          rw [Nat.mul_comm base n]
          exact ⟨(ih h).1, fun _ => (ih h).2 (Nat.le_of_not_lt within)⟩

theorem le_foldl_digits (ds : List Nat) (n : Nat) : n ≤ ds.foldl (fun n d => 10 * n + d) n := by
  induction ds generalizing n with
  | nil => exact Nat.le_refl n
  | cons d ds ih => exact Nat.le_trans (by omega) (ih (10 * n + d))

theorem digit?_digitChar : ∀ d < 10,
    Numeral.digit? 10 (Numeral.digitChar d) = some d ∧ Numeral.digitChar d ≠ '_' := by decide

theorem scan_digits {ds : List Nat} (small : ∀ d ∈ ds, d < 10) {limit n : Nat} (fits : n ≤ limit) :
    scan 10 limit n (ds.map Numeral.digitChar) =
      if ds.foldl (fun n d => 10 * n + d) n ≤ limit
      then .ok (ds.foldl (fun n d => 10 * n + d) n) else .error .outOfRange := by
  induction ds generalizing n with
  | nil => exact (if_pos fits).symm
  | cons d ds ih =>
    obtain ⟨value, plain⟩ := digit?_digitChar d (small d List.mem_cons_self)
    rw [List.map_cons, scan, if_neg plain, value, List.foldl_cons, Nat.mul_comm 10 n]
    dsimp only
    by_cases past : limit < n * 10 + d
    · have total := le_foldl_digits ds (n * 10 + d)
      rw [if_pos past, if_neg (by omega)]
    · rw [if_neg past]
      exact ih (fun e member => small e (List.mem_cons_of_mem d member)) (Nat.le_of_not_lt past)

theorem split_of_ne_zero {c : Char} {rest : List Char} (h : c ≠ '0') :
    split (c :: rest) = (10, c :: rest) := by
  unfold split
  split
  · rename_i same
    exact absurd (List.cons.inj same).1 h
  · rename_i same
    exact absurd (List.cons.inj same).1 h
  · rfl

theorem natural_eq_ok {cs : List Char} {n : Nat} (h : natural cs = .ok n) :
    n = Numeral.value (split cs).1 ((split cs).2.filterMap (Numeral.digit? (split cs).1)) ∧
      n < 2 ^ 64 := by
  unfold natural at h
  split at h
  · cases h
  · dsimp only at h
    split at h
    · cases h
    · rename_i m scanned
      split at h
      · cases h
      · cases h
        obtain ⟨value, small⟩ := scan_eq_ok scanned
        exact ⟨value, Nat.lt_succ_of_le (small (Nat.zero_le _))⟩

theorem natural_decimal (n : Nat) :
    natural (Numeral.decimal n).toList =
      if n < 2 ^ 64 then .ok n else .error .outOfRange := by
  rw [Numeral.decimal, Numeral.text, String.toList_ofList]
  by_cases zero : n = 0
  · subst zero
    rfl
  · have small : ∀ d ∈ Numeral.digits 10 n, d < 10 := Numeral.lt_of_mem_digits (by decide) n
    have value : Numeral.value 10 (Numeral.digits 10 n) = n := Numeral.value_digits (by decide) n
    have scanned : scan 10 18446744073709551615 0 ((Numeral.digits 10 n).map Numeral.digitChar) =
        if n ≤ 18446744073709551615 then .ok n else .error .outOfRange := by
      rw [scan_digits small (Nat.zero_le _)]
      change (if Numeral.value 10 _ ≤ _ then Except.ok (Numeral.value 10 _) else _) = _
      rw [value]
    have plain : ((Numeral.digits 10 n).map Numeral.digitChar).contains '_' = false := by
      simp only [List.contains_eq_mem, decide_eq_false_iff_not, List.mem_map, not_exists, not_and]
      exact fun d member => (digit?_digitChar d (small d member)).2
    have base : split ((Numeral.digits 10 n).map Numeral.digitChar) =
        (10, (Numeral.digits 10 n).map Numeral.digitChar) := by
      cases first : Numeral.digits 10 n with
      | nil => exact absurd first (Numeral.digits_ne_nil 10 n (by decide))
      | cons d ds =>
        have digit : d < 10 := small d (by simp [first])
        rw [Numeral.digits, if_neg zero] at first
        have lead := Numeral.head?_positional (by decide : 2 ≤ 10) n
        refine split_of_ne_zero fun same => lead ?_
        rw [first, Numeral.digitChar_inj d (by omega) 0 (by decide) same]
        rfl
    have some_there : ((Numeral.digits 10 n).map Numeral.digitChar).isEmpty = false := by
      simpa using Numeral.digits_ne_nil 10 n (by decide)
    rw [natural, some_there, base]
    simp only [Bool.false_eq_true, if_false, scanned, plain, Bool.false_and]
    by_cases fits : n < 2 ^ 64
    · rw [if_pos (by omega), if_pos fits]
    · rw [if_neg (by omega), if_neg fits]

theorem exists_digit_decimal (n : Nat) :
    ∃ c rest, (Numeral.decimal n).toList = c :: rest ∧ c ≠ '-' ∧ c ≠ '+' := by
  rw [Numeral.decimal, Numeral.text, String.toList_ofList]
  cases first : Numeral.digits 10 n with
  | nil => exact absurd first (Numeral.digits_ne_nil 10 n (by decide))
  | cons d ds =>
    have digit : d < 10 := Numeral.lt_of_mem_digits (by decide) n d (by simp [first])
    have plain : ∀ d < 10, Numeral.digitChar d ≠ '-' ∧ Numeral.digitChar d ≠ '+' := by decide
    exact ⟨_, _, rfl, plain d digit⟩

theorem integer_of_unsigned {c : Char} {rest : List Char} (minus : c ≠ '-') (plus : c ≠ '+') :
    integer (c :: rest) = match natural (c :: rest) with
      | .error e => .error e
      | .ok n => if 9223372036854775807 < n then .error .outOfRange else .ok n := by
  unfold integer
  split
  rename_i negative digits shape
  split at shape
  · rename_i same
    exact absurd (List.cons.inj same).1 minus
  · rename_i same
    exact absurd (List.cons.inj same).1 plus
  · cases shape
    rfl

theorem integer_signed (i : Int) :
    integer (Numeral.signed i).toList =
      if -2 ^ 63 ≤ i ∧ i < 2 ^ 63 then .ok i else .error .outOfRange := by
  cases i with
  | ofNat n =>
    obtain ⟨c, rest, shape, minus, plus⟩ := exists_digit_decimal n
    have value := natural_decimal n
    rw [shape] at value
    rw [Numeral.signed, shape, integer_of_unsigned minus plus, value, Int.ofNat_eq_natCast]
    by_cases fits : n < 2 ^ 64
    · rw [if_pos fits]
      dsimp only
      by_cases half : n < 2 ^ 63
      · rw [if_neg (by omega), if_pos (by omega)]
      · rw [if_pos (by omega), if_neg (by omega)]
    · rw [if_neg fits, if_neg (by omega)]
  | negSucc n =>
    have value := natural_decimal (n + 1)
    rw [Numeral.signed, String.toList_append]
    change (match natural (Numeral.decimal (n + 1)).toList with
      | .error e => Except.error e
      | .ok n => if 9223372036854775808 < n then .error .outOfRange else .ok (-(n : Int))) = _
    rw [value]
    by_cases fits : n + 1 < 2 ^ 64
    · rw [if_pos fits]
      dsimp only
      by_cases half : n + 1 ≤ 2 ^ 63
      · rw [if_neg (by omega), if_pos (by omega)]
        rfl
      · rw [if_pos (by omega), if_neg (by omega)]
    · rw [if_neg fits, if_neg (by omega)]

end Number

/-! ## Flags -/

/-- The word is a flag behind one dash or two, with the value, if there is one, behind an equals
sign. -/
structure Word.Spells (word name : String) (value : Option String) : Prop where
  text : word.toList = '-' :: (name.toList ++ value.elim [] fun v => '=' :: v.toList) ∨
    word.toList = '-' :: '-' :: (name.toList ++ value.elim [] fun v => '=' :: v.toList)
  unequal : '=' ∉ name.toList
  first : ∃ c rest, name.toList = c :: rest ∧ c ≠ '-'

theorem Word.named_eq_flag {cs : List Char} {name : String} {value : Option String}
    (h : named cs = .flag name value) :
    cs = name.toList ++ (value.elim [] fun v => '=' :: v.toList) ∧ '=' ∉ name.toList ∧
      ∃ c rest, name.toList = c :: rest ∧ c ≠ '-' := by
  cases cs with
  | nil => cases h
  | cons c rest =>
    rw [named] at h
    split at h
    · cases h
    · rename_i plain
      obtain ⟨dash, equals⟩ := not_or.mp plain
      have parts := List.takeWhile_append_dropWhile (p := (· != '=')) (l := rest)
      have before : '=' ∉ rest.takeWhile (· != '=') := fun member => by
        have := List.mem_takeWhile_imp member
        simp at this
      have unequal : '=' ∉ c :: rest.takeWhile (· != '=') := by
        simp only [List.mem_cons, not_or]
        exact ⟨Ne.symm equals, before⟩
      dsimp only at h
      split at h
      · rename_i ends
        cases h
        rw [ends, List.append_nil] at parts
        refine ⟨?_, ?_, c, rest, ?_, dash⟩
        · simp [parts]
        · simpa [parts] using unequal
        · simp [parts]
      · rename_i sign value' follows
        have isSign : sign = '=' := by
          have stops := List.head?_dropWhile_not (· != '=') rest
          rw [follows] at stops
          simpa using stops
        cases h
        rw [follows, isSign] at parts
        refine ⟨?_, ?_, c, rest.takeWhile (· != '='), ?_, dash⟩
        · simp [parts]
        · simpa using unequal
        · simp

theorem Word.spells_of_flag {word name : String} {value : Option String}
    (h : ofText word = .flag name value) : Spells word name value := by
  unfold ofText at h
  split at h
  · cases h
  · rename_i shape
    obtain ⟨text, unequal, first⟩ := named_eq_flag h
    exact ⟨.inr (by rw [shape, text]), unequal, first⟩
  · rename_i shape
    obtain ⟨text, unequal, first⟩ := named_eq_flag h
    exact ⟨.inl (by rw [shape, text]), unequal, first⟩
  · cases h

theorem Word.named_ne (cs : List Char) : named cs ≠ .operand ∧ named cs ≠ .endOfFlags := by
  unfold named
  split
  · simp
  · dsimp only
    split
    · simp
    · split <;> simp

theorem Word.plain_of_operand {word : String} (h : ofText word = .operand) (c : Char)
    (rest : List Char) : word.toList ≠ '-' :: c :: rest := by
  intro shape
  unfold ofText at h
  split at h
  · cases h
  · exact (named_ne _).1 h
  · exact (named_ne _).1 h
  · rename_i none
    exact none c rest shape

theorem Word.dashes_of_endOfFlags {word : String} (h : ofText word = .endOfFlags) :
    word.toList = ['-', '-'] := by
  unfold ofText at h
  split at h
  · assumption
  · exact absurd h (named_ne _).2
  · exact absurd h (named_ne _).2
  · cases h

section

variable {α β : Type} {flags : Flags α}

def Flags.isSwitch (flags : Flags α) (name : String) : Bool :=
  match flags.lookup name with
  | some (.switch _) => true
  | _ => false

/-- The words give these flags one after the other, and the operands come after them. A switch that
stands alone is given the text of truth. -/
inductive Gives (flags : Flags α) : List String → List (String × String) → List String → Prop
  | nil : Gives flags [] [] []
  | operand {word : String} {words : List String}
      (plain : ∀ c rest, word.toList ≠ '-' :: c :: rest) :
      Gives flags (word :: words) [] (word :: words)
  | endOfFlags {word : String} {words : List String} (dashes : word.toList = ['-', '-']) :
      Gives flags (word :: words) [] words
  | joined {word name value : String} {words operands : List String}
      {given : List (String × String)} (spelled : Word.Spells word name (some value))
      (rest : Gives flags words given operands) :
      Gives flags (word :: words) ((name, value) :: given) operands
  | alone {word name : String} {words operands : List String} {given : List (String × String)}
      (spelled : Word.Spells word name none) (switch : flags.isSwitch name = true)
      (rest : Gives flags words given operands) :
      Gives flags (word :: words) ((name, "true") :: given) operands
  | apart {word name value : String} {words operands : List String}
      {given : List (String × String)} (spelled : Word.Spells word name none)
      (valued : flags.isSwitch name = false) (rest : Gives flags words given operands) :
      Gives flags (word :: value :: words) ((name, value) :: given) operands

def Flags.set (flags : Flags α) (options : α) (flag : String × String) : Option α :=
  (flags.lookup flag.1).bind fun action => (action.apply flag.1 flag.2 options).toOption

theorem Flags.set_eq_some_iff {name value : String} {options next : α} :
    flags.set options (name, value) = some next ↔
      ∃ action, flags.lookup name = some action ∧ action.apply name value options = .ok next := by
  unfold set
  rw [Option.bind_eq_some_iff]
  refine exists_congr fun action => and_congr_right fun _ => ?_
  cases action.apply name value options <;> simp [Except.toOption]

theorem foldlM_set_cons {flag : String × String} {given : List (String × String)}
    {options next o : α} (first : flags.set options flag = some next)
    (rest : given.foldlM flags.set next = some o) :
    (flag :: given).foldlM flags.set options = some o := by
  rw [List.foldlM_cons, first]
  exact rest

theorem gives_of_parseFlags {words operands : List String} {options o : α}
    (h : parseFlags flags options words = .ok (o, operands)) :
    ∃ given, Gives flags words given operands ∧ given.foldlM flags.set options = some o := by
  fun_induction parseFlags flags options words with
  | case1 options =>
    cases h
    exact ⟨[], .nil, rfl⟩
  | case2 options word words plain =>
    cases h
    exact ⟨[], .operand (Word.plain_of_operand plain), rfl⟩
  | case3 options word words dashes =>
    cases h
    exact ⟨[], .endOfFlags (Word.dashes_of_endOfFlags dashes), rfl⟩
  | case4 | case5 | case9 => cases h
  -- a switch by itself, a flag with its value behind `=`, and one with its value in the next word
  | case6 options word name set words found spelled ih =>
    obtain ⟨given, gives, sets⟩ := ih h
    have switch : flags.isSwitch name = true := by rw [Flags.isSwitch, found]
    refine ⟨_, .alone (Word.spells_of_flag spelled) switch gives, ?_⟩
    exact foldlM_set_cons (Flags.set_eq_some_iff.mpr ⟨_, found, rfl⟩) sets
  | case7 options word name action value words found spelled ih =>
    cases applied : action.apply name value options with
    | error e =>
      rw [applied] at h
      cases h
    | ok next =>
      rw [applied] at h
      obtain ⟨given, gives, sets⟩ := ih next h
      refine ⟨_, .joined (Word.spells_of_flag spelled) gives, ?_⟩
      exact foldlM_set_cons (Flags.set_eq_some_iff.mpr ⟨_, found, applied⟩) sets
  | case8 options word name action value words valued found spelled ih =>
    cases applied : action.apply name value options with
    | error e =>
      rw [applied] at h
      cases h
    | ok next =>
      rw [applied] at h
      obtain ⟨given, gives, sets⟩ := ih next h
      have noSwitch : flags.isSwitch name = false := by
        rw [Flags.isSwitch, found]
        split
        · rename_i set same
          cases same
          exact (valued set rfl).elim
        · rfl
      refine ⟨_, .apart (Word.spells_of_flag spelled) noSwitch gives, ?_⟩
      exact foldlM_set_cons (Flags.set_eq_some_iff.mpr ⟨_, found, applied⟩) sets

/-! ## One flag among others -/

def Action.Leaves (field : α → β) : Action α → Prop
  | .switch set => ∀ b o, field (set b o) = field o
  | .text set => ∀ t o, field (set t o) = field o
  | .integer set => ∀ n o, field (set n o) = field o
  | .natural set => ∀ n o, field (set n o) = field o

theorem Action.Leaves.apply {action : Action α} {field : α → β} (h : action.Leaves field)
    {name value : String} {o o' : α} (applied : action.apply name value o = .ok o') :
    field o' = field o := by
  cases action with
  | text set =>
    cases applied
    exact h value o
  | switch set | integer set | natural set =>
    simp only [Action.apply] at applied
    split at applied <;> cases applied
    exact h _ o

def textsOf (name : String) (given : List (String × String)) : List String :=
  given.flatMap fun flag => if flag.1 = name then [flag.2] else []

theorem settled_flag (field : α → β) (name : String) {action : Action α}
    {reads : String → β → Prop} (mine : flags.lookup name = some action)
    (others : ∀ flag ∈ flags, flag.1 ≠ name → flag.2.Leaves field)
    (writes : ∀ value o o', action.apply name value o = .ok o' → reads value (field o'))
    {given : List (String × String)} {options o : α}
    (h : given.foldlM flags.set options = some o) :
    Settled reads (textsOf name given) (field options) (field o) := by
  refine Settled.foldlM field (fun s flag s' step => ?_) h
  obtain ⟨found, value⟩ := flag
  obtain ⟨other, looked, applied⟩ := Flags.set_eq_some_iff.mp step
  by_cases same : found = name
  · subst same
    cases mine.symm.trans looked
    rw [if_pos rfl]
    exact .once (writes value s s' applied)
  · rw [if_neg same]
    obtain ⟨before, after, split, -⟩ := List.lookup_eq_some_iff.mp looked
    have member : (found, other) ∈ flags := by simp [split]
    exact .unsaid ((others _ member same).apply applied)

end

end CommandLine

end BytecodeVm
