import BytecodeVm.Text.Numeral

/-! Reading numerals back. The digits of a number denote it, so a numeral says which number was
written; and where the text behind it does not go on with a digit, it says where the numeral
ends. Written forms with both properties are called legible, and forms with a sign, with a mark
in front or with leading zeros are legible as well. -/
namespace BytecodeVm.Numeral

theorem value_concat (base : Nat) (ds : List Nat) (d : Nat) :
    value base (ds ++ [d]) = base * value base ds + d := by
  simp [value]

theorem value_zeros (base k : Nat) (ds : List Nat) :
    value base (List.replicate k 0 ++ ds) = value base ds := by
  induction k with
  | zero => rfl
  | succ k ih => simpa [value, List.replicate_succ] using ih

section

variable {base : Nat} (proper : 2 ≤ base)

include proper

theorem value_positional (n : Nat) : value base (positional base n) = n := by
  induction n using Nat.strongRecOn with
  | ind n ih =>
    rw [positional]
    split
    · rename_i none
      have zero : n = 0 := by omega
      rw [zero]
      rfl
    · rename_i some
      rw [value_concat, ih (n / base) (Nat.div_lt_self (by omega) proper), Nat.div_add_mod]

theorem lt_of_mem_positional (n : Nat) : ∀ d ∈ positional base n, d < base := by
  induction n using Nat.strongRecOn with
  | ind n ih =>
    rw [positional]
    split
    · simp
    · rename_i some
      intro d listed
      rcases List.mem_append.mp listed with before | last
      · exact ih (n / base) (Nat.div_lt_self (by omega) proper) d before
      · rw [List.mem_singleton.mp last]
        exact Nat.mod_lt n (by omega)

theorem head?_positional (n : Nat) : (positional base n).head? ≠ some 0 := by
  induction n using Nat.strongRecOn with
  | ind n ih =>
    rw [positional]
    split
    · simp
    · rename_i some
      have before := ih (n / base) (Nat.div_lt_self (by omega) proper)
      intro zero
      rw [List.head?_append] at zero
      cases first : (positional base (n / base)).head? with
      | some d =>
        rw [first] at zero before
        exact before zero
      | none =>
        -- without digits before it the last digit is the number itself
        have none : n / base = 0 := by
          rw [← value_positional proper (n / base), List.head?_eq_none_iff.mp first]
          rfl
        have last : n % base = 0 := by simpa [first] using zero
        have whole := Nat.div_add_mod n base
        rw [none, last] at whole
        omega

theorem value_digits (n : Nat) : value base (digits base n) = n := by
  rw [digits]
  split
  · rename_i zero
    rw [zero]
    simp [value]
  · exact value_positional proper n

theorem lt_of_mem_digits (n : Nat) : ∀ d ∈ digits base n, d < base := by
  rw [digits]
  split
  · simp only [List.mem_singleton, forall_eq]
    omega
  · exact lt_of_mem_positional proper n

end

theorem digits_ne_nil (base n : Nat) (proper : 2 ≤ base) : digits base n ≠ [] := by
  rw [digits]
  split
  · simp
  · rename_i nonzero
    rw [positional, dif_neg (by omega)]
    simp

def isDigit (c : Char) : Bool := (List.range 16).any fun d => digitChar d == c

theorem isDigit_digitChar {d : Nat} (small : d < 16) : isDigit (digitChar d) = true :=
  List.any_eq_true.mpr ⟨d, List.mem_range.mpr small, beq_self_eq_true _⟩

theorem digitChar_inj : ∀ d < 16, ∀ e < 16, digitChar d = digitChar e → d = e := by decide

theorem map_digitChar_inj {ds es : List Nat} (small : ∀ d ∈ ds, d < 16) (small' : ∀ e ∈ es, e < 16)
    (same : ds.map digitChar = es.map digitChar) : ds = es := by
  induction ds generalizing es with
  | nil => exact (List.map_eq_nil_iff.mp same.symm).symm
  | cons d ds ih =>
    cases es with
    | nil => cases same
    | cons e es =>
      simp only [List.map_cons, List.cons.injEq, List.mem_cons, forall_eq_or_imp]
        at same small small'
      rw [digitChar_inj d small.1 e small'.1 same.1, ih small.2 small'.2 same.2]

theorem append_inj_of_forall {P : Char → Bool} {l l' r r' : List Char} (all : ∀ c ∈ l, P c = true)
    (all' : ∀ c ∈ l', P c = true) (ends : ∀ c ∈ r.head?, P c = false)
    (ends' : ∀ c ∈ r'.head?, P c = false) (same : l ++ r = l' ++ r') : l = l' ∧ r = r' := by
  have stops {r : List Char} (ends : ∀ c ∈ r.head?, P c = false) : r.takeWhile P = [] := by
    cases r with
    | nil => rfl
    | cons c r => simp [ends c (by simp)]
  have first : l = l' := by
    have taken := congrArg (List.takeWhile P) same
    rwa [List.takeWhile_append_of_pos all, List.takeWhile_append_of_pos all', stops ends,
      stops ends', List.append_nil, List.append_nil] at taken
  subst first
  exact ⟨rfl, List.append_cancel_left same⟩

def Closes (s : String) : Prop := ∀ c ∈ s.toList.head?, isDigit c = false

theorem closes_empty : Closes "" := by
  simp [Closes]

theorem closes_append {s : String} (t : String)
    (first : s.toList.head?.any (fun c => !isDigit c) = true) : Closes (s ++ t) := by
  intro c head
  rw [String.toList_append] at head
  cases shape : s.toList with
  | nil => simp [shape] at first
  | cons d rest =>
    rw [shape] at first head
    simp only [List.cons_append, List.head?_cons, Option.mem_some_iff] at head
    rw [← head]
    simpa using first

/-- What is written says which value it is and where it ends. -/
def Legible {α : Type} (f : α → String) : Prop :=
  ∀ ⦃a b : α⦄ ⦃s t : String⦄, Closes s → Closes t → f a ++ s = f b ++ t → a = b ∧ s = t

section

variable {α β : Type} {f : α → String}

theorem Legible.injective (legible : Legible f) {a b : α} (same : f a = f b) : a = b :=
  (legible closes_empty closes_empty (congrArg (· ++ "") same)).1

theorem Legible.comp (legible : Legible f) {g : β → α} (inj : ∀ {a b : β}, g a = g b → a = b) :
    Legible fun b => f (g b) := by
  intro a b s t closed closed' same
  obtain ⟨same, rest⟩ := legible closed closed' same
  exact ⟨inj same, rest⟩

theorem Legible.marked (legible : Legible f) (mark : String) : Legible fun a => mark ++ f a := by
  intro a b s t closed closed' same
  simp only [String.append_assoc, String.append_right_inj] at same
  exact legible closed closed' same

theorem Legible.pair (first : Legible f) {g : β → String} (second : Legible g) (mark : String)
    (apart : mark.toList.head?.any (fun c => !isDigit c) = true) :
    Legible fun p : α × β => f p.1 ++ (mark ++ g p.2) := by
  intro p q s t closed closed' same
  simp only [String.append_assoc] at same
  obtain ⟨left, rest⟩ := first (closes_append _ apart) (closes_append _ apart) same
  rw [String.append_right_inj] at rest
  obtain ⟨right, rest⟩ := second closed closed' rest
  exact ⟨Prod.ext left right, rest⟩

theorem legible_of_digits (ds : α → List Nat)
    (written : ∀ a, f a = String.ofList ((ds a).map digitChar)) (small : ∀ a, ∀ d ∈ ds a, d < 16)
    (inj : ∀ {a b}, ds a = ds b → a = b) : Legible f := by
  intro a b s t closed closed' same
  have chars (a : α) : ∀ c ∈ (ds a).map digitChar, isDigit c = true := by
    intro c written
    obtain ⟨d, listed, rfl⟩ := List.mem_map.mp written
    exact isDigit_digitChar (small a d listed)
  rw [written, written, ← String.toList_inj, String.toList_append, String.toList_append,
    String.toList_ofList, String.toList_ofList] at same
  obtain ⟨digits, rest⟩ := append_inj_of_forall (chars a) (chars b) closed closed' same
  exact ⟨inj (map_digitChar_inj (small a) (small b) digits), String.toList_inj.mp rest⟩

end

theorem legible_text {base : Nat} (proper : 2 ≤ base) (known : base ≤ 16) :
    Legible (text base) := by
  refine legible_of_digits (digits base) (fun _ => rfl) (fun n d listed => ?_) fun {n m} same => ?_
  · exact Nat.lt_of_lt_of_le (lt_of_mem_digits proper n d listed) known
  · rw [← value_digits proper n, same, value_digits proper m]

theorem legible_decimal : Legible decimal := legible_text (by decide) (by decide)

theorem legible_hex : Legible hex := legible_text (by decide) (by decide)

theorem legible_hexByte : Legible hexByte := by
  refine legible_of_digits
    (fun b => List.replicate (2 - (hex b.toNat).length) 0 ++ digits 16 b.toNat)
    (fun b => ?_) (fun b d listed => ?_) fun {b c} same => ?_
  · rw [List.map_append, List.map_replicate, String.ofList_append]
    rfl
  · rcases List.mem_append.mp listed with filling | own
    · rw [List.eq_of_mem_replicate filling]
      decide
    · exact lt_of_mem_digits (by decide) _ d own
  · have values := congrArg (value 16) same
    rw [value_zeros, value_zeros, value_digits (by decide), value_digits (by decide)] at values
    exact UInt8.toNat_inj.mp values

theorem not_closes_decimal (n : Nat) (s : String) : ¬ Closes (decimal n ++ s) := by
  intro closed
  cases shape : digits 10 n with
  | nil => exact digits_ne_nil 10 n (by decide) shape
  | cons d rest =>
    have small : d < 10 := lt_of_mem_digits (by decide) n d (by simp [shape])
    have first := closed (digitChar d) (by
      simp [decimal, text, shape, String.toList_append])
    rw [isDigit_digitChar (by omega)] at first
    cases first

theorem closes_negative (n : Nat) (s : String) : Closes (signed (.negSucc n) ++ s) := by
  rw [signed, String.append_assoc]
  exact closes_append _ rfl

theorem legible_negative : Legible fun n => signed (.negSucc n) :=
  (legible_decimal.comp Nat.succ.inj).marked "-"

theorem legible_signed : Legible signed := by
  intro a b s t closed closed' same
  cases a with
  | ofNat n =>
    cases b with
    | ofNat m =>
      obtain ⟨rfl, rest⟩ := legible_decimal closed closed' same
      exact ⟨rfl, rest⟩
    | negSucc m => exact absurd (same ▸ closes_negative m t) (not_closes_decimal n s)
  | negSucc n =>
    cases b with
    | ofNat m => exact absurd (same ▸ closes_negative n s) (not_closes_decimal m t)
    | negSucc m =>
      obtain ⟨rfl, rest⟩ := legible_negative closed closed' same
      exact ⟨rfl, rest⟩

theorem withSign_ofNat (n : Nat) : withSign (.ofNat n) = "+" ++ decimal n :=
  if_neg (Int.not_lt.mpr (Int.natCast_nonneg n))

theorem withSign_negSucc (n : Nat) : withSign (.negSucc n) = signed (.negSucc n) :=
  if_pos (Int.negSucc_lt_zero n)

theorem closes_withSign (i : Int) (s : String) : Closes (withSign i ++ s) := by
  cases i with
  | ofNat n =>
    rw [withSign_ofNat, String.append_assoc]
    exact closes_append _ rfl
  | negSucc n =>
    rw [withSign_negSucc]
    exact closes_negative n s

theorem legible_withSign : Legible withSign := by
  have apart (n m : Nat) (s t : String) :
      withSign (.ofNat n) ++ s ≠ withSign (.negSucc m) ++ t := by
    rw [withSign_ofNat, withSign_negSucc]
    intro same
    have first := congrArg (·.toList.head?) same
    simp [signed, String.toList_append] at first
  intro a b s t closed closed' same
  cases a with
  | ofNat n =>
    cases b with
    | ofNat m =>
      rw [withSign_ofNat, withSign_ofNat] at same
      obtain ⟨rfl, rest⟩ := legible_decimal.marked "+" closed closed' same
      exact ⟨rfl, rest⟩
    | negSucc m => exact absurd same (apart n m s t)
  | negSucc n =>
    cases b with
    | ofNat m => exact absurd same.symm (apart m n t s)
    | negSucc m =>
      rw [withSign_negSucc, withSign_negSucc] at same
      obtain ⟨rfl, rest⟩ := legible_negative closed closed' same
      exact ⟨rfl, rest⟩

end BytecodeVm.Numeral
