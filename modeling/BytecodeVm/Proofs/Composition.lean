import BytecodeVm.Proofs.Conversions
import BytecodeVm.Proofs.PrintfOutput

/-! Formats side by side. A format that ends with no conversion open may be followed by another one
as if the two were printed one after the other, the second with the arguments that the first has
left. The arguments that a format takes are counted on its spelling alone. -/
namespace BytecodeVm.Printf

/-! ## The arguments that a directive takes -/

theorem next_eq (args : List UInt64) : next args = (args.getD 0 0, args.drop 1) := by
  cases args <;> rfl

theorem getD_drop (args : List UInt64) (k i : Nat) :
    (args.drop k).getD i 0 = args.getD (k + i) 0 := by
  simp [List.getD_eq_getElem?_getD]

namespace Count

def arguments : Count → Nat
  | .digits _ => 0
  | .star => 1

def number (a : UInt64) : Count → Int
  | .digits ds => decimalValue ds
  | .star => int32 a

end Count

theorem planWidth_eq (f : Field) (c : Count) (args : List UInt64) :
    planWidth f c args =
      (if c = .digits [] then ⟨f, false⟩ else withWidth f (c.number (args.getD 0 0)),
        args.drop c.arguments) := by
  fun_cases planWidth f c args with
  | case1 => simp [Count.arguments]
  | case2 ds given =>
    have written : Count.digits ds ≠ .digits [] := by simpa using given
    rw [if_neg written]
    rfl
  | case3 a rest taken =>
    rw [next_eq, Prod.mk.injEq] at taken
    obtain ⟨rfl, rfl⟩ := taken
    rfl

theorem planPrecision_some (p : Plan) (c : Count) (args : List UInt64) :
    planPrecision p (some c) args =
      (if c.number (args.getD 0 0) < 0 then p else withPrecision p (c.number (args.getD 0 0)).toNat,
        args.drop c.arguments) := by
  cases c with
  | digits ds =>
    have nonneg : ¬(decimalValue ds : Int) < 0 := by omega
    simp [planPrecision, Count.number, Count.arguments, nonneg]
  | star =>
    simp only [planPrecision, next_eq]
    exact (apply_ite (·, args.drop 1) (int32 (args.getD 0 0) < 0) p _).symm

namespace Directive

def stars (d : Directive) : Nat := d.width.arguments + d.precision.elim 0 Count.arguments

def arguments (d : Directive) : Nat := d.stars + if d.takesArgument then 1 else 0

end Directive

theorem snd_plan (d : Directive) (args : List UInt64) : (plan d args).2 = args.drop d.stars := by
  cases given : d.precision with
  | none => simp [plan, planWidth_eq, planPrecision, given, Directive.stars]
  | some c => simp [plan, planWidth_eq, planPrecision_some, given, Directive.stars]

theorem after_eq_drop (d : Directive) (args : List UInt64) :
    d.after args = args.drop d.arguments := by
  rw [Directive.after, Directive.arguments, snd_plan, next_eq]
  split <;> simp

theorem eq_drop_of_expand {t : RegionTable} {d : Directive} {written out : List UInt8}
    {args rest : List UInt64} (h : expand t d written args = .ok (out, rest)) :
    rest = args.drop d.arguments := by
  rw [← after_eq_drop]
  cases string : d.address? args with
  | none =>
    obtain ⟨out', expanded, -⟩ := expand_of_no_string string t written
    cases expanded.symm.trans h
    rfl
  | some a =>
    rw [expand_of_string string] at h
    cases read : CString.read t a maxString with
    | error e => simp [read, Except.map] at h
    | ok s =>
      simp only [read, Except.map, Except.ok.injEq, Prod.mk.injEq] at h
      exact h.2.symm

/-- Two lists with the same arguments, those past the end being zero. -/
def Alike (args args' : List UInt64) : Prop := ∀ i, args.getD i 0 = args'.getD i 0

section

variable {args args' : List UInt64} (alike : Alike args args')

include alike

theorem Alike.drop (k : Nat) : Alike (args.drop k) (args'.drop k) := by
  intro i
  rw [getD_drop, getD_drop, alike]

theorem Alike.plan (d : Directive) : (plan d args).1 = (Printf.plan d args').1 := by
  have first := alike 0
  have second := alike.drop d.width.arguments 0
  cases given : d.precision with
  | none => simp only [Printf.plan, planWidth_eq, planPrecision, given, first]
  | some c => simp only [Printf.plan, planWidth_eq, planPrecision_some, given, first, second]

theorem Alike.expand (t : RegionTable) (d : Directive) (written : List UInt8) :
    (expand t d written args).map Prod.fst = (Printf.expand t d written args').map Prod.fst := by
  have value := alike.drop d.stars 0
  simp only [Printf.expand, next_eq, snd_plan, alike.plan, value, apply_ite (Except.map Prod.fst)]
  cases CString.read t ((args'.drop d.stars).getD 0 0) maxString <;> rfl

end

/-! ## Whole formats -/

theorem pieces_of_plain {b : UInt8} (plain : b ≠ ascii '%') (f : List UInt8) :
    pieces (b :: f) = .literal b :: pieces f := by
  rw [pieces, if_neg plain]

theorem pieces_of_proper {d : Directive} (proper : d.Proper) (f : List UInt8) :
    pieces (ascii '%' :: (d.spelling ++ f)) =
      .directive d (ascii '%' :: d.spelling) :: pieces f := by
  have scanned : scan (d.spelling ++ f) = some (d, f) := scan_eq_some_iff.mpr ⟨proper, rfl⟩
  rw [pieces, if_pos rfl]
  split
  · rename_i none
    cases scanned.symm.trans none
  · rename_i d' rest found
    cases scanned.symm.trans found
    simp

theorem pieces_of_unfinished {f : List UInt8} (none : scan f = none) :
    pieces (ascii '%' :: f) = [.unfinished (ascii '%' :: f)] := by
  rw [pieces, if_pos rfl]
  split
  · rfl
  · rename_i found
    cases none.symm.trans found

def Directive.output (t : RegionTable) (d : Directive) (args : List UInt64) :
    Except StringError (List UInt8) :=
  (expand t d (ascii '%' :: d.spelling) args).map Prod.fst

section

variable (t : RegionTable) (f : List UInt8) (args : List UInt64)

theorem format_nil : format t [] args = .ok [] := by
  simp [format, pieces, render]

theorem format_of_plain {b : UInt8} (plain : b ≠ ascii '%') :
    format t (b :: f) args = (format t f args).map (b :: ·) := by
  rw [format, pieces_of_plain plain, render, format]

theorem format_of_proper {d : Directive} (proper : d.Proper) :
    format t (ascii '%' :: (d.spelling ++ f)) args = do
      let out ← d.output t args
      let more ← format t f (args.drop d.arguments)
      return out ++ more := by
  rw [format, pieces_of_proper proper, render, Directive.output]
  cases expanded : expand t d (ascii '%' :: d.spelling) args with
  | error e => rfl
  | ok result =>
    obtain ⟨out, rest⟩ := result
    obtain rfl := eq_drop_of_expand expanded
    rfl

theorem format_of_unfinished (none : scan f = none) :
    format t (ascii '%' :: f) args = .ok (ascii '%' :: f) := by
  simp [format, pieces_of_unfinished none, render, Except.map]

end

/-- The format is made of whole conversions and of bytes that stand for themselves, and takes `k`
arguments. -/
inductive Takes : List UInt8 → Nat → Prop
  | nil : Takes [] 0
  | literal {b : UInt8} {f : List UInt8} {k : Nat} (plain : b ≠ ascii '%') (rest : Takes f k) :
      Takes (b :: f) k
  | conversion {d : Directive} {f : List UInt8} {k : Nat} (proper : d.Proper) (rest : Takes f k) :
      Takes (ascii '%' :: (d.spelling ++ f)) (d.arguments + k)

def Piece.arguments : Piece → Nat
  | .directive d _ => d.arguments
  | .literal _ | .unfinished _ => 0

theorem Takes.eq_sum {f : List UInt8} {k : Nat} (h : Takes f k) :
    k = ((pieces f).map Piece.arguments).sum := by
  induction h with
  | nil => simp [pieces]
  | literal plain rest ih => simpa [pieces_of_plain plain, Piece.arguments] using ih
  | conversion proper rest ih => simpa [pieces_of_proper proper, Piece.arguments] using ih

theorem exists_takes {f : List UInt8} (finished : ∀ w, Piece.unfinished w ∉ pieces f) :
    ∃ k, Takes f k := by
  fun_induction pieces f with
  | case1 => exact ⟨0, .nil⟩
  | case2 f none => exact absurd (by simp) (finished (ascii '%' :: f))
  | case3 f d rest scanned ih =>
    obtain ⟨proper, rfl⟩ := scan_eq_some_iff.mp scanned
    obtain ⟨k, taken⟩ := ih fun w member => finished w (List.mem_cons_of_mem _ member)
    exact ⟨_, .conversion proper taken⟩
  | case4 b f plain ih =>
    obtain ⟨k, taken⟩ := ih fun w member => finished w (List.mem_cons_of_mem _ member)
    exact ⟨k, .literal plain taken⟩

theorem Takes.finished {f : List UInt8} {k : Nat} (h : Takes f k) :
    ∀ w, Piece.unfinished w ∉ pieces f := by
  induction h with
  | nil => simp [pieces]
  | literal plain rest ih => simpa [pieces_of_plain plain] using ih
  | conversion proper rest ih => simpa [pieces_of_proper proper] using ih

theorem Takes.format_append {f : List UInt8} {k : Nat} (h : Takes f k) (t : RegionTable)
    (g : List UInt8) (args : List UInt64) :
    format t (f ++ g) args = do
      let a ← format t f args
      let b ← format t g (args.drop k)
      return a ++ b := by
  -- for all arguments at once, since what follows a conversion sees fewer of them
  induction h generalizing args with
  | nil =>
    rw [format_nil, List.nil_append, List.drop_zero]
    cases format t g args <;> rfl
  | @literal b f k plain rest ih =>
    rw [List.cons_append, format_of_plain t _ _ plain, format_of_plain t _ _ plain, ih]
    cases format t f args with
    | error e => rfl
    | ok a => cases format t g (args.drop k) <;> rfl
  | @conversion d f k proper rest ih =>
    rw [List.cons_append, List.append_assoc, format_of_proper t _ _ proper,
      format_of_proper t _ _ proper, ih, List.drop_drop]
    cases d.output t args with
    | error e => rfl
    | ok out =>
      cases format t f (args.drop d.arguments) with
      | error e => rfl
      | ok a =>
        cases format t g (args.drop (d.arguments + k)) <;>
          simp [bind, Except.bind, pure, Except.pure]

theorem format_congr (t : RegionTable) (f : List UInt8) {args args' : List UInt64}
    (alike : Alike args args') : format t f args = format t f args' := by
  fun_induction pieces f generalizing args args' with
  | case1 => rw [format_nil, format_nil]
  | case2 f none => rw [format_of_unfinished t f _ none, format_of_unfinished t f _ none]
  | case3 f d rest scanned ih =>
    obtain ⟨proper, rfl⟩ := scan_eq_some_iff.mp scanned
    rw [format_of_proper t _ _ proper, format_of_proper t _ _ proper, Directive.output,
      alike.expand, ih (alike.drop _)]
    rfl
  | case4 b f plain ih =>
    rw [format_of_plain t _ _ plain, format_of_plain t _ _ plain, ih alike]

theorem alike_append_zeros (args : List UInt64) (n : Nat) :
    Alike (args ++ List.replicate n 0) args := by
  intro i
  rcases Nat.lt_or_ge i args.length with inside | past
  · rw [List.getD_append _ _ _ _ inside]
  · rw [List.getD_append_right _ _ _ _ past, List.getD_eq_default _ _ past,
      List.getD_eq_getElem?_getD, List.getElem?_replicate]
    split <;> rfl

theorem format_of_no_percent (t : RegionTable) (args : List UInt64) {f : List UInt8}
    (plain : ascii '%' ∉ f) : format t f args = .ok f := by
  induction f with
  | nil => exact format_nil t args
  | cons b f ih =>
    simp only [List.mem_cons, not_or] at plain
    rw [format_of_plain t f args (Ne.symm plain.1), ih plain.2]
    rfl

/-- A format is printed part by part, each part with the arguments that those before it have left,
and the first part that fails decides the error. -/
theorem format_compositional (t : RegionTable) :
    (∀ f₁, (∀ w, Piece.unfinished w ∉ pieces f₁) →
      ∃ k, (∀ n, Takes f₁ n ↔ n = k) ∧ ∀ f₂ args,
        format t (f₁ ++ f₂) args = do
          let a ← format t f₁ args
          let b ← format t f₂ (args.drop k)
          return a ++ b) ∧
      (∀ f args n, format t f (args ++ List.replicate n 0) = format t f args) ∧
      (∀ f args, ascii '%' ∉ f → format t f args = .ok f) ∧
      (∀ args, format t [ascii '%', ascii '%'] args = .ok [ascii '%']) ∧
      ∀ f args, (∀ (d : Directive) rest, d.Proper → f ≠ d.spelling ++ rest) →
        format t (ascii '%' :: f) args = .ok (ascii '%' :: f) := by
  refine ⟨fun f₁ finished => ?_, fun f args n => format_congr t f (alike_append_zeros args n),
    fun f args plain => format_of_no_percent t args plain, fun args => ?_,
    fun f args unspelled => ?_⟩
  · obtain ⟨k, taken⟩ := exists_takes finished
    refine ⟨k, fun n => ⟨fun other => ?_, fun same => same ▸ taken⟩, taken.format_append t⟩
    rw [other.eq_sum, ← taken.eq_sum]
  · have printed := format_of_proper t [] args
      (d := ⟨[], .digits [], none, [], ascii '%'⟩) (by decide)
    rwa [format_nil] at printed
  · refine format_of_unfinished t f args (Option.eq_none_iff_forall_ne_some.mpr ?_)
    rintro ⟨d, rest⟩ scanned
    obtain ⟨proper, spelled⟩ := scan_eq_some_iff.mp scanned
    exact unspelled d rest proper spelled

theorem format_compositional_starred :
    let f₁ := ['n', '%', '*', 'c', '%', '%'].map ascii
    (∀ w, Piece.unfinished w ∉ pieces f₁) ∧ Takes f₁ 2 ∧
      ∀ f₂, format .blank (f₁ ++ f₂) [3, 65, 66] = do
        let a ← format .blank f₁ [3, 65, 66]
        let b ← format .blank f₂ [66]
        return a ++ b := by
  intro f₁
  have taken : Takes f₁ 2 := .literal (by decide)
    (.conversion (d := ⟨[], .star, none, [], ascii 'c'⟩) (by decide)
      (.conversion (d := ⟨[], .digits [], none, [], ascii '%'⟩) (by decide) .nil))
  obtain ⟨k, unique, composed⟩ := (format_compositional .blank).1 f₁ taken.finished
  obtain rfl := (unique 2).mp taken
  exact ⟨taken.finished, taken, fun f₂ => composed f₂ _⟩

end BytecodeVm.Printf
