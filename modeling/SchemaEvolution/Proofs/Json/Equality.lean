import SchemaEvolution.Json.Basic

namespace SchemaEvolution

open Decimal (Binary64)

theorem Decimal.Binary64.equal_iff {x y : Binary64} :
    x.equal y ↔ (x.magnitude.isZero ∧ y.magnitude.isZero) ∨ x = y := by
  simp [Binary64.equal]

theorem Decimal.Binary64.equal_trans {x y z : Binary64} (hxy : x.equal y) (hyz : y.equal z) :
    x.equal z := by
  rw [equal_iff] at hxy hyz ⊢
  rcases hxy with ⟨hx, hy⟩ | rfl
  · rcases hyz with ⟨-, hz⟩ | rfl
    · exact .inl ⟨hx, hz⟩
    · exact .inl ⟨hx, hy⟩
  · exact hyz

namespace Json

theorem Number.equal_trans {a b c : Number} (hab : a.equal b) (hbc : b.equal c) : a.equal c := by
  cases a <;> cases b <;> cases c <;> simp_all only [Number.equal, beq_iff_eq, Bool.false_eq_true]
  exact Binary64.equal_trans hab hbc

mutual

theorem equal_trans {a b c : Json} (hab : a.equal b) (hbc : b.equal c) : a.equal c := by
  match a, b, c with
  | .null, .null, .null => rfl
  | .bool _, .bool _, .bool _ => simp_all [equal]
  | .number _, .number _, .number _ =>
    simp only [equal] at hab hbc ⊢
    exact Number.equal_trans hab hbc
  | .string _, .string _, .string _ => simp_all [equal]
  | .array _, .array _, .array _ =>
    simp only [equal] at hab hbc ⊢
    exact equalItems_trans hab hbc
  | .object _, .object _, .object _ =>
    simp only [equal] at hab hbc ⊢
    exact equalMembers_trans hab hbc

theorem equalItems_trans {xs ys zs : List Json} (hxy : equalItems xs ys) (hyz : equalItems ys zs) :
    equalItems xs zs := by
  match xs, ys, zs with
  | [], [], [] => rfl
  | _ :: _, _ :: _, _ :: _ =>
    simp only [equalItems, Bool.and_eq_true] at hxy hyz ⊢
    exact ⟨equal_trans hxy.1 hyz.1, equalItems_trans hxy.2 hyz.2⟩

theorem equalMembers_trans {xs ys zs : List (String × Json)} (hxy : equalMembers xs ys)
    (hyz : equalMembers ys zs) : equalMembers xs zs := by
  match xs, ys, zs with
  | [], [], [] => rfl
  | (_, _) :: _, (_, _) :: _, (_, _) :: _ =>
    simp only [equalMembers, Bool.and_eq_true, beq_iff_eq] at hxy hyz ⊢
    exact ⟨⟨hxy.1.1.trans hyz.1.1, equal_trans hxy.1.2 hyz.1.2⟩, equalMembers_trans hxy.2 hyz.2⟩

end

theorem Number.equal_self (a : Number) : a.equal a := by
  cases a with
  | integer n => exact beq_self_eq_true n
  | float x => exact Binary64.equal_iff.2 (.inr rfl)

mutual

theorem equal_self : ∀ v : Json, v.equal v
  | .null => rfl
  | .bool b => beq_self_eq_true b
  | .number n => n.equal_self
  | .string s => beq_self_eq_true s
  | .array xs => equalItems_self xs
  | .object ms => equalMembers_self ms

theorem equalItems_self : ∀ xs : List Json, equalItems xs xs
  | [] => rfl
  | x :: xs => by rw [equalItems, equal_self x, equalItems_self xs, Bool.and_self]

theorem equalMembers_self : ∀ ms : List (String × Json), equalMembers ms ms
  | [] => rfl
  | (k, x) :: ms => by
    rw [equalMembers, beq_self_eq_true, equal_self x, equalMembers_self ms, Bool.and_self,
      Bool.and_self]

end

theorem isObject_of_equal {a b : Json} (h : a.equal b) : a.isObject = b.isObject := by
  cases a <;> cases b <;> first | rfl | simp [equal] at h

end Json

end SchemaEvolution
