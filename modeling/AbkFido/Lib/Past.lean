/-
What a log says about its past.

A log has its newest entry first, so the tail of a list is what had happened
when its head was logged. `Always P` says that `P` held of every entry and
its past, and `Since A B` that some entry and its past met `A` and every
newer entry met `B`.
-/
import Mathlib.Data.List.Basic

namespace Past

variable {α : Type}

def Always (P : α → List α → Prop) : List α → Prop
  | [] => True
  | x :: past => P x past ∧ Always P past

def Since (A : α → List α → Prop) (B : α → Prop) : List α → Prop
  | [] => False
  | x :: past => A x past ∨ (B x ∧ Since A B past)

@[simp] theorem always_nil (P : α → List α → Prop) : Always P [] := trivial

@[simp] theorem always_cons {P : α → List α → Prop} {x : α} {past : List α} :
    Always P (x :: past) ↔ P x past ∧ Always P past := Iff.rfl

/-- Where in the log does not matter. -/
theorem Always.of_append {P : α → List α → Prop} {x : α} {past : List α} :
    ∀ {newer : List α}, Always P (newer ++ x :: past) → P x past
  | [], h => h.1
  | _ :: _, h => of_append h.2

@[simp] theorem not_since_nil (A : α → List α → Prop) (B : α → Prop) : ¬ Since A B [] := id

@[simp] theorem since_cons {A : α → List α → Prop} {B : α → Prop} {x : α} {past : List α} :
    Since A B (x :: past) ↔ A x past ∨ (B x ∧ Since A B past) := Iff.rfl

theorem Since.append {A : α → List α → Prop} {B : α → Prop} {past : List α} (h : Since A B past) :
    ∀ {newer : List α}, (∀ x ∈ newer, B x) → Since A B (newer ++ past)
  | [], _ => h
  | x :: newer, hB => .inr ⟨hB x (by simp), h.append fun y hy => hB y (by simp [hy])⟩

theorem Since.imp {A A' : α → List α → Prop} {B B' : α → Prop} (hA : ∀ x past, A x past → A' x past)
    (hB : ∀ x, B x → B' x) : ∀ {l : List α}, Since A B l → Since A' B' l
  | _ :: _, .inl h => .inl (hA _ _ h)
  | _ :: _, .inr ⟨hx, h⟩ => .inr ⟨hB _ hx, h.imp hA hB⟩

end Past
