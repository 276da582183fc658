/-
Programs that act on a world they do not own: each is an answer, or an
operation and what to do with the operation's answer. The same program is
run to its end by one interpreter and step by step, between the steps of
others, by another (`Interleave`).

`Follows` is the one proof rule for such a program: a protocol says which
operations are allowed in which ghost state and where an answer leads, and a
program follows it along every path of answers.
-/
import Mathlib.Logic.Basic

namespace Resumption

/-- A program over the operations `Op`, where `o` is answered by an `Ans o`. -/
inductive Prog {Op : Type} (Ans : Op → Type) (α : Type) : Type
  | ret (a : α)
  | op (o : Op) (k : Ans o → Prog Ans α)

namespace Prog

variable {Op : Type} {Ans : Op → Type} {α β γ ε : Type}

def bind : Prog Ans α → (α → Prog Ans β) → Prog Ans β
  | .ret a, f => f a
  | .op o k, f => .op o fun r => (k r).bind f

instance : Monad (Prog Ans) where
  pure := .ret
  bind := bind

/-- The program that only performs `o`. -/
def perform (o : Op) : Prog Ans (Ans o) := .op o .ret

@[simp] theorem pure_eq (a : α) : (pure a : Prog Ans α) = .ret a := rfl
@[simp] theorem ret_bind (a : α) (f : α → Prog Ans β) : (Prog.ret a >>= f) = f a := rfl
@[simp] theorem op_bind (o : Op) (k : Ans o → Prog Ans α) (f : α → Prog Ans β) :
    (Prog.op o k >>= f) = .op o fun r => k r >>= f := rfl
@[simp] theorem perform_bind (o : Op) (f : Ans o → Prog Ans β) : (perform o >>= f) = .op o f := rfl

theorem bind_ret (p : Prog Ans α) : (p >>= Prog.ret) = p := by
  induction p with
  | ret a => rfl
  | op o k ih => simp only [op_bind, ih]

theorem bind_assoc (p : Prog Ans α) (f : α → Prog Ans β) (g : β → Prog Ans γ) :
    (p >>= f >>= g) = (p >>= fun a => f a >>= g) := by
  induction p with
  | ret a => rfl
  | op o k ih => simp only [op_bind, ih]

instance : LawfulMonad (Prog Ans) := LawfulMonad.mk' _ bind_ret (fun _ _ => rfl) bind_assoc

end Prog

/-! ## Protocols -/

/-- Which operations a ghost state allows, and which ghost states may follow
an operation's answer. -/
structure Protocol {Op : Type} (Ans : Op → Type) (σ : Type) where
  may : σ → Op → Prop
  next : σ → (o : Op) → Ans o → σ → Prop

/-- The protocol of a client that is told something of each answer. -/
def Protocol.told {Op : Type} {Ans : Op → Type} {σ : Type} (P : Protocol Ans σ) (tells : (o : Op) → Ans o → Prop) :
    Protocol Ans σ where
  may := P.may
  next s o r t := P.next s o r t ∧ tells o r

namespace Prog

variable {Op : Type} {Ans : Op → Type} {α β ε σ : Type} {P : Protocol Ans σ}

/-- From ghost state `s`, every operation on every path is allowed, and
every return satisfies `Q`. -/
def Follows (P : Protocol Ans σ) (Q : σ → α → Prop) : σ → Prog Ans α → Prop
  | s, .ret a => Q s a
  | s, .op o k => P.may s o ∧ ∀ r t, P.next s o r t → Follows P Q t (k r)

theorem Follows.mono {Q R : σ → α → Prop} {p : Prog Ans α} {s : σ} (h : p.Follows P Q s)
    (hQR : ∀ t a, Q t a → R t a) : p.Follows P R s := by
  induction p generalizing s with
  | ret a => exact hQR s a h
  | op o k ih => exact ⟨h.1, fun r t hn => ih r (h.2 r t hn)⟩

theorem Follows.bind {Q : σ → α → Prop} {R : σ → β → Prop} {p : Prog Ans α} {f : α → Prog Ans β} {s : σ}
    (h : p.Follows P Q s) (hf : ∀ t a, Q t a → (f a).Follows P R t) : (p >>= f).Follows P R s := by
  induction p generalizing s with
  | ret a => exact hf s a h
  | op o k ih => exact ⟨h.1, fun r t hn => ih r (h.2 r t hn)⟩

/-- What the answers tell need not be used. -/
theorem Follows.told {Q : σ → α → Prop} {tells : (o : Op) → Ans o → Prop} {p : Prog Ans α} {s : σ} (h : p.Follows P Q s) :
    p.Follows (P.told tells) Q s := by
  induction p generalizing s with
  | ret a => exact h
  | op o k ih => exact ⟨h.1, fun r t hn => ih r (h.2 r t hn.1)⟩

/-- Sequencing of programs that may fail: what follows runs on a value, an
error is passed on. -/
theorem Follows.bindE {Q : σ → Except ε α → Prop} {R : σ → Except ε β → Prop}
    {p : ExceptT ε (Prog Ans) α} {f : α → ExceptT ε (Prog Ans) β} {s : σ}
    (h : Follows P Q s p.run) (hok : ∀ t a, Q t (.ok a) → Follows P R t (f a).run)
    (herr : ∀ t e, Q t (.error e) → R t (.error e)) : Follows P R s (p >>= f).run := by
  refine Follows.bind h fun t r hr => ?_
  cases r with
  | ok a => exact hok t a hr
  | error e => exact herr t e hr

end Prog
end Resumption
