import Mathlib.Logic.Basic

/-! Programs that make requests of a system they share: a tree with a request at each node and a
branch for each answer. A contract says what a program must have to make a request and what it has
then; `Safe` is the weakest precondition under a contract. -/

namespace Libtrace.Requests

inductive Task {Ω : Type} (Ans : Ω → Type) (ρ : Type) where
  | ret (r : ρ)
  | ask (op : Ω) (k : Ans op → Task Ans ρ)

variable {Ω : Type} {Ans : Ω → Type} {ρ ρ' η : Type}

def Task.bind (task : Task Ans ρ) (f : ρ → Task Ans ρ') : Task Ans ρ' :=
  match task with
  | .ret r => f r
  | .ask op k => .ask op fun ans => (k ans).bind f

instance : Monad (Task Ans) where
  pure := Task.ret
  bind := Task.bind

def request (op : Ω) : Task Ans (Ans op) := .ask op .ret

structure Contract (Ans : Ω → Type) (η : Type) where
  before : Ω → η → Prop
  legal : (op : Ω) → Ans op → Prop
  after : (op : Ω) → η → Ans op → η

/-- Every request of the program may be made, and with legal answers it ends with `Q`. -/
def Safe (C : Contract Ans η) (Q : ρ → η → Prop) : Task Ans ρ → η → Prop
  | .ret r, h => Q r h
  | .ask op k, h => C.before op h ∧ ∀ ans, C.legal op ans → Safe C Q (k ans) (C.after op h ans)

variable {C : Contract Ans η} {h : η}

theorem safe_pure {Q : ρ → η → Prop} {r : ρ} (hr : Q r h) : Safe C Q (pure r) h := hr

variable {task : Task Ans ρ} {f : ρ → Task Ans ρ'}

theorem safe_bind {Q : ρ' → η → Prop} (ht : Safe C (fun r h => Safe C Q (f r) h) task h) :
    Safe C Q (task >>= f) h := by
  induction task generalizing h with
  | ret r => exact ht
  | ask op k ih => exact ⟨ht.1, fun ans hans => ih ans (ht.2 ans hans)⟩

theorem safe_mono {Q Q' : ρ → η → Prop} (ht : Safe C Q task h) (hQ : ∀ r h, Q r h → Q' r h) :
    Safe C Q' task h := by
  induction task generalizing h with
  | ret r => exact hQ r h ht
  | ask op k ih => exact ⟨ht.1, fun ans hans => ih ans (ht.2 ans hans)⟩

theorem safe_request {op : Ω} {Q : Ans op → η → Prop} (hbefore : C.before op h)
    (hafter : ∀ ans, C.legal op ans → Q ans (C.after op h ans)) : Safe C Q (request op) h :=
  ⟨hbefore, hafter⟩

theorem safe_seq {P : ρ → η → Prop} {Q : ρ' → η → Prop} (ht : Safe C P task h)
    (hf : ∀ r h, P r h → Safe C Q (f r) h) : Safe C Q (task >>= f) h :=
  safe_bind (safe_mono ht hf)

/-- Whatever the answers are, the program ends with `P` if it ends. -/
def Always (P : ρ → Prop) : Task Ans ρ → Prop
  | .ret r => P r
  | .ask _ k => ∀ ans, Always P (k ans)

theorem always_bind {P : ρ' → Prop} (task : Task Ans ρ) (hf : ∀ r, Always P (f r)) :
    Always P (task >>= f) := by
  induction task with
  | ret r => exact hf r
  | ask op k ih => exact ih

end Libtrace.Requests
