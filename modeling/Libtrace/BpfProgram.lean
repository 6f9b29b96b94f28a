import Libtrace.Lockstep
import Mathlib.Data.List.Basic

/-! Classic BPF: the instructions, `bpf_validate`, and the standard interpreter `bpf_filter`, for a
packet that is captured in full. -/

namespace Libtrace.BpfProgram
open Lockstep

abbrev Word := BitVec 32

inductive Size where
  | w
  | h
  | b
  deriving DecidableEq, Repr

inductive AluOp where
  | add
  | sub
  | mul
  | div
  | and
  | or
  | lsh
  | rsh
  deriving DecidableEq, Repr

inductive Src where
  | k (k : Word)
  | x
  deriving DecidableEq, Repr

inductive Test where
  | jeq
  | jgt
  | jge
  | jset
  deriving DecidableEq, Repr

inductive Insn where
  | ldAbs (size : Size) (k : Word)
  | ldInd (size : Size) (k : Word)
  | ldImm (k : Word)
  | ldMem (k : Word)
  | ldLen
  | ldxImm (k : Word)
  | ldxMem (k : Word)
  | ldxLen
  | ldxMsh (k : Word)
  | st (k : Word)
  | stx (k : Word)
  | alu (op : AluOp) (src : Src)
  | neg
  | ja (k : Word)
  | jmp (test : Test) (src : Src) (jt jf : BitVec 8)
  | retK (k : Word)
  | retA
  | tax
  | txa
  deriving DecidableEq, Repr

def memWords : Nat := 16

def Insn.valid (len i : Nat) : Insn → Bool
  | .ldMem k | .ldxMem k | .st k | .stx k => k.toNat < memWords
  | .alu .div (.k k) => k ≠ 0
  | .ja k => i + 1 + k.toNat < len
  | .jmp _ _ jt jf => i + 1 + jt.toNat < len && i + 1 + jf.toNat < len
  | _ => true

def Insn.isRet : Insn → Bool
  | .retK _ | .retA => true
  | _ => false

structure Program where
  insns : List Insn
  valid : ∀ i (insn : Insn), insns[i]? = some insn → insn.valid insns.length i = true
  last : ∃ insn : Insn, insns.getLast? = some insn ∧ insn.isRet = true

inductive Fault where
  /-- The behaviour of C or of LLVM is undefined. -/
  | undefined
  /-- A write behind the end of a variable on the stack. -/
  | overrun
  | abort
  | nullFunction
  deriving DecidableEq, Repr

abbrev Outcome := Except Fault Word

structure Machine where
  a : Word
  x : Word
  mem : Nat → Word

def Machine.init : Machine := ⟨0, 0, fun _ => 0⟩

def Size.bytes : Size → Nat
  | .w => 4
  | .h => 2
  | .b => 1

def extract (size : Size) (p : Nat → BitVec 8) (i : Nat) : Word :=
  match size with
  | .w => p i ++ p (i + 1) ++ p (i + 2) ++ p (i + 3)
  | .h => (p i ++ p (i + 1)).setWidth 32
  | .b => (p i).setWidth 32

def Src.value (s : Machine) : Src → Word
  | .k c => c
  | .x => s.x

def AluOp.apply (a b : Word) : AluOp → Option Word
  | .add => some (a + b)
  | .sub => some (a - b)
  | .mul => some (a * b)
  | .div => if b = 0 then none else some (a / b)
  | .and => some (a &&& b)
  | .or => some (a ||| b)
  | .lsh => some (a <<< b.toNat)
  | .rsh => some (a >>> b.toNat)

def Test.holds (a b : Word) : Test → Bool
  | .jeq => a == b
  | .jgt => b.toNat < a.toNat
  | .jge => b.toNat ≤ a.toNat
  | .jset => a &&& b != 0

section

variable (packet : Nat → BitVec 8) (len : Word)

def loadOr (bytes i : Nat) (next : Move Machine Outcome) : Move Machine Outcome :=
  if len.toNat < i + bytes then .halt (.ok 0) else next

def exec (pc : Nat) (s : Machine) : Insn → Move Machine Outcome
  | .ldAbs size k =>
    loadOr len size.bytes k.toNat
      (.goto (pc + 1) { s with a := extract size packet k.toNat })
  | .ldInd size k =>
    loadOr len size.bytes (s.x.toNat + k.toNat)
      (.goto (pc + 1) { s with a := extract size packet (s.x.toNat + k.toNat) })
  | .ldImm k => .goto (pc + 1) { s with a := k }
  | .ldMem k => .goto (pc + 1) { s with a := s.mem k.toNat }
  | .ldLen => .goto (pc + 1) { s with a := len }
  | .ldxImm k => .goto (pc + 1) { s with x := k }
  | .ldxMem k => .goto (pc + 1) { s with x := s.mem k.toNat }
  | .ldxLen => .goto (pc + 1) { s with x := len }
  | .ldxMsh k =>
    loadOr len 1 k.toNat
      (.goto (pc + 1) { s with x := (extract .b packet k.toNat &&& 0x0f) <<< 2 })
  | .st k => .goto (pc + 1) { s with mem := Function.update s.mem k.toNat s.a }
  | .stx k => .goto (pc + 1) { s with mem := Function.update s.mem k.toNat s.x }
  | .alu op src =>
    match op.apply s.a (src.value s) with
    | some a => .goto (pc + 1) { s with a }
    | none => .halt (.ok 0)
  | .neg => .goto (pc + 1) { s with a := -s.a }
  | .ja k => .goto (pc + 1 + k.toNat) s
  | .jmp test src jt jf =>
    .goto (pc + 1 + if test.holds s.a (src.value s) then jt.toNat else jf.toNat) s
  | .retK k => .halt (.ok k)
  | .retA => .halt (.ok s.a)
  | .tax => .goto (pc + 1) { s with x := s.a }
  | .txa => .goto (pc + 1) { s with a := s.x }

def filterStep (insns : List Insn) (pc : Nat) (s : Machine) : Move Machine Outcome :=
  match insns[pc]? with
  | some insn => exec packet len pc s insn
  | none => .halt (.error .undefined)

/-- `bpf_filter`. Jumps go forward, so there are no more steps than instructions. -/
def bpfFilter (prog : Program) : Option Outcome :=
  run (filterStep packet len prog.insns) prog.insns.length 0 .init

end

variable {prog : Program} {pc : Nat} {insn : Insn} {len : Word} {s : Machine} {r : Outcome}
  {packet : Nat → BitVec 8} {pc' : Nat} {s' : Machine}

theorem not_last (h : prog.insns[pc]? = some insn) (hret : insn.isRet = false) :
    pc + 1 < prog.insns.length := by
  obtain ⟨last, hlast, hisRet⟩ := prog.last
  have hpc := (List.getElem?_eq_some_iff.mp h).1
  by_contra hge
  rw [List.getLast?_eq_getElem?, show prog.insns.length - 1 = pc by omega, h,
    Option.some.injEq] at hlast
  rw [hlast, hisRet] at hret
  cases hret

theorem loadOr_goto {bytes i : Nat} {next : Move Machine Outcome}
    (h : loadOr len bytes i next = .goto pc s) : next = .goto pc s := by
  unfold loadOr at h
  split_ifs at h
  exact h

theorem loadOr_halt {bytes i : Nat} (h : loadOr len bytes i (.goto pc s) = .halt r) :
    r = .ok 0 := by
  unfold loadOr at h
  split_ifs at h
  exact (Move.halt.inj h).symm

theorem exec_next (h : exec packet len pc s insn = .goto pc' s') :
    pc' = pc + 1 ∧ insn.isRet = false ∨ (∃ k, insn = .ja k ∧ pc' = pc + 1 + k.toNat) ∨
      ∃ test src jt jf, insn = .jmp test src jt jf ∧
        (pc' = pc + 1 + jt.toNat ∨ pc' = pc + 1 + jf.toNat) := by
  cases insn
  case ja k => exact .inr (.inl ⟨k, rfl, (Move.goto.inj h).1.symm⟩)
  case jmp test src jt jf =>
    refine .inr (.inr ⟨test, src, jt, jf, rfl, ?_⟩)
    rw [← (Move.goto.inj h).1]
    split_ifs
    · exact .inl rfl
    · exact .inr rfl
  case alu op src =>
    simp only [exec] at h
    cases hval : op.apply s.a (src.value s) with
    | none =>
      rw [hval] at h
      cases h
    | some a =>
      rw [hval] at h
      exact .inl ⟨(Move.goto.inj h).1.symm, rfl⟩
  case retK => cases h
  case retA => cases h
  case ldAbs => exact .inl ⟨(Move.goto.inj (loadOr_goto h)).1.symm, rfl⟩
  case ldInd => exact .inl ⟨(Move.goto.inj (loadOr_goto h)).1.symm, rfl⟩
  case ldxMsh => exact .inl ⟨(Move.goto.inj (loadOr_goto h)).1.symm, rfl⟩
  all_goals exact .inl ⟨(Move.goto.inj h).1.symm, rfl⟩

theorem exec_halt (h : exec packet len pc s insn = .halt r) : ∃ v, r = .ok v := by
  cases insn
  case alu op src =>
    simp only [exec] at h
    cases hval : op.apply s.a (src.value s) with
    | none =>
      rw [hval] at h
      exact ⟨0, (Move.halt.inj h).symm⟩
    | some a =>
      rw [hval] at h
      cases h
  case retK k => exact ⟨k, (Move.halt.inj h).symm⟩
  case retA => exact ⟨s.a, (Move.halt.inj h).symm⟩
  case ldAbs => exact ⟨0, loadOr_halt h⟩
  case ldInd => exact ⟨0, loadOr_halt h⟩
  case ldxMsh => exact ⟨0, loadOr_halt h⟩
  all_goals cases h

theorem exec_goto (h : prog.insns[pc]? = some insn)
    (hgoto : exec packet len pc s insn = .goto pc' s') : pc < pc' ∧ pc' < prog.insns.length := by
  have hvalid := prog.valid pc insn h
  obtain ⟨rfl, hret⟩ | ⟨k, rfl, rfl⟩ | ⟨test, src, jt, jf, rfl, rfl | rfl⟩ := exec_next hgoto
  · exact ⟨by omega, not_last h hret⟩
  · simp only [Insn.valid, decide_eq_true_eq] at hvalid
    exact ⟨by omega, hvalid⟩
  · simp only [Insn.valid, Bool.and_eq_true, decide_eq_true_eq] at hvalid
    exact ⟨by omega, hvalid.1⟩
  · simp only [Insn.valid, Bool.and_eq_true, decide_eq_true_eq] at hvalid
    exact ⟨by omega, hvalid.2⟩

theorem filterStep_of_lt (packet : Nat → BitVec 8) (len : Word) (h : pc < prog.insns.length)
    (s : Machine) :
    ∃ insn, prog.insns[pc]? = some insn ∧
      filterStep packet len prog.insns pc s = exec packet len pc s insn := by
  refine ⟨prog.insns[pc], List.getElem?_eq_getElem h, ?_⟩
  rw [filterStep, List.getElem?_eq_getElem h]

theorem filterStep_goto (hpc : pc < prog.insns.length)
    (h : filterStep packet len prog.insns pc s = .goto pc' s') :
    pc < pc' ∧ pc' < prog.insns.length := by
  obtain ⟨insn, hinsn, heq⟩ := filterStep_of_lt packet len hpc s
  exact exec_goto hinsn (heq.symm.trans h)

theorem filter_value {fuel : Nat} (hpc : pc < prog.insns.length)
    (h : run (filterStep packet len prog.insns) fuel pc s = some r) : ∃ v, r = .ok v := by
  refine run_result (· < prog.insns.length) (Q := fun r => ∃ v, r = .ok v) ?_ ?_ hpc h
  · exact fun pc s pc' s' hpc hgoto => (filterStep_goto hpc hgoto).2
  · intro pc s r hpc hhalt
    obtain ⟨insn, -, heq⟩ := filterStep_of_lt packet len hpc s
    exact exec_halt (heq.symm.trans hhalt)

theorem insns_pos (prog : Program) : 0 < prog.insns.length := by
  obtain ⟨insn, hlast, -⟩ := prog.last
  cases h : prog.insns with
  | nil => simp [h] at hlast
  | cons insn insns => simp

theorem bpfFilter_returns (packet : Nat → BitVec 8) (len : Word) (prog : Program) :
    ∃ v, bpfFilter packet len prog = some (.ok v) := by
  have hpos := insns_pos prog
  obtain ⟨r, hr⟩ : ∃ r, bpfFilter packet len prog = some r :=
    run_returns (fun pc s pc' s' => filterStep_goto) prog.insns.length .init hpos (by omega)
  obtain ⟨v, rfl⟩ := filter_value hpos hr
  exact ⟨v, hr⟩

end Libtrace.BpfProgram
