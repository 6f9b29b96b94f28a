import Libtrace.BpfJit
import Mathlib.Algebra.Group.Nat.Defs

/-! One instruction, interpreted and compiled. -/

namespace Libtrace.BpfSimulation
open Lockstep BpfProgram BpfJit

def Supported : Insn → Bool
  | .ldImm _ | .ldMem _ | .ldLen | .st _ | .stx _ | .ja _ | .jmp .jset .x _ _ => false
  | _ => true

/-- A test for common bits goes the way that it is compiled to go for an accumulator other than
0. -/
def jsetRight (s : Machine) : Insn → Prop
  | .jmp .jset (.k k) jt jf => jt = jf ∨ s.a ≠ 0 ∧ s.a &&& k = 0
  | _ => True

def clean (s : Machine) : Insn → Prop
  | .retK k => k ≠ goOn
  | .retA => s.a ≠ goOn
  | .alu .div .x => s.x ≠ 0
  | .alu .lsh src => (src.value s).toNat < 32
  | .alu .rsh src => (src.value s).toNat < 32
  | _ => True

def At (insns : List Insn) (P : Machine → Insn → Prop) (pc : Nat) (s : Machine) : Prop :=
  ∀ insn, insns[pc]? = some insn → P s insn

section

variable (packet : Nat → BitVec 8) (len : Word)

def image (s : Machine) : State := ⟨s.a, s.x, packet, len, s.mem⟩

def Same (n pc : Nat) (s : Machine) (t : State) : Prop := pc < n ∧ t = image packet len s

variable {packet len} {n pc : Nat} {s : Machine}

def callBlock (n pc : Nat) (opcode : Opcode) (k : Word) : Block :=
  .call opcode (k.setWidth 64) (if pc + 1 < n then some (pc + 1) else none)

variable {opcode : Opcode} {k : Word} {block : Block}

theorem alike_goOn {s' : Machine} (hpc : pc + 1 < n)
    (h : opcode (k.setWidth 64) (image packet len s) = .ok (image packet len s', goOn)) :
    Alike (Same packet len n) (.goto (pc + 1) s')
      (runBlock (image packet len s) (callBlock n pc opcode k)) := by
  simp only [callBlock, runBlock, h, if_pos hpc, ne_eq, not_true_eq_false, if_false]
  exact ⟨rfl, hpc, rfl⟩

theorem alike_ret {v : Word} {t : State} (hv : v ≠ goOn)
    (h : opcode (k.setWidth 64) (image packet len s) = .ok (t, v)) :
    Alike (Same packet len n) (.halt (.ok v))
      (runBlock (image packet len s) (callBlock n pc opcode k)) := by
  simp only [callBlock, runBlock, h, if_pos hv]
  rfl

theorem alike_load {index : BitVec 64 → State → BitVec 64} (size : Size) {i : Nat}
    (hpc : pc + 1 < n) (hi : (index (k.setWidth 64) (image packet len s)).toNat = i)
    (hlt : i < 2 ^ 33) :
    Alike (Same packet len n)
      (loadOr len size.bytes i (.goto (pc + 1) { s with a := extract size packet i }))
      (runBlock (image packet len s) (callBlock n pc (loadAt size index) k)) := by
  have hbytes : 1 ≤ size.bytes ∧ size.bytes ≤ 4 := by cases size <;> decide
  have hshort : (len.setWidth 64 ≤
      index (k.setWidth 64) (image packet len s) + BitVec.ofNat 64 (size.bytes - 1)) ↔
      len.toNat < i + size.bytes := by
    rw [BitVec.le_def, BitVec.toNat_add, hi]
    simp only [BitVec.toNat_setWidth, BitVec.toNat_ofNat]
    omega
  unfold loadOr
  by_cases h : len.toNat < i + size.bytes
  · rw [if_pos h]
    exact alike_ret (by decide) (if_pos (hshort.mpr h))
  · rw [if_neg h]
    refine alike_goOn hpc ((if_neg (mt hshort.mp h)).trans ?_)
    rw [hi]
    rfl

theorem toNat_widen (k : Word) : (k.setWidth 64).toNat = k.toNat := by
  rw [BitVec.toNat_setWidth, Nat.mod_eq_of_lt (by have := k.isLt; omega)]

theorem mul_four (b : Word) : 4 * b = b <<< 2 := by
  apply BitVec.eq_of_toNat_eq
  simp [BitVec.toNat_shiftLeft, Nat.shiftLeft_eq, Nat.mul_comm]

theorem alike_msh (hpc : pc + 1 < n) :
    Alike (Same packet len n)
      (loadOr len 1 k.toNat
        (.goto (pc + 1) { s with x := (extract .b packet k.toNat &&& 0x0f) <<< 2 }))
      (runBlock (image packet len s) (callBlock n pc bpfLdxMsh k)) := by
  have hshort : (len.setWidth 64 ≤ k.setWidth 64) ↔ len.toNat < k.toNat + 1 := by
    rw [BitVec.le_def]
    simp only [BitVec.toNat_setWidth]
    omega
  unfold loadOr
  by_cases h : len.toNat < k.toNat + 1
  · rw [if_pos h]
    exact alike_ret (by decide) (if_pos (hshort.mpr h))
  · rw [if_neg h]
    refine alike_goOn hpc ((if_neg (mt hshort.mp h)).trans ?_)
    have hk : (k.setWidth 64).toNat = k.toNat := toNat_widen k
    exact congrArg (fun x => Except.ok ((⟨s.a, x, packet, len, s.mem⟩ : State), goOn))
      (mul_four _)

theorem alike_aluK {f : BitVec 64 → BitVec 64 → BitVec 64} {a : Word} (hpc : pc + 1 < n)
    (h : (f (s.a.setWidth 64) (k.setWidth 64)).setWidth 32 = a) :
    Alike (Same packet len n) (.goto (pc + 1) { s with a })
      (runBlock (image packet len s) (callBlock n pc (aluK f) k)) := by
  refine alike_goOn hpc ?_
  rw [← h]
  rfl

theorem narrow (a : Word) : (a.setWidth 64).setWidth 32 = a := by
  rw [BitVec.setWidth_setWidth_of_le a (by decide), BitVec.setWidth_eq]

variable (a b : Word)

theorem narrow_add : (a.setWidth 64 + b.setWidth 64).setWidth 32 = a + b := by
  rw [BitVec.setWidth_add _ _ (by decide), narrow, narrow]

theorem narrow_mul : (a.setWidth 64 * b.setWidth 64).setWidth 32 = a * b := by
  rw [BitVec.setWidth_mul _ _ (by decide), narrow, narrow]

theorem narrow_and : (a.setWidth 64 &&& b.setWidth 64).setWidth 32 = a &&& b := by
  rw [BitVec.setWidth_and, narrow, narrow]

theorem narrow_or : (a.setWidth 64 ||| b.setWidth 64).setWidth 32 = a ||| b := by
  rw [BitVec.setWidth_or, narrow, narrow]

theorem narrow_sub : (a.setWidth 64 - b.setWidth 64).setWidth 32 = a - b := by
  apply BitVec.eq_of_toNat_eq
  simp only [BitVec.toNat_setWidth, BitVec.toNat_sub]
  omega

theorem narrow_udiv : (a.setWidth 64 / b.setWidth 64).setWidth 32 = a / b := by
  apply BitVec.eq_of_toNat_eq
  simp only [BitVec.toNat_setWidth, BitVec.toNat_udiv]
  rw [Nat.mod_eq_of_lt (a := a.toNat) (by omega), Nat.mod_eq_of_lt (a := b.toNat) (by omega)]
  exact Nat.mod_eq_of_lt (Nat.lt_of_le_of_lt (Nat.div_le_self _ _) a.isLt)

theorem alike_shift {f : Word → Nat → Word} {count : Nat} (hpc : pc + 1 < n) (hcount : count < 32)
    (h : opcode (k.setWidth 64) (image packet len s) = shift f count (image packet len s)) :
    Alike (Same packet len n) (.goto (pc + 1) { s with a := f s.a count })
      (runBlock (image packet len s) (callBlock n pc opcode k)) :=
  alike_goOn hpc (h.trans (if_pos hcount))

theorem alike_jump {cmp : Word → Word → Bool} {rhs : State → Word} {jt jf : BitVec 8} {c : Bool}
    (hjt : pc + 1 + jt.toNat < n) (hjf : pc + 1 + jf.toNat < n)
    (h : cmp s.a (rhs (image packet len s)) = c) :
    Alike (Same packet len n) (.goto (pc + 1 + if c then jt.toNat else jf.toNat) s)
      (runBlock (image packet len s) (constructJump cmp rhs pc jt jf)) := by
  subst h
  by_cases hc : cmp s.a (rhs (image packet len s)) = true
  · rw [if_pos hc]
    exact ⟨(if_pos hc).symm, hjt, rfl⟩
  · rw [if_neg hc]
    exact ⟨(if_neg hc).symm, hjf, rfl⟩

theorem exec_div (src : Src) (h : src.value s ≠ 0) :
    exec packet len pc s (.alu .div src) =
      .goto (pc + 1) { s with a := s.a / src.value s } := by
  rw [exec, AluOp.apply, if_neg h]

theorem block_alike_aluK (op : AluOp) (k : Word) (hpc : pc + 1 < n) (hdiv : op = .div → k ≠ 0)
    (hshift : op = .lsh ∨ op = .rsh → k.toNat < 32)
    (h : buildBlock n pc (.alu op (.k k)) = .ok block) :
    Alike (Same packet len n) (exec packet len pc s (.alu op (.k k)))
      (runBlock (image packet len s) block) := by
  cases op <;> obtain rfl := Except.ok.inj h
  case add => exact alike_aluK hpc (narrow_add s.a k)
  case sub => exact alike_aluK hpc (narrow_sub s.a k)
  case mul => exact alike_aluK hpc (narrow_mul s.a k)
  case and => exact alike_aluK hpc (narrow_and s.a k)
  case or => exact alike_aluK hpc (narrow_or s.a k)
  case lsh =>
    exact alike_shift hpc (hshift (.inl rfl)) (congrArg (shift _ · _) (toNat_widen k))
  case rsh =>
    exact alike_shift hpc (hshift (.inr rfl)) (congrArg (shift _ · _) (toNat_widen k))
  case div =>
    have hk : ¬ k.setWidth 64 = 0 := fun h0 =>
      hdiv rfl ((narrow k).symm.trans (congrArg (BitVec.setWidth 32) h0))
    rw [exec_div (.k k) (hdiv rfl)]
    refine alike_goOn hpc ((if_neg hk).trans ?_)
    exact congrArg (fun a => Except.ok ((⟨a, s.x, packet, len, s.mem⟩ : State), goOn))
      (narrow_udiv s.a k)

theorem block_alike_aluX (op : AluOp) (hpc : pc + 1 < n) (hdiv : op = .div → s.x ≠ 0)
    (hshift : op = .lsh ∨ op = .rsh → s.x.toNat < 32)
    (h : buildBlock n pc (.alu op .x) = .ok block) :
    Alike (Same packet len n) (exec packet len pc s (.alu op .x))
      (runBlock (image packet len s) block) := by
  cases op <;> obtain rfl := Except.ok.inj h
  case div =>
    rw [exec_div .x (hdiv rfl)]
    exact alike_goOn hpc (if_neg (hdiv rfl))
  case lsh => exact alike_shift hpc (hshift (.inl rfl)) rfl
  case rsh => exact alike_shift hpc (hshift (.inr rfl)) rfl
  all_goals exact alike_goOn hpc rfl

theorem block_alike_jmp (test : Test) (src : Src) (jt jf : BitVec 8) (hjt : pc + 1 + jt.toNat < n)
    (hjf : pc + 1 + jf.toNat < n)
    (hjset : ∀ k, test = .jset → src = .k k → jt = jf ∨ s.a ≠ 0 ∧ s.a &&& k = 0)
    (h : buildBlock n pc (.jmp test src jt jf) = .ok block) :
    Alike (Same packet len n) (exec packet len pc s (.jmp test src jt jf))
      (runBlock (image packet len s) block) := by
  cases test <;> cases src
  case jset.x => cases h
  case jset.k k =>
    obtain rfl := Except.ok.inj h
    obtain rfl | ⟨ha, hk⟩ := hjset k rfl rfl
    · have hgoto (c : Bool) : (if c then jt.toNat else jt.toNat) = jt.toNat := ite_self _
      refine ⟨?_, ?_, rfl⟩
      · simp only [hgoto, ite_self]
      · rw [hgoto]
        exact hjt
    · refine alike_jump hjt hjf ?_
      simp only [image, Test.holds, Src.value, hk, BitVec.and_self]
      simpa using ha
  all_goals
    obtain rfl := Except.ok.inj h
    exact alike_jump hjt hjf rfl

end

section

variable (packet : Nat → BitVec 8) (len : Word) (prog : Program)

theorem block_alike {pc : Nat} {s : Machine} {insn : Insn} {block : Block}
    (hinsn : prog.insns[pc]? = some insn)
    (hblock : buildBlock prog.insns.length pc insn = .ok block) (hright : jsetRight s insn)
    (hclean : clean s insn) :
    Alike (Same packet len prog.insns.length) (exec packet len pc s insn)
      (runBlock (image packet len s) block) := by
  have hvalid := prog.valid pc insn hinsn
  have hnext : insn.isRet = false → pc + 1 < prog.insns.length := not_last hinsn
  cases insn
  case jmp test src jt jf =>
    simp only [Insn.valid, Bool.and_eq_true, decide_eq_true_eq] at hvalid
    refine block_alike_jmp test src jt jf hvalid.1 hvalid.2 ?_ hblock
    rintro k rfl rfl
    exact hright
  case alu op src =>
    cases src with
    | k k =>
      refine block_alike_aluK op k (hnext rfl) ?_ ?_ hblock
      · rintro rfl
        simpa [Insn.valid] using hvalid
      · rintro (rfl | rfl) <;> exact hclean
    | x =>
      refine block_alike_aluX op (hnext rfl) ?_ ?_ hblock
      · rintro rfl
        exact hclean
      · rintro (rfl | rfl) <;> exact hclean
  case ldAbs size k =>
    have hlt : k.toNat < 2 ^ 33 := by have := k.isLt; omega
    cases size <;> obtain rfl := Except.ok.inj hblock
    · exact alike_load .w (hnext rfl) (toNat_widen k) hlt
    · exact alike_load .h (hnext rfl) (toNat_widen k) hlt
    · exact alike_load .b (hnext rfl) (toNat_widen k) hlt
  case ldInd size k =>
    have hindex : (indexed (k.setWidth 64) (image packet len s)).toNat = s.x.toNat + k.toNat := by
      simp only [indexed, image, BitVec.toNat_add, toNat_widen]
      omega
    have hlt : s.x.toNat + k.toNat < 2 ^ 33 := by
      omega
    cases size <;> obtain rfl := Except.ok.inj hblock
    · exact alike_load .w (hnext rfl) hindex hlt
    · exact alike_load .h (hnext rfl) hindex hlt
    · exact alike_load .b (hnext rfl) hindex hlt
  case ldxMem k =>
    have hk : ¬ memWords ≤ (k.setWidth 64).toNat := by
      rw [toNat_widen]
      simpa [Insn.valid] using hvalid
    obtain rfl := Except.ok.inj hblock
    refine alike_goOn (hnext rfl) ((if_neg hk).trans ?_)
    rfl
  case ldxImm k =>
    obtain rfl := Except.ok.inj hblock
    refine alike_goOn (hnext rfl) ?_
    rw [bpfLdxImm, constant, narrow]
    rfl
  case ldxMsh k =>
    obtain rfl := Except.ok.inj hblock
    exact alike_msh (hnext rfl)
  case retK k =>
    obtain rfl := Except.ok.inj hblock
    refine alike_ret hclean (t := image packet len s) ?_
    rw [bpfRetK, constant, narrow]
  case retA =>
    obtain rfl := Except.ok.inj hblock
    exact alike_ret (t := image packet len s) hclean rfl
  case ldxLen =>
    obtain rfl := Except.ok.inj hblock
    exact alike_goOn (hnext rfl) rfl
  case neg =>
    obtain rfl := Except.ok.inj hblock
    exact alike_goOn (hnext rfl) rfl
  case tax =>
    obtain rfl := Except.ok.inj hblock
    exact alike_goOn (hnext rfl) rfl
  case txa =>
    obtain rfl := Except.ok.inj hblock
    exact alike_goOn (hnext rfl) rfl
  all_goals cases hblock

end

end Libtrace.BpfSimulation
