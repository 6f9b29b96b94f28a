import Libtrace.Exec
import Libtrace.BpfSimulation

/-! Whole programs. The compiled function overwrites the stack before its first instruction; when
the blocks of the instructions return for a packet what the interpreter returns. -/

namespace Libtrace.BpfAgreement
open Exec Lockstep BpfProgram BpfJit BpfSimulation

section

variable (packet : Nat → BitVec 8) (len : Word) (prog : Program)

variable {plen : Nat} {blocks : List Block} {s : State} {pc : Nat} {insn : Insn}

theorem build_get {i : Nat} {insns : List Insn} (h : buildFrom plen i insns = .ok blocks) :
    blocks.length = insns.length ∧ ∀ j insn, insns[j]? = some insn →
      ∃ block, blocks[j]? = some block ∧ buildBlock plen (i + j) insn = .ok block := by
  induction insns generalizing i blocks with
  | nil =>
    obtain rfl := Except.ok.inj h
    simp
  | cons insn insns ih =>
    obtain ⟨block, hblock, h⟩ := except_bind_ok.mp h
    obtain ⟨rest, hrest, h⟩ := except_bind_ok.mp h
    obtain rfl := Except.ok.inj h
    obtain ⟨hlength, hget⟩ := ih hrest
    refine ⟨by simp [hlength], fun j insn' hj => ?_⟩
    cases j with
    | zero => exact ⟨block, rfl, by simpa [← Option.some.inj hj] using hblock⟩
    | succ j =>
      obtain ⟨block', hblock', hbuild⟩ := hget j insn' (by simpa using hj)
      exact ⟨block', by simpa using hblock', by rwa [show i + (j + 1) = i + 1 + j by omega]⟩

theorem buildBlock_iff (plen i : Nat) (insn : Insn) :
    (∃ block, buildBlock plen i insn = .ok block) ↔ Supported insn = true := by
  have no {e : Fault} : ¬ ∃ block : Block, Except.error e = Except.ok block := by simp
  cases insn
  case jmp test src jt jf =>
    cases test <;> cases src
    case jset.x => exact iff_of_false no Bool.false_ne_true
    all_goals exact iff_of_true ⟨_, rfl⟩ rfl
  case alu op src => cases op <;> cases src <;> exact iff_of_true ⟨_, rfl⟩ rfl
  case ldAbs size k => cases size <;> exact iff_of_true ⟨_, rfl⟩ rfl
  case ldInd size k => cases size <;> exact iff_of_true ⟨_, rfl⟩ rfl
  all_goals
    first
      | exact iff_of_true ⟨_, rfl⟩ rfl
      | exact iff_of_false no Bool.false_ne_true

theorem build_iff (plen i : Nat) (insns : List Insn) :
    (∃ blocks, buildFrom plen i insns = .ok blocks) ↔ ∀ insn ∈ insns, Supported insn = true := by
  induction insns generalizing i with
  | nil => exact iff_of_true ⟨_, rfl⟩ (by simp)
  | cons insn insns ih =>
    rw [List.forall_mem_cons, ← buildBlock_iff plen i, ← ih (i + 1)]
    constructor
    · rintro ⟨blocks, h⟩
      obtain ⟨block, hblock, h⟩ := except_bind_ok.mp h
      obtain ⟨rest, hrest, -⟩ := except_bind_ok.mp h
      exact ⟨⟨block, hblock⟩, rest, hrest⟩
    · rintro ⟨⟨block, hblock⟩, rest, hrest⟩
      exact ⟨block :: rest,
        except_bind_ok.mpr ⟨block, hblock, except_bind_ok.mpr ⟨rest, hrest, rfl⟩⟩⟩

theorem blockStep_halt {r : Outcome} (h : blockStep blocks pc s = .halt r) : r ≠ .ok goOn := by
  unfold blockStep at h
  cases hblock : blocks[pc]? with
  | none =>
    rw [hblock] at h
    simp [← Move.halt.inj h]
  | some block =>
    rw [hblock] at h
    cases block with
    | branch cmp t f => cases h
    | call opcode k next =>
      simp only [runBlock] at h
      cases hcall : opcode k s with
      | error e =>
        rw [hcall] at h
        simp [← Move.halt.inj h]
      | ok p =>
        rw [hcall] at h
        by_cases hret : p.2 ≠ goOn
        · simp only [if_pos hret] at h
          rw [← Move.halt.inj h]
          exact fun heq => hret (Except.ok.inj heq)
        · simp only [if_neg hret] at h
          cases next with
          | some block => cases h
          | none =>
            rw [← Move.halt.inj h]
            exact fun heq => absurd (Except.ok.inj heq) (by decide)

theorem run_ne_goOn {fuel : Nat} :
    run (blockStep blocks) fuel pc s ≠ some (.ok goOn) := fun h =>
  run_result (fun _ => True) (Q := (· ≠ .ok goOn)) (fun _ _ _ _ _ _ => trivial)
    (fun _ _ _ _ => blockStep_halt) trivial h rfl

theorem call_error {opcode : Opcode} {k : BitVec 64} {next : Option Nat} {e : Fault}
    (h : opcode k s = .error e) : runBlock s (.call opcode k next) = .halt (.error e) := by
  simp only [runBlock, h]

theorem block_unclean {s : Machine} {block : Block} (hblock : buildBlock plen pc insn = .ok block)
    (h : ¬ clean s insn) :
    exec packet len pc s insn = .halt (.ok goOn) ∨
      runBlock (image packet len s) block = .halt (.error .undefined) := by
  cases insn
  case retK k =>
    left
    rw [exec, not_not.mp h]
  case retA =>
    left
    rw [exec, not_not.mp h]
  case alu op src =>
    right
    cases op
    case div =>
      cases src with
      | k k => exact absurd trivial h
      | x =>
        obtain rfl := Except.ok.inj hblock
        exact call_error (if_pos (not_not.mp h))
    case lsh =>
      cases src <;> obtain rfl := Except.ok.inj hblock <;> refine call_error (if_neg ?_)
      · exact fun hlt => h (lt_of_eq_of_lt (toNat_widen _).symm hlt)
      · exact h
    case rsh =>
      cases src <;> obtain rfl := Except.ok.inj hblock <;> refine call_error (if_neg ?_)
      · exact fun hlt => h (lt_of_eq_of_lt (toNat_widen _).symm hlt)
      · exact h
    all_goals exact absurd trivial h
  all_goals exact absurd trivial h

def Agrees : Prop :=
  ∃ v, bpfFilter packet len prog = some (.ok v) ∧
    ∃ blocks, buildBpfProgram prog.insns = .ok blocks ∧ bpfRun blocks packet len = some (.ok v)

/-- The same of the blocks of the instructions, from a cleared state on. -/
def BlocksAgree : Prop :=
  ∃ v, bpfFilter packet len prog = some (.ok v) ∧
    ∃ blocks, buildBpfProgram prog.insns = .ok blocks ∧
      runBlocks blocks (cleared packet len) = some (.ok v)

/-- `P` holds of every instruction that the interpreter executes on the packet. -/
def Throughout (P : Machine → Insn → Prop) : Prop :=
  Along (At prog.insns P) (filterStep packet len prog.insns) prog.insns.length 0 .init

theorem blockStep_eq (h : buildBpfProgram prog.insns = .ok blocks)
    (hinsn : prog.insns[pc]? = some insn) :
    ∃ block, buildBlock prog.insns.length pc insn = .ok block ∧
      ∀ s, blockStep blocks pc s = runBlock s block := by
  obtain ⟨block, hget, hbuild⟩ := (build_get h).2 pc insn hinsn
  refine ⟨block, by simpa using hbuild, fun s => ?_⟩
  rw [blockStep, hget]

theorem run_agrees_iff (h : buildBpfProgram prog.insns = .ok blocks)
    (hright : Throughout packet len prog jsetRight) :
    bpfFilter packet len prog = runBlocks blocks (cleared packet len) ↔
      Throughout packet len prog clean := by
  unfold bpfFilter runBlocks
  rw [(build_get h).1]
  refine run_eq_iff (R := Same packet len prog.insns.length) ?_ ?_ hright
    ⟨insns_pos prog, rfl⟩
  · rintro pc s t ⟨hpc, rfl⟩ hP hQ
    obtain ⟨insn, hinsn, hstep⟩ := filterStep_of_lt packet len hpc s
    obtain ⟨block, hbuild, hblock⟩ := blockStep_eq prog h hinsn
    rw [hstep, hblock]
    exact block_alike packet len prog hinsn hbuild (hP insn hinsn) (hQ insn hinsn)
  · rintro fuel pc s t ⟨hpc, rfl⟩ - hQ heq
    obtain ⟨insn, hinsn, hstep⟩ := filterStep_of_lt packet len hpc s
    obtain ⟨block, hbuild, hblock⟩ := blockStep_eq prog h hinsn
    have hunclean : ¬ clean s insn := fun hc => hQ fun insn' hinsn' => by
      rw [hinsn, Option.some.injEq] at hinsn'
      exact hinsn' ▸ hc
    obtain hexec | hrun := block_unclean packet len hbuild hunclean
    · rw [run, hstep, hexec] at heq
      exact run_ne_goOn heq.symm
    · have hfault : run (filterStep packet len prog.insns) (fuel + 1) pc s =
          some (.error .undefined) := by
        rw [heq, run, hblock, hrun]
      obtain ⟨v, hv⟩ := filter_value hpc hfault
      cases hv

/-- On a packet on which every test for common bits goes right, the blocks agree with the
interpreter exactly if all instructions are supported and all that are executed are clean. -/
theorem blocksAgree_iff (hright : Throughout packet len prog jsetRight) :
    BlocksAgree packet len prog ↔
      (∀ insn ∈ prog.insns, Supported insn = true) ∧ Throughout packet len prog clean := by
  obtain ⟨v, hv⟩ := bpfFilter_returns packet len prog
  rw [← build_iff prog.insns.length 0]
  constructor
  · rintro ⟨w, hw, blocks, hblocks, hrun⟩
    exact ⟨⟨blocks, hblocks⟩,
      (run_agrees_iff packet len prog hblocks hright).mp (hw.trans hrun.symm)⟩
  · rintro ⟨⟨blocks, hblocks⟩, hclean⟩
    have heq := (run_agrees_iff packet len prog hblocks hright).mpr hclean
    exact ⟨v, hv, blocks, hblocks, heq ▸ hv⟩

theorem bpfRun_overruns (blocks : List Block) :
    bpfRun blocks packet len = some (.error .overrun) := rfl

/-- The compiled function does not agree with the interpreter on any packet. -/
theorem agrees_never :
    ¬ Agrees packet len prog ∧
      (Throughout packet len prog jsetRight →
        (BlocksAgree packet len prog ↔
          (∀ insn ∈ prog.insns, Supported insn = true) ∧ Throughout packet len prog clean)) := by
  refine ⟨?_, blocksAgree_iff packet len prog⟩
  rintro ⟨v, -, blocks, -, hrun⟩
  rw [bpfRun_overruns] at hrun
  cases hrun

end

theorem throughout_of_forall (packet : Nat → BitVec 8) (len : Word) {prog : Program}
    {P : Machine → Insn → Prop} (h : ∀ insn ∈ prog.insns, ∀ s, P s insn) :
    Throughout packet len prog P :=
  along_of_forall (fun _ s insn hinsn => h insn (List.mem_of_getElem? hinsn) s) _ _ _

def sampleProgram : Program where
  insns := [.ldAbs .h 12, .jmp .jeq (.k 0x8035) 0 3, .ldAbs .h 20, .jmp .jeq (.k 6) 0 1,
    .retK 42, .retK 0]
  valid := by
    rintro (_ | _ | _ | _ | _ | _ | i) insn h <;> simp at h <;> subst h <;> decide
  last := ⟨.retK 0, rfl, rfl⟩

theorem sampleProgram_blocks :
    ¬ Agrees (fun _ => 0) 60 sampleProgram ∧ BlocksAgree (fun _ => 0) 60 sampleProgram := by
  have h42 : (42 : Word) ≠ goOn := by decide
  have h0 : (0 : Word) ≠ goOn := by decide
  obtain ⟨hnever, hblocks⟩ := agrees_never (fun _ => 0) 60 sampleProgram
  refine ⟨hnever, (hblocks (throughout_of_forall _ _ fun insn hinsn s => ?_)).mpr
    ⟨by decide, throughout_of_forall _ _ fun insn hinsn s => ?_⟩⟩
  all_goals
    simp only [sampleProgram, List.mem_cons, List.not_mem_nil, or_false] at hinsn
    obtain rfl | rfl | rfl | rfl | rfl | rfl := hinsn <;> first | exact trivial | assumption

def fragmentProgram : Program where
  insns := [.ldAbs .h 20, .jmp .jset (.k 0x1fff) 0 1, .retK 0, .retK 65535]
  valid := by
    rintro (_ | _ | _ | _ | i) insn h <;> simp at h <;> subst h <;> decide
  last := ⟨.retK 65535, rfl, rfl⟩

/-- A packet with no fragment offset and no flags is accepted by the interpreter. The compiled
function overwrites the stack, and its blocks alone would reject the packet. -/
theorem fragmentProgram_differs :
    bpfFilter (fun _ => 0) 60 fragmentProgram = some (.ok 65535) ∧
      (buildBpfProgram fragmentProgram.insns).map (bpfRun · (fun _ => 0) 60) =
        .ok (some (.error .overrun)) ∧
      (buildBpfProgram fragmentProgram.insns).map (runBlocks · (cleared (fun _ => 0) 60)) =
        .ok (some (.ok 0)) :=
  ⟨rfl, rfl, rfl⟩

end Libtrace.BpfAgreement
