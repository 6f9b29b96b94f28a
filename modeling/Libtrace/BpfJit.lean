import Libtrace.BpfProgram

/-! The BPF compiler: the functions of `bpf-opcodes.c`, the table of their names, and the blocks of
`build_bpf_program`. A block calls the function of its instruction, which returns `~0U` to go on. -/

namespace Libtrace.BpfJit
open Lockstep BpfProgram

structure State where
  a : Word
  x : Word
  p : Nat → BitVec 8
  len : Word
  mem : Nat → Word

def goOn : Word := BitVec.allOnes 32

/-- `OPCODE(name)`. No function uses `jt` or `jf`; `k` is an `unsigned long`. -/
abbrev Opcode := BitVec 64 → State → Except Fault (State × Word)

def loadAt (size : Size) (index : BitVec 64 → State → BitVec 64) : Opcode := fun k s =>
  if s.len.setWidth 64 ≤ index k s + BitVec.ofNat 64 (size.bytes - 1) then .ok (s, 0)
  else .ok ({ s with a := extract size s.p (index k s).toNat }, goOn)

def absolute (k : BitVec 64) (_ : State) : BitVec 64 := k

def indexed (k : BitVec 64) (s : State) : BitVec 64 := k + s.x.setWidth 64

def bpfLdwAbs : Opcode := loadAt .w absolute

def bpfLdhAbs : Opcode := loadAt .h absolute

def bpfLdbAbs : Opcode := loadAt .b absolute

def bpfLdwInd : Opcode := loadAt .w indexed

def bpfLdhInd : Opcode := loadAt .h indexed

def bpfLdbInd : Opcode := loadAt .b indexed

def bpfLdxImm : Opcode := fun k s => .ok ({ s with x := k.setWidth 32 }, goOn)

def bpfLdxMem : Opcode := fun k s =>
  if memWords ≤ k.toNat then .ok (s, 0) else .ok ({ s with x := s.mem k.toNat }, goOn)

def bpfLdxLen : Opcode := fun _ s => .ok ({ s with x := s.len }, goOn)

def bpfLdxMsh : Opcode := fun k s =>
  if s.len.setWidth 64 ≤ k then .ok (s, 0)
  else .ok ({ s with x := 4 * ((s.p k.toNat).setWidth 32 &&& 0x0f) }, goOn)

def aluK (f : BitVec 64 → BitVec 64 → BitVec 64) : Opcode := fun k s =>
  .ok ({ s with a := (f (s.a.setWidth 64) k).setWidth 32 }, goOn)

def aluX (f : Word → Word → Word) : Opcode := fun _ s => .ok ({ s with a := f s.a s.x }, goOn)

def bpfAluAddK : Opcode := aluK (· + ·)

def bpfAluSubK : Opcode := aluK (· - ·)

def bpfAluMulK : Opcode := aluK (· * ·)

def bpfAluDivK : Opcode := fun k s => if k = 0 then .error .undefined else aluK (· / ·) k s

def bpfAluAndK : Opcode := aluK (· &&& ·)

def bpfAluOrK : Opcode := aluK (· ||| ·)

def shift (f : Word → Nat → Word) (count : Nat) (s : State) : Except Fault (State × Word) :=
  if count < 32 then .ok ({ s with a := f s.a count }, goOn) else .error .undefined

def bpfAluLshK : Opcode := fun k s => shift (· <<< ·) k.toNat s

def bpfAluRshK : Opcode := fun k s => shift (· >>> ·) k.toNat s

def bpfAluNeg : Opcode := fun _ s => .ok ({ s with a := -s.a }, goOn)

def bpfAluAddX : Opcode := aluX (· + ·)

def bpfAluSubX : Opcode := aluX (· - ·)

def bpfAluMulX : Opcode := aluX (· * ·)

def bpfAluDivX : Opcode := fun k s => if s.x = 0 then .error .undefined else aluX (· / ·) k s

def bpfAluAndX : Opcode := aluX (· &&& ·)

def bpfAluOrX : Opcode := aluX (· ||| ·)

def bpfAluLshX : Opcode := fun _ s => shift (· <<< ·) s.x.toNat s

def bpfAluRshX : Opcode := fun _ s => shift (· >>> ·) s.x.toNat s

def bpfRetA : Opcode := fun _ s => .ok (s, s.a)

def bpfRetK : Opcode := fun k s => .ok (s, k.setWidth 32)

def bpfTax : Opcode := fun _ s => .ok ({ s with x := s.a }, goOn)

def bpfTxa : Opcode := fun _ s => .ok ({ s with a := s.x }, goOn)

inductive Name where
  | ldwAbs
  | ldhAbs
  | ldbAbs
  | ldwInd
  | ldhInd
  | ldbInd
  | ldbImm
  | ldbMem
  | ldxImm
  | ldxMem
  | ldxLen
  | ldxMsh
  | st
  | stx
  | alu (op : AluOp) (x : Bool)
  | aluNeg
  | ja
  | retA
  | retK
  | tax
  | txa
  deriving DecidableEq, Repr

/-- `opcode_names` has no entry for `BPF_LD+BPF_W+BPF_LEN`; conditional jumps do not come here. -/
def opcodeNames : Insn → Option Name
  | .ldAbs .w _ => some .ldwAbs
  | .ldAbs .h _ => some .ldhAbs
  | .ldAbs .b _ => some .ldbAbs
  | .ldInd .w _ => some .ldwInd
  | .ldInd .h _ => some .ldhInd
  | .ldInd .b _ => some .ldbInd
  | .ldImm _ => some .ldbImm
  | .ldMem _ => some .ldbMem
  | .ldLen => none
  | .ldxImm _ => some .ldxImm
  | .ldxMem _ => some .ldxMem
  | .ldxLen => some .ldxLen
  | .ldxMsh _ => some .ldxMsh
  | .st _ => some .st
  | .stx _ => some .stx
  | .alu op (.k _) => some (.alu op false)
  | .alu op .x => some (.alu op true)
  | .neg => some .aluNeg
  | .ja _ => some .ja
  | .jmp .. => none
  | .retK _ => some .retK
  | .retA => some .retA
  | .tax => some .tax
  | .txa => some .txa

/-- The function of that name in the compiled module. It has `bpf_ld_imm`, `bpf_ld_mem`, `bpf_sd`
and `bpf_sdx`, but no `bpf_ldb_imm`, `bpf_ldb_mem`, `bpf_st`, `bpf_stx` and `bpf_ja`. -/
def getFunction : Name → Option Opcode
  | .ldwAbs => some bpfLdwAbs
  | .ldhAbs => some bpfLdhAbs
  | .ldbAbs => some bpfLdbAbs
  | .ldwInd => some bpfLdwInd
  | .ldhInd => some bpfLdhInd
  | .ldbInd => some bpfLdbInd
  | .ldbImm => none
  | .ldbMem => none
  | .ldxImm => some bpfLdxImm
  | .ldxMem => some bpfLdxMem
  | .ldxLen => some bpfLdxLen
  | .ldxMsh => some bpfLdxMsh
  | .st => none
  | .stx => none
  | .alu .add false => some bpfAluAddK
  | .alu .sub false => some bpfAluSubK
  | .alu .mul false => some bpfAluMulK
  | .alu .div false => some bpfAluDivK
  | .alu .and false => some bpfAluAndK
  | .alu .or false => some bpfAluOrK
  | .alu .lsh false => some bpfAluLshK
  | .alu .rsh false => some bpfAluRshK
  | .alu .add true => some bpfAluAddX
  | .alu .sub true => some bpfAluSubX
  | .alu .mul true => some bpfAluMulX
  | .alu .div true => some bpfAluDivX
  | .alu .and true => some bpfAluAndX
  | .alu .or true => some bpfAluOrX
  | .alu .lsh true => some bpfAluLshX
  | .alu .rsh true => some bpfAluRshX
  | .aluNeg => some bpfAluNeg
  | .ja => none
  | .retA => some bpfRetA
  | .retK => some bpfRetK
  | .tax => some bpfTax
  | .txa => some bpfTxa

inductive Block where
  | branch (cmp : State → Bool) (trueBlock falseBlock : Nat)
  | call (opcode : Opcode) (k : BitVec 64) (next : Option Nat)

def constant : Insn → Word
  | .ldAbs _ k | .ldInd _ k | .ldImm k | .ldMem k | .ldxImm k | .ldxMem k | .ldxMsh k => k
  | .st k | .stx k | .alu _ (.k k) | .ja k | .jmp _ (.k k) _ _ | .retK k => k
  | _ => 0

def constructJump (cmp : Word → Word → Bool) (rhs : State → Word) (insnum : Nat)
    (jt jf : BitVec 8) : Block :=
  .branch (fun s => cmp s.a (rhs s)) (insnum + 1 + jt.toNat) (insnum + 1 + jf.toNat)

def constructJeqK (k : Word) : Nat → BitVec 8 → BitVec 8 → Block :=
  constructJump (· == ·) fun _ => k

def constructJgtK (k : Word) : Nat → BitVec 8 → BitVec 8 → Block :=
  constructJump (fun a b => b.toNat < a.toNat) fun _ => k

def constructJgeK (k : Word) : Nat → BitVec 8 → BitVec 8 → Block :=
  constructJump (fun a b => b.toNat ≤ a.toNat) fun _ => k

def constructJeqX : Nat → BitVec 8 → BitVec 8 → Block := constructJump (· == ·) State.x

def constructJgtX : Nat → BitVec 8 → BitVec 8 → Block :=
  constructJump (fun a b => b.toNat < a.toNat) State.x

def constructJgeX : Nat → BitVec 8 → BitVec 8 → Block :=
  constructJump (fun a b => b.toNat ≤ a.toNat) State.x

/-- Both operands of the conjunction are the accumulator; no common bit takes the branch. -/
def constructJsetX : Nat → BitVec 8 → BitVec 8 → Block :=
  constructJump (fun a b => a &&& b == 0) State.a

def buildBlock (plen i : Nat) (insn : Insn) : Except Fault Block :=
  match insn with
  | .jmp .jge (.k k) jt jf => .ok (constructJgeK k i jt jf)
  | .jmp .jeq (.k k) jt jf => .ok (constructJeqK k i jt jf)
  | .jmp .jgt (.k k) jt jf => .ok (constructJgtK k i jt jf)
  | .jmp .jset (.k _) jt jf => .ok (constructJsetX i jt jf)
  | .jmp .jge .x jt jf => .ok (constructJgeX i jt jf)
  | .jmp .jeq .x jt jf => .ok (constructJeqX i jt jf)
  | .jmp .jgt .x jt jf => .ok (constructJgtX i jt jf)
  | .jmp .jset .x _ _ => .error .abort
  | insn =>
    match opcodeNames insn >>= getFunction with
    | some opcode =>
      .ok (.call opcode ((constant insn).setWidth 64) (if i + 1 < plen then some (i + 1) else none))
    | none => .error .nullFunction

def buildFrom (plen : Nat) : Nat → List Insn → Except Fault (List Block)
  | _, [] => .ok []
  | i, insn :: insns => do
    let block ← buildBlock plen i insn
    let blocks ← buildFrom plen (i + 1) insns
    return block :: blocks

def buildBpfProgram (insns : List Insn) : Except Fault (List Block) :=
  buildFrom insns.length 0 insns

def runBlock (s : State) : Block → Move State Outcome
  | .branch cmp trueBlock falseBlock => .goto (if cmp s then trueBlock else falseBlock) s
  | .call opcode k next =>
    match opcode k s with
    | .error e => .halt (.error e)
    | .ok (s, retval) =>
      if retval ≠ goOn then .halt (.ok retval)
      else match next with
        | some block => .goto block s
        | none => .halt (.ok 0)

def blockStep (blocks : List Block) (pc : Nat) (s : State) : Move State Outcome :=
  match blocks[pc]? with
  | some block => runBlock s block
  | none => .halt (.error .undefined)

def cleared (packet : Nat → BitVec 8) (len : Word) : State := ⟨0, 0, packet, len, fun _ => 0⟩

/-- `sizeof(bpf_state_t)`: `A`, `X`, `P`, `len` and `mem`, filled up to the alignment of `P`. -/
def stateSize : Nat := (4 + 4 + 8 + 4 + 4 * memWords + 7) / 8 * 8

/-- `const_int64_13`. -/
def memsetLength : Nat := 1056

/-- The entry block calls `llvm.memset` for the `bpf_state_t` on its stack. -/
def entry (packet : Nat → BitVec 8) (len : Word) : Except Fault State :=
  if memsetLength ≤ stateSize then .ok (cleared packet len) else .error .overrun

def runBlocks (blocks : List Block) (s : State) : Option Outcome :=
  run (blockStep blocks) blocks.length 0 s

def bpfRun (blocks : List Block) (packet : Nat → BitVec 8) (len : Word) : Option Outcome :=
  match entry packet len with
  | .ok s => runBlocks blocks s
  | .error e => some (.error e)

end Libtrace.BpfJit
