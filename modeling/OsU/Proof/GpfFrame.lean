import OsU.Proof.IntIret

/-!
# The frame of a fault and the handler's idea of it

`isr_handler_c` passes a `registers_t`, whose first word is EDI. `v86_handle_gpf` takes
the first three words for IP, CS and flags, so it looks for the VM bit in EBP and for
the instruction at SI:DI; the emulator takes words 8 to 11, which are GS, FS, ES and DS,
for IP, CS, flags and SS. EIP and CS of the frame are written by neither.

`handle_gpf_enters_iff` says what has to hold by chance for the frame to come out as INT should
leave it: EBP has the VM bit, CS:EIP are at the handler already, and what stands at
SI:DI is no instruction the emulator changes a register for.

The model keeps the frame as its words, numbered as they lie in memory, and gives the
names of `registers_t` to the numbers (`SavedReg.index`). So each of the two views of
one frame is read off the source separately, and that they disagree is a theorem and not
built in.
-/

set_option autoImplicit false

namespace OsU

theorem SavedReg.index_injective : Function.Injective SavedReg.index := by
  intro r q h
  cases r <;> cases q <;> first | rfl | exact absurd h (by decide)

namespace V86

/-- A register of the frame. -/
def reg (s : V86) (r : SavedReg) : BitVec 32 := s.frame r.index

/-- The opcodes that `emulate_instruction` has a case for. -/
def knownOpcodes : List (BitVec 8) :=
  [0xCD, 0xCF, 0xFA, 0xFB, 0x9C, 0x9D, 0xF4, 0xEE, 0xEF, 0xEC, 0xED]

/-- What the handler is to make of a fault at INT `n`: CS:EIP at the entry of the vector
table and every other register as it was, but for ESP. -/
structure Enters (n : BitVec 8) (s : V86) : Prop where
  handled : s.handleGpf.1 = 1
  eip : s.handleGpf.2.reg .eip = (s.ivt n).1.setWidth 32
  cs : s.handleGpf.2.reg .cs = (s.ivt n).2.setWidth 32
  rest : ∀ r : SavedReg, r ≠ .eip → r ≠ .cs → r ≠ .esp → s.handleGpf.2.reg r = s.reg r

/-- The instruction at `a` leaves every register of the frame but ESP as it is. An
opcode the emulator has no case for does; INT and IRET do when what they load into words
8 to 10 is there already. The others move EDI on, so they do not. -/
def Steady (s : V86) (a : BitVec 32) : Prop :=
  s.mem a ∉ knownOpcodes ∨
  (s.mem a = 0xCD ∧ s.mem (a + 1) ≠ 0xFF ∧
    s.reg .gs = (s.ivt (s.mem (a + 1))).1.setWidth 32 ∧
    s.reg .fs = (s.ivt (s.mem (a + 1))).2.setWidth 32) ∨
  (s.mem a = 0xCF ∧
    s.reg .gs = (s.mem.load16 s.stackTop).setWidth 32 ∧
    s.reg .fs = (s.mem.load16 (s.stackTop + 2)).setWidth 32 ∧
    low (s.reg .es) = s.mem.load16 (s.stackTop + 4))

/-! ## The emulator on a frame -/

theorem emulateInstruction_unknown {s : V86} {a : BitVec 32} (h : s.mem a ∉ knownOpcodes) :
    s.emulateInstruction a = (-1, s) := by
  simp only [knownOpcodes, List.mem_cons, List.not_mem_nil, or_false, not_or] at h
  obtain ⟨h1, h2, h3, h4, h5, h6, h7, h8, h9, h10, h11⟩ := h
  simp only [emulateInstruction, if_neg h1, if_neg h2, if_neg h3, if_neg h4, if_neg h5, if_neg h6,
    h7, h8, h9, h10, h11, or_self, if_false]

/-- The instructions other than INT and IRET, and the INT that ends the program, move on. -/
theorem emulateInstruction_advances {s : V86} {a : BitVec 32} (hknown : s.mem a ∈ knownOpcodes)
    (hint : s.mem a = 0xCD → s.mem (a + 1) = 0xFF) (hiret : s.mem a ≠ 0xCF) :
    0 < (s.emulateInstruction a).1 ∧ (s.emulateInstruction a).1 ≤ 2 ∧
      ∀ i, i ≠ 3 → i ≠ 10 → (s.emulateInstruction a).2.frame i = s.frame i := by
  simp only [knownOpcodes, List.mem_cons, List.not_mem_nil, or_false] at hknown
  rcases hknown with h | h | h | h | h | h | h | h | h | h | h
  · simp only [emulateInstruction, h, hint h, if_true]
    exact ⟨by decide, by decide, fun _ _ _ => trivial⟩
  · exact absurd h hiret
  all_goals simp +contextual [emulateInstruction, h, setReg]

/-- The emulator writes no word of the frame from `int_no` up, EIP and CS included. -/
theorem emulateInstruction_upper (s : V86) (a : BitVec 32) {i : Nat} (hi : 11 ≤ i) :
    (s.emulateInstruction a).2.frame i = s.frame i := by
  by_cases hknown : s.mem a ∈ knownOpcodes
  · by_cases hint : s.mem a = 0xCD ∧ s.mem (a + 1) ≠ 0xFF
    · obtain ⟨-, -, -, -, -, hrest⟩ := emulateInstruction_int hint.1 hint.2
      exact hrest i (by omega) (by omega) (by omega)
    · by_cases hiret : s.mem a = 0xCF
      · obtain ⟨-, -, -, -, -, hrest⟩ := emulateInstruction_iret hiret
        exact hrest i (by omega) (by omega) (by omega) (by omega)
      · obtain ⟨-, -, hrest⟩ := emulateInstruction_advances hknown
          (fun h => by_contra fun hn => hint ⟨h, hn⟩) hiret
        exact hrest i (by omega) (by omega)
  · rw [emulateInstruction_unknown hknown]

/-! ## The handler

`v86_handle_gpf` takes three words of the frame for EIP, CS and EFLAGS that are EDI, ESI
and EBP. What it makes of them is followed as it stands; the condition says when the
result is the right one all the same. -/

/-- The handler lets the emulator work on the frame and moves EDI on, by the length the
emulator returned. It was meant to be IP that moves. -/
theorem handleGpf_spec {s : V86} {r : Int × V86} (hactive : s.active = true)
    (hvm : s.reg .ebp &&& eflagsVm ≠ 0)
    (he : s.emulateInstruction (codeAddr (low (s.reg .esi)) (low (s.reg .edi))) = r) :
    s.handleGpf.1 = 1 ∧ s.handleGpf.2.frame =
      if 0 < r.1 then Function.update r.2.frame 0 (r.2.frame 0 + BitVec.ofInt 32 r.1)
      else r.2.frame := by
  obtain ⟨k, t⟩ := r
  have hon : ¬ s.active = false := by rw [hactive]; exact Bool.noConfusion
  change s.frame 2 &&& eflagsVm ≠ 0 at hvm
  change s.emulateInstruction (codeAddr (low (s.frame 1)) (low (s.frame 0))) = (k, t) at he
  rw [handleGpf, if_neg hon, if_neg hvm, he]
  rcases lt_trichotomy k 0 with h | h | h
  · simp only [if_pos h, if_neg h.not_gt]
    exact ⟨trivial, trivial⟩
  · subst h
    simp only [gt_iff_lt, lt_irrefl, if_false]
    constructor <;> split <;> rfl
  · simp only [gt_iff_lt, if_neg h.not_gt, if_pos h]
    constructor <;> split <;> rfl

/-- EIP and CS of the frame are what they were. -/
theorem handleGpf_upper {s : V86} (hactive : s.active = true)
    (hvm : s.reg .ebp &&& eflagsVm ≠ 0) {r : SavedReg} (hr : 11 ≤ r.index) :
    s.handleGpf.2.reg r = s.reg r := by
  have h0 : r.index ≠ 0 := by omega
  rw [reg, (handleGpf_spec hactive hvm rfl).2]
  split
  · rw [Function.update_of_ne h0, emulateInstruction_upper _ _ hr, reg]
  · rw [emulateInstruction_upper _ _ hr, reg]

/-- A move of EDI shows. -/
theorem add_ofInt_ne (v : BitVec 32) {k : Int} (hpos : 0 < k) (hk : k ≤ 2) :
    v + BitVec.ofInt 32 k ≠ v := by
  obtain rfl | rfl : k = 1 ∨ k = 2 := by omega
  · have h1 : BitVec.ofInt 32 1 = 1 := rfl
    rw [h1]
    bv_omega
  · have h2 : BitVec.ofInt 32 2 = 2 := rfl
    rw [h2]
    bv_omega

/-- The other registers keep their values if and only if the instruction is steady. -/
theorem handleGpf_rest_iff {s : V86} (hactive : s.active = true)
    (hvm : s.reg .ebp &&& eflagsVm ≠ 0) :
    (∀ r : SavedReg, r ≠ .eip → r ≠ .cs → r ≠ .esp → s.handleGpf.2.reg r = s.reg r) ↔
      Steady s (codeAddr (low (s.reg .esi)) (low (s.reg .edi))) := by
  obtain ⟨-, hframe⟩ := handleGpf_spec hactive hvm rfl
  set a := codeAddr (low (s.reg .esi)) (low (s.reg .edi))
  -- an index of the frame is that of one register
  have hne {r q : SavedReg} (h : r ≠ q) : r.index ≠ q.index :=
    fun e => h (SavedReg.index_injective e)
  by_cases hknown : s.mem a ∈ knownOpcodes
  · by_cases hint : s.mem a = 0xCD ∧ s.mem (a + 1) ≠ 0xFF
    · obtain ⟨hadv, -, -, h8, h9, hrest⟩ := emulateInstruction_int hint.1 hint.2
      rw [if_neg (by omega)] at hframe
      simp only [reg, hframe]
      constructor
      · intro h
        exact .inr (.inl ⟨hint.1, hint.2, (h .gs nofun nofun nofun).symm.trans h8,
          (h .fs nofun nofun nofun).symm.trans h9⟩)
      · rintro (hun | ⟨-, -, hgs, hfs⟩ | ⟨hcf, -⟩) r heip hcs hesp
        · exact absurd hknown hun
        · by_cases hg : r = .gs
          · subst hg
            exact h8.trans hgs.symm
          · by_cases hf : r = .fs
            · subst hf
              exact h9.trans hfs.symm
            · exact hrest _ (hne hesp) (hne hg) (hne hf)
        · exact absurd (hint.1.symm.trans hcf) (by decide)
    · by_cases hiret : s.mem a = 0xCF
      · obtain ⟨hadv, h8, h9, h10, -, hrest⟩ := emulateInstruction_iret hiret
        rw [if_neg (by omega)] at hframe
        simp only [reg, hframe]
        constructor
        · intro h
          have hes := h10.symm.trans (h .es nofun nofun nofun)
          exact .inr (.inr ⟨hiret, (h .gs nofun nofun nofun).symm.trans h8,
            (h .fs nofun nofun nofun).symm.trans h9, (merge_eq_iff.mp hes).symm⟩)
        · rintro (hun | ⟨hcd, -⟩ | ⟨-, hgs, hfs, hes⟩) r heip hcs hesp
          · exact absurd hknown hun
          · exact absurd (hiret.symm.trans hcd) (by decide)
          · by_cases hg : r = .gs
            · subst hg
              exact h8.trans hgs.symm
            · by_cases hf : r = .fs
              · subst hf
                exact h9.trans hfs.symm
              · by_cases he : r = .es
                · subst he
                  exact h10.trans (merge_eq_iff.mpr hes.symm)
                · exact hrest _ (hne hesp) (hne hg) (hne hf) (hne he)
      · obtain ⟨hpos, hle, hrest⟩ := emulateInstruction_advances hknown
          (fun h => by_contra fun hn => hint ⟨h, hn⟩) hiret
        rw [if_pos hpos] at hframe
        refine iff_of_false (fun h => ?_) ?_
        · have hedi := h .edi nofun nofun nofun
          rw [reg, hframe] at hedi
          have hself := (Function.update_self 0 _ _).symm.trans hedi
          rw [hrest 0 (by decide) (by decide)] at hself
          exact add_ofInt_ne _ hpos hle hself
        · rintro (hun | ⟨hcd, hn, -⟩ | ⟨hcf, -⟩)
          · exact hun hknown
          · exact hint ⟨hcd, hn⟩
          · exact hiret hcf
  · have hneg : ¬ (0 : Int) < -1 := by decide
    rw [emulateInstruction_unknown hknown, if_neg hneg] at hframe
    exact iff_of_true (fun r _ _ _ => by rw [reg, reg, hframe]) (.inl hknown)

end V86

open V86

/-- The handler does to the frame what INT `n` should if and only if EBP has the VM bit, CS:EIP
are at the entry of the vector table already, and the instruction at SI:DI changes no register.
What stands at CS:EIP is never looked at. -/
theorem handle_gpf_enters_iff {s : V86} (n : BitVec 8) (hactive : s.active = true) :
    Enters n s ↔
      s.reg .ebp &&& eflagsVm ≠ 0 ∧
        s.reg .eip = (s.ivt n).1.setWidth 32 ∧ s.reg .cs = (s.ivt n).2.setWidth 32 ∧
        Steady s (codeAddr (low (s.reg .esi)) (low (s.reg .edi))) := by
  by_cases hebp : s.reg .ebp &&& eflagsVm = 0
  · have hzero : s.handleGpf = (0, s) := by
      have hon : ¬ s.active = false := by rw [hactive]; exact Bool.noConfusion
      change s.frame 2 &&& eflagsVm = 0 at hebp
      rw [handleGpf, if_neg hon, if_pos hebp]
    refine iff_of_false (fun h => ?_) (fun h => h.1 hebp)
    have hhandled := h.handled
    rw [hzero] at hhandled
    exact absurd hhandled zero_ne_one
  · have heip := handleGpf_upper (r := .eip) hactive hebp (by decide)
    have hcs := handleGpf_upper (r := .cs) hactive hebp (by decide)
    rw [← handleGpf_rest_iff hactive hebp]
    constructor
    · intro h
      exact ⟨hebp, heip.symm.trans h.eip, hcs.symm.trans h.cs, h.rest⟩
    · rintro ⟨-, h, h', hrest⟩
      exact ⟨(handleGpf_spec hactive hebp rfl).1, heip.trans h, hcs.trans h', hrest⟩

/-- A fault at `INT 0x10` at 0x7000:0, where entry 0x10 of the vector table leads as well. -/
def faultAtInt (ebp : BitVec 32) : V86 where
  active := true
  regs := none
  done := false
  frame i :=
    ([0, 0, ebp, 0xFFF8, 0, 0, 0, 0, 0, 0, 0, 0, 13, 0, 0, 0x7000, 0x23202].getD i 0 : BitVec 32)
  mem x := if x = 0x70000 then 0xCD else if x = 0x70001 then 0x10 else if x = 0x43 then 0x70 else 0

/-- Here the frame has the values that it should get from the start. -/
theorem handle_gpf_enters_vm_in_ebp : Enters 0x10 (faultAtInt 0x20000) := by
  have hsteady : Steady (faultAtInt 0x20000) (codeAddr 0 0) := .inl (by decide)
  exact (handle_gpf_enters_iff 0x10 rfl).mpr ⟨by decide, rfl, rfl, hsteady⟩

/-- The VM bit of EFLAGS is set and the handler says that this is not V86 mode. -/
theorem handle_gpf_reads_ebp :
    let s := faultAtInt 0
    s.active = true ∧ s.reg .eflags &&& eflagsVm ≠ 0 ∧
      s.mem (codeAddr (low (s.reg .cs)) (low (s.reg .eip))) = 0xCD ∧
      s.mem (codeAddr (low (s.reg .cs)) (low (s.reg .eip)) + 1) = 0x10 ∧
      s.handleGpf.1 = 0 ∧ ¬ Enters 0x10 s := by
  refine ⟨rfl, by decide, rfl, rfl, rfl, fun h => ?_⟩
  exact absurd h.handled (by decide)

end OsU
