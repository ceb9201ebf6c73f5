import RpiOs.Lib.Memory
import RpiOs.Lib.Run

/-!
# Trap frames of signal handlers

Model of `user_handler` and `sigreturn` of kern/proc.c and of the system call path of `trap`: where
the registers of the interrupted program go while a handler runs, and what comes back.

`user_handler` saves the trap frame on the user's stack and remembers its address in `p->oldtf`, one
field for each process. `sigreturn` copies it back, and `trap` then stores the result of the system
call, which is 0, in `x[0]`.

* **`resumes_iff`**: when the program gets its registers back.
-/

namespace RpiOs.Signal

open Lib Function

/-- `struct trapframe` of inc/trap.h. -/
@[ext] structure Trapframe where
  spsr : BitVec 64
  elr : BitVec 64
  sp : BitVec 64
  tpidr : BitVec 64
  x : Fin 31 → BitVec 64
  padding : BitVec 64
  q0 : BitVec 128

namespace Trapframe

/-- `sizeof(struct trapframe)`. -/
def size : Nat := 304

/-- The frame as 64-bit words, in the order of the structure. -/
def word (f : Trapframe) (i : Nat) : BitVec 64 :=
  if i = 0 then f.spsr
  else if i = 1 then f.elr
  else if i = 2 then f.sp
  else if i = 3 then f.tpidr
  else if h : i - 4 < 31 then f.x ⟨i - 4, h⟩
  else if i = 35 then f.padding
  else if i = 36 then f.q0.extractLsb' 0 64
  else f.q0.extractLsb' 64 64

/-- The frame that 38 words give. -/
def ofWords (w : Nat → BitVec 64) : Trapframe where
  spsr := w 0
  elr := w 1
  sp := w 2
  tpidr := w 3
  x i := w (4 + i)
  padding := w 35
  q0 := w 37 ++ w 36

/-- The frame as it lies in memory. -/
def bytes (f : Trapframe) (k : Nat) : BitVec 8 := dwordByte (f.word (k / 8)) (k % 8)

/-- The frame that lies in memory. -/
def ofBytes (b : Nat → BitVec 8) : Trapframe := ofWords fun i => dword fun k => b (8 * i + k)

/-- `tf->x[0] = v`. -/
def setX0 (f : Trapframe) (v : BitVec 64) : Trapframe := { f with x := update f.x 0 v }

/-- A frame is determined by its words. -/
lemma ofWords_word (f : Trapframe) : ofWords f.word = f := by
  have hx : ∀ i : Fin 31, f.word (4 + i) = f.x i := by
    intro i
    have h4 : 4 + (i : Nat) - 4 = i := by omega
    have hi : 4 + (i : Nat) - 4 < 31 := by omega
    unfold word
    rw [if_neg (by omega), if_neg (by omega), if_neg (by omega), if_neg (by omega), dif_pos hi]
    congr 1
    exact Fin.ext h4
  ext1
  · rfl
  · rfl
  · rfl
  · rfl
  · exact funext hx
  · rfl
  · show f.q0.extractLsb' 64 64 ++ f.q0.extractLsb' 0 64 = f.q0
    exact BitVec.extractLsb'_append_extractLsb'

/-- The words before the end of the frame are all that is read from it. -/
lemma ofWords_congr {w w' : Nat → BitVec 64} (h : ∀ i < 38, w i = w' i) :
    ofWords w = ofWords w' := by
  have hx : ∀ i : Fin 31, w (4 + i) = w' (4 + i) := fun i => h _ (by omega)
  simp only [ofWords, h 0 (by decide), h 1 (by decide), h 2 (by decide), h 3 (by decide),
    h 35 (by decide), h 36 (by decide), h 37 (by decide), hx]

/-- **A frame is what its bytes in memory say.** -/
lemma ofBytes_of_eq {b : Nat → BitVec 8} {f : Trapframe} (h : ∀ k < size, b k = f.bytes k) :
    ofBytes b = f := by
  refine Eq.trans ?_ (ofWords_word f)
  refine ofWords_congr fun i hi => ?_
  refine Eq.trans (dword_congr fun k hk => ?_) (dword_dwordByte (f.word i))
  have hdiv : (8 * i + k) / 8 = i := by omega
  have hmod : (8 * i + k) % 8 = k := by omega
  rw [h _ (by unfold size; omega), bytes, hdiv, hmod]

end Trapframe

/-! ## The functions of the source -/

/-- What `user_handler` and `sigreturn` work on: `*p->tf`, `p->oldtf` and the user's memory. -/
structure User where
  tf : Trapframe
  oldtf : BitVec 64
  mem : Memory

/-- `mov x8, #SYS_rt_sigreturn; svc #0`. Source: kern/sigret_syscall.S. -/
def sigretCode : BitVec 64 := 0xd4000001d2801168

/-- `handler` is `p->signal.actions[sig].sa_handler`. -/
def userHandler (handler : BitVec 64) (sig : Nat) (u : User) : User :=
  -- the frame, the code that calls `sigreturn`, the address of that code
  let oldtf := u.tf.sp - BitVec.ofNat 64 Trapframe.size
  let mem := u.mem.store oldtf Trapframe.size u.tf.bytes
  let handlerRetAddr := oldtf - 8
  let mem := mem.store handlerRetAddr 8 (dwordByte sigretCode)
  let sp := handlerRetAddr - 8
  let mem := mem.store sp 8 (dwordByte handlerRetAddr)
  { tf := { u.tf.setX0 (BitVec.ofNat 64 sig) with sp := sp, elr := handler }
    oldtf := oldtf
    mem := mem }

/-- With its result. -/
def sigreturn (u : User) : User × BitVec 64 :=
  ({ u with tf := .ofBytes (u.mem.load u.oldtf) }, 0)

/-- The result of a system call goes to `x[0]`. Source: `trap`, case `EC_SVC64`, up to
`check_pending_signal`. -/
def trapSvc (syscall1 : User → User × BitVec 64) (u : User) : User :=
  let r := syscall1 u
  { r.1 with tf := r.1.tf.setX0 r.2 }

/-! ## A handler runs -/

/-- What can happen to the process. -/
inductive Act where
  /-- a signal with a handler is delivered at the end of a trap -/
  | deliver (handler : BitVec 64) (sig : Nat)
  /-- the program runs, with any system calls that are not `sigreturn`, up to a trap that finds
  these registers and this memory -/
  | user (tf : Trapframe) (mem : Memory)
  /-- the program calls `sigreturn` -/
  | sigreturn

def step (u : User) : Act → User
  | .deliver handler sig => userHandler handler sig u
  | .user tf mem => { u with tf := tf, mem := mem }
  | .sigreturn => trapSvc sigreturn u

/-- The program leaves the saved frame alone. -/
def Keeps (u : User) : Act → Prop
  | .user _ mem => ∀ k < Trapframe.size, mem.load u.oldtf k = u.mem.load u.oldtf k
  | _ => True

/-- The frame of the last delivery. -/
def lastSaved (u : User) : List Act → Option Trapframe
  | [] => none
  | a :: as =>
    match lastSaved (step u a) as, a with
    | some f, _ => some f
    | none, .deliver _ _ => some u.tf
    | none, _ => none

/-- The registers of a program, as `eret` sets them. -/
structure SameRegs (f g : Trapframe) : Prop where
  x : f.x = g.x
  sp : f.sp = g.sp
  elr : f.elr = g.elr
  spsr : f.spsr = g.spsr

/-- All registers but `x0`. -/
structure AgreeOffX0 (f g : Trapframe) : Prop where
  x : ∀ i, i ≠ 0 → f.x i = g.x i
  sp : f.sp = g.sp
  elr : f.elr = g.elr
  spsr : f.spsr = g.spsr

/-- `p->oldtf` points to the bytes of `f`. -/
def Saved (u : User) (f : Trapframe) : Prop :=
  ∀ k < Trapframe.size, u.mem.load u.oldtf k = f.bytes k

/-- `user_handler` saves the frame it interrupts. -/
lemma saved_userHandler (handler : BitVec 64) (sig : Nat) (u : User) :
    Saved (userHandler handler sig u) u.tf := by
  intro k hk
  have hsize : k < 304 := hk
  have hcode (a : BitVec 64) : a = a - 8 + BitVec.ofNat 64 8 := by bv_omega
  have haddr (a : BitVec 64) : a = a - 8 - 8 + BitVec.ofNat 64 16 := by bv_omega
  dsimp only [userHandler]
  -- the two words below the frame do not reach it
  rw [Memory.load_store_above _ _ (haddr _) (by decide) (by omega),
    Memory.load_store_above _ _ (hcode _) (by decide) (by omega),
    Memory.load_store _ _ _ hk (by decide)]

variable {u : User} {f : Trapframe}

lemma Saved.act (h : Saved u f) {a : Act} (ha : Keeps u a) :
    Saved (step u a) ((lastSaved u [a]).getD f) := by
  cases a with
  | deliver handler sig => exact saved_userHandler handler sig u
  | user tf mem => exact fun k hk => (ha k hk).trans (h k hk)
  | sigreturn => exact h

lemma lastSaved_cons_getD (u : User) (a : Act) (as : List Act) (f : Trapframe) :
    (lastSaved u (a :: as)).getD f = (lastSaved (step u a) as).getD ((lastSaved u [a]).getD f) := by
  cases hlast : lastSaved (step u a) as with
  | none => cases a <;> simp [lastSaved, hlast]
  | some g => cases a <;> simp [lastSaved, hlast]

lemma Saved.run (h : Saved u f) {as : List Act}
    (has : RunOk step Keeps u as) : Saved (as.foldl step u) ((lastSaved u as).getD f) := by
  induction as generalizing u f with
  | nil => exact h
  | cons a as ih =>
    rw [lastSaved_cons_getD]
    exact ih (h.act has.1) has.2

lemma Saved.returns (h : Saved u f) : (step u .sigreturn).tf = f.setX0 0 := by
  have hframe : Trapframe.ofBytes (u.mem.load u.oldtf) = f := Trapframe.ofBytes_of_eq h
  show (Trapframe.ofBytes (u.mem.load u.oldtf)).setX0 0 = f.setX0 0
  rw [hframe]

/-- With 0 in `x0` a frame is the old one exactly if `x0` was 0 and the rest agrees. -/
lemma sameRegs_setX0_iff {g : Trapframe} :
    SameRegs (f.setX0 0) g ↔ g.x 0 = 0 ∧ AgreeOffX0 f g := by
  constructor
  · intro h
    refine ⟨?_, ?_, h.sp, h.elr, h.spsr⟩
    · rw [← h.x]
      exact update_self 0 0 f.x
    intro i hi
    rw [← h.x]
    exact (update_of_ne hi 0 f.x).symm
  · rintro ⟨h0, h⟩
    refine ⟨?_, h.sp, h.elr, h.spsr⟩
    funext i
    by_cases hi : i = 0
    · rw [hi, h0]
      exact update_self 0 0 f.x
    · rw [← h.x i hi]
      exact update_of_ne hi 0 f.x

/-- Everything from the delivery of a signal to the return of its handler. -/
def handled (handler : BitVec 64) (sig : Nat) (as : List Act) : List Act :=
  .deliver handler sig :: as ++ [.sigreturn]

lemma handled_tf {handler : BitVec 64} {sig : Nat} {as : List Act}
    (has : RunOk step Keeps (userHandler handler sig u) as) :
    ((handled handler sig as).foldl step u).tf =
      ((lastSaved (userHandler handler sig u) as).getD u.tf).setX0 0 := by
  rw [handled, List.cons_append, List.foldl_cons, List.foldl_append]
  exact (Saved.run (saved_userHandler handler sig u) has).returns

/-- **When a program gets its registers back.** A signal is delivered to a program with the frame
`u.tf`; then come any deliveries, returns and steps of the program that leave the saved frames
alone, and the return of the handler. The program goes on with the registers it had exactly when its
`x0` was 0 and the last frame that was saved while the handler ran, if any, was the same in all
other registers. -/
theorem resumes_iff (u : User) (handler : BitVec 64) (sig : Nat) (as : List Act)
    (has : RunOk step Keeps (userHandler handler sig u) as) :
    SameRegs ((handled handler sig as).foldl step u).tf u.tf ↔
      u.tf.x 0 = 0 ∧ ∀ f ∈ lastSaved (userHandler handler sig u) as, AgreeOffX0 f u.tf := by
  rw [handled_tf has, sameRegs_setX0_iff]
  cases lastSaved (userHandler handler sig u) as with
  | none => simp [AgreeOffX0.mk]
  | some f => simp

/-- A program with nothing but `x0` and a stack. -/
def program (x0 : BitVec 64) : User where
  tf := ⟨0, 0x400000, 0x10000, 0, update (fun _ => 0) 0 x0, 0, 0⟩
  oldtf := 0
  mem _ := 0

/-- The handler changes all registers and writes below its stack pointer. -/
def handlerRun : Act :=
  .user ⟨1, 0x400100, 0xf000, 0, fun i => BitVec.ofNat 64 (i + 7), 0, 0⟩
    ((userHandler 0x400080 10 (program 0)).mem.store 0xf000 8 (dwordByte 99))

lemma handlerRun_keeps : RunOk step Keeps (userHandler 0x400080 10 (program 0)) [handlerRun] := by
  refine ⟨fun k hk => ?_, trivial⟩
  have hsize : k < 304 := hk
  exact Memory.load_store_above (d := 0xed0) _ _ (by decide) (by decide) (by omega)

/-- The theorem for a handler that is not interrupted, in a program whose `x0` is 0. -/
theorem resumes_one_handler :
    SameRegs ((handled 0x400080 10 [handlerRun]).foldl step (program 0)).tf (program 0).tf :=
  (resumes_iff (program 0) 0x400080 10 [handlerRun] handlerRun_keeps).mpr
    ⟨rfl, fun f hf => by simp [lastSaved, handlerRun] at hf⟩

/-- **A handler that returns changes `x0`, and a handler that was interrupted does not return to the
program**: the 5 in `x0` becomes 0, and after a second signal the stack pointer is the one that the
handler had. -/
theorem handler_changes_registers :
    ((handled 0x400080 10 []).foldl step (program 5)).tf.x 0 = 0 ∧ (program 5).tf.x 0 = 5 ∧
      ((handled 0x400080 10 [.deliver 0x400080 12, .sigreturn]).foldl step (program 0)).tf.sp
        = 0x10000 - 320 ∧ (program 0).tf.sp = 0x10000 := by
  have hone : RunOk step Keeps (userHandler 0x400080 10 (program 5)) [] := trivial
  have htwo : RunOk step Keeps (userHandler 0x400080 10 (program 0))
      [.deliver 0x400080 12, .sigreturn] := ⟨trivial, trivial, trivial⟩
  rw [handled_tf hone, handled_tf htwo]
  exact ⟨rfl, rfl, rfl, rfl⟩

end RpiOs.Signal
