import RpiOs.Lib.Run
import RpiOs.V6.ByteFile

/-!
# Appending to a file

Several open files of one v6 inode, each with its own offset. `fileopen` with `O_APPEND` sets the
offset to the size of the file; `filewrite` writes at the offset, whatever the size is by then, and
moves the offset of its own file. A call of at most one chunk holds the lock of the inode from
reading the offset to moving it, so a run is a list of whole calls.

The file is the byte array of `ByteFile`, with its size in 32 bits: `MAXFILE * BSIZE` is above 2^32,
so a write can pass the check of `v6_writei` and wrap `ip->size` around. Left out: pipes, devices,
the page cache, and the times.

* `applySteps_runSteps`: the transactions of a run leave the bytes of the model in the byte array
  that the v6 code refines.
* `appended_iff`: after any run the file is the old content followed by the data of the successful
  calls in some order exactly if every call that writes has its offset at the end of the file, and
  ends below 2^32.
-/

namespace RpiOs.V6.Append

open Lib Kernel V6

/-! ## Open files -/

def oAppend : BitVec 32 := 0x400#32

/-- `O_ACCMODE`, that is `03 | O_SEARCH`. -/
def oAccmode : BitVec 32 := 0x200003#32

def oWronly : BitVec 32 := 0x1#32

def oRdwr : BitVec 32 := 0x2#32

/-- `max` in `filewrite`, `((MAXOPBLOCKS - 1 - 2 - 2) / 2) * 512`. -/
def chunk : Nat := (42 - 1 - 2 - 2) / 2 * 512

/-- `struct file`, as far as writing looks at it. -/
structure OpenFile where
  off : Nat
  writable : Bool
  deriving DecidableEq

/-- An inode and its open files. Its size is a 32-bit number. -/
structure State where
  content : List (BitVec 8)
  size_lt : content.length < 2 ^ 32
  /-- its type is `T_FILE` -/
  regular : Bool
  files : List OpenFile
  deriving DecidableEq

/-- Data of at most one chunk. -/
structure Data where
  bytes : List (BitVec 8)
  le : bytes.length ≤ chunk

def fileWritable (flags : BitVec 32) : Bool :=
  flags &&& oAccmode = oRdwr || flags &&& oAccmode = oWronly

/-- `fileopen`, the new file. -/
def fileopen (s : State) (flags : BitVec 32) : State :=
  { s with files := s.files ++
      [⟨if flags &&& oAppend ≠ 0 then s.content.length else 0, fileWritable flags⟩] }

/-- The bytes of the file after `v6_writei` has written. A write beyond the end sets `ip->size`, of
32 bits, to where it ends. -/
def writeBytes (L : List (BitVec 8)) (off : Nat) (data : List (BitVec 8)) : List (BitVec 8) :=
  if L.length < off + data.length then (overwrite L off data).take ((off + data.length) % 2 ^ 32)
  else overwrite L off data

/-- The size after a write, in 32 bits. -/
lemma length_writeBytes {L data : List (BitVec 8)} {off : Nat} (h : off ≤ L.length) :
    (writeBytes L off data).length =
      if L.length < off + data.length then (off + data.length) % 2 ^ 32 else L.length := by
  unfold writeBytes
  have hmod : (off + data.length) % 2 ^ 32 ≤ off + data.length := Nat.mod_le _ _
  split
  · rw [List.length_take, length_overwrite h]
    omega
  · rw [length_overwrite h]
    omega

lemma length_writeBytes_lt {L data : List (BitVec 8)} {off : Nat} (h : off ≤ L.length)
    (hL : L.length < 2 ^ 32) : (writeBytes L off data).length < 2 ^ 32 := by
  rw [length_writeBytes h]
  split
  · exact Nat.mod_lt _ (by decide)
  · exact hL

/-- `filewrite`, with data of at most one chunk. -/
def filewrite (s : State) (i : Nat) (f : OpenFile) (data : Data) : Int × State :=
  if !f.writable then (-ebadf, s)
  else if data.bytes = [] then (0, s)
  -- the checks of `v6_writei`
  else if h : f.off ≤ s.content.length ∧ f.off + data.bytes.length ≤ maxfile * bsize then
    (data.bytes.length, { s with
      content := writeBytes s.content f.off data.bytes
      size_lt := length_writeBytes_lt h.1 s.size_lt
      -- the offset moves for `T_FILE` only
      files := s.files.set i ⟨if s.regular then f.off + data.bytes.length else f.off, f.writable⟩ })
  else (-1, s)

/-- What processes do with the inode. -/
inductive Event where
  | openFile (flags : BitVec 32)
  | write (i : Nat) (data : Data)

/-- The state after an event. -/
def happen (s : State) : Event → State
  | .openFile flags => fileopen s flags
  | .write i data =>
    match s.files[i]? with
    | none => s
    | some f => (filewrite s i f data).2

/-- The data of a call that returned the number of bytes it was given. -/
def written (s : State) : Event → List (List (BitVec 8))
  | .openFile _ => []
  | .write i data =>
    match s.files[i]? with
    | none => []
    | some f => if (filewrite s i f data).1 = data.bytes.length then [data.bytes] else []

/-- The data of the successful calls, in the order of the calls. -/
def succeeded : State → List Event → List (List (BitVec 8))
  | _, [] => []
  | s, ev :: evs => written s ev ++ succeeded (happen s ev) evs

/-- **Appends are atomic**: the file is what it was, followed by the data of the successful calls in
some order. -/
def Appended (s : State) (evs : List Event) : Prop :=
  ∃ ds : List (List (BitVec 8)), ds.Perm (succeeded s evs) ∧
    (evs.foldl happen s).content = s.content ++ ds.flatten

/-- The condition on an event: if the call writes, its offset is at the end of the file, and the new
end is below 2^32. -/
def AtEnd (s : State) : Event → Prop
  | .openFile _ => True
  | .write i data => ∀ f, s.files[i]? = some f → f.writable = true → data.bytes ≠ [] →
      f.off ≤ s.content.length →
        f.off = s.content.length ∧ f.off + data.bytes.length < 2 ^ 32

/-! ## One call -/

section step

variable {s : State} {f : OpenFile} {i : Nat} {data : Data}

/-- A call that writes at most one chunk, from an offset in the file, is within `MAXFILE *
BSIZE`. -/
lemma le_maxfile (hoff : f.off ≤ s.content.length) :
    f.off + data.bytes.length ≤ maxfile * bsize := by
  have hmax : 2 ^ 32 + chunk ≤ maxfile * bsize := by decide
  have hsize := s.size_lt
  have hle := data.le
  omega

/-- What a call does: nothing, with no data or a failure, or it writes at the offset. -/
lemma filewrite_cases (s : State) (i : Nat) (f : OpenFile) (data : Data) :
    ((filewrite s i f data).2 = s ∧
      ((filewrite s i f data).1 = data.bytes.length → data.bytes = []) ∧
      ¬ (f.writable = true ∧ data.bytes ≠ [] ∧ f.off ≤ s.content.length)) ∨
    ((f.writable = true ∧ data.bytes ≠ [] ∧ f.off ≤ s.content.length) ∧
      (filewrite s i f data).1 = data.bytes.length ∧
      (filewrite s i f data).2.content = writeBytes s.content f.off data.bytes) := by
  unfold filewrite
  cases hw : f.writable with
  | false =>
    refine .inl ⟨rfl, fun h => ?_, by simp⟩
    have : -(ebadf : Int) = data.bytes.length := h
    unfold ebadf at this
    omega
  | true => ?_
  by_cases hnil : data.bytes = []
  · exact .inl ⟨by simp [hnil], fun _ => hnil, by simp [hnil]⟩
  by_cases hoff : f.off ≤ s.content.length
  · right
    simp only [Bool.not_true, Bool.false_eq_true, if_false, if_neg hnil,
      dif_pos (And.intro hoff (le_maxfile hoff))]
    exact ⟨⟨trivial, hnil, hoff⟩, trivial, trivial⟩
  · left
    have hno : ¬ (f.off ≤ s.content.length ∧ f.off + data.bytes.length ≤ maxfile * bsize) :=
      fun hand => hoff hand.1
    simp only [Bool.not_true, Bool.false_eq_true, if_false, if_neg hnil, dif_neg hno]
    exact ⟨trivial, fun h => by omega, fun hand => hoff hand.2.2⟩

/-- Below 2^32 a write is the one of the byte array. -/
lemma writeBytes_of_lt {L data : List (BitVec 8)} {off : Nat} (h : off ≤ L.length)
    (hlt : off + data.length < 2 ^ 32) : writeBytes L off data = overwrite L off data := by
  unfold writeBytes
  split
  · next hgrows =>
    rw [Nat.mod_eq_of_lt hlt]
    refine List.take_of_length_le ?_
    rw [length_overwrite h]
    omega
  · rfl

lemma overwrite_end (L data : List (BitVec 8)) : overwrite L L.length data = L ++ data := by
  unfold overwrite
  rw [List.take_length, List.drop_of_length_le (Nat.le_add_right _ _), List.append_nil]

/-- One event, for the bytes: at the end of the file it appends what it reports. -/
lemma happen_content {ev : Event} (h : AtEnd s ev) :
    (happen s ev).content = s.content ++ (written s ev).flatten := by
  cases ev with
  | openFile flags => simp [happen, written, fileopen]
  | write i data => ?_
  simp only [happen, written]
  rcases hf : s.files[i]? with - | f
  · simp
  dsimp only
  rcases filewrite_cases s i f data with ⟨hsame, hzero, -⟩ | ⟨hdo, hret, hcontent⟩
  · rw [hsame]
    split
    · next hret => simp [hzero hret]
    · simp
  · obtain ⟨hend, hlt⟩ := h f hf hdo.1 hdo.2.1 hdo.2.2
    rw [hcontent, if_pos hret, writeBytes_of_lt hdo.2.2 hlt, hend, overwrite_end]
    simp

/-- One event, for the length: it never grows by more than what it reports, and by less if the
offset is before the end or the size wraps around. -/
lemma happen_length (s : State) (ev : Event) :
    (happen s ev).content.length ≤ s.content.length + (written s ev).flatten.length ∧
      (¬ AtEnd s ev →
        (happen s ev).content.length < s.content.length + (written s ev).flatten.length) := by
  by_cases hend : AtEnd s ev
  · rw [happen_content hend, List.length_append]
    exact ⟨Nat.le_refl _, fun hno => absurd hend hno⟩
  suffices hlt : (happen s ev).content.length <
      s.content.length + (written s ev).flatten.length from ⟨Nat.le_of_lt hlt, fun _ => hlt⟩
  cases ev with
  | openFile flags => exact absurd trivial hend
  | write i data => ?_
  simp only [AtEnd, not_forall] at hend
  obtain ⟨f, hf, hw, hne, hoff, hnot⟩ := hend
  simp only [happen, written, hf]
  rcases filewrite_cases s i f data with ⟨-, -, hno⟩ | ⟨-, hret, hcontent⟩
  · exact absurd ⟨hw, hne, hoff⟩ hno
  have hpos : 0 < data.bytes.length := List.length_pos_iff.mpr hne
  rw [hcontent, length_writeBytes hoff, if_pos hret]
  simp only [List.flatten_cons, List.flatten_nil, List.append_nil]
  have hmod : (f.off + data.bytes.length) % 2 ^ 32 ≤ f.off + data.bytes.length := Nat.mod_le _ _
  have hmod' : (f.off + data.bytes.length) % 2 ^ 32 < 2 ^ 32 := Nat.mod_lt _ (by decide)
  split <;> omega

end step

/-! ## Runs -/

/-- Over a run whose writes are at the end, the data come in the order of the calls. -/
lemma content_of_atEnd {s : State} {evs : List Event} (h : RunOk happen AtEnd s evs) :
    (evs.foldl happen s).content = s.content ++ (succeeded s evs).flatten := by
  induction evs generalizing s with
  | nil => simp [succeeded]
  | cons ev evs ih =>
    rw [List.foldl_cons, ih h.2, happen_content h.1, succeeded, List.flatten_append,
      List.append_assoc]

/-- A run adds at most what its calls have written, and less if one call was not at the end. -/
lemma length_run (s : State) (evs : List Event) :
    (evs.foldl happen s).content.length ≤ s.content.length + (succeeded s evs).flatten.length ∧
      (¬ RunOk happen AtEnd s evs →
        (evs.foldl happen s).content.length <
          s.content.length + (succeeded s evs).flatten.length) := by
  induction evs generalizing s with
  | nil => exact ⟨by simp, fun hno => absurd trivial hno⟩
  | cons ev evs ih => ?_
  obtain ⟨hle, hlt⟩ := ih (happen s ev)
  obtain ⟨hle1, hlt1⟩ := happen_length s ev
  rw [List.foldl_cons, succeeded, List.flatten_append, List.length_append]
  refine ⟨by omega, fun hno => ?_⟩
  by_cases hone : AtEnd s ev
  · have := hlt fun hrest => hno ⟨hone, hrest⟩
    omega
  · have := hlt1 hone
    omega

/-- **Appends over a run**: the file is its old content and the data of the successful calls, in
some order, exactly if every call that wrote had its offset at the end of the file and ended below
2^32. -/
theorem appended_iff (s : State) (evs : List Event) :
    Appended s evs ↔ RunOk happen AtEnd s evs := by
  constructor
  · rintro ⟨ds, hperm, hcontent⟩
    by_contra hno
    have hlt := (length_run s evs).2 hno
    rw [hcontent, List.length_append, hperm.flatten.length_eq] at hlt
    omega
  · intro h
    exact ⟨succeeded s evs, .refl _, content_of_atEnd h⟩

/-- An empty regular file that nobody has open. -/
def noFile : State := ⟨[], by decide, true, []⟩

/-- The file, opened twice with `O_WRONLY | O_APPEND`, and a byte written through each. -/
def twoWriters : List Event :=
  [.openFile (oWronly ||| oAppend), .openFile (oWronly ||| oAppend), .write 0 ⟨[1], by decide⟩,
    .write 1 ⟨[2], by decide⟩]

/-- **An append is lost**: both calls succeed, and the file has one byte. -/
theorem append_lost : ¬ Appended noFile twoWriters ∧ succeeded noFile twoWriters = [[1], [2]] ∧
    (twoWriters.foldl happen noFile).content = [2] := by
  refine ⟨?_, by decide, by decide⟩
  rintro ⟨ds, hperm, hcontent⟩
  have hlen := congrArg List.length hcontent
  rw [List.length_append, hperm.flatten.length_eq] at hlen
  exact absurd hlen (by decide)

/-! ## The code below -/

variable {s : State}

/-- The transaction of a call. -/
def stepsOf (s : State) : Event → List Step
  | .openFile _ => []
  | .write i data =>
    match s.files[i]? with
    | none => []
    | some f =>
      if f.writable = true ∧ data.bytes ≠ [] then [.beginOp, .write f.off data.bytes, .endOp]
      else []

/-- The transactions of a run. -/
def runSteps : State → List Event → List Step
  | _, [] => []
  | s, ev :: evs => stepsOf s ev ++ runSteps (happen s ev) evs

/-- Two sequences of steps, one behind the other. -/
lemma applySteps_append (L : List (BitVec 8)) (ss ss' : List Step) :
    (applySteps L (ss ++ ss')).2 = (applySteps (applySteps L ss).2 ss').2 := by
  induction ss generalizing L with
  | nil => rfl
  | cons st ss ih => ?_
  cases st with
  | beginOp | endOp => exact ih L
  | write off data =>
    simp only [List.cons_append, applySteps]
    split <;> exact ih _

/-- A call at the end of the file, as steps of the byte array. -/
lemma applySteps_stepsOf {ev : Event} (h : AtEnd s ev) :
    (applySteps s.content (stepsOf s ev)).2 = (happen s ev).content := by
  cases ev with
  | openFile flags => rfl
  | write i data => ?_
  simp only [stepsOf, happen]
  rcases hf : s.files[i]? with - | f
  · rfl
  dsimp only
  rcases filewrite_cases s i f data with ⟨hsame, -, hno⟩ | ⟨hdo, -, hcontent⟩
  · rw [hsame]
    split
    · next hand =>
      have hoff : ¬ f.off ≤ s.content.length := fun hoff => hno ⟨hand.1, hand.2, hoff⟩
      simp only [applySteps, if_neg hoff]
    · rfl
  · have hlt := (h f hf hdo.1 hdo.2.1 hdo.2.2).2
    rw [hcontent, if_pos ⟨hdo.1, hdo.2.1⟩, writeBytes_of_lt hdo.2.2 hlt]
    simp only [applySteps, if_pos hdo.2.2]

/-- **The transactions of a run** that meets the condition leave the bytes of the model, by the
specification that the v6 code refines. -/
theorem applySteps_runSteps {evs : List Event} (h : RunOk happen AtEnd s evs) :
    (applySteps s.content (runSteps s evs)).2 = (evs.foldl happen s).content := by
  induction evs generalizing s with
  | nil => rfl
  | cons ev evs ih =>
    rw [runSteps, applySteps_append, applySteps_stepsOf h.1, ih h.2, List.foldl_cons]

end RpiOs.V6.Append
