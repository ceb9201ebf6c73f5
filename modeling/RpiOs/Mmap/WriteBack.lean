import RpiOs.Mmap.Calls

/-!
# Where a shared mapping is written back

A `munmap` of the first pages of a region moves the address of the region and keeps its offset in
the file. Every write-back of the region after that goes to the wrong place in the file.

* `front_writeback_iff`: when all bytes of the mapping go where they belong.
* `msync_complete_iff`: `msync` looks for a region that starts at the address, so it writes all that
  it should only if there is no gap before any of it.
-/

namespace RpiOs.Mmap

open Lib Vm

variable {kend f : Nat} {s : Sys} {r r₀ : Region}

/-- `munmap` calls on the first pages of what is left of a region at `addr`. -/
def unmapFronts (kend : Nat) : List (Env × Nat) → Nat → M Unit
  | [], _ => return ()
  | (env, length) :: rest, addr => do
    let _ ← munmap kend env addr length
    unmapFronts kend rest (addr + roundUp length)

/-- The bytes they unmap. -/
def frontBytes : List (Env × Nat) → Nat
  | [] => 0
  | (_, length) :: rest => roundUp length + frontBytes rest

/-- Each of the calls removes pages and leaves some, of `left` bytes. -/
def FrontsOk : List (Env × Nat) → Nat → Prop
  | [], _ => True
  | (env, length) :: rest, left => 0 ≤ env.written ∧ 0 < roundUp length ∧ roundUp length < left ∧
      FrontsOk rest (left - roundUp length)

/-- The call on what remains. -/
inductive Last where
  | munmap (env : Env) (length : Nat)
  | msync (env : Env) (length : Nat) (flags : BitVec 32)

def Last.run (kend addr : Nat) : Last → M Int
  | .munmap env length => Mmap.munmap kend env addr length
  | .msync env length flags => Mmap.msync env addr length flags

/-- The bytes of the region that the last call writes, of `left`. -/
def Last.bytes (left : Nat) : Last → Nat
  | .munmap _ _ => left
  | .msync _ length flags => if has flags msAsync ∨ !has flags msSync then 0 else min left length

/-- Every byte of the mapping that is written goes to its place in the file: the byte at `r.addr +
k` to offset `r.offset + k`. -/
def WritesRight (r : Region) (f : Nat) (w : WriteBack) : Prop :=
  ∀ k < r.length, w.addr ≤ r.addr + k → r.addr + k < w.addr + w.length →
    w.f = f ∧ w.offset + (r.addr + k - w.addr) = r.offset + k

/-! ## What remains of a region -/

/-- The region `r` is what remains of `r₀` without its first `t` bytes. -/
structure Remains (kend : Nat) (s : Sys) (f : Nat) (r₀ : Region) (t : Nat) (r : Region) : Prop where
  ok : MmapOk kend s
  mem : r ∈ s.mm.regions
  addr : r.addr = r₀.addr + t
  length : r.length + t = r₀.length
  offset : r.offset = r₀.offset
  file : writesBack r = some f
  other : ∀ q ∈ s.mm.regions, q ≠ r → Apart r₀ q

/-- The write-back of what remains. -/
def backAt (f : Nat) (r₀ : Region) (t n : Nat) : WriteBack := ⟨f, r₀.addr + t, r₀.offset, n⟩

/-- A write-back is at the right place only from the start of the region as it was mapped. -/
lemma backAt_right {t n : Nat} (hn : t + n ≤ r₀.length) :
    WritesRight r₀ f (backAt f r₀ t n) ↔ t = 0 ∨ n = 0 := by
  unfold WritesRight backAt
  constructor
  · intro h
    by_contra hnot
    have := h t (by omega) (by dsimp only; omega) (by dsimp only; omega)
    dsimp only at this
    omega
  · rintro hor k hk hlo hhi
    dsimp only at hlo hhi ⊢
    omega

/-- A region is found by its address. -/
lemma MmapOk.find (h : MmapOk kend s) (hr : r ∈ s.mm.regions) :
    findMmapRegion s.mm.regions r.addr = some r := by
  have hok := h.region r hr
  have hpos := hok.pos
  have htop := hok.top
  unfold usertop at htop
  rcases hf : findMmapRegion s.mm.regions r.addr with - | q
  · have := List.find?_eq_none.mp hf r hr
    rw [decide_eq_true_eq, Nat.mod_eq_of_lt (by omega)] at this
    omega
  obtain ⟨hq, hle, hlt⟩ := findMmapRegion_some hf
  by_contra hne
  have hapart := h.apart hq hr fun heq => hne (congrArg some heq)
  unfold Apart Before at hapart
  omega

section remains

variable {t : Nat} {env : Env} {length : Nat} {fronts : List (Env × Nat)}

lemma Remains.afterWrite (h : Remains kend s f r₀ t r) (n : Nat) :
    (afterWrite s r n).writes = s.writes ++ [backAt f r₀ t n] := by
  unfold Mmap.afterWrite backAt
  rw [h.file, ← h.addr, ← h.offset]
  rfl

/-- `munmap` of a front part: the rest of the region remains, with the offset it had. -/
lemma Remains.munmap_front (h : Remains kend s f r₀ t r)
    (hw : 0 ≤ env.written) (hpos : 0 < roundUp length) (hlt : roundUp length < r.length) :
    Ends (munmap kend env r.addr length) s
      (fun _ s' => Remains kend s' f r₀ (t + roundUp length) (cutFront (roundUp length) r) ∧
        s'.writes = s.writes ++ [backAt f r₀ t r.length]) := by
  have hok := h.ok.region r h.mem
  have htop := hok.top
  have haddr : add64 r.addr (roundUp length) = r.addr + roundUp length := by
    unfold usertop at htop
    unfold add64
    omega
  have hr' : r ∈ (Mmap.afterWrite s r r.length).mm.regions := by simpa using h.mem
  unfold munmap
  rw [if_neg (by have := hok.addr; omega), ends_bind, ends_get, h.ok.find h.mem]
  simp only [ends_bind, ends_writeBack, decide_eq_true_eq]
  rw [if_pos (.inr hw)]
  refine (unmapRegion_front (h.ok.afterWrite _) hr' hlt (roundUp_mod _)).imp ?_
  rintro - s' ⟨hok', hwrites, hregions⟩
  rw [afterWrite_mm, updateFirst_eq_map h.ok.nodup] at hregions
  refine ⟨⟨hok', ?_, ?_, ?_, h.offset, h.file, fun q' hq' hne => ?_⟩, by rw [hwrites, h.afterWrite]⟩
  · rw [hregions]
    exact List.mem_map.mpr ⟨r, h.mem, if_pos rfl⟩
  · show add64 r.addr (roundUp length) = _
    rw [haddr, h.addr, Nat.add_assoc]
  · show r.length - roundUp length + (t + roundUp length) = r₀.length
    have := h.length
    omega
  rw [hregions] at hq'
  obtain ⟨q, hq, rfl⟩ := List.mem_map.mp hq'
  by_cases heq : q = r
  · exact absurd (by rw [if_pos heq, heq]) hne
  · rw [if_neg heq]
    exact h.other q hq heq

/-- The writes of a series of calls at the front. -/
def frontWrites (f : Nat) (r₀ : Region) : List (Env × Nat) → Nat → List WriteBack
  | [], _ => []
  | (_, length) :: rest, t =>
    backAt f r₀ t (r₀.length - t) :: frontWrites f r₀ rest (t + roundUp length)

/-- **A series of calls at the front**. -/
theorem unmapFronts_spec (h : Remains kend s f r₀ t r)
    (hok : FrontsOk fronts r.length) : Ends (unmapFronts kend fronts r.addr) s
      (fun _ s' => (∃ r', Remains kend s' f r₀ (t + frontBytes fronts) r') ∧
        s'.writes = s.writes ++ frontWrites f r₀ fronts t) := by
  induction fronts generalizing s t r with
  | nil => exact ⟨⟨r, h⟩, (List.append_nil _).symm⟩
  | cons front rest ih => ?_
  obtain ⟨env, length⟩ := front
  obtain ⟨hw, hpos, hlt, hrest⟩ := hok
  unfold unmapFronts
  refine (h.munmap_front hw hpos hlt).step ?_
  rintro - s' ⟨hr', hwrites⟩
  have hlen : r.length = r₀.length - t := by
    have := h.length
    omega
  have haddr : r.addr + roundUp length = (cutFront (roundUp length) r).addr := by
    rw [hr'.addr, h.addr, Nat.add_assoc]
  rw [haddr]
  refine (ih hr' hrest).imp ?_
  rintro - s'' ⟨hex, hwrites'⟩
  refine ⟨by rwa [frontBytes, ← Nat.add_assoc], ?_⟩
  rw [hwrites', hwrites, frontWrites, hlen, List.append_assoc]
  rfl

/-- The writes of the series are right if there is at most one call and nothing was cut before. -/
lemma frontWrites_right (hok : FrontsOk fronts (r₀.length - t)) :
    (∀ w ∈ frontWrites f r₀ fronts t, WritesRight r₀ f w) ↔
      fronts = [] ∨ t = 0 ∧ fronts.length = 1 := by
  rcases fronts with _ | ⟨⟨env, length⟩, _ | ⟨⟨env', length'⟩, rest⟩⟩
  · simp [frontWrites]
  · obtain ⟨-, hpos, hlt, -⟩ := hok
    simp only [frontWrites, List.forall_mem_singleton, List.length_singleton]
    rw [backAt_right (by omega)]
    simp only [reduceCtorEq, false_or, and_true]
    omega
  obtain ⟨-, hpos, hlt, -, hpos', hlt', -⟩ := hok
  simp only [frontWrites, List.forall_mem_cons, List.length_cons]
  rw [backAt_right (by omega), backAt_right (by omega)]
  simp only [reduceCtorEq, false_or]
  omega

/-! ## What `msync` writes -/

/-- Byte `x` belongs to file `f` at offset `o`. -/
def Belongs (rs : List Region) (x f o : Nat) : Prop :=
  ∃ r ∈ rs, writesBack r = some f ∧ r.addr ≤ x ∧ x < r.addr + r.length ∧ r.offset + (x - r.addr) = o

/-- It is written there. -/
def Put (ws : List WriteBack) (x f o : Nat) : Prop :=
  ∃ w ∈ ws, w.f = f ∧ w.addr ≤ x ∧ x < w.addr + w.length ∧ w.offset + (x - w.addr) = o

/-- A region that is written back starts at `addr`, and there is no gap up to `x`. -/
def Reached (rs : List Region) (addr x : Nat) : Prop :=
  (∃ r ∈ rs, r.addr = addr ∧ (writesBack r).isSome) ∧ ∀ y, addr ≤ y → y ≤ x →
    ∃ f o, Belongs rs y f o

section complete

variable {env : Env} {q : Region} {rs : List Region} {addr length x o : Nat} {ws : List WriteBack}

lemma belongs_cons : Belongs (q :: rs) x f o ↔
    (writesBack q = some f ∧ q.addr ≤ x ∧ x < q.addr + q.length ∧
    q.offset + (x - q.addr) = o) ∨ Belongs rs x f o := List.exists_mem_cons_iff ..

lemma writesRight_iff : (∀ w ∈ ws, WritesRight r₀ f w) ↔
    ∀ k < r₀.length, ∀ g o, Put ws (r₀.addr + k) g o → g = f ∧ o = r₀.offset + k := by
  constructor
  · rintro h k hk _ _ ⟨w, hw, rfl, hlo, hhi, rfl⟩
    exact h w hw k hk hlo hhi
  · exact fun h w hw k hk hlo hhi => h k hk _ _ ⟨w, hw, rfl, hlo, hhi, rfl⟩

/-- Behind the first region, the others count. -/
lemma belongs_of_le (hx : q.addr + q.length ≤ x) : Belongs (q :: rs) x f o ↔ Belongs rs x f o := by
  rw [belongs_cons, or_iff_right fun h => by omega]

section

variable (hbefore : ∀ r ∈ rs, Before q r)
include hbefore

lemma Belongs.le (h : Belongs rs x f o) : q.addr + q.length ≤ x := by
  obtain ⟨r, hr, -, hle, -⟩ := h
  exact (hbefore r hr).trans hle

/-- A region that is passed over. -/
lemma reached_of_miss (hmiss : ¬ (q.addr = addr ∧ (writesBack q).isSome)) (hx : addr ≤ x) :
    Belongs (q :: rs) x f o ∧ Reached (q :: rs) addr x ↔ Belongs rs x f o ∧ Reached rs addr x := by
  constructor
  · rintro ⟨hb, ⟨r, hr, hstart⟩, hall⟩
    have hr := (List.mem_cons.mp hr).resolve_left fun h => hmiss (h ▸ hstart)
    have hle : q.addr + q.length ≤ addr := hstart.1 ▸ hbefore r hr
    refine ⟨(belongs_of_le (hle.trans hx)).mp hb, ⟨r, hr, hstart⟩, fun y hy hyx => ?_⟩
    obtain ⟨g, o', hg⟩ := hall y hy hyx
    exact ⟨g, o', (belongs_of_le (hle.trans hy)).mp hg⟩
  · rintro ⟨hb, ⟨r, hr, hstart⟩, hall⟩
    refine ⟨belongs_cons.mpr (.inr hb), ⟨r, .tail _ hr, hstart⟩, fun y hy hyx => ?_⟩
    obtain ⟨g, o', hg⟩ := hall y hy hyx
    exact ⟨g, o', belongs_cons.mpr (.inr hg)⟩

/-- A region at the start. -/
lemma reached_of_hit (hf : writesBack q = some f) : Reached (q :: rs) q.addr x ↔
    (q.addr + q.length ≤ x → Reached rs (q.addr + q.length) x) := by
  constructor
  · rintro ⟨-, hall⟩ hx
    have hrest : ∀ y, q.addr + q.length ≤ y → y ≤ x → ∃ f o, Belongs rs y f o := fun y hy hyx => by
      obtain ⟨g, o', hg⟩ := hall y (by omega) hyx
      exact ⟨g, o', (belongs_of_le hy).mp hg⟩
    obtain ⟨g, o', r, hr, hg, hle, -⟩ := hrest _ le_rfl hx
    have hb := hbefore r hr
    unfold Before at hb
    exact ⟨⟨r, hr, by omega, by rw [hg]; rfl⟩, hrest⟩
  · refine fun h => ⟨⟨q, .head _, rfl, by rw [hf]; rfl⟩, fun y hy hyx => ?_⟩
    by_cases hlt : y < q.addr + q.length
    · exact ⟨f, _, belongs_cons.mpr (.inl ⟨hf, hy, hlt, rfl⟩)⟩
    · obtain ⟨g, o', hg⟩ := (h (by omega)).2 y (by omega) hyx
      exact ⟨g, o', belongs_cons.mpr (.inr hg)⟩

end

/-- **What `msync` writes**: the bytes that are reached, of the range or, if a write fails, of a
first part. -/
lemma msyncFrom_put (hok : ∀ r ∈ rs, RegionOk r) (hs : rs.Pairwise Before) :
    Ends (msyncFrom env rs addr length) s (fun v s' =>
      ∃ ws n, s'.writes = s.writes ++ ws ∧ n ≤ length ∧
      (0 < length → 0 < n) ∧ (v = 0 → n = length) ∧ ∀ x f o,
        Put ws x f o ↔ (addr ≤ x ∧ x < addr + n) ∧ Belongs rs x f o ∧ Reached rs addr x) := by
  induction rs generalizing s addr length with
  | nil =>
    exact ⟨[], length, (List.append_nil _).symm, le_rfl, id, fun _ => rfl,
      fun x f o => by simp [Put, Belongs]⟩
  | cons q rs ih => ?_
  obtain ⟨hbefore, hs⟩ := List.pairwise_cons.mp hs
  have hrest := fun s addr length => @ih s addr length (fun r hr => hok r (.tail _ hr)) hs
  by_cases hhit : q.addr = addr ∧ (writesBack q).isSome
  swap
  · unfold msyncFrom
    rw [if_neg hhit]
    refine (hrest s addr length).imp ?_
    rintro v s' ⟨ws, n, hwrites, hle, hpos, hv, hiff⟩
    refine ⟨ws, n, hwrites, hle, hpos, hv,
      fun x f o => (hiff x f o).trans (and_congr_right fun hx => ?_)⟩
    exact (reached_of_miss hbefore hhit hx.1).symm
  obtain ⟨rfl, hwb⟩ := hhit
  obtain ⟨f, hf⟩ := Option.isSome_iff_exists.mp hwb
  have hq := hok q (.head _)
  have hpos := hq.pos
  have htop := hq.top
  generalize hlen : min q.length length = len
  have hwrites : (afterWrite s q len).writes = s.writes ++ [⟨f, q.addr, q.offset, len⟩] := by
    unfold Mmap.afterWrite
    rw [hf]
    rfl
  -- the bytes of the region, and those behind it
  have hcons : ∀ ws n, n ≤ length - len →
    (∀ x g o, Put ws x g o ↔ (q.addr + len ≤ x ∧ x < q.addr + len + n) ∧
      Belongs rs x g o ∧ Reached rs (q.addr + len) x) → ∀ x g o,
      Put (⟨f, q.addr, q.offset, len⟩ :: ws) x g o ↔ (q.addr ≤ x ∧ x < q.addr + (len + n)) ∧
        Belongs (q :: rs) x g o ∧ Reached (q :: rs) q.addr x := fun ws n hn hws x g o => by
    have hle : Belongs rs x g o → q.addr + q.length ≤ x := Belongs.le hbefore
    rw [Put, List.exists_mem_cons_iff, ← Put, hws, belongs_cons, reached_of_hit hbefore hf, hf]
    rcases le_total q.length length with h | h
    · rw [Nat.min_eq_left h] at hlen
      grind
    · rw [Nat.min_eq_right h] at hlen
      grind
  have hlast := hcons [] 0 (Nat.zero_le _) fun x g o =>
    iff_of_false (by simp [Put]) fun h => by omega
  unfold msyncFrom
  rw [if_pos ⟨rfl, hwb⟩]
  simp only [ends_bind, ends_writeBack, decide_eq_true_eq, hlen]
  split
  swap
  · next hfail =>
    rw [hf] at hfail
    exact ⟨_, len, hwrites, by omega, by omega, fun hv => by simp [hv] at hfail, hlast⟩
  split
  · exact ⟨_, len, hwrites, by omega, by omega, fun _ => by omega, hlast⟩
  have hadd : add64 q.addr len = q.addr + len := by
    unfold usertop at htop
    unfold add64
    omega
  rw [hadd]
  refine (hrest _ _ _).imp ?_
  rintro v s' ⟨ws, n, hws, hle, -, hv, hiff⟩
  exact ⟨_ :: ws, len + n, by rw [hws, hwrites, List.append_assoc]; rfl, by omega, by omega,
    fun h => by have := hv h; omega, hcons ws n hle hiff⟩

end complete

/-! ## The last call -/

/-- **The last call**: the region is written, and besides that only others. -/
theorem Remains.last (h : Remains kend s f r₀ t r) (last : Last) :
    Ends (last.run kend r.addr) s (fun _ s' => ∃ ws, s'.writes = s.writes ++ ws ∧
      ((∀ w ∈ ws, WritesRight r₀ f w) ↔ t = 0 ∨ last.bytes r.length = 0)) := by
  have hok := h.ok.region r h.mem
  have hback : ∀ n ≤ r.length, WritesRight r₀ f (backAt f r₀ t n) ↔ t = 0 ∨ n = 0 := fun n hn =>
    backAt_right (by have := h.length; omega)
  cases last with
  | munmap env length =>
    have hgood : MunmapGood s env r.addr length := fun q hq _ => by
      rw [h.ok.find h.mem] at hq
      exact .inr (.inl (by rw [Option.some.inj hq]))
    refine (munmap_spec h.ok hgood).imp ?_
    rintro - s' ⟨-, hwrites⟩
    rw [if_neg (by have := hok.addr; omega), h.ok.find h.mem] at hwrites
    refine ⟨[backAt f r₀ t r.length], hwrites.trans (h.afterWrite _), ?_⟩
    rw [List.forall_mem_singleton]
    exact hback _ le_rfl
  | msync env length flags =>
    unfold Last.run msync Last.bytes
    dsimp only
    split
    · exact ⟨[], (List.append_nil _).symm, by simp⟩
    rw [if_neg (by have := hok.addr; omega), ends_bind, ends_get]
    refine (msyncFrom_put h.ok.region h.ok.sorted).imp ?_
    rintro - s' ⟨ws, n, hwrites, hle, hpos, -, hput⟩
    refine ⟨ws, hwrites, writesRight_iff.trans ⟨fun hall => ?_, fun hor k hk g o hg => ?_⟩⟩
    · -- the first byte of what remains
      by_contra hno
      have hfirst : Belongs s.mm.regions r.addr f r.offset :=
        ⟨r, h.mem, h.file, le_rfl, by have := hok.pos; omega, by omega⟩
      have hr := hall t (by have := h.length; omega) f r.offset (by
        rw [← h.addr, hput]
        refine ⟨by omega, hfirst, ⟨r, h.mem, rfl, by rw [h.file]; rfl⟩, fun y hy hyx => ?_⟩
        obtain rfl := Nat.le_antisymm hyx hy
        exact ⟨f, _, hfirst⟩)
      have := h.offset
      omega
    · obtain ⟨hrange, ⟨q, hq, hqf, hlo, hhi, rfl⟩, -⟩ := (hput _ g o).mp hg
      have haddr := h.addr
      have hlen := h.length
      by_cases heq : q = r
      · rw [heq] at hqf ⊢
        have := h.offset
        exact ⟨Option.some.inj (hqf.symm.trans h.file), by omega⟩
      · have hapart := h.other q hq heq
        unfold Apart Before at hapart
        omega

end remains

lemma MmapOk.remains (h : MmapOk kend s) (hr : r ∈ s.mm.regions) (hf : writesBack r = some f) :
    Remains kend s f r 0 r :=
  ⟨h, hr, rfl, rfl, rfl, hf, fun _ hq hne => h.apart hr hq hne.symm⟩

lemma frontBytes_eq_zero {fronts : List (Env × Nat)} {left : Nat} (h : FrontsOk fronts left) :
    frontBytes fronts = 0 ↔ fronts = [] := by
  cases fronts with
  | nil => simp [frontBytes]
  | cons front rest =>
    obtain ⟨-, hpos, -⟩ := h
    simp only [frontBytes, reduceCtorEq, iff_false]
    omega

/-- **Write-backs of a shared mapping**: for every shared writable file region, every series of
`munmap` calls that remove pages from its front, and a `munmap` or `msync` of what remains. All
bytes of the mapping that are written go to their place in the file iff there is no call at the
front, or one and the last call writes no byte. -/
theorem front_writeback_iff (h : MmapOk kend s) (hr : r ∈ s.mm.regions) (hf : writesBack r = some f)
    {fronts : List (Env × Nat)} (hok : FrontsOk fronts r.length) (last : Last) :
    ∃ a s' ws, (do
        unmapFronts kend fronts r.addr
        last.run kend (r.addr + frontBytes fronts)) s = .ok a s' ∧ s'.writes = s.writes ++ ws ∧
      ((∀ w ∈ ws, WritesRight r f w) ↔ fronts = [] ∨
        fronts.length = 1 ∧ last.bytes (r.length - frontBytes fronts) = 0) := by
  have hstart := h.remains hr hf
  obtain ⟨_, s₁, hrun₁, ⟨r', hr'⟩, hwrites₁⟩ := (unmapFronts_spec hstart hok).returns
  obtain ⟨a, s₂, hrun₂, ws, hwrites₂, hright⟩ := (hr'.last last).returns
  rw [Nat.zero_add] at hr'
  rw [hr'.addr] at hrun₂
  refine ⟨a, s₂, frontWrites f r fronts 0 ++ ws, (bind_run hrun₁ _).trans hrun₂,
    by rw [hwrites₂, hwrites₁, List.append_assoc], ?_⟩
  have hlen : r'.length = r.length - frontBytes fronts := by
    have := hr'.length
    omega
  rw [Nat.zero_add, hlen, frontBytes_eq_zero hok] at hright
  rw [List.forall_mem_append, frontWrites_right hok, hright]
  simp only [true_and, or_and_left]

/-- **When `msync` is complete**: if it returns 0, every byte of the range that belongs to a file is
written to its place there exactly if all such bytes are reached from `addr`. -/
theorem msync_complete_iff (env : Env) (addr length : Nat) (hok : ∀ r ∈ s.mm.regions, RegionOk r)
    (hs : s.mm.regions.Pairwise Before) (haddr : addr % 4096 = 0) :
    ∃ v s' ws, msync env addr length msSync s = .ok v s' ∧ s'.writes = s.writes ++ ws ∧ (v = 0 →
      ((∀ x f o, addr ≤ x → x < addr + length → Belongs s.mm.regions x f o → Put ws x f o) ↔
        ∀ x f o, addr ≤ x → x < addr + length → Belongs s.mm.regions x f o →
          Reached s.mm.regions addr x)) := by
  obtain ⟨v, s', hrun, ws, n, hwrites, -, -, hn, hput⟩ := (msyncFrom_put hok hs).returns
  refine ⟨v, s', ws, ?_, hwrites,
    fun hv => ⟨fun h x f o hx hlt hb => ?_, fun h x f o hx hlt hb => ?_⟩⟩
  · unfold msync
    rw [if_neg (by decide), if_neg (by omega)]
    exact hrun
  · exact ((hput x f o).mp (h x f o hx hlt hb)).2.2
  · exact (hput x f o).mpr ⟨⟨hx, by rwa [hn hv]⟩, hb, h x f o hx hlt hb⟩

/-! ### A file of three pages -/

/-- Reads give zeros and writes succeed. -/
def fileEnv : Env := ⟨true, 0, fun _ _ => .ok fun _ => 0, 0⟩

/-- `mmap(0, 0x3000, PROT_READ | PROT_WRITE, MAP_SHARED, 3, 0x2000)`. -/
def mapFile : Call := .mmap fileEnv 0 0x3000 3 mapShared 3 (some ⟨7, true, true⟩) 0x2000

/-- The region that it makes. -/
def fileRegion : Region := ⟨mmapbase, 0x3000, 0x2000, some 7, 3, mapShared⟩

def fileSys : Sys := step 16 startSys mapFile

lemma mapFile_good : Good 16 startSys mapFile := by
  intro a ha
  cases ha
  refine ⟨fun hne => absurd rfl hne, by decide, fun addr haddr _ _ => ?_⟩
  cases haddr
  decide +kernel

lemma fileSys_ok : MmapOk 16 fileSys := (step_spec startSys_ok mapFile_good).1

lemma fileSys_regions : fileSys.mm.regions = [fileRegion] := by decide +kernel

lemma fileSys_belongs {x : Nat} (hlo : mmapbase ≤ x) (hhi : x < mmapbase + 0x3000) :
    Belongs fileSys.mm.regions x 7 (0x2000 + (x - mmapbase)) :=
  ⟨fileRegion, by rw [fileSys_regions]; simp, by decide, hlo, hhi, rfl⟩

/-- The whole mapping is written. -/
theorem msync_complete_whole : ∃ v s' ws, msync fileEnv mmapbase 0x3000 msSync fileSys = .ok v s' ∧
    s'.writes = fileSys.writes ++ ws ∧ (v = 0 → ∀ x f o, mmapbase ≤ x → x < mmapbase + 0x3000 →
      Belongs fileSys.mm.regions x f o → Put ws x f o) := by
  obtain ⟨v, s', ws, hrun, hwrites, hiff⟩ :=
    msync_complete_iff fileEnv mmapbase 0x3000 fileSys_ok.region fileSys_ok.sorted (by decide)
  refine ⟨v, s', ws, hrun, hwrites, fun hv => (hiff hv).mpr fun x f o hx hlt _ =>
    ⟨?_, fun y hy hyx => ?_⟩⟩
  · exact ⟨fileRegion, by rw [fileSys_regions]; simp, rfl, rfl⟩
  · exact ⟨_, _, fileSys_belongs hy (by omega)⟩

/-- **A range inside of a region is not written**, and `msync` returns 0. -/
theorem msync_inside_lost : valueOf (msync fileEnv (mmapbase + 0x1000) 0x1000 msSync)
    fileSys = some 0 ∧
    (stateOf (msync fileEnv (mmapbase + 0x1000) 0x1000 msSync) fileSys).writes = [] ∧
      Belongs fileSys.mm.regions (mmapbase + 0x1000) 7 0x3000 :=
  ⟨by decide +kernel, by decide +kernel, fileSys_belongs (by decide) (by decide)⟩

/-- The first page is unmapped, and `msync` of the others is left to later: what is written goes to
its place. -/
theorem front_writeback_front : ∃ a s' ws, (do
        unmapFronts 16 [(fileEnv, 0x1000)] fileRegion.addr
        (Last.msync fileEnv 0x2000 msAsync).run 16 (fileRegion.addr +
        frontBytes [(fileEnv, 0x1000)])) fileSys =
          .ok a s' ∧
      s'.writes = fileSys.writes ++ ws ∧ ∀ w ∈ ws, WritesRight fileRegion 7 w := by
  have hfront : FrontsOk [(fileEnv, 0x1000)] fileRegion.length :=
    ⟨by decide, by decide, by decide, trivial⟩
  obtain ⟨a, s', ws, hrun, hwrites, hiff⟩ := front_writeback_iff fileSys_ok (r := fileRegion)
    (f := 7) (by rw [fileSys_regions]; simp) (by decide) hfront (.msync fileEnv 0x2000 msAsync)
  exact ⟨a, s', ws, hrun, hwrites, hiff.mpr (.inr ⟨rfl, by decide⟩)⟩

/-- **Bytes in the wrong place**: after `munmap` of the first page, the `munmap` of the other two
writes the byte at `addr + 0x1000`, which belongs to offset `0x3000`, to offset `0x2000`. -/
theorem front_writeback_shifted : MmapOk 16 fileSys ∧ fileSys.mm.regions = [fileRegion] ∧
      (stateOf (do
        unmapFronts 16 [(fileEnv, 0x1000)] fileRegion.addr
        (Last.munmap fileEnv 0x2000).run 16 (fileRegion.addr + 0x1000)) fileSys).writes =
        [⟨7, mmapbase, 0x2000, 0x3000⟩, ⟨7, mmapbase + 0x1000, 0x2000, 0x2000⟩] ∧
      ¬ WritesRight fileRegion 7 ⟨7, mmapbase + 0x1000, 0x2000, 0x2000⟩ := by
  refine ⟨fileSys_ok, fileSys_regions, by decide +kernel, fun h => ?_⟩
  exact absurd (h 0x1000 (by decide) (by decide) (by decide)).2 (by decide)

end RpiOs.Mmap
