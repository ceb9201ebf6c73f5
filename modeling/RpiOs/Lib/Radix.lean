import RpiOs.Lib.Fallible
import Mathlib.Data.List.Nodup
import Mathlib.Data.List.Perm.Basic
import Mathlib.Data.List.Range
import Mathlib.Algebra.Order.Group.Nat
import Mathlib.Tactic.Ring

/-!
# Radix trees of tables in a memory

A memory holds, for each frame, a table of `n` entries. `child e` is the frame an entry points to,
if it is present. A tree of height `h` is a frame whose entries point to trees of height `h - 1`;
the entries of the tables of height 0 are the leaves, found by the digits of a key in base `n`.

* `tables`: the frames of all tables of a tree; a tree is sound when they are pairwise distinct.
-/

namespace RpiOs.Lib.Radix

/-- A memory of tables: frame, index, entry. -/
abbrev Store (E : Type*) := Nat → Nat → E

variable {E : Type*}

/-- Write one entry. -/
def Store.write (m : Store E) (f i : Nat) (e : E) : Store E :=
  fun g j => if g = f ∧ j = i then e else m g j

/-- Fill a table with one entry. -/
def Store.fill (m : Store E) (f : Nat) (e : E) : Store E :=
    fun g => if g = f then fun _ => e else m g

lemma Store.write_self (m : Store E) (f i : Nat) (e : E) : m.write f i e f i = e := by
  simp [write]

lemma Store.write_of_ne (m : Store E) {f g : Nat} (h : g ≠ f) (i : Nat) (e : E) :
    m.write f i e g = m g := by
  funext j
  simp [write, h]

lemma Store.fill_self (m : Store E) (f : Nat) (e : E) (i : Nat) : m.fill f e f i = e := by
  simp [fill]

lemma Store.fill_of_ne (m : Store E) {f g : Nat} (h : g ≠ f) (e : E) : m.fill f e g = m g := by
  simp [fill, h]

section tree

variable (n : Nat) (child : E → Option Nat)

/-- The frames of the tables of a tree. -/
def tables (m : Store E) : Nat → Nat → List Nat
  | 0, f => [f]
  | h + 1, f => f :: (List.range n).flatMap fun i => (child (m f i)).elim [] (tables m h)

/-- The tables below one entry. -/
def part (m : Store E) (h f i : Nat) : List Nat := (child (m f i)).elim [] (tables n child m h)

/-- The index of a key in the tables of height `h`. -/
def digit (h k : Nat) : Nat := k / n ^ h % n

/-- Where the leaf of a key is. -/
def slot (m : Store E) : Nat → Nat → Nat → Option (Nat × Nat)
  | 0, f, k => some (f, digit n 0 k)
  | h + 1, f, k => (child (m f (digit n (h + 1) k))).bind fun g => slot m h g k

/-- The leaf of a key, if there is one and it is present. -/
def entry (m : Store E) (h f k : Nat) : Option E :=
  (slot n child m h f k).bind fun x => if (child (m x.1 x.2)).isSome then some (m x.1 x.2) else none

/-- The present leaves with their keys, in the order of the keys; `p` is the key down to `f`. -/
def leaves (m : Store E) : Nat → Nat → Nat → List (Nat × E)
  | 0, f, p => (List.range n).flatMap fun i =>
    if (child (m f i)).isSome then [(p * n + i, m f i)] else []
  | h + 1, f, p => (List.range n).flatMap fun i =>
    (child (m f i)).elim [] fun g => leaves m h g (p * n + i)

variable {n} {child} {m m' : Store E} {h f g k d : Nat} {p : Nat}

lemma digit_lt (hn : 0 < n) : digit n h k < n := Nat.mod_lt _ hn

lemma tables_succ : tables n child m (h + 1) f = f :: (List.range n).flatMap (part n child m h f) :=
  rfl

lemma mem_tables_self : f ∈ tables n child m h f := by
  cases h <;> simp [tables]

lemma part_eq (hg : child (m f d) = some g) : part n child m h f d = tables n child m h g := by
  simp [part, hg]

lemma part_none (hg : child (m f d) = none) : part n child m h f d = [] := by
  simp [part, hg]

lemma tables_succ_perm (hd : d < n) : (tables n child m (h + 1) f).Perm
    (part n child m h f d ++ f :: ((List.range n).erase d).flatMap (part n child m h f)) := by
  have hsplit : ((List.range n).flatMap (part n child m h f)).Perm
      (part n child m h f d ++ ((List.range n).erase d).flatMap (part n child m h f)) :=
    (List.perm_cons_erase (List.mem_range.mpr hd)).flatMap_right _
  exact (hsplit.cons f).trans List.perm_middle.symm

lemma mem_tables_of_part {i x : Nat} (hi : i < n) (hx : x ∈ part n child m h f i) :
    x ∈ tables n child m (h + 1) f :=
  List.mem_cons_of_mem _ (List.mem_flatMap.mpr ⟨i, List.mem_range.mpr hi, hx⟩)

lemma mem_tables_of_child {i x : Nat} (hi : i < n) (hg : child (m f i) = some g)
    (hx : x ∈ tables n child m h g) : x ∈ tables n child m (h + 1) f :=
  mem_tables_of_part hi (by rwa [part_eq hg])

/-- In a sound tree the part below one entry is sound and apart from the rest. -/
lemma nodup_split (hnd : (tables n child m (h + 1) f).Nodup) (hd : d < n) :
    (part n child m h f d).Nodup ∧ f ∉ part n child m h f d ∧
      ∀ i < n, i ≠ d → ∀ x ∈ part n child m h f i, x ∉ part n child m h f d := by
  have hsplit := (tables_succ_perm hd).nodup_iff.mp hnd
  obtain ⟨hpart, -, hdis⟩ := List.nodup_append.mp hsplit
  refine ⟨hpart, fun hmem => hdis _ hmem f List.mem_cons_self rfl, fun i hi hne x hx hmem => ?_⟩
  refine hdis x hmem x (List.mem_cons_of_mem _ (List.mem_flatMap.mpr ⟨i, ?_, hx⟩)) rfl
  exact (List.mem_erase_of_ne hne).mpr (List.mem_range.mpr hi)

/-! ### Frame rules -/

/-- A tree does not depend on what is outside its tables. -/
theorem tables_congr (hm : ∀ g ∈ tables n child m h f, m' g = m g) :
    tables n child m' h f = tables n child m h f := by
  induction h generalizing f with
  | zero => rfl
  | succ h ih => ?_
  have hf : m' f = m f := hm f mem_tables_self
  rw [tables_succ, tables_succ]
  congr 1
  refine List.flatMap_congr fun i hi => ?_
  unfold part
  rw [hf]
  cases hc : child (m f i) with
  | none => rfl
  | some g =>
    exact ih fun x hx => hm x (mem_tables_of_child (List.mem_range.mp hi) hc hx)

lemma part_congr (hf : m' f d = m f d) (hm : ∀ g ∈ part n child m h f d, m' g = m g) :
    part n child m' h f d = part n child m h f d := by
  unfold part at hm ⊢
  rw [hf]
  cases hc : child (m f d) with
  | none => rfl
  | some g =>
    rw [hc] at hm
    exact tables_congr hm

lemma slot_mem (hn : 0 < n) {x : Nat × Nat} (hs : slot n child m h f k = some x) :
    x.1 ∈ tables n child m h f := by
  induction h generalizing f with
  | zero =>
    cases hs
    exact mem_tables_self
  | succ h ih =>
    obtain ⟨g, hg, hs⟩ := Option.bind_eq_some_iff.mp hs
    exact mem_tables_of_child (digit_lt hn) hg (ih hs)

/-- Nor does the place of a leaf. -/
theorem slot_congr (hn : 0 < n) (hm : ∀ g ∈ tables n child m h f, m' g = m g) :
    slot n child m' h f k = slot n child m h f k := by
  induction h generalizing f with
  | zero => rfl
  | succ h ih =>
    have hf : m' f = m f := hm f mem_tables_self
    simp only [slot, hf]
    cases hc : child (m f (digit n (h + 1) k)) with
    | none => rfl
    | some g => exact ih fun x hx => hm x (mem_tables_of_child (digit_lt hn) hc hx)

/-- An entry depends on the tables only. -/
theorem entry_congr (hn : 0 < n) (hm : ∀ g ∈ tables n child m h f, m' g = m g) :
    entry n child m' h f k = entry n child m h f k := by
  unfold entry
  rw [slot_congr hn hm]
  cases hs : slot n child m h f k with
  | none => rfl
  | some x =>
    have hmem := slot_mem hn hs
    simp only [Option.bind_some, hm _ hmem]

lemma entry_succ : entry n child m (h + 1) f k =
    (child (m f (digit n (h + 1) k))).bind fun g => entry n child m h g k := by
  simp only [entry, slot, Option.bind_assoc]

/-! ### Leaves -/

section

variable (hn : 0 < n) (hnd : (tables n child m h f).Nodup) {x : Nat × Nat}
include hn hnd

/-- Two keys with one slot agree up to the height of the tree. -/
lemma slot_inj {k' : Nat} (hk : slot n child m h f k = some x)
    (hk' : slot n child m h f k' = some x) :
    k % n ^ (h + 1) = k' % n ^ (h + 1) := by
  induction h generalizing f with
  | zero =>
    have hx := hk.trans hk'.symm
    simpa [slot, digit] using hx
  | succ h ih => ?_
  obtain ⟨g, hg, hk⟩ := Option.bind_eq_some_iff.mp hk
  obtain ⟨g', hg', hk'⟩ := Option.bind_eq_some_iff.mp hk'
  -- the leaf is below one entry only
  have hdig : digit n (h + 1) k' = digit n (h + 1) k := by
    by_contra hne
    refine (nodup_split hnd (digit_lt hn)).2.2 _ (digit_lt hn) hne x.1 ?_ ?_
    · rw [part_eq hg']
      exact slot_mem hn hk'
    · rw [part_eq hg]
      exact slot_mem hn hk
  rw [hdig, hg] at hg'
  cases hg'
  have hd : digit n (h + 1) k < n := digit_lt hn
  have hpart := (nodup_split hnd hd).1
  rw [part_eq hg] at hpart
  have hlow := ih hpart hk hk'
  unfold digit at hdig
  rw [Nat.mod_pow_succ (k := h + 1), hlow, ← hdig, ← Nat.mod_pow_succ]

/-- Writing a leaf changes no table. -/
theorem tables_write_leaf (hs : slot n child m h f k = some x) (e : E) :
    tables n child (m.write x.1 x.2 e) h f = tables n child m h f ∧
      ∀ k', slot n child (m.write x.1 x.2 e) h f k' = slot n child m h f k' := by
  induction h generalizing f with
  | zero => exact ⟨rfl, fun _ => rfl⟩
  | succ h ih => ?_
  obtain ⟨g, hg, hs⟩ := Option.bind_eq_some_iff.mp hs
  have hd : digit n (h + 1) k < n := digit_lt hn
  obtain ⟨hpart, hself, hdis⟩ := nodup_split hnd hd
  have hmem : x.1 ∈ part n child m h f (digit n (h + 1) k) := by
    rw [part_eq hg]
    exact slot_mem hn hs
  have hne : x.1 ≠ f := fun heq => hself (heq ▸ hmem)
  have hf : m.write x.1 x.2 e f = m f := Store.write_of_ne m hne.symm _ _
  have hother : ∀ i < n, i ≠ digit n (h + 1) k → ∀ y ∈ part n child m h f i,
      m.write x.1 x.2 e y = m y := fun i hi hne y hy =>
    Store.write_of_ne m (fun heq => hdis i hi hne y hy (by rwa [heq])) _ _
  rw [part_eq hg] at hpart
  obtain ⟨htab, hslot⟩ := ih hpart hs
  constructor
  · rw [tables_succ, tables_succ]
    congr 1
    refine List.flatMap_congr fun i hi => ?_
    by_cases hi' : i = digit n (h + 1) k
    · rw [hi', part_eq hg, part_eq (by rw [hf]; exact hg), htab]
    · exact part_congr (by rw [hf]) (hother i (List.mem_range.mp hi) hi')
  intro k'
  simp only [slot, hf]
  rcases hc : child (m f (digit n (h + 1) k')) with - | g'
  · rfl
  by_cases hk' : digit n (h + 1) k' = digit n (h + 1) k
  · rw [hk', hg] at hc
    cases hc
    exact hslot k'
  refine slot_congr hn fun y hy => hother _ (digit_lt hn) hk' y ?_
  rw [part_eq hc]
  exact hy

/-- What the tree stands for after writing a leaf. -/
theorem entry_write_leaf (hs : slot n child m h f k = some x) (hk : k < n ^ (h + 1)) (e : E)
    {k' : Nat} (hk' : k' < n ^ (h + 1))
    : entry n child (m.write x.1 x.2 e) h f k' =
      if k' = k then (if (child e).isSome then some e else none)
      else entry n child m h f k' := by
  unfold entry
  rw [(tables_write_leaf hn hnd hs e).2 k']
  split
  · next heq =>
    rw [heq, hs, Option.bind_some, Store.write_self]
  · next hne =>
    rcases hs' : slot n child m h f k' with - | y
    · rfl
    have hxy : y ≠ x := by
      rintro rfl
      have := slot_inj hn hnd hs' hs
      rw [Nat.mod_eq_of_lt hk, Nat.mod_eq_of_lt hk'] at this
      exact hne this
    have hread : m.write x.1 x.2 e y.1 y.2 = m y.1 y.2 := by
      unfold Store.write
      exact if_neg fun hboth => hxy (Prod.ext hboth.1 hboth.2)
    simp only [Option.bind_some, hread]

end

/-! ### Changes below one entry -/

section lift

variable (hf : ∀ i < n, i ≠ d → m' f i = m f i)
  (hother : ∀ i < n, i ≠ d → ∀ x ∈ part n child m h f i, m' x = m x)
include hf hother

/-- Tables added in one subtree are added in the tree. -/
lemma tables_lift (hd : d < n) {fs : List Nat}
    (hpart : (part n child m' h f d).Perm (fs ++ part n child m h f d)) :
    (tables n child m' (h + 1) f).Perm (fs ++ tables n child m (h + 1) f) := by
  have hrest : ((List.range n).erase d).flatMap (part n child m' h f) =
      ((List.range n).erase d).flatMap (part n child m h f) := by
    refine List.flatMap_congr fun i hi => ?_
    obtain ⟨hne, hi⟩ := (List.nodup_range.mem_erase_iff).mp hi
    have hi := List.mem_range.mp hi
    exact part_congr (hf i hi hne) (hother i hi hne)
  refine (tables_succ_perm hd).trans ?_
  rw [hrest]
  refine (hpart.append_right _).trans ?_
  rw [List.append_assoc]
  exact ((tables_succ_perm hd).symm).append_left fs

/-- A change below one entry that keeps the leaves there keeps all leaves. -/
lemma entry_lift (hn : 0 < n)
    (hpart : ∀ k, ((child (m' f d)).bind fun g => entry n child m' h g k) =
      (child (m f d)).bind fun g => entry n child m h g k) :
    entry n child m' (h + 1) f k = entry n child m (h + 1) f k := by
  rw [entry_succ, entry_succ]
  by_cases hk : digit n (h + 1) k = d
  · rw [hk]
    exact hpart k
  rw [hf _ (digit_lt hn) hk]
  cases hc : child (m f (digit n (h + 1) k)) with
  | none => rfl
  | some g =>
    refine entry_congr hn fun x hx => hother _ (digit_lt hn) hk x ?_
    rw [part_eq hc]
    exact hx

end lift

section empty

variable (hempty : ∀ i < n, child (m f i) = none)
include hempty

lemma tables_empty : tables n child m h f = [f] := by
  cases h with
  | zero => rfl
  | succ h =>
    rw [tables_succ, List.cons.injEq]
    refine ⟨rfl, List.flatMap_eq_nil_iff.mpr fun i hi => ?_⟩
    exact part_none (hempty i (List.mem_range.mp hi))

lemma entry_empty (hn : 0 < n) : entry n child m h f k = none := by
  cases h with
  | zero => simp [entry, slot, hempty _ (digit_lt hn)]
  | succ h => simp [entry_succ, hempty _ (digit_lt hn)]

end empty

/-! ### The list of leaves -/

lemma key_iff (hn : 0 < n) {q i : Nat} : i < n ∧ q = p * n + i ↔ q / n = p ∧ q % n = i := by
  constructor
  · rintro ⟨hi, rfl⟩
    exact ⟨by rw [Nat.mul_comm, Nat.mul_add_div hn, Nat.div_eq_of_lt hi, Nat.add_zero],
      by rw [Nat.mul_comm, Nat.mul_add_mod, Nat.mod_eq_of_lt hi]⟩
  · rintro ⟨rfl, rfl⟩
    exact ⟨Nat.mod_lt _ hn, (Nat.div_add_mod' q n).symm⟩

/-- The list of leaves is the finite map. -/
theorem mem_leaves (hn : 0 < n) {e : E} : (k, e) ∈ leaves n child m h f p ↔
    k / n ^ (h + 1) = p ∧ entry n child m h f k = some e := by
  induction h generalizing f p with
  | zero =>
    simp only [leaves, List.mem_flatMap, List.mem_range, entry, slot, digit, pow_zero, Nat.div_one,
      Option.bind_some, zero_add, pow_one]
    constructor
    · rintro ⟨i, hi, hmem⟩
      split at hmem
      · next hc =>
        obtain ⟨rfl, rfl⟩ := Prod.mk.inj (List.mem_singleton.mp hmem)
        obtain ⟨hp, hm⟩ := (key_iff hn).mp ⟨hi, rfl⟩
        exact ⟨hp, by rw [hm, if_pos hc]⟩
      · cases hmem
    · rintro ⟨hp, he⟩
      obtain ⟨hi, hk⟩ := (key_iff hn).mpr ⟨hp, rfl⟩
      split at he
      · next hc =>
        cases he
        exact ⟨k % n, hi, by rw [if_pos hc, ← hk]; exact List.mem_singleton.mpr rfl⟩
      · cases he
  | succ h ih =>
    have hkey : ∀ i, i < n ∧ k / n ^ (h + 1) = p * n + i ↔
        k / n ^ (h + 1 + 1) = p ∧ digit n (h + 1) k = i := by
      intro i
      rw [pow_succ n (h + 1), ← Nat.div_div_eq_div_mul, digit]
      exact key_iff hn
    simp only [leaves, List.mem_flatMap, List.mem_range, entry_succ]
    constructor
    · rintro ⟨i, hi, hmem⟩
      rcases hc : child (m f i) with - | g
      · simp [hc] at hmem
      rw [hc] at hmem
      obtain ⟨hk, he⟩ := ih.mp hmem
      obtain ⟨hp, hd⟩ := (hkey i).mp ⟨hi, hk⟩
      exact ⟨hp, by rw [hd, hc]; exact he⟩
    · rintro ⟨hp, he⟩
      obtain ⟨g, hc, he⟩ := Option.bind_eq_some_iff.mp he
      obtain ⟨hi, hk⟩ := (hkey _).mpr ⟨hp, rfl⟩
      exact ⟨_, hi, by rw [hc]; exact ih.mpr ⟨hk, he⟩⟩

/-- The leaves depend on the tables only. -/
lemma leaves_congr (hm : ∀ g ∈ tables n child m h f, m' g = m g) :
    leaves n child m' h f p = leaves n child m h f p := by
  induction h generalizing f p with
  | zero =>
    have hf : m' f = m f := hm f mem_tables_self
    simp only [leaves, hf]
  | succ h ih => ?_
  have hf : m' f = m f := hm f mem_tables_self
  unfold leaves
  refine List.flatMap_congr fun i hi => ?_
  rw [hf]
  cases hc : child (m f i) with
  | none => rfl
  | some g =>
    exact ih fun x hx => hm x (mem_tables_of_child (List.mem_range.mp hi) hc hx)

/-- No key is met twice. -/
lemma nodup_leaves (hn : 0 < n) : (leaves n child m h f p).Nodup := by
  induction h generalizing f p with
  | zero =>
    refine List.nodup_flatMap.mpr ⟨fun i _ => ?_, ?_⟩
    · split <;> simp
    refine List.nodup_range.pairwise_of_forall_ne fun i _ j _ hij => ?_
    show List.Disjoint _ _
    rintro ⟨k, e⟩ hi hj
    beta_reduce at hi hj
    split at hi <;> split at hj <;> simp_all
  | succ h ih =>
    refine List.nodup_flatMap.mpr ⟨fun i _ => ?_, ?_⟩
    · cases child (m f i) with
      | none => simp
      | some g => exact ih
    refine List.nodup_range.pairwise_of_forall_ne fun i _ j _ hij => ?_
    show List.Disjoint _ _
    rintro ⟨k, e⟩ hi hj
    beta_reduce at hi hj
    rcases hci : child (m f i) with - | g
    · simp [hci] at hi
    rcases hcj : child (m f j) with - | g'
    · simp [hcj] at hj
    rw [hci] at hi
    rw [hcj] at hj
    have := ((mem_leaves hn).mp hi).1.symm.trans ((mem_leaves hn).mp hj).1
    omega

/-! ### Nested loops over the tables -/

variable (n) (child) in
/-- The order in which nested loops meet the leaves and finish the tables. -/
def visits (m : Store E) : Nat → Nat → Nat → List (Nat × E ⊕ Nat)
  | 0, f, p => ((List.range n).flatMap fun i =>
    if (child (m f i)).isSome then [.inl (p * n + i, m f i)] else []) ++ [.inr f]
  | h + 1, f, p => ((List.range n).flatMap fun i =>
    (child (m f i)).elim [] fun g => visits m h g (p * n + i)) ++ [.inr f]

/-- The leaves among the visits of a walk over the tree. -/
lemma visits_leaves : (visits n child m h f p).filterMap Sum.getLeft? = leaves n child m h f p := by
  induction h generalizing f p with
  | zero =>
    simp only [visits, leaves, List.filterMap_append, List.filterMap_flatMap]
    simp only [List.filterMap_cons, List.filterMap_nil, Sum.getLeft?_inr, List.append_nil]
    refine List.flatMap_congr fun i _ => ?_
    split <;> rfl
  | succ h ih => ?_
  simp only [visits, leaves, List.filterMap_append, List.filterMap_flatMap]
  simp only [List.filterMap_cons, List.filterMap_nil, Sum.getLeft?_inr, List.append_nil]
  refine List.flatMap_congr fun i _ => ?_
  cases child (m f i) with
  | none => rfl
  | some g => exact ih

/-- The tables among them: each is visited once. -/
lemma visits_tables :
    ((visits n child m h f p).filterMap Sum.getRight?).Perm (tables n child m h f) := by
  induction h generalizing f p with
  | zero =>
    have hnone : ∀ i, ((if (child (m f i)).isSome then
        [Sum.inl (p * n + i, m f i)] else []) : List (Nat × E ⊕ Nat)).filterMap
        Sum.getRight? = [] := fun i => by split <;> rfl
    simp only [visits, tables, List.filterMap_append, List.filterMap_flatMap, hnone]
    simp
  | succ h ih => ?_
  simp only [visits, tables, List.filterMap_append, List.filterMap_flatMap]
  refine List.perm_append_comm.trans (List.Perm.cons f ?_)
  refine List.Perm.flatMap_left _ fun i _ => ?_
  cases child (m f i) with
  | none => exact List.Perm.refl _
  | some g => exact ih

end tree

section traverse

variable {ε σ : Type} {E : Type} (n : Nat) (child : E → Option Nat) (read : σ → Store E)
  (leaf : Nat → E → EStateM ε σ Unit) (post : Nat → EStateM ε σ Unit)

/-- Nested loops: `leaf` at each present leaf, `post` at the end of each table. -/
def traverse : Nat → Nat → Nat → EStateM ε σ Unit
  | 0, f, p => do
    (List.range n).forM fun i => do
      let s ← get
      if (child (read s f i)).isSome then leaf (p * n + i) (read s f i)
    post f
  | h + 1, f, p => do
    (List.range n).forM fun i => do
      let s ← get
      match child (read s f i) with
      | none => pure ()
      | some g => traverse h g (p * n + i)
    post f

variable {n child read leaf post}

/-- **Rule for nested loops**: an invariant about the visits still to come, which must keep the
tables that are not finished as they were. -/
theorem ends_traverse (m : Store E) (I : List (Nat × E ⊕ Nat) → σ → Prop) {R : ε → σ → Prop}
    (hread : ∀ f vs s, I vs s → .inr f ∈ vs → read s f = m f)
    (hleaf : ∀ k e vs s, I (.inl (k, e) :: vs) s → Ends (leaf k e) s (fun _ => I vs) R)
    (hpost : ∀ f vs s, I (.inr f :: vs) s → Ends (post f) s (fun _ => I vs) R)
    (h f p : Nat) (vs : List (Nat × E ⊕ Nat)) {s : σ} (hI : I (visits n child m h f p ++ vs) s) :
    Ends (traverse n child read leaf post h f p) s (fun _ => I vs) R := by
  induction h generalizing f p vs s with
  | zero =>
    unfold traverse
    rw [ends_bind]
    let J : List Nat → σ → Prop := fun is s => I ((is.flatMap fun i =>
      if (child (m f i)).isSome then [.inl (p * n + i, m f i)] else []) ++ .inr f :: vs) s
    refine (ends_forM (I := J) (fun i is t hJ => ?_) ?_).imp (fun _ t hJ => ?_)
    · have ht : read t f = m f := hread f _ t hJ (by simp)
      simp only [ends_bind, ends_get, ht]
      unfold J at hJ ⊢
      rw [List.flatMap_cons] at hJ
      split
      · next hc =>
        rw [if_pos hc] at hJ
        exact hleaf _ _ _ _ hJ
      · next hc =>
        rw [if_neg hc] at hJ
        exact hJ
    · unfold J
      simpa [visits] using hI
    · exact hpost f vs t hJ
  | succ h ih =>
    unfold traverse
    rw [ends_bind]
    let J : List Nat → σ → Prop := fun is s => I ((is.flatMap fun i =>
      (child (m f i)).elim [] fun g => visits n child m h g (p * n + i)) ++ .inr f :: vs) s
    refine (ends_forM (I := J) (fun i is t hJ => ?_) ?_).imp (fun _ t hJ => ?_)
    · have ht : read t f = m f := hread f _ t hJ (by simp)
      simp only [ends_bind, ends_get, ht]
      unfold J at hJ ⊢
      rw [List.flatMap_cons] at hJ
      cases hc : child (m f i) with
      | none => simpa [hc] using hJ
      | some g =>
        rw [hc, Option.elim_some, List.append_assoc] at hJ
        exact ih _ _ _ hJ
    · unfold J
      simpa [visits] using hI
    · exact hpost f vs t hJ

attribute [irreducible] traverse

end traverse

end RpiOs.Lib.Radix
