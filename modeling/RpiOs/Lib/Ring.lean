import Mathlib.Data.List.Nodup
import Mathlib.Data.BitVec

/-!
# Intrusive circular lists

Nodes are linked by two pointers, `next` and `prev`. A list is a head together with the nodes met
on the way from the head back to it. One table of links carries many lists, so that a node is on at
most one of them: `Rings l H q` says that the heads in `H` carry the lists `q`, node-disjoint.

* `Rings.pushBack`, `Rings.drop`: insertion and removal, everything else unchanged.
* `forEachSafe`, `forEachSafe_spec`: the loop that fetches the successor before its body runs, and
  its invariant rule.
-/

namespace RpiOs.Lib

variable {ν : Type*}

/-- The two pointers of every node. -/
structure Links (ν : Type*) where
  next : ν → ν
  prev : ν → ν

namespace Links

/-- Going from `a` to `b` by `next` meets the nodes `xs`, and `prev` leads back. -/
def Linked (l : Links ν) : ν → List ν → ν → Prop
  | a, [], b => l.next a = b ∧ l.prev b = a
  | a, x :: xs, b => (l.next a = x ∧ l.prev x = a) ∧ l.Linked x xs b

variable {l l' : Links ν} {a b c h : ν} {xs ys : List ν}

lemma linked_append_cons : l.Linked a (xs ++ c :: ys) b ↔ l.Linked a xs c ∧ l.Linked c ys b := by
  induction xs generalizing a with
  | nil => simp [Linked]
  | cons x xs ih => simp [Linked, ih, and_assoc]

/-- What a segment depends on: `next` of all its nodes but the last, `prev` of all but the first. -/
lemma Linked.congr (h : l.Linked a xs b) (hn : ∀ x ∈ a :: xs, l'.next x = l.next x)
    (hp : ∀ x ∈ xs ++ [b], l'.prev x = l.prev x) : l'.Linked a xs b := by
  induction xs generalizing a with
  | nil =>
    rw [Linked, hn a (by simp), hp b (by simp)]
    exact h
  | cons x xs ih =>
    refine ⟨?_, ih h.2 (fun y hy => hn y (List.mem_cons_of_mem _ hy)) fun y hy =>
      hp y (List.mem_append.mpr ((List.mem_append.mp hy).imp_left (List.mem_cons_of_mem _)))⟩
    rw [hn a (by simp), hp x (by simp)]
    exact h.1

lemma Linked.next_head (h : l.Linked a xs b) : l.next a = xs.headD b := by
  cases xs with
  | nil => exact h.1
  | cons x xs => exact h.1.1

lemma Linked.prev_last (h : l.Linked a xs b) : l.prev b = xs.getLastD a := by
  induction xs generalizing a with
  | nil => exact h.2
  | cons x xs ih =>
    rw [List.getLastD_cons]
    exact ih h.2

variable [DecidableEq ν]

def setNext (l : Links ν) (x y : ν) : Links ν := { l with next := Function.update l.next x y }

def setPrev (l : Links ν) (x y : ν) : Links ν := { l with prev := Function.update l.prev x y }

@[simp] lemma setNext_next (l : Links ν) (x y z : ν) :
    (l.setNext x y).next z = if z = x then y else l.next z := by
  simp [setNext, Function.update_apply]

@[simp] lemma setNext_prev (l : Links ν) (x y : ν) : (l.setNext x y).prev = l.prev := rfl

@[simp] lemma setPrev_prev (l : Links ν) (x y z : ν) :
    (l.setPrev x y).prev z = if z = x then y else l.prev z := by
  simp [setPrev, Function.update_apply]

@[simp] lemma setPrev_next (l : Links ν) (x y : ν) : (l.setPrev x y).next = l.next := rfl

/-- Make `h` the head of an empty list. -/
def init (l : Links ν) (h : ν) : Links ν := (l.setPrev h h).setNext h h

/-- Put `c` between `p` and `n`. -/
def insert (l : Links ν) (c p n : ν) : Links ν :=
  (((l.setPrev n c).setNext c n).setPrev c p).setNext p c

/-- Put `c` at the end of the list of `h`. -/
def pushBack (l : Links ν) (h c : ν) : Links ν := l.insert c (l.prev h) h

/-- Close the gap between `p` and `n`. -/
def del (l : Links ν) (p n : ν) : Links ν := (l.setPrev n p).setNext p n

/-- Take `c` out of its list. -/
def drop (l : Links ν) (c : ν) : Links ν := l.del (l.prev c) (l.next c)

/-- A node inserted before the head comes last. -/
lemma Linked.pushBack (hl : l.Linked h xs h) (hd : (h :: xs).Nodup) (hc : c ∉ h :: xs) :
    (l.pushBack h c).Linked h (xs ++ [c]) h := by
  rw [linked_append_cons, Links.pushBack, hl.prev_last]
  rcases List.eq_nil_or_concat xs with rfl | ⟨ys, p, rfl⟩
  · have hch : c ≠ h := fun e => hc (by simp [e])
    simp [Linked, insert, hch, hch.symm]
  rw [List.concat_eq_append] at hl hd hc ⊢
  rw [linked_append_cons] at hl ⊢
  simp only [List.getLastD_concat]
  refine ⟨⟨hl.1.congr (fun x hx => ?_) fun x hx => ?_, ?_⟩, ?_⟩
  · have : x ≠ c ∧ x ≠ p := by constructor <;> rintro rfl <;> grind
    simp [insert, this]
  · have : x ≠ c ∧ x ≠ h := by constructor <;> rintro rfl <;> grind
    simp [insert, this]
  · simp [Linked, insert]
  · have : c ≠ p ∧ h ≠ c := by constructor <;> rintro rfl <;> grind
    simp [Linked, insert, this]

/-- Linking two nodes leaves out what was between them. -/
lemma Linked.del (hl : l.Linked a xs c) (hd : (a :: xs).Nodup) (hb : b ∉ xs) :
    (l.del (xs.getLastD a) b).Linked a xs b := by
  rcases List.eq_nil_or_concat xs with rfl | ⟨ws, p, rfl⟩
  · simp [Linked, Links.del]
  rw [List.concat_eq_append] at hl hd hb ⊢
  rw [linked_append_cons] at hl ⊢
  simp only [List.getLastD_concat]
  refine ⟨hl.1.congr (fun x hx => ?_) fun x hx => ?_, ?_⟩
  · have : x ≠ p := by rintro rfl; grind
    simp [Links.del, this]
  · have : x ≠ b := by rintro rfl; grind
    simp [Links.del, this]
  · simp [Linked, Links.del]

/-- A node taken out leaves the others in their order. -/
lemma Linked.drop (hl : l.Linked h (xs ++ c :: ys) h) (hd : (h :: (xs ++ c :: ys)).Nodup) :
    (l.drop c).Linked h (xs ++ ys) h := by
  rw [linked_append_cons] at hl
  have hhead : (h :: xs).Nodup := hd.sublist (by simp)
  rw [Links.drop, hl.1.prev_last, hl.2.next_head]
  rcases ys with - | ⟨n, ys⟩
  · rw [List.append_nil]
    exact hl.1.del hhead (List.nodup_cons.mp hhead).1
  have hp : xs.getLastD h ∈ h :: xs := List.getLastD_mem_cons
  rw [linked_append_cons]
  refine ⟨hl.1.del hhead (by grind), hl.2.2.congr (fun x hx => ?_) fun x hx => ?_⟩
  · have : x ≠ xs.getLastD h := by
      intro e
      rw [← e] at hp
      grind
    rw [Links.del, setNext_next, if_neg this, setPrev_next]
  · have : x ≠ n := by rintro rfl; grind
    rw [Links.del, setNext_prev, List.headD_cons, setPrev_prev, if_neg this]

/-- The nodes met when following `next` from `x` until `h` comes up. -/
def collect (l : Links ν) (h : ν) : Nat → ν → List ν
  | 0, _ => []
  | n + 1, x => if x = h then [] else x :: l.collect h n (l.next x)

lemma Linked.collect (hl : l.Linked a xs h) (hx : h ∉ xs) {n : Nat} (hn : xs.length ≤ n) :
    l.collect h n (l.next a) = xs := by
  induction xs generalizing a n with
  | nil => cases n <;> simp [Links.collect, hl.1]
  | cons x xs ih =>
    obtain ⟨m, rfl⟩ : ∃ m, n = m + 1 := ⟨n - 1, by simp at hn; omega⟩
    have hxh : x ≠ h := fun e => hx (by simp [e])
    rw [hl.1.1, Links.collect, if_neg hxh,
      ih hl.2 (fun hm => hx (List.mem_cons_of_mem _ hm)) (by simpa using hn)]

end Links

/-! ## Many lists in one table -/

/-- The heads in `H` carry the lists `q`, and no node is on two of them. -/
structure Rings (l : Links ν) (H : ν → Prop) (q : ν → List ν) : Prop where
  linked : ∀ h, H h → l.Linked h (q h) h
  nodup : ∀ h, H h → (q h).Nodup
  not_head : ∀ h h', H h → H h' → h' ∉ q h
  disjoint : ∀ h h' x, H h → H h' → x ∈ q h → x ∈ q h' → h = h'

namespace Rings

variable {l l' : Links ν} {H H' : ν → Prop} {q q' : ν → List ν} {h h' c x : ν}

lemma nodup_cons (hr : Rings l H q) (hh : H h) : (h :: q h).Nodup :=
  List.nodup_cons.mpr ⟨hr.not_head h h hh hh, hr.nodup h hh⟩

/-- Two rings have no node in common. -/
lemma apart (hr : Rings l H q) (hh : H h) (hh' : H h') (hne : h' ≠ h) (hx : x ∈ h' :: q h') :
    x ∉ h :: q h := by
  intro hx'
  rcases List.mem_cons.mp hx with rfl | hx
  · rcases List.mem_cons.mp hx' with e | hx'
    · exact hne e
    · exact hr.not_head h x hh hh' hx'
  rcases List.mem_cons.mp hx' with rfl | hx'
  · exact hr.not_head h' x hh' hh hx
  · exact hne (hr.disjoint h' h x hh' hh hx hx')

lemma mono (hr : Rings l H q) (hH : ∀ h, H' h → H h) : Rings l H' q where
  linked h hh := hr.linked h (hH h hh)
  nodup h hh := hr.nodup h (hH h hh)
  not_head h h' hh hh' := hr.not_head h h' (hH h hh) (hH h' hh')
  disjoint h h' x hh hh' := hr.disjoint h h' x (hH h hh) (hH h' hh')

/-- Rings depend on the pointers of their nodes only. -/
lemma congr (hr : Rings l H q) (hl : ∀ h, H h → ∀ x ∈ h :: q h,
    l'.next x = l.next x ∧ l'.prev x = l.prev x) (hq : ∀ h, H h → q' h = q h) : Rings l' H q' where
  linked h hh := by
    rw [hq h hh]
    refine (hr.linked h hh).congr (fun x hx => (hl h hh x hx).1) fun x hx => (hl h hh x ?_).2
    rcases List.mem_append.mp hx with hx | hx
    · exact List.mem_cons_of_mem _ hx
    · exact List.mem_cons.mpr (.inl (List.mem_singleton.mp hx))
  nodup h hh := by
    rw [hq h hh]
    exact hr.nodup h hh
  not_head h h' hh hh' := by
    rw [hq h hh]
    exact hr.not_head h h' hh hh'
  disjoint h h' x hh hh' := by
    rw [hq h hh, hq h' hh']
    exact hr.disjoint h h' x hh hh'

variable [DecidableEq ν]

/-- One list is replaced by `ys`, made of its own nodes and of nodes on no list. -/
lemma update {ys : List ν} (hr : Rings l H q) (hh : H h) (hys : l'.Linked h ys h)
    (hnd : (h :: ys).Nodup) (hnew : ∀ x ∈ ys, ¬ H x ∧ ∀ h', H h' → h' ≠ h → x ∉ q h')
    (hframe : ∀ x, x ∉ h :: q h → x ∉ ys → l'.next x = l.next x ∧ l'.prev x = l.prev x) :
    Rings l' H (Function.update q h ys) := by
  have hself : Function.update q h ys h = ys := Function.update_self ..
  have hother : ∀ h', h' ≠ h → Function.update q h ys h' = q h' := fun h' hne =>
    Function.update_of_ne hne ..
  refine ⟨fun h' hh' => ?_, fun h' hh' => ?_, fun h1 h2 hh1 hh2 => ?_,
    fun h1 h2 x hh1 hh2 hx1 hx2 => ?_⟩
  · by_cases hne : h' = h
    · rw [hne, hself]
      exact hys
    rw [hother h' hne]
    have hold : ∀ x ∈ h' :: q h', l'.next x = l.next x ∧ l'.prev x = l.prev x := by
      intro x hx
      refine hframe x (hr.apart hh hh' hne hx) fun hxy => ?_
      rcases List.mem_cons.mp hx with rfl | hx
      · exact (hnew x hxy).1 hh'
      · exact (hnew x hxy).2 h' hh' hne hx
    refine (hr.linked h' hh').congr (fun x hx => (hold x hx).1) fun x hx => (hold x ?_).2
    rw [List.mem_append, List.mem_singleton] at hx
    exact List.mem_cons.mpr hx.symm
  · by_cases hne : h' = h
    · rw [hne, hself]
      exact (List.nodup_cons.mp hnd).2
    · rw [hother h' hne]
      exact hr.nodup h' hh'
  · by_cases hne : h1 = h
    · rw [hne, hself]
      exact fun hm => (hnew h2 hm).1 hh2
    · rw [hother h1 hne]
      exact hr.not_head h1 h2 hh1 hh2
  · by_cases hne1 : h1 = h <;> by_cases hne2 : h2 = h
    · rw [hne1, hne2]
    · rw [hne1, hself] at hx1
      rw [hother h2 hne2] at hx2
      exact absurd hx2 ((hnew x hx1).2 h2 hh2 hne2)
    · rw [hne2, hself] at hx2
      rw [hother h1 hne1] at hx1
      exact absurd hx1 ((hnew x hx2).2 h1 hh1 hne1)
    rw [hother h1 hne1] at hx1
    rw [hother h2 hne2] at hx2
    exact hr.disjoint h1 h2 x hh1 hh2 hx1 hx2

/-- **Insertion**: a node on no list goes to the end of one. -/
theorem pushBack (hr : Rings l H q) (h c : ν) (hh : H h) (hc : ¬ H c)
    (hfree : ∀ h', H h' → c ∉ q h') :
    Rings (l.pushBack h c) H (Function.update q h (q h ++ [c])) := by
  have hmem : c ∉ h :: q h := by
    rw [List.mem_cons, not_or]
    exact ⟨fun e => hc (e ▸ hh), hfree h hh⟩
  have hlast : l.prev h ∈ h :: q h := by
    rw [(hr.linked h hh).prev_last]
    exact List.getLastD_mem_cons
  refine hr.update hh ((hr.linked h hh).pushBack (hr.nodup_cons hh) hmem) ?_ (fun x hx => ?_)
    fun x hx hxy => ?_
  · have := hr.nodup_cons hh
    rw [← List.cons_append, List.nodup_append]
    exact ⟨this, List.nodup_singleton c, fun a ha b hb e => hmem (by simp_all)⟩
  · rcases List.mem_append.mp hx with hx | hx
    · exact ⟨fun hH => hr.not_head h x hh hH hx,
        fun h' hh' hne hx' => hne (hr.disjoint h' h x hh' hh hx' hx)⟩
    · rw [List.mem_singleton.mp hx]
      exact ⟨hc, fun h' hh' _ => hfree h' hh'⟩
  have hxh : x ≠ h := fun e => hx (by simp [e])
  have hxc : x ≠ c := fun e => hxy (by simp [e])
  have hxp : x ≠ l.prev h := fun e => hx (e ▸ hlast)
  simp [Links.pushBack, Links.insert, hxh, hxc, hxp]

/-- **Removal**. -/
theorem drop (hr : Rings l H q) (h c : ν) (hh : H h) (hc : c ∈ q h) :
    Rings (l.drop c) H (Function.update q h ((q h).erase c)) := by
  have hnd := hr.nodup_cons hh
  have hlink := hr.linked h hh
  obtain ⟨xs, ys, hq⟩ := List.append_of_mem hc
  have herase : (q h).erase c = xs ++ ys := by
    rw [hq] at hnd ⊢
    rw [List.erase_append_right _ (by grind), List.erase_cons_head]
  have hpn : l.prev c ∈ h :: q h ∧ l.next c ∈ h :: q h := by
    rw [hq, Links.linked_append_cons] at hlink
    constructor
    · rw [hlink.1.prev_last, hq]
      have : xs.getLastD h ∈ h :: xs := List.getLastD_mem_cons
      grind
    · rw [hlink.2.next_head, hq]
      cases ys <;> simp
  rw [herase]
  refine hr.update hh ?_ ?_ (fun x hx => ?_) fun x hx _ => ?_
  · rw [hq] at hlink hnd
    exact hlink.drop hnd
  · rw [hq] at hnd
    exact hnd.sublist (by simp)
  · have hx' : x ∈ q h := by
      rw [hq]
      exact List.mem_append.mpr ((List.mem_append.mp hx).imp_right (List.mem_cons_of_mem _))
    exact ⟨fun hH => hr.not_head h x hh hH hx',
      fun h' hh' hne hx1 => hne (hr.disjoint h' h x hh' hh hx1 hx')⟩
  · have hxp : x ≠ l.prev c := fun e => hx (e ▸ hpn.1)
    have hxn : x ≠ l.next c := fun e => hx (e ▸ hpn.2)
    simp [Links.drop, Links.del, hxp, hxn]

/-- A new ring. -/
lemma init (hr : Rings l H q) (h : ν) (hh : ¬ H h) (hfree : ∀ h', H h' → h ∉ q h') :
    Rings (l.init h) (fun x => x = h ∨ H x) (Function.update q h []) := by
  have hself : Function.update q h [] h = [] := Function.update_self ..
  have hother : ∀ h', H h' → Function.update q h [] h' = q h' := fun h' hh' =>
    Function.update_of_ne (by rintro rfl; exact hh hh') ..
  have hold : Rings (l.init h) H (Function.update q h []) := by
    refine hr.congr (fun h' hh' x hx => ?_) hother
    have hxh : x ≠ h := by
      rintro rfl
      rcases List.mem_cons.mp hx with e | hx
      · exact hh (e ▸ hh')
      · exact hfree h' hh' hx
    simp [Links.init, hxh]
  refine ⟨?_, ?_, ?_, ?_⟩
  · rintro h' (rfl | hh')
    · simp [Links.Linked, Links.init]
    · exact hold.linked h' hh'
  · rintro h' (rfl | hh')
    · simp
    · exact hold.nodup h' hh'
  · rintro h1 h2 (rfl | hh1) hh2
    · simp
    rcases hh2 with rfl | hh2
    · rw [hother h1 hh1]
      exact hfree h1 hh1
    · exact hold.not_head h1 h2 hh1 hh2
  rintro h1 h2 x (rfl | hh1) hh2 hx1 hx2
  · simp at hx1
  rcases hh2 with rfl | hh2
  · simp at hx2
  · exact hold.disjoint h1 h2 x hh1 hh2 hx1 hx2

lemma collect (hr : Rings l H q) (h : ν) (hh : H h) {n : Nat} (hn : (q h).length ≤ n) :
    l.collect h n (l.next h) = q h :=
  (hr.linked h hh).collect (hr.not_head h h hh hh) hn

end Rings

/-! ## The loop that may unlink the node it is at -/

section forEachSafe

variable {σ ρ : Type*} [DecidableEq ν]

/-- `for (pos = first, n = pos->next; pos != head; pos = n, n = n->next) body`. The body sees the
node and the state; it hands on a new state, or leaves the loop with a result. `none` stands for a
loop that has not ended within the given number of rounds. -/
def forEachSafe (links : σ → Links ν) (head : ν) (body : ν → σ → σ ⊕ ρ) :
    Nat → ν → ν → σ → Option (σ ⊕ ρ)
  | 0, _, _, _ => none
  | k + 1, pos, n, s =>
    if pos = head then some (.inl s)
    else match body pos s with
      | .inl s' => forEachSafe links head body k n ((links s').next n) s'
      | .inr r => some (.inr r)

/-- The loop started at the front of the list of `head`. -/
def forEach (links : σ → Links ν) (head : ν) (body : ν → σ → σ ⊕ ρ) (fuel : Nat) (s : σ) :
    Option (σ ⊕ ρ) :=
  forEachSafe links head body fuel ((links s).next head)
    ((links s).next ((links s).next head)) s

variable {links : σ → Links ν} {head : ν} {body : ν → σ → σ ⊕ ρ} (I : List ν → σ → Prop)
  (R : ρ → Prop) (hnext : ∀ x xs s, I (x :: xs) s → x ≠ head ∧ (links s).next x = xs.headD head)
  (hbody : ∀ x xs s, I (x :: xs) s → Sum.elim (I xs) R (body x s))
include hnext hbody

/-- **Invariant rule** for the loop. `I xs s`: in state `s` the nodes `xs` are still to be visited.
The body may unlink the node it is at, as long as the nodes after it stay linked. -/
theorem forEachSafe_spec {k : Nat} {xs : List ν} {n : ν} {s : σ} (hI : I xs s) (hk : xs.length < k)
    (hn : ∀ x ys, xs = x :: ys → n = ys.headD head) :
    ∃ r, forEachSafe links head body k (xs.headD head) n s = some r ∧ Sum.elim (I []) R r := by
  induction xs generalizing k n s with
  | nil =>
    obtain ⟨k, rfl⟩ : ∃ m, k = m + 1 := ⟨k - 1, by omega⟩
    exact ⟨.inl s, by simp [forEachSafe], hI⟩
  | cons x xs ih => ?_
  obtain ⟨k, rfl⟩ : ∃ m, k = m + 1 := ⟨k - 1, by omega⟩
  rw [List.headD_cons, forEachSafe, if_neg (hnext x xs s hI).1]
  have hb := hbody x xs s hI
  cases hres : body x s with
  | inr r =>
    rw [hres] at hb
    exact ⟨.inr r, rfl, hb⟩
  | inl s' =>
    rw [hres] at hb
    rw [hn x xs rfl]
    refine ih hb (by simpa using hk) fun y ys e => ?_
    subst e
    exact (hnext y ys s' hb).2

/-- The rule for a loop over a whole list. -/
theorem forEach_spec (xs : List ν) {fuel : Nat} {s : σ} (hI : I xs s) (hfuel : xs.length < fuel)
    (hfirst : (links s).next head = xs.headD head) :
    ∃ r, forEach links head body fuel s = some r ∧ Sum.elim (I []) R r := by
  unfold forEach
  rw [hfirst]
  refine forEachSafe_spec I R hnext hbody hI hfuel fun x ys e => ?_
  subst e
  exact (hnext x ys s hI).2

end forEachSafe

end RpiOs.Lib
