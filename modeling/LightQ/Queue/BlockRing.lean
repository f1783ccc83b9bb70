/-
# `Queue.BlockRing` — what the ring of blocks holds

The blocks of a `ReaderWriterQueue` hold one queue.  A `View` says which items
each block holds and in which order the blocks come: the live ones from
`frontBlock` to `tailBlock`, then the free ones, back to `frontBlock`.

`Block.Layout` is one block: its indices are positions, and its slots show
what lies between them.  `Blocks` is the ring: every block behind the front
one holds something, every block between the front one and the tail one is
full, and a free block is empty.  What a thread has done and not made known
enters as a parameter: the slot the consumer has `vacated`, the element the
producer has built (`pending`), the element in a free block that is about to
be the tail block (`landed`), a block that is not linked yet (`reserved`).

In one block, what the consumer has seen before the tail is there
(`Layout.count_pos`), and where the producer sees room there is room
(`Layout.count_lt`), so that the slot it builds on is vacant and the one that is
emptied is not (`Layout.construct`, `Layout.moveOut`).

Each thread moves what it owns, and `Blocks` is kept by what each of their
steps does: `Blocks.set` is a step on one block, and `advanceTail`,
`advanceFront`, `reserve` and `link` are the steps on the ring.  Where a thread
goes next is read off the order: behind the tail block lies the first free one or
the front block (`next_tail`), behind the front block a live one unless it is the
tail block (`next_front`, `live_of_one`).  Items put into the last live block come
last and the first item is that of the first live block (`contents_put`,
`contents_take`), which is what makes the ring a queue; and with no block free and
the tail block full it holds as much as was asked for (`maxSize_le`), which is
what makes a refusal right.
-/
import LightQ.Lib.RingBuffer
import LightQ.Queue.ReaderWriterQueue

namespace LightQ

open RingBuffer LinkedRing

/-! ## One block -/

namespace Block

variable {α : Type} {b : Block α} {cells : List (Option α)} {count : Nat}

/-- The block shows `cells` from its front on, `count` of them before its
tail. -/
def Layout (b : Block α) (cells : List (Option α)) (count : Nat) : Prop :=
  (∃ e, b.sizeMask + 1 = 2 ^ (e + 1)) ∧ ∃ low lag seen,
    Tracks (b.sizeMask + 1) b.localFront b.front b.localTail b.tail low lag seen count ∧
    Window (b.sizeMask + 1) b.data (low + lag) cells

theorem Layout.mask (h : b.Layout cells count) (i : Nat) :
    i &&& b.sizeMask = i % (b.sizeMask + 1) := by
  obtain ⟨⟨e, he⟩, -⟩ := h
  exact and_mask he i

theorem Layout.sizeMask_pos (h : b.Layout cells count) : 0 < b.sizeMask := by
  obtain ⟨⟨e, he⟩, -⟩ := h
  have hpow : 0 < 2 ^ e := Nat.two_pow_pos e
  rw [Nat.pow_succ] at he
  omega

theorem Layout.front_eq_tail (h : b.Layout cells count) : b.front = b.tail ↔ count = 0 := by
  obtain ⟨-, low, lag, seen, htracks, -⟩ := h
  exact htracks.front_eq_tail

theorem Layout.count_pos (h : b.Layout cells count) (hseen : b.front ≠ b.localTail) : 0 < count := by
  obtain ⟨-, low, lag, seen, htracks, -⟩ := h
  have hpos : seen ≠ 0 := fun hzero => hseen (htracks.front_eq_localTail.mpr hzero)
  have hle := htracks.seen_le
  omega

theorem Layout.next_eq_front (h : b.Layout cells count) :
    (b.tail + 1) &&& b.sizeMask = b.front ↔ count = b.sizeMask := by
  rw [h.mask]
  obtain ⟨-, low, lag, seen, htracks, -⟩ := h
  rw [htracks.next_eq_front]
  omega

theorem Layout.count_lt (h : b.Layout cells count)
    (hroom : (b.tail + 1) &&& b.sizeMask ≠ b.localFront) : count < b.sizeMask := by
  rw [h.mask] at hroom
  obtain ⟨-, low, lag, seen, htracks, -⟩ := h
  have hspare := htracks.spare
  have hne : lag + count + 1 ≠ b.sizeMask + 1 :=
    fun heq => hroom (htracks.next_eq_localFront.mpr heq)
  omega

theorem Layout.refreshFront (h : b.Layout cells count) :
    Layout { b with localFront := b.front } cells count := by
  obtain ⟨hsize, low, lag, seen, htracks, hwindow⟩ := h
  exact ⟨hsize, low + lag, 0, seen, htracks.refresh_front, hwindow⟩

theorem Layout.refreshTail (h : b.Layout cells count) :
    Layout { b with localTail := b.tail } cells count := by
  obtain ⟨hsize, low, lag, seen, htracks, hwindow⟩ := h
  exact ⟨hsize, low, lag, count, htracks.refresh_tail, hwindow⟩

/-- The slot at the tail is vacant where there is room, and is built on. -/
theorem Layout.construct (h : b.Layout cells count) (hcells : cells.length = count)
    (hroom : count < b.sizeMask) (element : α) :
    b.construct b.tail element =
        some { b with data := Function.update b.data b.tail (some element) } ∧
      Layout { b with data := Function.update b.data b.tail (some element) }
        (cells ++ [some element]) count := by
  obtain ⟨hsize, low, lag, seen, htracks, hwindow⟩ := h
  have hlt : cells.length < b.sizeMask + 1 := by omega
  have htail : b.tail = (low + lag + cells.length) % (b.sizeMask + 1) := by
    rw [hcells]
    exact htracks.tail_eq
  constructor
  · rw [Block.construct, htail, hwindow.vacant hlt]
  · refine ⟨hsize, low, lag, seen, htracks, ?_⟩
    show Window _ (Function.update b.data b.tail (some element)) _ _
    rw [htail]
    exact hwindow.put hlt (some element)

theorem Layout.publish (h : b.Layout cells count)
    (hroom : (b.tail + 1) &&& b.sizeMask ≠ b.localFront) :
    Layout { b with tail := (b.tail + 1) &&& b.sizeMask } cells (count + 1) := by
  rw [h.mask] at hroom ⊢
  obtain ⟨hsize, low, lag, seen, htracks, hwindow⟩ := h
  exact ⟨hsize, low, lag, seen, htracks.publish hroom, hwindow⟩

/-- The front element is there, and is taken. -/
theorem Layout.moveOut {x : α} (h : b.Layout (some x :: cells) count) :
    b.moveOut b.front = some (x, { b with data := Function.update b.data b.front none }) ∧
      Layout { b with data := Function.update b.data b.front none } (none :: cells) count := by
  obtain ⟨hsize, low, lag, seen, htracks, hwindow⟩ := h
  have hhead : b.data b.front = some x := by
    rw [htracks.front_eq]
    exact hwindow.head
  constructor
  · rw [Block.moveOut, hhead]
  · refine ⟨hsize, low, lag, seen, htracks, ?_⟩
    show Window _ (Function.update b.data b.front none) _ _
    rw [htracks.front_eq]
    exact hwindow.set_head none

theorem Layout.release (h : b.Layout (none :: cells) count) (hseen : b.front ≠ b.localTail) :
    Layout { b with front := (b.front + 1) &&& b.sizeMask } cells (count - 1) := by
  rw [h.mask]
  obtain ⟨hsize, low, lag, seen, htracks, hwindow⟩ := h
  exact ⟨hsize, low, lag + 1, seen - 1, htracks.release hseen, hwindow.advance⟩

theorem make_layout {size e : Nat} (hsize : size = 2 ^ (e + 1)) :
    (Block.make size : Block α).Layout [] 0 := by
  have hpos : 0 < size := hsize ▸ Nat.two_pow_pos (e + 1)
  have hmask : size - 1 + 1 = size := Nat.sub_add_cancel hpos
  refine ⟨⟨e, hmask.trans hsize⟩, 0, 0, 0, ?_, Window.empty⟩
  exact Tracks.start (Nat.succ_pos _)

theorem make_one_layout {size e : Nat} (hsize : size = 2 ^ (e + 1)) (element : α) (z : Nat) :
    Block.Layout { (Block.make size : Block α) with
        data := Function.update (fun _ => none) 0 (some element)
        tail := 1
        localTail := 1
        next := z } [some element] 1 := by
  have hmake := make_layout (α := α) hsize
  have hroom : ((Block.make size : Block α).tail + 1) &&& (Block.make size : Block α).sizeMask = 1 := by
    have hpos := hmake.sizeMask_pos
    rw [hmake.mask]
    exact Nat.mod_eq_of_lt (Nat.succ_lt_succ hpos)
  have hbuilt := (hmake.construct rfl hmake.sizeMask_pos element).2
  have hpublished := hbuilt.publish (show _ ≠ 0 by rw [hroom]; exact Nat.one_ne_zero)
  simp only [hroom] at hpublished
  exact hpublished.refreshTail

end Block

/-! ## The ring -/

/-- The blocks of a queue, and what each holds. -/
structure View (α : Type) where
  live : List Nat
  free : List Nat
  items : Nat → List α

namespace View

variable {α : Type}

def ring (v : View α) : List Nat := v.live ++ v.free

/-- The items of the queue, first to last. -/
def contents (v : View α) : List α := v.live.flatMap v.items

def setItems (v : View α) (a : Nat) (xs : List α) : View α :=
  { v with items := Function.update v.items a xs }

@[simp] theorem setItems_live (v : View α) (a : Nat) (xs : List α) :
    (v.setItems a xs).live = v.live := rfl

@[simp] theorem setItems_self (v : View α) (a : Nat) (xs : List α) :
    (v.setItems a xs).items a = xs := Function.update_self ..

@[simp] theorem setItems_items (v : View α) (a : Nat) : v.setItems a (v.items a) = v := by
  rw [setItems, Function.update_eq_self]

theorem setItems_of_ne (v : View α) {a c : Nat} (h : c ≠ a) (xs : List α) :
    (v.setItems a xs).items c = v.items c := Function.update_of_ne h ..

theorem flatMap_setItems (v : View α) {a : Nat} {l : List Nat} (h : a ∉ l) (xs : List α) :
    l.flatMap (v.setItems a xs).items = l.flatMap v.items := by
  refine List.flatMap_congr ?_
  intro c hc
  exact v.setItems_of_ne (ne_of_mem_of_not_mem hc h) xs

theorem contents_put {v : View α} {a : Nat} {l : List Nat} (hlive : v.live = l ++ [a]) (ha : a ∉ l)
    (x : α) : (v.setItems a (v.items a ++ [x])).contents = v.contents ++ [x] := by
  rw [contents, contents, setItems_live, hlive, List.flatMap_append, List.flatMap_append,
    flatMap_setItems v ha, List.flatMap_singleton, List.flatMap_singleton, setItems_self,
    List.append_assoc]

theorem contents_take {v : View α} {a : Nat} {l : List Nat} {x : α} {xs : List α}
    (hlive : v.live = a :: l) (ha : a ∉ l) (hitems : v.items a = x :: xs) :
    v.contents = x :: (v.setItems a xs).contents := by
  rw [contents, contents, setItems_live, hlive, List.flatMap_cons, List.flatMap_cons,
    flatMap_setItems v ha, setItems_self, hitems]
  rfl

end View

/-- What the two threads have done and not made known. -/
structure InFlight (α : Type) where
  vacated : Nat → List (Option α)
  pending : Nat → List (Option α)
  landed : Nat → List α
  reserved : List Nat

/-- Whatever block the consumer is in, the others have room for `maxSize`
items; a block on its own has it itself. -/
def Roomy (maxSize : Nat) (masks : List Nat) : Prop :=
  (∀ m ∈ masks, maxSize + m ≤ masks.sum) ∨ ∃ m, masks = [m] ∧ maxSize ≤ m

theorem Roomy.perm {maxSize : Nat} {masks masks' : List Nat} (h : Roomy maxSize masks)
    (hperm : masks.Perm masks') : Roomy maxSize masks' := by
  rcases h with hall | ⟨m, rfl, hm⟩
  · refine Or.inl ?_
    intro m hm
    rw [← hperm.sum_nat]
    exact hall m (hperm.mem_iff.mpr hm)
  · exact Or.inr ⟨m, List.singleton_perm.mp hperm |>.symm, hm⟩

theorem Roomy.grow {maxSize m : Nat} {masks : List Nat} (h : Roomy maxSize masks)
    (hne : masks ≠ []) (hm : masks.length = 1 → maxSize ≤ m) : Roomy maxSize (m :: masks) := by
  refine Or.inl ?_
  rcases h with hall | ⟨m', rfl, hm'⟩
  · intro k hk
    rw [List.sum_cons]
    rcases List.mem_cons.mp hk with rfl | hmem
    · obtain ⟨m', hm'⟩ := List.exists_mem_of_ne_nil masks hne
      have hall' := hall m' hm'
      omega
    · have hk' := hall k hmem
      omega
  · have hroom := hm rfl
    intro k hk
    simp only [List.mem_cons, List.not_mem_nil, or_false] at hk
    simp only [List.sum_cons, List.sum_nil]
    rcases hk with rfl | rfl <;> omega

/-- The ring of blocks. -/
structure Blocks {α : Type} (maxSize : Nat) (q : ReaderWriterQueue α) (v : View α)
    (f : InFlight α) : Prop where
  nodup : (v.ring ++ f.reserved).Nodup
  linked : Linked (fun a => (q.blocks a).next) v.ring q.frontBlock
  head : v.live.head? = some q.frontBlock
  last : v.live.getLast? = some q.tailBlock
  layout : ∀ a ∈ v.ring ++ f.reserved,
    (q.blocks a).Layout (f.vacated a ++ (v.items a).map some ++ f.pending a)
      ((f.vacated a).length + (v.items a).length)
  waiting : ∀ a ∈ v.live, a ≠ q.frontBlock → v.items a ≠ []
  filled : ∀ a ∈ v.live, a ≠ q.frontBlock → a ≠ q.tailBlock →
    (v.items a).length = (q.blocks a).sizeMask
  empty : ∀ a ∈ v.free, v.items a = f.landed a
  known : ∀ a ∈ v.ring ++ f.reserved, a ≤ q.allocated
  roomy : Roomy maxSize (v.ring.map fun a => (q.blocks a).sizeMask)
  large : ∃ e, q.largestBlockSize = 2 ^ (e + 1)
  bounded : q.largestBlockSize ≤ 2 ^ 63 ∧ ∀ a ∈ v.ring ++ f.reserved, (q.blocks a).sizeMask < 2 ^ 63
  spare : v.ring.length = 1 →
    maxSize < q.largestBlockSize ∧ ∀ a ∈ f.reserved, maxSize ≤ (q.blocks a).sizeMask

namespace ReaderWriterQueue

variable {α : Type}

@[simp] theorem set_self (q : ReaderWriterQueue α) (a : Nat) (b : Block α) :
    (q.set a b).blocks a = b := Function.update_self ..

theorem set_of_ne (q : ReaderWriterQueue α) {a c : Nat} (h : c ≠ a) (b : Block α) :
    (q.set a b).blocks c = q.blocks c := Function.update_of_ne h ..

@[simp] theorem set_frontBlock (q : ReaderWriterQueue α) (a : Nat) (b : Block α) :
    (q.set a b).frontBlock = q.frontBlock := rfl

@[simp] theorem set_tailBlock (q : ReaderWriterQueue α) (a : Nat) (b : Block α) :
    (q.set a b).tailBlock = q.tailBlock := rfl

theorem set_field {β : Type} (field : Block α → β) (q : ReaderWriterQueue α) {a : Nat}
    {b : Block α} (h : field b = field (q.blocks a)) (c : Nat) :
    field ((q.set a b).blocks c) = field (q.blocks c) := by
  by_cases hc : c = a
  · rw [hc, set_self, h]
  · rw [set_of_ne q hc]

end ReaderWriterQueue

namespace Blocks

open ReaderWriterQueue

variable {α : Type} {maxSize : Nat} {q : ReaderWriterQueue α} {v : View α} {f f' : InFlight α}

theorem live_split (h : Blocks maxSize q v f) : ∃ l, v.live = q.frontBlock :: l :=
  List.head?_eq_some_iff.mp h.head

theorem live_snoc (h : Blocks maxSize q v f) : ∃ l, v.live = l ++ [q.tailBlock] :=
  List.getLast?_eq_some_iff.mp h.last

theorem front_mem (h : Blocks maxSize q v f) : q.frontBlock ∈ v.live := by
  obtain ⟨l, hl⟩ := h.live_split
  exact hl ▸ List.mem_cons_self

theorem tail_mem (h : Blocks maxSize q v f) : q.tailBlock ∈ v.live := by
  obtain ⟨l, hl⟩ := h.live_snoc
  exact hl ▸ List.mem_append_right l List.mem_cons_self

theorem ring_nodup (h : Blocks maxSize q v f) : v.ring.Nodup := (List.nodup_append.mp h.nodup).1

theorem live_nodup (h : Blocks maxSize q v f) : v.live.Nodup :=
  (List.nodup_append.mp h.ring_nodup).1

theorem not_free (h : Blocks maxSize q v f) {a : Nat} (ha : a ∈ v.live) : a ∉ v.free :=
  fun hfree => (List.nodup_append.mp h.ring_nodup).2.2 a ha a hfree rfl

theorem live_layout (h : Blocks maxSize q v f) {a : Nat} (ha : a ∈ v.live) :
    (q.blocks a).Layout (f.vacated a ++ (v.items a).map some ++ f.pending a)
      ((f.vacated a).length + (v.items a).length) :=
  h.layout a (List.mem_append_left _ (List.mem_append_left _ ha))

theorem free_layout (h : Blocks maxSize q v f) {a : Nat} (ha : a ∈ v.free) :
    (q.blocks a).Layout (f.vacated a ++ (v.items a).map some ++ f.pending a)
      ((f.vacated a).length + (v.items a).length) :=
  h.layout a (List.mem_append_left _ (List.mem_append_right _ ha))

theorem next_tail (h : Blocks maxSize q v f) :
    (q.blocks q.tailBlock).next = v.free.headD q.frontBlock := by
  obtain ⟨l, hl⟩ := h.live_snoc
  have hlinked := h.linked
  rw [View.ring, hl, List.append_assoc, List.singleton_append] at hlinked
  exact hlinked.next_of_append

theorem next_tail_eq_front (h : Blocks maxSize q v f) :
    (q.blocks q.tailBlock).next = q.frontBlock ↔ v.free = [] := by
  rw [h.next_tail]
  cases hfree : v.free with
  | nil => exact iff_of_true rfl rfl
  | cons a rest =>
      refine iff_of_false ?_ (List.cons_ne_nil a rest)
      rintro (rfl : a = q.frontBlock)
      exact h.not_free h.front_mem (hfree ▸ List.mem_cons_self)

theorem next_front (h : Blocks maxSize q v f) (hne : q.frontBlock ≠ q.tailBlock) :
    ∃ l, v.live = q.frontBlock :: (q.blocks q.frontBlock).next :: l := by
  obtain ⟨l, hl⟩ := h.live_split
  obtain ⟨l', hl'⟩ := h.live_snoc
  cases l with
  | nil =>
      rw [hl] at hl'
      have hlast := congrArg List.getLast? hl'
      rw [List.getLast?_append, List.getLast?_singleton] at hlast
      exact absurd (Option.some.inj hlast) hne
  | cons a l =>
      have hlinked := h.linked
      rw [View.ring, hl] at hlinked
      have hnext : (q.blocks q.frontBlock).next = a := hlinked.1
      exact ⟨l, hnext ▸ hl⟩

theorem live_of_one (h : Blocks maxSize q v f) (hsame : q.frontBlock = q.tailBlock) :
    v.live = [q.frontBlock] := by
  obtain ⟨l, hl⟩ := h.live_split
  cases l with
  | nil => exact hl
  | cons a l =>
      have hlast := h.last
      have hnodup := h.live_nodup
      rw [hl, List.getLast?_cons_cons] at hlast
      rw [hl, hsame] at hnodup
      exact absurd (List.mem_of_getLast? hlast) (List.nodup_cons.mp hnodup).1

theorem set (h : Blocks maxSize q v f) {a : Nat} {b : Block α} {xs : List α}
    (hreserved : f'.reserved = f.reserved) (hnext : b.next = (q.blocks a).next)
    (hmask : b.sizeMask = (q.blocks a).sizeMask)
    (hlayout : b.Layout (f'.vacated a ++ xs.map some ++ f'.pending a)
      ((f'.vacated a).length + xs.length))
    (hother : ∀ c, c ≠ a → f'.vacated c = f.vacated c ∧ f'.pending c = f.pending c ∧
      f'.landed c = f.landed c)
    (hlive : a ∈ v.live → a ≠ q.frontBlock →
      xs ≠ [] ∧ (a ≠ q.tailBlock → xs.length = b.sizeMask))
    (hfree : a ∈ v.free → xs = f'.landed a) :
    Blocks maxSize (q.set a b) (v.setItems a xs) f' where
  nodup := by rw [hreserved]; exact h.nodup
  linked := h.linked.congr fun c _ => set_field Block.next q hnext c
  head := h.head
  last := h.last
  layout := by
    intro c hc
    rw [hreserved] at hc
    by_cases hca : c = a
    · subst hca
      rw [set_self, View.setItems_self]
      exact hlayout
    · obtain ⟨hvacated, hpending, -⟩ := hother c hca
      rw [set_of_ne q hca, View.setItems_of_ne v hca, hvacated, hpending]
      exact h.layout c hc
  waiting := by
    intro c hc hfront
    by_cases hca : c = a
    · subst hca
      rw [View.setItems_self]
      exact (hlive hc hfront).1
    · rw [View.setItems_of_ne v hca]
      exact h.waiting c hc hfront
  filled := by
    intro c hc hfront htail
    by_cases hca : c = a
    · subst hca
      rw [View.setItems_self, set_self]
      exact (hlive hc hfront).2 htail
    · rw [View.setItems_of_ne v hca, set_of_ne q hca]
      exact h.filled c hc hfront htail
  empty := by
    intro c hc
    by_cases hca : c = a
    · subst hca
      rw [View.setItems_self]
      exact hfree hc
    · rw [View.setItems_of_ne v hca, (hother c hca).2.2]
      exact h.empty c hc
  known := by rw [hreserved]; exact h.known
  roomy := by
    simp only [set_field Block.sizeMask q hmask]
    exact h.roomy
  large := h.large
  bounded := by
    simp only [set_field Block.sizeMask q hmask, hreserved]
    exact h.bounded
  spare := by
    simp only [set_field Block.sizeMask q hmask, hreserved]
    exact h.spare

theorem set_fields (h : Blocks maxSize q v f) {a : Nat} {b : Block α} (ha : a ∈ v.ring)
    (hreserved : f'.reserved = f.reserved) (hnext : b.next = (q.blocks a).next)
    (hmask : b.sizeMask = (q.blocks a).sizeMask)
    (hlayout : (q.blocks a).Layout (f.vacated a ++ (v.items a).map some ++ f.pending a)
        ((f.vacated a).length + (v.items a).length) →
      b.Layout (f'.vacated a ++ (v.items a).map some ++ f'.pending a)
        ((f'.vacated a).length + (v.items a).length))
    (hother : ∀ c, c ≠ a → f'.vacated c = f.vacated c ∧ f'.pending c = f.pending c)
    (hlanded : f'.landed = f.landed) : Blocks maxSize (q.set a b) v f' := by
  have hset : Blocks maxSize (q.set a b) (v.setItems a (v.items a)) f' := by
    refine h.set hreserved hnext hmask (hlayout (h.layout a (List.mem_append_left _ ha)))
      (fun c hc => ⟨(hother c hc).1, (hother c hc).2, congrFun hlanded c⟩)
      (fun hlive hfront => ⟨h.waiting a hlive hfront, ?_⟩) (fun hfree => ?_)
    · intro htail
      rw [hmask]
      exact h.filled a hlive hfront htail
    · rw [hlanded]
      exact h.empty a hfree
  rwa [View.setItems_items] at hset

/-- The producer goes over to the next block. -/
theorem advanceTail (h : Blocks maxSize q v f) {a : Nat} {rest : List Nat}
    (hfree : v.free = a :: rest) (hitems : v.items a ≠ [])
    (hfull : q.tailBlock ≠ q.frontBlock →
      (v.items q.tailBlock).length = (q.blocks q.tailBlock).sizeMask)
    (hvacated : f'.vacated = f.vacated) (hpending : f'.pending = f.pending)
    (hreserved : f'.reserved = f.reserved) (hlanded : ∀ c ∈ rest, f'.landed c = f.landed c) :
    Blocks maxSize { q with tailBlock := a }
      { v with live := v.live ++ [a], free := rest } f' := by
  have hring : View.ring { v with live := v.live ++ [a], free := rest } = v.ring := by
    rw [View.ring, View.ring, hfree, List.append_assoc]
    rfl
  obtain ⟨l, hl⟩ := h.live_split
  constructor
  · rw [hring, hreserved]
    exact h.nodup
  · rw [hring]
    exact h.linked
  · show (v.live ++ [a]).head? = _
    rw [hl]
    rfl
  · exact List.getLast?_concat
  · rw [hring, hreserved, hvacated, hpending]
    exact h.layout
  · intro c hc hfront
    rcases List.mem_append.mp hc with hlive | hnew
    · exact h.waiting c hlive hfront
    · obtain rfl := List.mem_singleton.mp hnew
      exact hitems
  · intro c hc hfront htail
    rcases List.mem_append.mp hc with hlive | hnew
    · by_cases hold : c = q.tailBlock
      · subst hold
        exact hfull hfront
      · exact h.filled c hlive hfront hold
    · exact absurd (List.mem_singleton.mp hnew) htail
  · intro c hc
    rw [hlanded c hc]
    exact h.empty c (hfree ▸ List.mem_cons_of_mem a hc)
  · rw [hring, hreserved]
    exact h.known
  · rw [hring]
    exact h.roomy
  · exact h.large
  · rw [hring, hreserved]
    exact h.bounded
  · rw [hring, hreserved]
    exact h.spare

/-- The consumer goes over to the next block. -/
theorem advanceFront (h : Blocks maxSize q v f) {a : Nat} {l : List Nat}
    (hlive : v.live = q.frontBlock :: a :: l) (hitems : v.items q.frontBlock = [])
    (hlanded : f.landed q.frontBlock = []) :
    Blocks maxSize { q with frontBlock := a }
      { v with live := a :: l, free := v.free ++ [q.frontBlock] } f := by
  have hring : v.ring = q.frontBlock :: (a :: l ++ v.free) := by
    rw [View.ring, hlive]
    rfl
  have hturned : View.ring { v with live := a :: l, free := v.free ++ [q.frontBlock] } =
      a :: l ++ v.free ++ [q.frontBlock] := by
    rw [View.ring, ← List.append_assoc]
  have hperm : v.ring.Perm (View.ring
      { v with live := a :: l, free := v.free ++ [q.frontBlock] }) := by
    rw [hring, hturned]
    exact (List.perm_append_singleton _ _).symm
  have hfront : ∀ c ∈ a :: l, c ≠ q.frontBlock := by
    have hnodup := h.live_nodup
    rw [hlive] at hnodup
    intro c hc
    exact ne_of_mem_of_not_mem hc (List.nodup_cons.mp hnodup).1
  have hmem : ∀ c ∈ a :: l, c ∈ v.live := by
    intro c hc
    rw [hlive]
    exact List.mem_cons_of_mem _ hc
  have hall : ∀ {c}, c ∈ View.ring { v with live := a :: l, free := v.free ++ [q.frontBlock] } ++
      f.reserved → c ∈ v.ring ++ f.reserved := (hperm.append_right _).mem_iff.mpr
  constructor
  · exact (hperm.append_right _).nodup_iff.mp h.nodup
  · rw [hturned]
    have hlinked := h.linked
    rw [hring] at hlinked
    exact hlinked.turn
  · rfl
  · have hlast := h.last
    rw [hlive, List.getLast?_cons_cons] at hlast
    exact hlast
  · exact fun c hc => h.layout c (hall hc)
  · exact fun c hc _ => h.waiting c (hmem c hc) (hfront c hc)
  · exact fun c hc _ htail => h.filled c (hmem c hc) (hfront c hc) htail
  · intro c hc
    rcases List.mem_append.mp hc with hfree | hnew
    · exact h.empty c hfree
    · obtain rfl := List.mem_singleton.mp hnew
      exact hitems.trans hlanded.symm
  · exact fun c hc => h.known c (hall hc)
  · exact h.roomy.perm (hperm.map _)
  · exact h.large
  · exact ⟨h.bounded.1, fun c hc => h.bounded.2 c (hall hc)⟩
  · rw [← hperm.length_eq]
    exact h.spare

theorem make (h : Blocks maxSize q v f) {a size : Nat} {b : Block α} {xs : List α}
    (ha : a = q.allocated + 1) (hreserved : f'.reserved = [a])
    (hsize : ∃ e, size = 2 ^ (e + 1)) (hlarger : q.largestBlockSize ≤ size) (hbound : size ≤ 2 ^ 63)
    (hmask : b.sizeMask = size - 1)
    (hlayout : b.Layout (f'.vacated a ++ xs.map some ++ f'.pending a)
      ((f'.vacated a).length + xs.length))
    (hother : ∀ c, c ≠ a → f'.vacated c = f.vacated c ∧ f'.pending c = f.pending c ∧
      f'.landed c = f.landed c) :
    Blocks maxSize { q.set a b with allocated := a, largestBlockSize := size }
      (v.setItems a xs) f' := by
  have hold : ∀ c ∈ v.ring, c ≠ a := by
    intro c hc heq
    have hknown := h.known c (List.mem_append_left _ hc)
    omega
  have hlive : ∀ c ∈ v.live, c ≠ a := fun c hc => hold c (List.mem_append_left _ hc)
  have hblock : ∀ {c}, c ≠ a → (ReaderWriterQueue.blocks
      { q.set a b with allocated := a, largestBlockSize := size } c) = q.blocks c :=
    fun hc => set_of_ne q hc b
  have hself : (ReaderWriterQueue.blocks
      { q.set a b with allocated := a, largestBlockSize := size } a) = b := set_self q a b
  constructor
  · rw [hreserved]
    refine List.nodup_append.mpr ⟨h.ring_nodup, List.pairwise_singleton _ a, ?_⟩
    rintro c hc d hd rfl
    exact hold c hc (List.mem_singleton.mp hd)
  · exact h.linked.congr fun c hc => congrArg Block.next (hblock (hold c hc))
  · exact h.head
  · exact h.last
  · intro c hc
    rw [hreserved] at hc
    rcases List.mem_append.mp hc with hring | hnew
    · have hca := hold c hring
      obtain ⟨hvacated, hpending, -⟩ := hother c hca
      rw [hblock hca, View.setItems_of_ne v hca, hvacated, hpending]
      exact h.layout c (List.mem_append_left _ hring)
    · obtain rfl := List.mem_singleton.mp hnew
      rw [hself, View.setItems_self]
      exact hlayout
  · intro c hc hfront
    rw [View.setItems_of_ne v (hlive c hc)]
    exact h.waiting c hc hfront
  · intro c hc hfront htail
    rw [View.setItems_of_ne v (hlive c hc), hblock (hlive c hc)]
    exact h.filled c hc hfront htail
  · intro c hc
    have hca := hold c (List.mem_append_right _ hc)
    rw [View.setItems_of_ne v hca, (hother c hca).2.2]
    exact h.empty c hc
  · intro c hc
    rw [hreserved] at hc
    rcases List.mem_append.mp hc with hring | hnew
    · have hknown := h.known c (List.mem_append_left _ hring)
      show c ≤ a
      omega
    · exact Nat.le_of_eq (List.mem_singleton.mp hnew)
  · have hmasks : (v.ring.map fun c => (ReaderWriterQueue.blocks
        { q.set a b with allocated := a, largestBlockSize := size } c).sizeMask) =
        v.ring.map fun c => (q.blocks c).sizeMask :=
      List.map_congr_left fun c hc => congrArg Block.sizeMask (hblock (hold c hc))
    show Roomy maxSize (v.ring.map _)
    rw [hmasks]
    exact h.roomy
  · exact hsize
  · refine ⟨hbound, ?_⟩
    intro c hc
    rw [hreserved] at hc
    rcases List.mem_append.mp hc with hring | hnew
    · rw [hblock (hold c hring)]
      exact h.bounded.2 c (List.mem_append_left _ hring)
    · obtain rfl := List.mem_singleton.mp hnew
      rw [hself, hmask]
      omega
  · intro hone
    have hspare := (h.spare hone).1
    refine ⟨Nat.lt_of_lt_of_le hspare hlarger, ?_⟩
    intro c hc
    rw [hreserved] at hc
    obtain rfl := List.mem_singleton.mp hc
    rw [hself, hmask]
    omega

/-- The new block is linked in behind the tail block. -/
theorem link (h : Blocks maxSize q v f) {a : Nat} (hreserved : f.reserved = [a])
    (hnone : f'.reserved = []) (hnext : (q.blocks a).next = (q.blocks q.tailBlock).next)
    (hvacated : f'.vacated = f.vacated) (hpending : f'.pending = f.pending)
    (hlanded : f'.landed a = v.items a) (hother : ∀ c ∈ v.free, f'.landed c = f.landed c) :
    Blocks maxSize (q.set q.tailBlock { q.blocks q.tailBlock with next := a })
      { v with free := a :: v.free } f' := by
  obtain ⟨l, hl⟩ := h.live_snoc
  have hring : v.ring = l ++ q.tailBlock :: v.free := by
    rw [View.ring, hl, List.append_assoc]
    rfl
  have hlinkedRing : View.ring { v with free := a :: v.free } = l ++ q.tailBlock :: a :: v.free := by
    rw [View.ring]
    show v.live ++ _ = _
    rw [hl, List.append_assoc]
    rfl
  have hperm : (v.ring ++ f.reserved).Perm (View.ring { v with free := a :: v.free }) := by
    rw [hreserved, View.ring, View.ring, List.append_assoc]
    exact List.Perm.append_left _ (List.perm_append_singleton a v.free)
  have hsame : ∀ {c}, c ∈ View.ring { v with free := a :: v.free } ++ f'.reserved →
      c ∈ v.ring ++ f.reserved := by
    intro c hc
    rw [hnone, List.append_nil] at hc
    exact hperm.mem_iff.mpr hc
  have ha : a ∉ v.ring := by
    have hnodup := h.nodup
    rw [hreserved] at hnodup
    intro hmem
    exact (List.nodup_append.mp hnodup).2.2 a hmem a List.mem_cons_self rfl
  have htail : q.tailBlock ∈ v.ring := List.mem_append_left _ h.tail_mem
  have hmask := set_field Block.sizeMask q
    (show ({ q.blocks q.tailBlock with next := a } : Block α).sizeMask = _ from rfl)
  constructor
  · rw [hnone, List.append_nil]
    exact hperm.nodup_iff.mp h.nodup
  · have hlinked := h.linked
    have hnodup := h.ring_nodup
    rw [hring] at hlinked hnodup
    rw [hlinkedRing]
    refine hlinked.insert ?_ ?_ ?_
    · show ((q.set q.tailBlock _).blocks q.tailBlock).next = a
      rw [set_self]
    · show ((q.set q.tailBlock _).blocks a).next = _
      rw [set_of_ne q (ne_of_mem_of_not_mem htail ha).symm]
      exact hnext
    · intro c hc
      have hne : c ≠ q.tailBlock := by
        rintro rfl
        have hnot := (List.nodup_cons.mp (List.perm_middle.nodup_iff.mp hnodup)).1
        exact hnot hc
      show ((q.set q.tailBlock _).blocks c).next = _
      rw [set_of_ne q hne]
  · exact h.head
  · exact h.last
  · intro c hc
    have hlayout := h.layout c (hsame hc)
    rw [hvacated, hpending]
    by_cases hct : c = q.tailBlock
    · subst hct
      rw [set_self]
      exact hlayout
    · rw [set_of_ne q hct]
      exact hlayout
  · exact h.waiting
  · intro c hc hfront hct
    rw [hmask]
    exact h.filled c hc hfront hct
  · intro c hc
    rcases List.mem_cons.mp hc with rfl | hfree
    · exact hlanded.symm
    · rw [hother c hfree]
      exact h.empty c hfree
  · exact fun c hc => h.known c (hsame hc)
  · simp only [hmask]
    have hlen : v.ring ≠ [] := List.ne_nil_of_mem htail
    have hgrown : Roomy maxSize ((q.blocks a).sizeMask :: v.ring.map fun c => (q.blocks c).sizeMask) := by
      refine h.roomy.grow (by simpa using hlen) ?_
      intro hone
      rw [List.length_map] at hone
      exact (h.spare hone).2 a (hreserved ▸ List.mem_cons_self)
    refine hgrown.perm ?_
    have hcons : (a :: v.ring).Perm (View.ring { v with free := a :: v.free }) := by
      have hswap := (List.perm_append_singleton a v.ring).symm
      rw [hreserved] at hperm
      exact hswap.trans hperm
    exact hcons.map fun c => (q.blocks c).sizeMask
  · exact h.large
  · simp only [hmask]
    exact ⟨h.bounded.1, fun c hc => h.bounded.2 c (hsame hc)⟩
  · intro hone
    have hlength := hperm.length_eq
    rw [hone, hreserved, List.length_append, List.length_singleton] at hlength
    exact absurd (List.eq_nil_of_length_eq_zero (by omega)) (List.ne_nil_of_mem htail)

/-- With no block free and the tail block full, the queue holds as much as was
asked for. -/
theorem maxSize_le (h : Blocks maxSize q v f) (hfree : v.free = [])
    (hvacated : ∀ a, a ≠ q.frontBlock → f.vacated a = [])
    (hfull : (f.vacated q.tailBlock).length + (v.items q.tailBlock).length =
      (q.blocks q.tailBlock).sizeMask) :
    maxSize ≤ (f.vacated q.frontBlock).length + v.contents.length := by
  obtain ⟨l, hl⟩ := h.live_split
  have hring : v.ring = q.frontBlock :: l := by rw [View.ring, hfree, hl, List.append_nil]
  have hroomy := h.roomy
  rw [hring, List.map_cons] at hroomy
  have hlength : v.contents.length =
      (v.items q.frontBlock).length + (l.map fun a => (v.items a).length).sum := by
    rw [View.contents, List.length_flatMap, hl, List.map_cons, List.sum_cons]
  by_cases hsame : q.frontBlock = q.tailBlock
  · have hmask : maxSize ≤ (q.blocks q.frontBlock).sizeMask := by
      rcases hroomy with hall | ⟨m, hm, hle⟩
      · have hone := h.live_of_one hsame
        obtain rfl : l = [] := (List.cons_eq_cons.mp (hl.symm.trans hone)).2
        have hfront := hall _ List.mem_cons_self
        simp only [List.map_nil, List.sum_cons, List.sum_nil] at hfront
        omega
      · rw [(List.cons_eq_cons.mp hm).1]
        exact hle
    rw [← hsame] at hfull
    omega
  · have hfilled : (l.map fun a => (v.items a).length) = l.map fun a => (q.blocks a).sizeMask := by
      refine List.map_congr_left ?_
      intro a ha
      have hlive : a ∈ v.live := hl ▸ List.mem_cons_of_mem _ ha
      have hnodup := h.live_nodup
      rw [hl] at hnodup
      have hfront : a ≠ q.frontBlock := ne_of_mem_of_not_mem ha (List.nodup_cons.mp hnodup).1
      by_cases htail : a = q.tailBlock
      · rw [← htail, hvacated a hfront, List.length_nil, Nat.zero_add] at hfull
        exact hfull
      · exact h.filled a hlive hfront htail
    rcases hroomy with hall | ⟨m, hm, -⟩
    · have hfront := hall _ List.mem_cons_self
      rw [List.sum_cons] at hfront
      rw [hlength, hfilled]
      omega
    · have hnil : l = [] := List.map_eq_nil_iff.mp (List.cons_eq_cons.mp hm).2
      have hlast := h.last
      rw [hl, hnil] at hlast
      exact absurd (Option.some.inj hlast) hsame

end Blocks

end LightQ
