import Mathlib.Data.List.Chain
import Mathlib.Data.List.Rotate

namespace Zephyr.Lib

variable {α : Type}

def Linked (next prev : α → α) (a b : α) : Prop := next a = b ∧ prev b = a

-- A circular doubly linked list read from its head: each node links to the
-- next one, and the last links back to the head.
def RingLinks (next prev : α → α) : List α → Prop
  | [] => True
  | x :: xs => (x :: xs ++ [x]).IsChain (Linked next prev)

structure Ring (next prev : α → α) (l : List α) : Prop where
  links : RingLinks next prev l
  nodup : l.Nodup

variable {next prev next' prev' : α → α}

theorem isChain_concat {R : α → α → Prop} {l : List α} {a b : α} :
    (a :: l ++ [b]).IsChain R ↔ (a :: l).IsChain R ∧ R ((a :: l).getLast (List.cons_ne_nil a l)) b := by
  rw [List.isChain_append]
  simp [List.getLast?_eq_some_getLast (List.cons_ne_nil a l)]

theorem isChain_insert {R : α → α → Prop} {A B : List α} {a x : α} (h : (A ++ a :: B).IsChain R)
    (hax : R a x) (hx : ∀ y ∈ B.head?, R x y) : (A ++ a :: x :: B).IsChain R := by
  rw [List.isChain_split] at h ⊢
  exact ⟨h.1, List.isChain_cons_cons.2 ⟨hax, List.isChain_cons.2 ⟨hx, (List.isChain_cons.1 h.2).2⟩⟩⟩

theorem isChain_erase {R : α → α → Prop} {A B : List α} {a x : α} (h : (A ++ a :: x :: B).IsChain R)
    (ha : ∀ y ∈ B.head?, R a y) : (A ++ a :: B).IsChain R := by
  rw [List.isChain_split] at h ⊢
  exact ⟨h.1, List.isChain_cons.2 ⟨ha, (List.isChain_cons_cons.1 h.2).2.tail⟩⟩

theorem linked_frame {S : List α} (h : S.IsChain (Linked next prev))
    (hn : ∀ a ∈ S, next a ∈ S.tail → next' a = next a)
    (hp : ∀ b ∈ S.tail, prev b ∈ S → prev' b = prev b) :
    S.IsChain (Linked next' prev') :=
  h.imp_of_mem_tail_imp fun a b ha hb ⟨h1, h2⟩ =>
    ⟨(hn a ha (h1 ▸ hb)).trans h1, (hp b hb (h2 ▸ ha)).trans h2⟩

namespace Ring

theorem links_iff {x : α} {xs : List α} :
    RingLinks next prev (x :: xs) ↔ (x :: xs).IsChain (Linked next prev) ∧
      Linked next prev ((x :: xs).getLast (List.cons_ne_nil x xs)) x :=
  isChain_concat

theorem nil : Ring next prev [] := ⟨trivial, .nil⟩

theorem singleton {x : α} (hn : next x = x) (hp : prev x = x) : Ring next prev [x] :=
  ⟨links_iff.2 ⟨.singleton x, hn, hp⟩, List.nodup_singleton x⟩

theorem congr {l : List α} (h : Ring next prev l) (hn : ∀ a ∈ l, next' a = next a)
    (hp : ∀ a ∈ l, prev' a = prev a) : Ring next' prev' l := by
  refine ⟨?_, h.nodup⟩
  cases l with
  | nil => trivial
  | cons x xs =>
    have hm : ∀ a ∈ x :: xs ++ [x], a ∈ x :: xs := by simp +contextual [or_comm]
    exact List.IsChain.imp_of_mem_imp (fun a b ha hb ⟨h1, h2⟩ =>
      ⟨(hn a (hm a ha)).trans h1, (hp b (hm b hb)).trans h2⟩) (h.links : (x :: xs ++ [x]).IsChain _)

theorem next_head {x y : α} {ys : List α} (h : Ring next prev (x :: y :: ys)) : next x = y :=
  (List.isChain_cons_cons.1 (links_iff.1 h.links).1).1.1

theorem prev_head {x : α} {xs : List α} (h : Ring next prev (x :: xs)) :
    prev x = (x :: xs).getLast (List.cons_ne_nil x xs) :=
  (links_iff.1 h.links).2.2

theorem next_last {x : α} {xs : List α} (h : Ring next prev (x :: xs)) :
    next ((x :: xs).getLast (List.cons_ne_nil x xs)) = x :=
  (links_iff.1 h.links).2.1

theorem rotate {x : α} {xs : List α} (h : Ring next prev (x :: xs)) :
    Ring next prev (xs ++ [x]) := by
  refine ⟨?_, List.nodup_append_comm.1 (by simpa using h.nodup)⟩
  cases xs with
  | nil => exact h.links
  | cons y ys =>
    obtain ⟨hc, hl⟩ := links_iff.1 h.links
    have hxy := (List.isChain_cons_cons.1 hc)
    have hlast : (x :: y :: ys).getLast (List.cons_ne_nil x _) =
        (y :: ys).getLast (List.cons_ne_nil y ys) := List.getLast_cons _
    show RingLinks next prev (y :: (ys ++ [x]))
    refine links_iff.2 ⟨isChain_concat.2 ⟨hxy.2, hlast ▸ hl⟩, ?_⟩
    simpa using hxy.1

theorem rotate_append {A B : List α} (h : Ring next prev (A ++ B)) : Ring next prev (B ++ A) := by
  induction A generalizing B with
  | nil => simpa using h
  | cons a A ih => simpa using ih (B := B ++ [a]) (by simpa using h.rotate)

theorem next_rotate {x : α} {xs : List α} (h : Ring next prev (x :: xs)) :
    next x = (xs ++ [x]).head (by simp) := by
  cases xs with
  | nil => simpa using h.next_last
  | cons y ys => exact h.next_head

theorem next_mem {l : List α} {a : α} (h : Ring next prev l) (ha : a ∈ l) : next a ∈ l := by
  obtain ⟨A, B, rfl⟩ := List.append_of_mem ha
  have hr : Ring next prev (a :: (B ++ A)) := by simpa using h.rotate_append (A := A) (B := a :: B)
  have hn := hr.next_rotate
  have hm : (B ++ A ++ [a]).head (by simp) ∈ B ++ A ++ [a] := List.head_mem _
  rw [← hn] at hm
  simp only [List.mem_append, List.mem_singleton] at hm ⊢
  rcases hm with (hm | hm) | hm
  · exact Or.inr (List.mem_cons_of_mem a hm)
  · exact Or.inl hm
  · exact Or.inr (by simp [hm])

theorem prev_mem {l : List α} {a : α} (h : Ring next prev l) (ha : a ∈ l) : prev a ∈ l := by
  obtain ⟨A, B, rfl⟩ := List.append_of_mem ha
  have hr : Ring next prev (a :: (B ++ A)) := by simpa using h.rotate_append (A := A) (B := a :: B)
  have hm := List.getLast_mem (List.cons_ne_nil a (B ++ A))
  rw [← hr.prev_head] at hm
  simp only [List.mem_cons, List.mem_append] at hm ⊢
  rcases hm with hm | hm | hm
  · exact Or.inr (Or.inl hm)
  · exact Or.inr (Or.inr hm)
  · exact Or.inl hm

theorem next_eq_self_iff {A B : List α} {c : α} (h : Ring next prev (A ++ c :: B)) :
    next c = c ↔ A = [] ∧ B = [] := by
  have hr := h.rotate_append (A := A) (B := c :: B)
  constructor
  · intro hc
    rcases hBA : B ++ A with _ | ⟨d, ds⟩
    · exact (List.append_eq_nil_iff.1 hBA).symm
    · rw [List.cons_append, hBA] at hr
      have hnd := hr.nodup
      simp only [List.nodup_cons, List.mem_cons, not_or] at hnd
      exact absurd (hr.next_head.symm.trans hc).symm hnd.1.1
  · rintro ⟨rfl, rfl⟩
    simpa using h.next_last

-- Unlinking the head `c`: its predecessor and successor are joined.
theorem erase_head {c d : α} {ds : List α} (h : Ring next prev (c :: d :: ds))
    (hn : ∀ a, a ≠ prev c → next' a = next a) (hn1 : next' (prev c) = next c)
    (hp : ∀ b, b ≠ next c → prev' b = prev b) (hp1 : prev' (next c) = prev c) :
    Ring next' prev' (d :: ds) := by
  have hnd := h.nodup
  simp only [List.nodup_cons, List.mem_cons, not_or] at hnd
  have hcS : c ∉ d :: ds := by simpa using hnd.1
  have hcd := h.next_head
  have hlast : (c :: d :: ds).getLast (List.cons_ne_nil c _) =
      (d :: ds).getLast (List.cons_ne_nil d ds) := List.getLast_cons _
  have hz := h.prev_head
  have hzc := h.next_last
  rw [hlast] at hz hzc
  have hc := (List.isChain_cons_cons.1 (links_iff.1 h.links).1).2
  refine ⟨links_iff.2 ⟨?_, ?_⟩, List.nodup_cons.2 hnd.2⟩
  · refine linked_frame hc (fun a ha ha' => hn a ?_) (fun b hb _ => hp b ?_)
    · rintro rfl
      rw [hz, hzc] at ha'
      exact hcS (List.mem_of_mem_tail ha')
    · rintro rfl
      rw [hcd] at hb
      exact hnd.2.1 hb
  · rw [← hz, ← hcd]
    exact ⟨hn1, hp1⟩

theorem remove {A B : List α} {c : α} (h : Ring next prev (A ++ c :: B)) (hne : B ++ A ≠ [])
    (hn : ∀ a, a ≠ prev c → next' a = next a) (hn1 : next' (prev c) = next c)
    (hp : ∀ b, b ≠ next c → prev' b = prev b) (hp1 : prev' (next c) = prev c) :
    Ring next' prev' (B ++ A) := by
  have hr := h.rotate_append (A := A) (B := c :: B)
  obtain ⟨d, ds, hd⟩ := List.exists_cons_of_ne_nil hne
  rw [List.cons_append, hd] at hr
  rw [hd]
  exact hr.erase_head hn hn1 hp hp1

-- Linking `c` in before the head, that is after the last node.
theorem snoc {x c : α} {xs : List α} (h : Ring next prev (x :: xs)) (hc : c ∉ x :: xs)
    (hn : ∀ a, a ≠ prev x → a ≠ c → next' a = next a) (hn1 : next' (prev x) = c)
    (hn2 : next' c = x) (hp : ∀ b, b ≠ x → b ≠ c → prev' b = prev b) (hp1 : prev' x = c)
    (hp2 : prev' c = prev x) :
    Ring next' prev' (x :: xs ++ [c]) := by
  have hnd := h.nodup
  have hx : x ∉ xs := (List.nodup_cons.1 hnd).1
  have hz := h.prev_head
  have hzx := h.next_last
  obtain ⟨hch, -⟩ := links_iff.1 h.links
  refine ⟨?_, ?_⟩
  · show RingLinks next' prev' (x :: (xs ++ [c]))
    refine links_iff.2 ⟨isChain_concat.2 ⟨?_, ?_⟩, ?_⟩
    · refine linked_frame hch (fun a ha ha' => hn a ?_ ?_) (fun b hb _ => hp b ?_ ?_)
      · rintro rfl
        rw [hz, hzx] at ha'
        exact hx ha'
      · rintro rfl
        exact hc ha
      · rintro rfl
        exact hx hb
      · rintro rfl
        exact hc (List.mem_of_mem_tail hb)
    · rw [← hz]
      exact ⟨hn1, hp2⟩
    · rw [show (x :: (xs ++ [c])).getLast (List.cons_ne_nil x _) = c by simp]
      exact ⟨hn2, hp1⟩
  · rw [List.nodup_append]
    exact ⟨hnd, List.nodup_singleton c, fun a ha b hb => by
      rw [List.mem_singleton] at hb
      rintro rfl
      exact hc (hb ▸ ha)⟩

end Ring

end Zephyr.Lib

