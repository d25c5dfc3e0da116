import Mathlib.Data.List.Chain
import Mathlib.Order.Nat

/-!
# Lists in order

What edits, nodes and the sequences of a policy table have in common once they are put in order.

* **Sorting** does not change the order of those entries that are in order already, such as entries with
  one key (`filter_mergeSort`).
* **Without ties** the order of a list is told by its members (`eq_of_pairwise`).
* **Stretches** each of which stops where the next one starts or before are all one after the other
  (`pairwise_of_isChain`), so that any two of them are apart (`apart_of_isChain`).
-/

namespace SourceSpans

variable {α : Type}

/-- Entries of a list that stand in order already keep their order when the list is sorted. -/
theorem filter_mergeSort {le : α → α → Bool} (htrans : ∀ a b c, le a b → le b c → le a c)
    (htotal : ∀ a b, le a b || le b a) {p : α → Bool} (hp : ∀ a b, p a = true → p b = true → le a b)
    (l : List α) : (l.mergeSort le).filter p = l.filter p := by
  have hsorted : (l.filter p).Pairwise fun a b => le a b = true := by
    apply List.pairwise_of_forall_mem_list
    intro a ha b hb
    exact hp a b (List.of_mem_filter ha) (List.of_mem_filter hb)
  have hsub : (l.filter p).Sublist (l.mergeSort le) :=
    List.sublist_mergeSort htrans htotal hsorted List.filter_sublist
  have hsub' : (l.filter p).Sublist ((l.mergeSort le).filter p) := by
    simpa using hsub.filter p
  have hlength := ((l.mergeSort_perm le).filter p).length_eq
  exact (hsub'.eq_of_length hlength.symm).symm

/-- Two lists that are sorted without ties and have the same members are equal. -/
theorem eq_of_pairwise {r : α → α → Prop} (hasymm : ∀ a b, r a b → ¬ r b a) {l l' : List α}
    (h : l.Pairwise r) (h' : l'.Pairwise r) (hmem : ∀ a, a ∈ l ↔ a ∈ l') : l = l' := by
  have hne : ∀ {a b}, r a b → a ≠ b := by
    intro a b hab heq
    subst heq
    exact hasymm a a hab hab
  have hperm : l.Perm l' := (List.perm_ext_iff_of_nodup (h.imp hne) (h'.imp hne)).2 hmem
  refine hperm.eq_of_pairwise ?_ h h'
  intro a b _ _ hab hba
  exact absurd hba (hasymm a b hab)

/-- Stretches that do not overlap their neighbours do not overlap at all. -/
theorem pairwise_of_isChain (start stop : α → Nat) {l : List α} (hle : ∀ a ∈ l, start a ≤ stop a)
    (h : l.IsChain fun a b => stop a ≤ start b) : l.Pairwise fun a b => stop a ≤ start b := by
  induction l with
  | nil => exact .nil
  | cons a l ih =>
    have hrest := ih (fun b hb => hle b (List.mem_cons_of_mem a hb)) h.tail
    refine List.pairwise_cons.2 ⟨fun c hc => ?_, hrest⟩
    cases l with
    | nil => cases hc
    | cons b l =>
      -- `a` stops before its neighbour `b` starts, and `b` before those after it
      have hab : stop a ≤ start b := (List.isChain_cons_cons.1 h).1
      rcases List.mem_cons.1 hc with rfl | hc
      · exact hab
      · have hb := hle b (List.mem_cons_of_mem a List.mem_cons_self)
        exact hab.trans (hb.trans (List.rel_of_pairwise_cons hrest hc))

/-- Any two stretches are apart if neighbours do not overlap. -/
theorem apart_of_isChain (start stop : α → Nat) {l : List α} (hle : ∀ a ∈ l, start a ≤ stop a)
    (h : l.IsChain fun a b => stop a ≤ start b) {a b : α} (ha : a ∈ l) (hb : b ∈ l) (hne : a ≠ b) :
    stop a ≤ start b ∨ stop b ≤ start a := by
  have hsymm : Std.Symm fun a b => stop a ≤ start b ∨ stop b ≤ start a := ⟨fun _ _ => Or.symm⟩
  have hapart : l.Pairwise fun a b => stop a ≤ start b ∨ stop b ≤ start a :=
    (pairwise_of_isChain start stop hle h).imp Or.inl
  exact hapart.forall ha hb hne

end SourceSpans
