import Mathlib.Data.List.Basic

/-!
# Texts that show where they end

A text that can be split off the front of any longer text needs no separator.  A sequence of such
texts can be told apart, too, as long as what follows the sequence cannot be taken for one of them.
-/

namespace TwoPhase.Text

variable {α β : Type}

/-- The first occurrence of a mark tells where to cut. -/
theorem cut_unique {mark : α} {first second : List α} {rest others : List α}
    (notFirst : mark ∉ first) (notSecond : mark ∉ second)
    (equal : first ++ mark :: rest = second ++ mark :: others) :
    first = second ∧ rest = others := by
  induction first generalizing second with
  | nil =>
      cases second with
      | nil => exact ⟨rfl, (List.cons.inj equal).2⟩
      | cons c second =>
          rw [(List.cons.inj equal).1] at notSecond
          exact absurd List.mem_cons_self notSecond
  | cons c first inductionHypothesis =>
      cases second with
      | nil =>
          rw [← (List.cons.inj equal).1] at notFirst
          exact absurd List.mem_cons_self notFirst
      | cons d second =>
          obtain ⟨rfl, equalRest⟩ := List.cons.inj equal
          rw [List.mem_cons, not_or] at notFirst notSecond
          obtain ⟨rfl, same⟩ := inductionHypothesis notFirst.2 notSecond.2 equalRest
          exact ⟨rfl, same⟩

/-- The items that are written can be split off the front of what they are written to. -/
def PrefixFree (good : β → Prop) (write : β → List α) : Prop :=
  ∀ ⦃item other rest others⦄, good item → good other →
    write item ++ rest = write other ++ others → item = other ∧ rest = others

/-- No item is written at the front. -/
def NoneAhead (good : β → Prop) (write : β → List α) (rest : List α) : Prop :=
  ∀ item others, good item → rest ≠ write item ++ others

variable {good : β → Prop} {write : β → List α}

/-- Items written one after another can be split off together. -/
theorem PrefixFree.flatMap (free : PrefixFree good write) {items others : List β}
    {rest tail : List α} (goodItems : ∀ item ∈ items, good item)
    (goodOthers : ∀ item ∈ others, good item) (ends : NoneAhead good write rest)
    (endsOther : NoneAhead good write tail)
    (equal : items.flatMap write ++ rest = others.flatMap write ++ tail) :
    items = others ∧ rest = tail := by
  induction items generalizing others with
  | nil =>
      cases others with
      | nil => exact ⟨rfl, equal⟩
      | cons other others =>
          rw [List.flatMap_cons, List.append_assoc] at equal
          exact absurd equal (ends _ _ (goodOthers _ List.mem_cons_self))
  | cons item items inductionHypothesis =>
      rw [List.forall_mem_cons] at goodItems
      cases others with
      | nil =>
          rw [List.flatMap_cons, List.append_assoc] at equal
          exact absurd equal.symm (endsOther _ _ goodItems.1)
      | cons other others =>
          rw [List.forall_mem_cons] at goodOthers
          rw [List.flatMap_cons, List.flatMap_cons, List.append_assoc, List.append_assoc] at equal
          obtain ⟨rfl, equalRest⟩ := free goodItems.1 goodOthers.1 equal
          obtain ⟨rfl, same⟩ := inductionHypothesis goodItems.2 goodOthers.2 equalRest
          exact ⟨rfl, same⟩

end TwoPhase.Text
