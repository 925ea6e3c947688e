import TwoPhase.Proofs.Tableau.Exchange
import TwoPhase.Tableau.InPlace

/-!
# Pivots in place are exchanges

Each loop of a pivot in place writes every place once, and computes what it writes from places that
it has not written before.  So a loop leaves what it would have left had it read everything first,
and the loops together leave the exchanged tableau.
-/

namespace TwoPhase

section Loop

variable {σ ι κ γ : Type}

/-- A loop leaves at the places that it writes what it would have written there at once, if no step
changes what a later one writes. -/
theorem read_foldl (step : σ → ι → σ) (read : σ → κ → γ) (place : ι → κ) (value : σ → ι → γ)
    {indices : List ι} (distinct : (indices.map place).Nodup)
    (here : ∀ t, ∀ p ∈ indices, read (step t p) (place p) = value t p)
    (elsewhere : ∀ t, ∀ p ∈ indices, ∀ q, q ≠ place p → read (step t p) q = read t q)
    (kept : ∀ t, ∀ p ∈ indices, ∀ later ∈ indices, place later ≠ place p →
      value (step t p) later = value t later)
    (t : σ) :
    (∀ p ∈ indices, read (indices.foldl step t) (place p) = value t p) ∧
      ∀ q, q ∉ indices.map place → read (indices.foldl step t) q = read t q := by
  induction indices generalizing t with
  | nil => simp
  | cons first rest inductionHypothesis =>
      have inRest {later : ι} (member : later ∈ rest) : later ∈ first :: rest :=
        List.mem_cons_of_mem first member
      rw [List.map_cons, List.nodup_cons] at distinct
      obtain ⟨notLater, distinctRest⟩ := distinct
      obtain ⟨written, left⟩ := inductionHypothesis distinctRest
        (fun t p member => here t p (inRest member))
        (fun t p member => elsewhere t p (inRest member))
        (fun t p member later laterMember =>
          kept t p (inRest member) later (inRest laterMember)) (step t first)
      rw [List.foldl_cons]
      constructor
      · intro p member
        rcases List.mem_cons.mp member with same | later
        · rw [same, left _ notLater, here t first List.mem_cons_self]
        · have apart : place p ≠ place first := fun same =>
            notLater (same ▸ List.mem_map_of_mem later)
          rw [written p later, kept t first List.mem_cons_self p member apart]
      · intro q notMember
        rw [List.map_cons, List.mem_cons, not_or] at notMember
        rw [left q notMember.2, elsewhere t first List.mem_cons_self q notMember.1]

end Loop

theorem get_setAt {β : Type} {size : Nat} (entries : Vector β size) (i k : Fin size) (value : β) :
    (setAt entries i value).get k = if k = i then value else entries.get k := by
  rw [get_eq_getElem, setAt, Vector.getElem_set]
  exact if_congr (by rw [Fin.ext_iff, eq_comm]) rfl rfl

namespace Tableau

variable {α : Type} {n m : Nat}

theorem entry_setEntry (t : Tableau α n m) (i k : Fin (n + 2)) (j l : Fin (m + 2)) (value : α) :
    (t.setEntry i j value).entry k l = if (k, l) = (i, j) then value else t.entry k l := by
  simp only [setEntry, entry, row, get_setAt, Prod.mk.injEq]
  by_cases sameRow : k = i
  · simp only [sameRow, if_true, true_and, get_setAt]
  · simp only [sameRow, if_false, false_and]

theorem mem_rowsBut_iff {i r : Fin (n + 2)} : i ∈ rowsBut r ↔ i ≠ r := by
  simp [rowsBut]

theorem mem_columnsBut_iff {j s : Fin (m + 2)} : j ∈ columnsBut s ↔ j ≠ s := by
  simp [columnsBut]

theorem nodup_rowsBut (r : Fin (n + 2)) : (rowsBut r).Nodup :=
  (List.nodup_finRange _).filter _

theorem nodup_columnsBut (s : Fin (m + 2)) : (columnsBut s).Nodup :=
  (List.nodup_finRange _).filter _

/-- What a loop that overwrites one entry after the other leaves. -/
theorem entry_foldl_setEntry {ι : Type} (place : ι → Fin (n + 2) × Fin (m + 2))
    (injective : Function.Injective place) {indices : List ι} (distinct : indices.Nodup)
    (value : Tableau α n m → ι → α)
    (kept : ∀ (t : Tableau α n m) (written : α) (first later : ι), later ≠ first →
      value (t.setEntry (place first).1 (place first).2 written) later = value t later)
    (t : Tableau α n m) :
    let left := indices.foldl (fun t p => t.setEntry (place p).1 (place p).2 (value t p)) t
    (∀ p ∈ indices, left.entry (place p).1 (place p).2 = value t p) ∧
      ∀ q, q ∉ indices.map place → left.entry q.1 q.2 = t.entry q.1 q.2 := by
  apply read_foldl _ (fun (t : Tableau α n m) q => t.entry q.1 q.2) place value
    (distinct.map injective)
  · intro t p _
    exact (entry_setEntry ..).trans (if_pos rfl)
  · intro t p _ q apart
    exact (entry_setEntry ..).trans (if_neg apart)
  · intro t first _ later _ apart
    exact kept t _ first later fun same => apart (same ▸ rfl)

section Loops

variable (r : Fin (n + 2)) (s : Fin (m + 2)) (t : Tableau α n m) (i : Fin (n + 2)) (j : Fin (m + 2))

/-- What a loop along a row leaves. -/
theorem entry_foldl_columnsBut (value : Tableau α n m → Fin (m + 2) → α)
    (kept : ∀ (t : Tableau α n m) (written : α) (first later : Fin (m + 2)), later ≠ first →
      value (t.setEntry r first written) later = value t later) :
    ((columnsBut s).foldl (fun t j => t.setEntry r j (value t j)) t).entry i j =
      if i = r ∧ j ≠ s then value t j else t.entry i j := by
  obtain ⟨written, left⟩ := entry_foldl_setEntry (Prod.mk r) (Prod.mk_right_injective r)
    (nodup_columnsBut s) value kept t
  split
  · next inLoop => exact inLoop.1 ▸ written j (mem_columnsBut_iff.mpr inLoop.2)
  · next outside =>
      apply left (i, j)
      simpa [mem_columnsBut_iff, eq_comm, and_comm] using outside

/-- What a loop along a column leaves. -/
theorem entry_foldl_rowsBut (value : Tableau α n m → Fin (n + 2) → α)
    (kept : ∀ (t : Tableau α n m) (written : α) (first later : Fin (n + 2)), later ≠ first →
      value (t.setEntry first s written) later = value t later) :
    ((rowsBut r).foldl (fun t i => t.setEntry i s (value t i)) t).entry i j =
      if i ≠ r ∧ j = s then value t i else t.entry i j := by
  obtain ⟨written, left⟩ := entry_foldl_setEntry (fun i => (i, s)) (Prod.mk_left_injective s)
    (nodup_rowsBut r) value kept t
  split
  · next inLoop => exact inLoop.2 ▸ written i (mem_rowsBut_iff.mpr inLoop.1)
  · next outside =>
      apply left (i, j)
      simpa [mem_rowsBut_iff, eq_comm] using outside

variable [Scalar α]

theorem entry_subtractRow {k : Fin (n + 2)} (other : k ≠ r) (factor : α) :
    (t.subtractRow r s factor k).entry i j =
      if i = k ∧ j ≠ s then t.entry k j - t.entry r j * factor else t.entry i j := by
  apply entry_foldl_columnsBut k s t i j fun t j => t.entry k j - t.entry r j * factor
  intro t written first later apart
  have samePlaces : (k, later) ≠ (k, first) ∧ (r, later) ≠ (k, first) := by
    simp [apart, other.symm]
  simp only [entry_setEntry, if_neg samePlaces.1, if_neg samePlaces.2]

theorem entry_scaleRow (inverse : α) :
    (t.scaleRow r s inverse).entry i j =
      if i = r ∧ j ≠ s then t.entry r j * inverse else t.entry i j := by
  apply entry_foldl_columnsBut r s t i j fun t j => t.entry r j * inverse
  intro t written first later apart
  rw [entry_setEntry, if_neg (by simp [apart])]

theorem entry_scaleColumn (inverse : α) :
    (t.scaleColumn r s inverse).entry i j =
      if i ≠ r ∧ j = s then t.entry i s * -inverse else t.entry i j := by
  apply entry_foldl_rowsBut r s t i j fun t i => t.entry i s * -inverse
  intro t written first later apart
  rw [entry_setEntry, if_neg (by simp [apart])]

theorem entry_clearRow {k : Fin (n + 2)} (other : k ≠ r) (inverse : α) :
    (t.clearRow r s inverse k).entry i j =
      if i ≠ k ∨ j = s ∨ t.entry k s * inverse == 0 then t.entry i j
      else t.entry k j - t.entry r j * (t.entry k s * inverse) := by
  simp only [clearRow]
  split
  · next skipped => simp [skipped]
  · next taken =>
      rw [entry_subtractRow r s t i j other, ← ite_not]
      exact if_congr (by simp [taken, or_iff_not_imp_left]) rfl rfl

/-- A row is taken from by the entries that it had at first, for no row that the loop writes is read
for another. -/
theorem entry_clearRows (inverse : α) :
    (t.clearRows r s inverse).entry i j =
      if i = r ∨ j = s ∨ t.entry i s * inverse == 0 then t.entry i j
      else t.entry i j - t.entry r j * (t.entry i s * inverse) := by
  obtain ⟨written, left⟩ := read_foldl (clearRow r s inverse)
    (fun t k j => t.entry k j) id
    (fun t k j =>
      if j = s ∨ t.entry k s * inverse == 0 then t.entry k j
      else t.entry k j - t.entry r j * (t.entry k s * inverse))
    (by simpa using nodup_rowsBut r)
    (fun t k member => by
      funext j
      simp [entry_clearRow r s t _ j (mem_rowsBut_iff.mp member)])
    (fun t k member i apart => by
      funext j
      rw [id] at apart
      simp [entry_clearRow r s t i j (mem_rowsBut_iff.mp member), apart])
    (fun t k member later _ apart => by
      funext j
      have otherRow := mem_rowsBut_iff.mp member
      rw [id, id] at apart
      simp [entry_clearRow r s t _ _ otherRow, apart, otherRow.symm]) t
  by_cases pivotRow : i = r
  · have untouched : i ∉ (rowsBut r).map id := by simp [mem_rowsBut_iff, pivotRow]
    rw [if_pos (.inl pivotRow)]
    exact congrFun (left i untouched) j
  · have row := congrFun (written i (mem_rowsBut_iff.mpr pivotRow)) j
    exact row.trans (if_congr (by simp [pivotRow]) rfl rfl)

end Loops

section Labels

theorem label_foldl {ι : Type} {step : Tableau α n m → ι → Tableau α n m}
    (keeps : ∀ t p, (step t p).label = t.label) (indices : List ι) (t : Tableau α n m) :
    (indices.foldl step t).label = t.label :=
  indices.foldlRecOn (motive := fun u => u.label = t.label) step rfl fun u kept p _ =>
    (keeps u p).trans kept

theorem eq_of_entry_eq_of_label_eq {t u : Tableau α n m}
    (sameEntries : ∀ i j, t.entry i j = u.entry i j) (sameLabels : t.label = u.label) : t = u := by
  have entries := entries_eq_of_entry_eq sameEntries
  have basis : t.basis = u.basis :=
    Vector.ext fun i inBasis => congrFun sameLabels (.inl ⟨i, inBasis⟩)
  have nonbasis : t.nonbasis = u.nonbasis :=
    Vector.ext fun j inNonbasis => congrFun sameLabels (.inr ⟨j, inNonbasis⟩)
  cases t
  cases u
  congr

variable [Scalar α] (t : Tableau α n m) (r : Fin (n + 2)) (s : Fin (m + 2)) (inverse : α)

theorem label_subtractRow (i : Fin (n + 2)) : (t.subtractRow r s inverse i).label = t.label := by
  apply label_foldl
  exact fun _ _ => rfl

theorem label_clearRows : (t.clearRows r s inverse).label = t.label := by
  apply label_foldl
  intro t i
  unfold clearRow
  dsimp only
  split
  · rfl
  · exact label_subtractRow t r s _ i

theorem label_scaleRow : (t.scaleRow r s inverse).label = t.label := by
  apply label_foldl
  exact fun _ _ => rfl

theorem label_scaleColumn : (t.scaleColumn r s inverse).label = t.label := by
  apply label_foldl
  exact fun _ _ => rfl

theorem label_swapLabels (r : Fin n) (s : Fin (m + 1)) :
    (t.swapLabels r s).label = t.label ∘ Equiv.swap (.inl r) (.inr s) :=
  label_exchange t r s

end Labels

variable [Scalar α]

/-- The steps of a pivot in place, one after the other, make the exchange. -/
theorem inPlace_eq_exchange (t : Tableau α n m) (r : Fin n) (s : Fin (m + 1)) :
    let row := basicRow r
    let column := nonbasicColumn s
    let inverse := 1 / t.entry row column
    ((((t.clearRows row column inverse).scaleRow row column inverse).scaleColumn row column
      inverse).setEntry row column inverse).swapLabels r s = t.exchange r s := by
  intro row column inverse
  apply eq_of_entry_eq_of_label_eq
  · intro i j
    change (setEntry _ _ _ _).entry i j = _
    simp only [entry_setEntry, entry_scaleColumn, entry_scaleRow, entry_clearRows]
    by_cases pivotRow : i = row
    · rw [pivotRow, entry_exchange_pivotRow]
      by_cases pivotColumn : j = column
      · simp [pivotColumn, inverse, row, column]
      · simp [pivotColumn, inverse, row, column]
    · rw [entry_exchange_otherRow t r s pivotRow]
      by_cases pivotColumn : j = column
      · simp [pivotRow, pivotColumn, inverse, row, column]
      · simp [pivotRow, pivotColumn, inverse, row, column]
  · rw [label_swapLabels, label_exchange]
    change (scaleColumn _ _ _ _).label ∘ _ = _
    rw [label_scaleColumn, label_scaleRow, label_clearRows]

/-- A pivot in place is refused as a pivot is, and then it has changed nothing; else it leaves the
tableau that the pivot gives. -/
theorem pivotInPlace_on (t : Tableau α n m) (r s : Nat) :
    (pivotInPlace r s).on t =
      match t.pivot r s with
      | .error refusal => (.error refusal, t)
      | .ok next => (.ok (), next) := by
  unfold pivotInPlace pivot
  by_cases row : r < n
  · by_cases column : s < m + 1
    · simp only [dif_pos row, dif_pos column]
      rw [Attempt.on_bind_of_ok _ (Attempt.on_get t)]
      unfold pivotAt
      dsimp only
      split
      · next large =>
          simp only [← inPlace_eq_exchange]
          rfl
      · next small =>
          rfl
    · simp only [dif_pos row, dif_neg column]
      rfl
  · simp only [dif_neg row]
    rfl

theorem pivotInPlace_on_eq_ok_iff {t next : Tableau α n m} {r s : Nat} :
    (pivotInPlace r s).on t = (.ok (), next) ↔ t.pivot r s = .ok next := by
  rw [pivotInPlace_on]
  cases t.pivot r s <;> simp

end Tableau

end TwoPhase
