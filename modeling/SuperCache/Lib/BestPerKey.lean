import SuperCache.Lib.FiniteMap

/-! # The best element of each class

A loop that keeps, for each class of elements, the best one met so far, and the
classes in the order they were met.  At the end it holds exactly one element of
each class, and no element of the class ranks lower.
-/

namespace SuperCache.Lib

variable {α κ β : Type*} [DecidableEq κ] [LinearOrder β] {key : α → κ} {rank : α → β}

structure Ranking (α κ : Type*) where
  best : Finmap fun _ : κ => α := ∅
  order : List κ := []

namespace Ranking

def add (key : α → κ) (better : α → α → Bool) (r : Ranking α κ) (x : α) : Ranking α κ :=
  match r.best.lookup (key x) with
  | none => { best := r.best.insert (key x) x, order := r.order ++ [key x] }
  | some cur => if better x cur then { r with best := r.best.insert (key x) x } else r

def list (r : Ranking α κ) : List α :=
  r.order.filterMap fun class_ => r.best.lookup class_

/-- What the loop knows after it has seen `xs`. -/
structure Of (key : α → κ) (rank : α → β) (xs : List α) (r : Ranking α κ) : Prop where
  nodup : r.order.Nodup
  order : ∀ k, k ∈ r.order ↔ ∃ x ∈ xs, key x = k
  present : ∀ k ∈ r.order, ∃ m, r.best.lookup k = some m
  best : ∀ k m, r.best.lookup k = some m →
    m ∈ xs ∧ key m = k ∧ ∀ x ∈ xs, key x = k → rank m ≤ rank x

variable {xs : List α} {r : Ranking α κ}

variable {k : κ} {m x : α} {better : α → α → Bool}

theorem Of.lookup_none (of : Of key rank xs r) (missing : r.best.lookup k = none) : k ∉ r.order := by
  intro met
  obtain ⟨m, found⟩ := of.present k met
  rw [missing] at found
  cases found

theorem Of.mem_order (of : Of key rank xs r) (found : r.best.lookup k = some m) : k ∈ r.order := by
  obtain ⟨member, same, -⟩ := of.best k m found
  exact (of.order k).mpr ⟨m, member, same⟩

theorem Of.empty : Of key rank [] ({} : Ranking α κ) where
  nodup := List.nodup_nil
  order k := by simp
  present k met := by cases met
  best k m found := by
    rw [show ({} : Ranking α κ).best = ∅ from rfl, Finmap.lookup_empty] at found
    cases found

theorem Of.insert_best (of : Of key rank xs r) (least : ∀ y ∈ xs, key y = key x → rank x ≤ rank y)
    (k : κ) (m : α) (found : (r.best.insert (key x) x).lookup k = some m) :
    m ∈ xs ++ [x] ∧ key m = k ∧ ∀ y ∈ xs ++ [x], key y = k → rank m ≤ rank y := by
  rw [lookup_insert_eq_ite] at found
  split at found
  · next same =>
    cases found
    refine ⟨by simp, same.symm, fun y member sameKey => ?_⟩
    rcases List.mem_append.mp member with earlier | last
    · exact least y earlier (sameKey.trans same)
    · rw [List.mem_singleton.mp last]
  · next other =>
    obtain ⟨member, sameKey, lower⟩ := of.best k m found
    refine ⟨List.mem_append_left _ member, sameKey, fun y listed theirs => ?_⟩
    rcases List.mem_append.mp listed with earlier | last
    · exact lower y earlier theirs
    · rw [List.mem_singleton.mp last] at theirs
      exact absurd theirs.symm other

theorem Of.add (ranked : ∀ a b, better a b = true ↔ rank a < rank b) (of : Of key rank xs r) (x : α) :
    Of key rank (xs ++ [x]) (r.add key better x) := by
  have later (k : κ) : (∃ y ∈ xs ++ [x], key y = k) ↔ k ∈ r.order ∨ k = key x := by
    rw [of.order]
    simp only [List.mem_append, List.mem_singleton, or_and_right, exists_or, exists_eq_left,
      @eq_comm _ k]
  unfold Ranking.add
  split
  · next missing =>
    have unmet := of.lookup_none missing
    refine ⟨?_, fun k => ?_, fun k met => ?_, fun k m => of.insert_best (fun y member same => ?_) k m⟩
    · exact List.nodup_append.mpr ⟨of.nodup, List.nodup_singleton _, fun k met k' last => by
        rw [List.mem_singleton.mp last]
        rintro rfl
        exact unmet met⟩
    · rw [later, List.mem_append, List.mem_singleton]
    · simp only [lookup_insert_eq_ite]
      split
      · exact ⟨x, rfl⟩
      · next other =>
        refine of.present k ((List.mem_append.mp met).resolve_right fun last => ?_)
        exact other (List.mem_singleton.mp last)
    · exact absurd ((of.order _).mpr ⟨y, member, same⟩) unmet
  · next cur found =>
    have met := of.mem_order found
    obtain ⟨member, same, least⟩ := of.best _ cur found
    have order (k : κ) : k ∈ r.order ↔ ∃ y ∈ xs ++ [x], key y = k := by
      rw [later]
      refine ⟨.inl, fun either => either.elim id ?_⟩
      rintro rfl
      exact met
    split
    · next wins =>
      have lower := (ranked x cur).mp wins
      refine ⟨of.nodup, order, fun k known => ?_, fun k m =>
        of.insert_best (fun y listed theirs => ?_) k m⟩
      · simp only [lookup_insert_eq_ite]
        split
        · exact ⟨x, rfl⟩
        · exact of.present k known
      · exact lower.le.trans (least y listed theirs)
    · next loses =>
      have higher : rank cur ≤ rank x := not_lt.mp fun lower => loses ((ranked x cur).mpr lower)
      refine ⟨of.nodup, order, of.present, fun k m known => ?_⟩
      obtain ⟨listed, sameKey, lower⟩ := of.best k m known
      refine ⟨List.mem_append_left _ listed, sameKey, fun y either theirs => ?_⟩
      rcases List.mem_append.mp either with earlier | last
      · exact lower y earlier theirs
      · rw [List.mem_singleton.mp last] at theirs ⊢
        subst theirs
        rw [found] at known
        cases known
        exact higher

theorem of_foldl (ranked : ∀ a b, better a b = true ↔ rank a < rank b) (xs : List α) :
    Of key rank xs (xs.foldl (Ranking.add key better) {}) := by
  induction xs using List.reverseRecOn with
  | nil => exact .empty
  | append_singleton rest x ih =>
    rw [List.foldl_append]
    exact ih.add ranked x

theorem Of.map_list (of : Of key rank xs r) : r.list.map key = r.order := by
  have all (order : List κ) (met : ∀ k ∈ order, k ∈ r.order) :
      (order.filterMap fun k => r.best.lookup k).map key = order := by
    induction order with
    | nil => rfl
    | cons k rest ih =>
      obtain ⟨here, later⟩ := List.forall_mem_cons.mp met
      obtain ⟨m, found⟩ := of.present k here
      simp only [List.filterMap_cons, found, List.map_cons, ih later,
        (of.best k m found).2.1]
  exact all r.order fun _ met => met

theorem Of.mem_list (of : Of key rank xs r) : m ∈ r.list ↔ r.best.lookup (key m) = some m := by
  unfold list
  rw [List.mem_filterMap]
  constructor
  · rintro ⟨k, -, found⟩
    rwa [(of.best k m found).2.1]
  · intro found
    exact ⟨key m, of.mem_order found, found⟩

theorem Of.exists_best (of : Of key rank xs r) (member : x ∈ xs) :
    ∃ m ∈ r.list, key m = key x ∧ m ∈ xs ∧ ∀ y ∈ xs, key y = key x → rank m ≤ rank y := by
  obtain ⟨m, found⟩ := of.present _ ((of.order (key x)).mpr ⟨x, member, rfl⟩)
  obtain ⟨listed, same, least⟩ := of.best _ m found
  refine ⟨m, of.mem_list.mpr ?_, same, listed, least⟩
  rwa [same]

end Ranking

end SuperCache.Lib
