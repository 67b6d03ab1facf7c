import Mathlib.Data.List.Sort
import Mathlib.Data.List.Find
import Mathlib.Data.List.Nodup
import Mathlib.Tactic.Common

/-! Tables as lists of rows in insertion order, with the relational statements that act on
them. A statement is a row predicate and a row update; every lemma says what one statement
does to membership, to a projected column, or to a selection by another predicate. -/
namespace Soveren.Relational

variable {α β : Type*}

/-- `UPDATE t SET f WHERE p`. -/
def updateWhere (p : α → Bool) (f : α → α) (t : List α) : List α :=
  t.map fun r => if p r then f r else r

/-- The number of rows a statement with the condition `p` touches. -/
def rowcount (p : α → Bool) (t : List α) : ℕ := t.countP p

/-- `SELECT … ORDER BY r` with ties broken by insertion order. -/
def selectOrdered (p : α → Bool) (r : α → α → Prop) [DecidableRel r] (t : List α) : List α :=
  (t.filter p).insertionSort r

@[simp] theorem updateWhere_nil (p : α → Bool) (f : α → α) : updateWhere p f [] = [] := rfl

theorem updateWhere_cons (p : α → Bool) (f : α → α) (r : α) (t : List α) :
    updateWhere p f (r :: t) = (if p r then f r else r) :: updateWhere p f t := rfl

@[simp] theorem updateWhere_append (p : α → Bool) (f : α → α) (s t : List α) :
    updateWhere p f (s ++ t) = updateWhere p f s ++ updateWhere p f t := by
  simp [updateWhere]

@[simp] theorem updateWhere_length (p : α → Bool) (f : α → α) (t : List α) :
    (updateWhere p f t).length = t.length := by simp [updateWhere]

theorem mem_updateWhere {p : α → Bool} {f : α → α} {t : List α} {r : α} :
    r ∈ updateWhere p f t ↔ (∃ s ∈ t, p s = true ∧ f s = r) ∨ (r ∈ t ∧ p r = false) := by
  simp only [updateWhere, List.mem_map]
  constructor
  · rintro ⟨s, hs, rfl⟩
    by_cases hp : p s = true
    · exact .inl ⟨s, hs, hp, by simp [hp]⟩
    · have hf : p s = false := by simpa using hp
      rw [hf]
      exact .inr ⟨hs, hf⟩
  · rintro (⟨s, hs, hp, rfl⟩ | ⟨hr, hp⟩)
    · exact ⟨s, hs, by simp [hp]⟩
    · exact ⟨r, hr, by simp [hp]⟩

theorem mem_updateWhere_of_mem {p : α → Bool} {f : α → α} {t : List α} {r : α} (h : r ∈ t) :
    (if p r then f r else r) ∈ updateWhere p f t := List.mem_map_of_mem h

/-- A row outside the condition stays. -/
theorem mem_updateWhere_of_not {p : α → Bool} {f : α → α} {t : List α} {r : α} (h : r ∈ t)
    (hp : p r = false) : r ∈ updateWhere p f t := mem_updateWhere.mpr (.inr ⟨h, hp⟩)

/-- A statement whose condition no row meets changes nothing. -/
theorem updateWhere_eq_self {p : α → Bool} {f : α → α} {t : List α}
    (h : ∀ r ∈ t, p r = false) : updateWhere p f t = t := by
  unfold updateWhere
  conv_rhs => rw [← List.map_id t]
  exact List.map_congr_left fun r hr => by simp [h r hr]

theorem updateWhere_eq_self_of_rowcount {p : α → Bool} {f : α → α} {t : List α}
    (h : rowcount p t = 0) : updateWhere p f t = t := by
  refine updateWhere_eq_self fun r hr => ?_
  have := List.countP_eq_zero.mp h r hr
  simpa using this

/-- A statement keeps every column that its update keeps. -/
theorem map_updateWhere {p : α → Bool} {f : α → α} {k : α → β} (t : List α)
    (h : ∀ r, p r = true → k (f r) = k r) : (updateWhere p f t).map k = t.map k := by
  simp only [updateWhere, List.map_map]
  refine List.map_congr_left fun r _ => ?_
  by_cases hp : p r = true
  · simp [hp, h r hp]
  · simp [hp]

/-- A selection that the update neither enters nor leaves commutes with the statement. -/
theorem filter_updateWhere {p q : α → Bool} {f : α → α} (t : List α)
    (h : ∀ r, p r = true → q (f r) = q r) :
    (updateWhere p f t).filter q = updateWhere p f (t.filter q) := by
  induction t with
  | nil => rfl
  | cons r t ih =>
    rw [updateWhere_cons]
    by_cases hp : p r = true
    · by_cases hq : q r = true
      · simp [hp, hq, h r hp, ih, updateWhere_cons]
      · simp [hp, hq, h r hp, ih]
    · by_cases hq : q r = true
      · simp [hp, hq, ih, updateWhere_cons]
      · simp [hp, hq, ih]

/-- A selection disjoint from the condition, before and after, does not see the statement. -/
theorem filter_updateWhere_of_disjoint {p q : α → Bool} {f : α → α} (t : List α)
    (h : ∀ r, p r = true → q r = false ∧ q (f r) = false) :
    (updateWhere p f t).filter q = t.filter q := by
  induction t with
  | nil => rfl
  | cons r t ih =>
    rw [updateWhere_cons]
    by_cases hp : p r = true
    · obtain ⟨h1, h2⟩ := h r hp
      simp [hp, h1, h2, ih]
    · by_cases hq : q r = true
      · simp [hp, hq, ih]
      · simp [hp, hq, ih]

theorem find?_eq_filter_head? {p q : α → Bool} {t : List α} (h : ∀ r, p r = true → q r = true) :
    (t.filter q).find? p = t.find? p := by
  rw [List.find?_filter]
  congr 1
  funext r
  by_cases hp : p r = true
  · simp [hp, h r hp]
  · simp [hp]

theorem mem_selectOrdered {p : α → Bool} {r : α → α → Prop} [DecidableRel r] {t : List α} {x : α} :
    x ∈ selectOrdered p r t ↔ x ∈ t ∧ p x = true := by
  simp [selectOrdered, List.mem_insertionSort]

theorem filter_orderedInsert {r : α → α → Prop} [DecidableRel r] [IsTrans α r] (q : α → Bool) (x : α)
    {l : List α} (h : l.Pairwise r) :
    (l.orderedInsert r x).filter q = if q x then (l.filter q).orderedInsert r x else l.filter q := by
  induction l with
  | nil => by_cases hx : q x = true <;> simp [hx]
  | cons y l ih =>
    obtain ⟨hy, hl⟩ := List.pairwise_cons.mp h
    by_cases hxy : r x y
    · rw [List.orderedInsert_cons_of_le r l hxy]
      by_cases hx : q x = true
      · rw [List.filter_cons_of_pos hx, if_pos hx]
        -- everything that is kept comes after the inserted row
        have hall : ∀ z ∈ (y :: l).filter q, r x z := by
          intro z hz
          obtain rfl | hz := List.mem_cons.mp (List.mem_filter.mp hz).1
          · exact hxy
          · exact Trans.trans hxy (hy z hz)
        cases hfilter : (y :: l).filter q with
        | nil => rfl
        | cons z rest =>
          rw [List.orderedInsert_cons_of_le r rest (hall z (by simp [hfilter]))]
      · rw [List.filter_cons_of_neg hx, if_neg hx]
    · rw [List.orderedInsert_of_not_le r l hxy]
      by_cases hqy : q y = true
      · rw [List.filter_cons_of_pos hqy, List.filter_cons_of_pos hqy, ih hl]
        split
        · rw [List.orderedInsert_of_not_le r _ hxy]
        · rfl
      · rw [List.filter_cons_of_neg hqy, List.filter_cons_of_neg hqy, ih hl]

/-- A condition may be checked before the rows are ordered, or after. -/
theorem filter_selectOrdered (p q : α → Bool) (r : α → α → Prop) [DecidableRel r] [Std.Total r]
    [IsTrans α r] (t : List α) :
    (selectOrdered p r t).filter q = selectOrdered (fun x => p x && q x) r t := by
  have hsort : ∀ l : List α, (l.insertionSort r).filter q = (l.filter q).insertionSort r := by
    intro l
    induction l with
    | nil => rfl
    | cons x l ih =>
      rw [List.insertionSort_cons, filter_orderedInsert q x (List.pairwise_insertionSort r l), ih]
      by_cases hx : q x = true <;> simp [hx]
  rw [selectOrdered, hsort, List.filter_filter, selectOrdered]
  simp only [Bool.and_comm]

/-- The first row of a table that is already in order. -/
theorem selectOrdered_head? {p : α → Bool} {r : α → α → Prop} [DecidableRel r] {t : List α}
    (h : t.Pairwise r) : (selectOrdered p r t).head? = t.find? p := by
  rw [selectOrdered, (h.filter p).insertionSort_eq, List.head?_filter]

/-- The other rows have other keys. -/
theorem key_ne_of_split {k : α → β} {before after : List α} {row r : α}
    (h : ((before ++ row :: after).map k).Nodup) (hr : r ∈ before ∨ r ∈ after) : k r ≠ k row := by
  intro he
  rw [List.map_append, List.map_cons, List.nodup_append] at h
  obtain ⟨-, hafter, hdisjoint⟩ := h
  obtain hr | hr := hr
  · exact hdisjoint _ (List.mem_map_of_mem hr) _ List.mem_cons_self he
  · exact (List.nodup_cons.mp hafter).1 (he ▸ List.mem_map_of_mem hr)

/-- A statement that addresses one row by its key. -/
theorem updateWhere_split {p : α → Bool} {f : α → α} {k : α → β} {before after : List α} {row : α}
    (h : ((before ++ row :: after).map k).Nodup) (hp : p row = true)
    (hkey : ∀ r ∈ before ++ row :: after, p r = true → k r = k row) :
    updateWhere p f (before ++ row :: after) = before ++ f row :: after := by
  have hout : ∀ r, r ∈ before ∨ r ∈ after → p r = false := by
    intro r hr
    by_contra hpr
    refine key_ne_of_split h hr (hkey r ?_ (by simpa using hpr))
    obtain hr | hr := hr
    · exact List.mem_append_left _ hr
    · exact List.mem_append_right _ (List.mem_cons_of_mem _ hr)
  rw [updateWhere_append, updateWhere_cons, if_pos hp, updateWhere_eq_self fun r hr => hout r (.inl hr),
    updateWhere_eq_self fun r hr => hout r (.inr hr)]

/-- A row that conflicts with no row joins rows that do not conflict. -/
theorem pairwise_append_row {R : α → α → Prop} {t : List α} {row : α} (h : t.Pairwise R)
    (hrow : ∀ r ∈ t, R r row) : (t ++ [row]).Pairwise R := by
  refine List.pairwise_append.mpr ⟨h, List.pairwise_singleton _ _, fun r hr s hs => ?_⟩
  exact List.mem_singleton.mp hs ▸ hrow r hr

theorem nodup_append_key {k : α → β} {t : List α} {row : α} (h : (t.map k).Nodup)
    (hrow : k row ∉ t.map k) : ((t ++ [row]).map k).Nodup := by
  rw [List.map_append, List.map_singleton]
  exact List.Nodup.append h (List.nodup_singleton _) (by simpa using hrow)

/-- At most one row of a table of conflict-free rows has a property that conflicts. -/
theorem rowcount_le_one_of_pairwise {R : α → α → Prop} {p : α → Bool} {t : List α}
    (h : t.Pairwise R) (hp : ∀ x y, p x = true → p y = true → ¬ R x y) : rowcount p t ≤ 1 := by
  induction t with
  | nil => simp [rowcount]
  | cons x t ih =>
    obtain ⟨hx, ht⟩ := List.pairwise_cons.mp h
    by_cases hpx : p x = true
    · have hnone : rowcount p t = 0 :=
        List.countP_eq_zero.mpr fun y hy hpy => hp x y hpx hpy (hx y hy)
      simp [rowcount, hpx] at hnone ⊢
      exact hnone
    · simpa [rowcount, hpx] using ih ht

/-- A selection keeps the keys of its rows distinct. -/
theorem selectOrdered_keys {k : α → β} {p : α → Bool} {r : α → α → Prop} [DecidableRel r]
    {t : List α} (h : (t.map k).Nodup) : ((selectOrdered p r t).map k).Nodup := by
  have hperm := (List.perm_insertionSort r (t.filter p)).map k
  refine hperm.nodup_iff.mpr (h.sublist ?_)
  exact List.filter_sublist.map k

/-- At most one row has the key of a row of a table whose keys are distinct. -/
theorem eq_of_key {k : α → β} {t : List α} (h : (t.map k).Nodup) {r s : α}
    (hr : r ∈ t) (hs : s ∈ t) (e : k r = k s) : r = s :=
  List.inj_on_of_nodup_map h hr hs e

/-- The row with a key is found by it. -/
theorem find?_of_key [DecidableEq β] {k : α → β} {t : List α} (h : (t.map k).Nodup) {r : α}
    (hr : r ∈ t) : t.find? (fun s => k s = k r) = some r := by
  obtain ⟨s, hs⟩ : ∃ s, t.find? (fun s => k s = k r) = some s := by
    rw [← Option.isSome_iff_exists, List.find?_isSome]
    exact ⟨r, hr, by simp⟩
  have hk := List.find?_some hs
  rw [hs, eq_of_key h (List.mem_of_find?_eq_some hs) hr (by simpa using hk)]

/-- The rows with the key of a row are this row. -/
theorem filter_of_key [DecidableEq β] {k : α → β} {t : List α} (h : (t.map k).Nodup) {r : α}
    (hr : r ∈ t) : t.filter (fun s => k s = k r) = [r] := by
  obtain ⟨before, after, rfl⟩ := List.append_of_mem hr
  rw [List.map_append, List.map_cons, List.nodup_middle, List.nodup_cons] at h
  have hnone : ∀ s ∈ before ++ after, ¬ k s = k r := by
    intro s hs he
    exact h.1 (he ▸ List.map_append (f := k) ▸ List.mem_map_of_mem hs)
  rw [List.filter_append, List.filter_cons_of_pos (by simp), List.filter_eq_nil_iff.mpr,
    List.filter_eq_nil_iff.mpr]
  · rfl
  · exact fun s hs => by simpa using hnone s (List.mem_append_right before hs)
  · exact fun s hs => by simpa using hnone s (List.mem_append_left after hs)

/-- A condition that names a key touches at most one row. -/
theorem rowcount_le_one {p : α → Bool} {k : α → β} {t : List α} {key : β} (h : (t.map k).Nodup)
    (hp : ∀ r, p r = true → k r = key) : rowcount p t ≤ 1 := by
  induction t with
  | nil => simp [rowcount]
  | cons r t ih =>
    rw [List.map_cons, List.nodup_cons] at h
    have ht := ih h.2
    by_cases hr : p r = true
    · have hzero : rowcount p t = 0 := by
        refine List.countP_eq_zero.mpr fun s hs hps => h.1 ?_
        exact List.mem_map.mpr ⟨s, hs, (hp s hps).trans (hp r hr).symm⟩
      simp only [rowcount, List.countP_cons, hr, if_true] at hzero ⊢
      omega
    · simpa [rowcount, List.countP_cons, hr] using ht

/-- A table grows: each row is rewritten along `R`, and each row added at the end satisfies
`P`. -/
def Grows (R : α → α → Prop) (P : α → Prop) (t t' : List α) : Prop :=
  ∃ (g : α → α) (new : List α), t' = t.map g ++ new ∧ (∀ r ∈ t, R r (g r)) ∧ ∀ r ∈ new, P r

namespace Grows

variable {R : α → α → Prop} {P : α → Prop} {t t' t'' : List α}

theorem refl (hR : ∀ r ∈ t, R r r) : Grows R P t t :=
  ⟨id, [], by simp, by simpa using hR, by simp⟩

theorem trans (hR : ∀ r s u, R r s → R s u → R r u) (hP : ∀ r s, P r → R r s → P s)
    (h : Grows R P t t') (h' : Grows R P t' t'') : Grows R P t t'' := by
  obtain ⟨g, new, rfl, hg, hnew⟩ := h
  obtain ⟨g', new', rfl, hg', hnew'⟩ := h'
  refine ⟨g' ∘ g, new.map g' ++ new', by simp, fun r hr => ?_, fun r hr => ?_⟩
  · exact hR _ _ _ (hg r hr) (hg' (g r) (List.mem_append_left _ (List.mem_map_of_mem hr)))
  · obtain hr | hr := List.mem_append.mp hr
    · obtain ⟨s, hs, rfl⟩ := List.mem_map.mp hr
      exact hP s _ (hnew s hs) (hg' s (List.mem_append_right _ hs))
    · exact hnew' r hr

theorem append {new : List α} (hR : ∀ r ∈ t, R r r) (hP : ∀ r ∈ new, P r) :
    Grows R P t (t ++ new) :=
  ⟨id, new, by simp, by simpa using hR, hP⟩

/-- A statement grows a table along the change that its update makes. -/
theorem updateWhere {p : α → Bool} {f : α → α} (h : ∀ r ∈ t, p r = true → R r (f r))
    (hR : ∀ r ∈ t, p r = false → R r r) : Grows R P t (updateWhere p f t) := by
  refine ⟨fun r => if p r then f r else r, [], by simp [Relational.updateWhere], fun r hr => ?_,
    by simp⟩
  cases hp : p r with
  | true => simpa [hp] using h r hr hp
  | false => simpa [hp] using hR r hr hp

theorem mono {S : α → α → Prop} {Q : α → Prop} (h : Grows R P t t')
    (hR : ∀ r ∈ t, ∀ s, R r s → S r s) (hP : ∀ r, P r → Q r) : Grows S Q t t' := by
  obtain ⟨g, new, rfl, hg, hnew⟩ := h
  exact ⟨g, new, rfl, fun r hr => hR r hr _ (hg r hr), fun r hr => hP r (hnew r hr)⟩

/-- Where a row of the grown table comes from. -/
theorem of_mem (h : Grows R P t t') {s : α} (hs : s ∈ t') : (∃ r ∈ t, R r s) ∨ P s := by
  obtain ⟨g, new, rfl, hg, hnew⟩ := h
  obtain hs | hs := List.mem_append.mp hs
  · obtain ⟨r, hr, rfl⟩ := List.mem_map.mp hs
    exact .inl ⟨r, hr, hg r hr⟩
  · exact .inr (hnew s hs)

theorem exists_of_mem (h : Grows R P t t') {r : α} (hr : r ∈ t) : ∃ s ∈ t', R r s := by
  obtain ⟨g, new, rfl, hg, -⟩ := h
  exact ⟨g r, List.mem_append_left _ (List.mem_map_of_mem hr), hg r hr⟩

/-- A table that only rewrites its rows keeps a column that the rewriting keeps. -/
theorem map_eq {k : α → β} (h : Grows R (fun _ => False) t t') (hk : ∀ r ∈ t, ∀ s, R r s → k s = k r) :
    t'.map k = t.map k := by
  obtain ⟨g, new, rfl, hg, hnew⟩ := h
  obtain rfl : new = [] := List.eq_nil_iff_forall_not_mem.mpr hnew
  rw [List.append_nil, List.map_map]
  exact List.map_congr_left fun r hr => hk r hr _ (hg r hr)

/-- A relation between the rows of a table, earlier to later, after all rows are rewritten. -/
theorem pairwise {Q Q' : α → α → Prop} (h : Grows R (fun _ => False) t t') (hQ : t.Pairwise Q)
    (hR : ∀ r ∈ t, ∀ s ∈ t, ∀ r' s', R r r' → R s s' → Q r s → Q' r' s') : t'.Pairwise Q' := by
  obtain ⟨g, new, rfl, hg, hnew⟩ := h
  obtain rfl : new = [] := List.eq_nil_iff_forall_not_mem.mpr hnew
  rw [List.append_nil, List.pairwise_map]
  exact hQ.imp_of_mem fun hr hs hrs => hR _ hr _ hs _ _ (hg _ hr) (hg _ hs) hrs

/-- A property of all rows that the rewriting keeps and the new rows have. -/
theorem forall_mem {I : α → Prop} (h : Grows R P t t') (hI : ∀ r ∈ t, I r)
    (hR : ∀ r ∈ t, ∀ s, R r s → I r → I s) (hP : ∀ r, P r → I r) : ∀ s ∈ t', I s := by
  intro s hs
  obtain ⟨r, hr, hrs⟩ | hs := h.of_mem hs
  · exact hR r hr s hrs (hI r hr)
  · exact hP s hs

/-- A lookup by columns that the rewriting keeps finds the rewritten row. -/
theorem find? {q : α → Bool} (h : Grows R P t t') (hq : ∀ r ∈ t, ∀ s, R r s → q s = q r) {r : α}
    (hf : t.find? q = some r) : ∃ s, t'.find? q = some s ∧ R r s := by
  obtain ⟨g, new, rfl, hg, -⟩ := h
  have hmap : (t.map g).find? q = some (g r) := by
    rw [List.find?_map]
    have hcongr : t.find? (q ∘ g) = t.find? q :=
      List.find?_congr fun x hx => hq x hx _ (hg x hx)
    rw [hcongr, hf, Option.map_some]
  refine ⟨g r, ?_, hg r (List.mem_of_find?_eq_some hf)⟩
  rw [List.find?_append, hmap, Option.some_or]

/-- The one row of the grown table with the key of a row. -/
theorem filter_key [DecidableEq β] {k : α → β} (h : Grows R P t t') (hid : (t'.map k).Nodup)
    (hk : ∀ r s, R r s → k s = k r) {r : α} (hr : r ∈ t) :
    ∃ s, t'.filter (fun x => k x = k r) = [s] ∧ R r s := by
  obtain ⟨s, hs, hrs⟩ := h.exists_of_mem hr
  refine ⟨s, ?_, hrs⟩
  have hall : ∀ x ∈ t'.filter (fun x => k x = k r), x = s := by
    intro x hx
    obtain ⟨hx, he⟩ := List.mem_filter.mp hx
    exact eq_of_key hid hx hs ((of_decide_eq_true he).trans (hk r s hrs).symm)
  have hmem : s ∈ t'.filter (fun x => k x = k r) :=
    List.mem_filter.mpr ⟨hs, by simpa using hk r s hrs⟩
  have hnodup : (t'.filter (fun x => k x = k r)).Nodup := (List.Nodup.of_map k hid).filter _
  obtain ⟨n, hn⟩ : ∃ n, t'.filter (fun x => k x = k r) = List.replicate n s :=
    ⟨_, List.eq_replicate_of_mem hall⟩
  rw [hn] at hmem hnodup ⊢
  have hle := List.nodup_replicate.mp hnodup
  have hpos : n ≠ 0 := (List.mem_replicate.mp hmem).1
  obtain rfl : n = 1 := by omega
  rfl

end Grows

end Soveren.Relational
